import WireBindings.Proofs.FileTree.Descent

/-!
# Work on two trees in step

Related trees that look alike through some paths, and stay related when they change through them,
cannot be told apart by work that keeps to those paths: it comes to the same result on both and
leaves related trees. With a tree related to itself alone this is an invariant of the work.
-/

namespace WireBindings

namespace FileTree

inductive Matched (R : FileTree → FileTree → Prop) :
    Except FileFault FileTree → Except FileFault FileTree → Prop
  | error (fault : FileFault) : Matched R (.error fault) (.error fault)
  | ok {t u : FileTree} (h : R t u) : Matched R (.ok t) (.ok u)

/-- Related trees look alike through paths of a kind, and stay related when an entry that is no
directory changes there. -/
structure Lockstep (R : FileTree → FileTree → Prop) (seen : String → Prop) : Prop where
  initial {path : String} {l : List Char} (hpath : seen path) (hl : segments l <+: parts path)
    (hstart : start (String.ofList l) = start path) : seen (String.ofList l)
  resolve {t u : FileTree} {path : String} (h : R t u) (hpath : seen path) :
    t.resolve path = u.resolve path
  find? {t u : FileTree} {path : String} {p : Place} (h : R t u) (hpath : seen path)
    (hp : t.resolve path = .ok p) : t.find? p = u.find? p
  set {t u : FileTree} {path : String} {p : Place} (h : R t u) (hpath : seen path)
    (hp : t.resolve path = .ok p) (hfind : t.find? p ≠ some .directory) (e : Entry) :
    R (t.set p e) (u.set p e)
  erase {t u : FileTree} {path : String} {p : Place} (h : R t u) (hpath : seen path)
    (hp : t.resolve path = .ok p) (hfind : t.find? p ≠ some .directory) : R (t.erase p) (u.erase p)

def Clears (R : FileTree → FileTree → Prop) (path : String) : Prop :=
  ∀ t u, R t u → R (t.removeTree path) (u.removeTree path)

namespace Lockstep

variable {R : FileTree → FileTree → Prop} {seen : String → Prop} {t u : FileTree} {path : String}

theorem pathExists (h : Lockstep R seen) (htu : R t u) (hpath : seen path) :
    t.pathExists path = u.pathExists path := by
  unfold FileTree.pathExists
  rw [← h.resolve htu hpath]
  cases hp : t.resolve path with
  | error fault => rfl
  | ok p => simp only [h.find? htu hpath hp]

theorem isDirectory (h : Lockstep R seen) (htu : R t u) (hpath : seen path) :
    t.isDirectory path = u.isDirectory path := by
  unfold FileTree.isDirectory
  rw [← h.resolve htu hpath]
  cases hp : t.resolve path with
  | error fault => rfl
  | ok p => simp only [h.find? htu hpath hp]

theorem makeDirectory (h : Lockstep R seen) (htu : R t u) (hpath : seen path) :
    Matched R (t.makeDirectory path) (u.makeDirectory path) := by
  unfold FileTree.makeDirectory
  rw [← h.resolve htu hpath]
  cases hp : t.resolve path with
  | error fault => exact .error fault
  | ok p =>
      rw [Outcome.ok_bind, Outcome.ok_bind, ← h.find? htu hpath hp]
      cases hfind : t.find? p with
      | some e => exact .error _
      | none => exact .ok (h.set htu hpath hp (by simp [hfind]) _)

theorem write (h : Lockstep R seen) (htu : R t u) (hpath : seen path) (content : ByteArray) :
    Matched R (t.write path content) (u.write path content) := by
  unfold FileTree.write
  rw [← h.resolve htu hpath]
  cases hp : t.resolve path with
  | error fault => exact .error fault
  | ok p =>
      rw [Outcome.ok_bind, Outcome.ok_bind, ← h.find? htu hpath hp]
      rcases hfind : t.find? p with _ | (_ | _)
      case some.directory => exact .error _
      all_goals
        cases FileTree.namesDirectory path with
        | true => exact .error _
        | false => exact .ok (h.set htu hpath hp (by simp [hfind]) _)

theorem move (h : Lockstep R seen) {source destination : String} (htu : R t u)
    (hsource : seen source) (hdestination : seen destination) :
    Matched R (t.move source destination) (u.move source destination) := by
  unfold FileTree.move
  rw [← h.resolve htu hsource, ← h.resolve htu hdestination]
  cases hp : t.resolve source with
  | error fault => exact .error fault
  | ok p =>
      cases hq : t.resolve destination with
      | error fault => exact .error fault
      | ok q =>
          simp only [Outcome.ok_bind]
          rw [← h.find? htu hsource hp, ← h.find? htu hdestination hq]
          have hmoved {content : ByteArray} (hfile : t.find? p = some (.file content))
              (hfree : t.find? q ≠ some .directory) :
              R ((t.erase p).set q (.file content)) ((u.erase p).set q (.file content)) := by
            have herased : R (t.erase p) (u.erase p) := h.erase htu hsource hp (by simp [hfile])
            -- no directory goes, so the destination leads where it led
            have hkeep (x : Place) (hx : t.find? x = some .directory) :
                (t.erase p).find? x = some .directory := by
              rw [find?_erase_of_ne (fun heq => by simp [← heq, hx] at hfile), hx]
            refine h.set herased hdestination (resolve_mono hq hkeep) ?_ _
            by_cases heq : q = p
            · rw [heq, find?_erase_self (isFixed_eq_false (t := t) (by simp [hfile]))]
              exact nofun
            · rwa [find?_erase_of_ne heq]
          rcases hfile : t.find? p with _ | (content | _) <;>
            rcases hfree : t.find? q with _ | (_ | _)
          case some.file.none | some.file.some.file =>
            cases namesDirectory source || namesDirectory destination with
            | true => exact .error _
            | false => exact .ok (hmoved hfile (by simp [hfree]))
          all_goals exact .error _

end Lockstep

/-! ## Proper trees -/

/-- Everything stands in a directory, by a name that does not lead up. -/
structure Proper (t : FileTree) : Prop where
  wellFormed : t.WellFormed
  named : ∀ x ∈ t.entries, isFixed x.1 = true ∨
    ∃ q part, x.1 = q ++ [part] ∧ part ≠ ".." ∧ part ≠ "/"

theorem find?_set_directory {t : FileTree} {p q : Place} (h : t.find? q = some .directory) :
    (t.set p .directory).find? q = some .directory := by
  by_cases hq : q = p
  · subst hq
    cases hfixed : isFixed q with
    | true => exact find?_of_isFixed hfixed _
    | false => exact find?_set_self hfixed t _
  · rw [find?_set_of_ne hq, h]

namespace Proper

variable {t : FileTree} {p : Place} {path : String}

theorem set (h : t.Proper) (hresolve : t.resolve path = .ok p) (hp : t.find? p ≠ some .directory)
    (e : Entry) : (t.set p e).Proper := by
  obtain ⟨q, part, rfl, hq, hpart⟩ := h.wellFormed.exists_name_of_resolve hresolve hp
  refine ⟨h.wellFormed.set hp (by rwa [List.dropLast_concat]) e, ?_⟩
  intro x hx
  rcases List.mem_cons.1 hx with rfl | hx
  · exact .inr ⟨q, part, rfl, hpart⟩
  · exact h.named x (List.mem_filter.1 hx).1

theorem erase (h : t.Proper) (hp : t.find? p ≠ some .directory) : (t.erase p).Proper := by
  refine ⟨fun x hx => ?_, fun x hx => h.named x (List.mem_filter.1 hx).1⟩
  refine (h.wellFormed x (List.mem_filter.1 hx).1).imp_right fun habove => ?_
  have hne : x.1.dropLast ≠ p := fun heq => hp (by rw [← heq, habove])
  rw [find?_erase_of_ne hne, habove]

theorem eraseBelow (h : t.Proper) (p : Place) : (t.eraseBelow p).Proper := by
  refine ⟨fun x hx => ?_, fun x hx => h.named x (List.mem_filter.1 hx).1⟩
  obtain ⟨hx, houtside⟩ := List.mem_filter.1 hx
  rcases h.named x hx with hfixed | ⟨q, part, hplace, hpart⟩
  · exact .inl hfixed
  · refine (h.wellFormed x hx).imp_right fun habove => ?_
    rw [hplace, List.dropLast_concat] at habove ⊢
    rw [hplace, Bool.not_eq_true', isBelow_eq_false] at houtside
    have hq : ¬ Below p q := fun hbelow =>
      houtside (hbelow.trans ⟨[part], rfl, List.forall_mem_singleton.2 hpart⟩)
    rw [find?_eraseBelow_of_not_isBelow (isBelow_eq_false.2 hq), habove]

theorem set_eraseBelow (h : t.Proper) (hp : t.find? p = some .directory) :
    ((t.eraseBelow p).set p .directory).Proper := by
  have hemptied := h.eraseBelow p
  have hself : isFixed p = true ∨ ((t.eraseBelow p).find? p.dropLast = some .directory ∧
      ∃ q part, p = q ++ [part] ∧ part ≠ ".." ∧ part ≠ "/") := by
    cases hfixed : isFixed p with
    | true => exact .inl rfl
    | false =>
        obtain ⟨q, part, rfl, hpart⟩ :=
          (h.named _ (mem_entries_of_find? hp hfixed)).resolve_left (by simp [hfixed])
        have habove := h.wellFormed.find?_dropLast hp hfixed
        rw [List.dropLast_concat] at habove ⊢
        have hq : ¬ Below (q ++ [part]) q := by
          rintro ⟨rest, heq, -⟩
          simpa using congrArg List.length heq
        rw [find?_eraseBelow_of_not_isBelow (isBelow_eq_false.2 hq)]
        exact .inr ⟨habove, q, part, rfl, hpart⟩
  refine ⟨fun x hx => ?_, fun x hx => ?_⟩ <;> rcases List.mem_cons.1 hx with rfl | hx
  · exact hself.imp_right fun hnamed => find?_set_directory hnamed.1
  · exact (hemptied.wellFormed x (List.mem_filter.1 hx).1).imp_right find?_set_directory
  · exact hself.imp_right And.right
  · exact hemptied.named x (List.mem_filter.1 hx).1

theorem removeTree (h : t.Proper) (path : String) : (t.removeTree path).Proper := by
  unfold FileTree.removeTree
  split
  · exact h
  · split
    · rename_i hp
      dsimp only
      split
      · exact h.set_eraseBelow hp
      · exact h.eraseBelow _
    · exact h

end Proper

/-- Work through any paths keeps a tree proper. -/
theorem lockstep_proper : Lockstep (fun t u => t = u ∧ t.Proper) fun _ => True where
  initial _ _ _ := trivial
  resolve h _ := by rw [h.1]
  find? h _ _ := by rw [h.1]
  set h _ hp hfind e := ⟨by rw [h.1], h.2.set hp hfind e⟩
  erase h _ _ hfind := ⟨by rw [h.1], h.2.erase hfind⟩

theorem clears_proper (path : String) : Clears (fun t u => t = u ∧ t.Proper) path :=
  fun _ _ h => ⟨by rw [h.1], h.2.removeTree path⟩

/-! ## Trees that differ at some places -/

/-- What stands in both trees is the same but for some places. -/
def SameBut (hidden : Place → Prop) (t u : FileTree) : Prop :=
  ∀ x, ¬ hidden x → t.find? x = u.find? x

/-- A path that does not lead through any of some places. -/
def Avoids (hidden : Place → Prop) (path : String) : Prop := ∀ x, OnWay path x → ¬ hidden x

section

variable {t u : FileTree} {p x : Place} {ps : List String} {path : String} {hidden : Place → Prop}

theorem mem_foldl_down {part : String} (h : part ∈ ps.foldl down p) : part ∈ p ∨ part ∈ ps := by
  induction ps generalizing p with
  | nil => exact .inl h
  | cons next ps ih =>
      rcases ih h with hdown | hps
      · have hnext : part ∈ p ∨ part = next := by
          unfold down at hdown
          split_ifs at hdown with hdot hup hroot hdots
          · exact .inl hdown
          · exact .inl hdown
          · simpa [hup] using hdown
          · exact .inl (List.mem_of_mem_dropLast hdown)
          · simpa using hdown
        exact hnext.imp_right fun (heq : part = next) => heq ▸ List.mem_cons_self
      · exact .inr (List.mem_cons_of_mem _ hps)

/-- A path avoids all places that have a name in them which none of its parts is. -/
theorem avoids_of_notMem {name : String} (hname : name ≠ "/") (hhidden : ∀ x, hidden x → name ∈ x)
    (h : name ∉ parts path) : Avoids hidden path := by
  rintro x ⟨qs, hqs, rfl⟩ hx
  rcases mem_foldl_down (hhidden _ hx) with hstart | hmem
  · unfold start at hstart
    split at hstart
    · exact hname (List.mem_singleton.1 hstart)
    · cases hstart
  · exact h (hqs.subset hmem)

theorem descend_congr
    (h : ∀ qs, qs <+: ps → t.find? (qs.foldl down p) = u.find? (qs.foldl down p)) :
    t.descend p ps = u.descend p ps := by
  induction ps generalizing p with
  | nil => rfl
  | cons part ps ih =>
      cases ps with
      | nil => rfl
      | cons part' ps =>
          cases hstep : step p part with
          | error fault => simp [descend, hstep, bind, Except.bind]
          | ok next =>
              obtain rfl := eq_down_of_step hstep
              have hnext := h [part] (List.cons_prefix_cons.2 ⟨rfl, List.nil_prefix⟩)
              rw [List.foldl_cons, List.foldl_nil] at hnext
              rcases hthere : t.find? (down p part) with _ | (_ | _) <;> rw [hthere] at hnext
              case some.directory =>
                rw [descend_cons hstep hthere, descend_cons hstep hnext.symm]
                exact ih fun qs hqs => h (part :: qs) (List.cons_prefix_cons.2 ⟨rfl, hqs⟩)
              all_goals simp [descend, hstep, hthere, ← hnext, bind, Except.bind]

theorem SameBut.resolve (h : SameBut hidden t u) (hpath : Avoids hidden path) :
    t.resolve path = u.resolve path := by
  have hdescend : t.descend (start path) (parts path) = u.descend (start path) (parts path) :=
    descend_congr fun qs hqs => h _ (hpath _ ⟨qs, hqs, rfl⟩)
  unfold FileTree.resolve
  unfold start at hdescend
  rw [hdescend]

theorem find?_set_congr (h : t.find? x = u.find? x) (p : Place) (e : Entry) :
    (t.set p e).find? x = (u.set p e).find? x := by
  by_cases hx : x = p
  · subst hx
    cases hfixed : isFixed x with
    | true => rw [find?_of_isFixed hfixed, find?_of_isFixed hfixed]
    | false => rw [find?_set_self hfixed, find?_set_self hfixed]
  · rw [find?_set_of_ne hx, find?_set_of_ne hx, h]

theorem find?_erase_congr (h : t.find? x = u.find? x) (p : Place) :
    (t.erase p).find? x = (u.erase p).find? x := by
  by_cases hx : x = p
  · subst hx
    cases hfixed : isFixed x with
    | true => rw [find?_of_isFixed hfixed, find?_of_isFixed hfixed]
    | false => rw [find?_erase_self hfixed, find?_erase_self hfixed]
  · rw [find?_erase_of_ne hx, find?_erase_of_ne hx, h]

theorem find?_eraseBelow_congr (h : t.find? x = u.find? x) (p : Place) :
    (t.eraseBelow p).find? x = (u.eraseBelow p).find? x := by
  cases hbelow : isBelow p x with
  | false =>
      rw [find?_eraseBelow_of_not_isBelow hbelow, find?_eraseBelow_of_not_isBelow hbelow, h]
  | true =>
      cases hfixed : isFixed x with
      | true => rw [find?_of_isFixed hfixed, find?_of_isFixed hfixed]
      | false =>
          rw [find?_eraseBelow_of_isBelow hbelow hfixed, find?_eraseBelow_of_isBelow hbelow hfixed]

theorem SameBut.removeTree (h : SameBut hidden t u) (hpath : Avoids hidden path) :
    SameBut hidden (t.removeTree path) (u.removeTree path) := by
  unfold FileTree.removeTree
  rw [← h.resolve hpath]
  cases hp : t.resolve path with
  | error fault => exact h
  | ok p =>
      obtain rfl := eq_place_of_resolve hp
      simp only [← h _ (hpath _ (onWay_place path))]
      intro x hx
      split
      · split
        · exact find?_set_congr (find?_eraseBelow_congr (h x hx) _) _ _
        · exact find?_eraseBelow_congr (h x hx) _
      · exact h x hx

end

/-- Work through paths that avoid some places leaves the same at all others. -/
theorem lockstep_sameBut (hidden : Place → Prop) : Lockstep (SameBut hidden) (Avoids hidden) where
  initial hpath hl hstart := by
    rintro x ⟨qs, hqs, rfl⟩
    rw [parts_ofList] at hqs
    exact hpath _ ⟨qs, hqs.trans hl, by rw [hstart]⟩
  resolve h hpath := h.resolve hpath
  find? h hpath hp := by
    obtain rfl := eq_place_of_resolve hp
    exact h _ (hpath _ (onWay_place _))
  set h _ _ _ e := fun x hx => find?_set_congr (h x hx) _ e
  erase h _ _ _ := fun x hx => find?_erase_congr (h x hx) _

theorem clears_sameBut {hidden : Place → Prop} {path : String} (hpath : Avoids hidden path) :
    Clears (SameBut hidden) path := fun _ _ h => h.removeTree hpath

/-! ## A file that stays -/

structure HasFile (p : Place) (content : ByteArray) (t : FileTree) : Prop where
  proper : t.Proper
  file : t.find? p = some (.file content)

section

variable {p : Place} {content : ByteArray} {path : String}

theorem HasFile.removeTree {t : FileTree} (h : HasFile p content t)
    (houtside : ¬ Below (place path) p) : HasFile p content (t.removeTree path) := by
  refine ⟨h.proper.removeTree path, file?_eq_some.1 ?_⟩
  rcases file?_removeTree t path p with hsame | ⟨hbelow, -⟩
  · rw [hsame, file?_eq_some.2 h.file]
  · exact absurd hbelow houtside

theorem lockstep_hasFile (p : Place) (content : ByteArray) :
    Lockstep (fun t u => t = u ∧ HasFile p content t) (Avoids (· = p)) where
  initial := (lockstep_sameBut (· = p)).initial
  resolve h _ := by rw [h.1]
  find? h _ _ := by rw [h.1]
  set h hpath hp hfind e := by
    obtain rfl := eq_place_of_resolve hp
    refine ⟨by rw [h.1], h.2.proper.set hp hfind e, ?_⟩
    rw [find?_set_of_ne (Ne.symm (hpath _ (onWay_place _))), h.2.file]
  erase h hpath hp hfind := by
    obtain rfl := eq_place_of_resolve hp
    refine ⟨by rw [h.1], h.2.proper.erase hfind, ?_⟩
    rw [find?_erase_of_ne (Ne.symm (hpath _ (onWay_place _))), h.2.file]

theorem clears_hasFile (houtside : ¬ Below (place path) p) :
    Clears (fun t u => t = u ∧ HasFile p content t) path :=
  fun _ _ h => ⟨by rw [h.1], h.2.removeTree houtside⟩

end

end FileTree

namespace FileM

open FileTree

variable {R : FileTree → FileTree → Prop} {seen : String → Prop} {α β : Type}

/-- On related trees, work comes to the same result and leaves related trees. -/
def Agrees (R : FileTree → FileTree → Prop) (act : FileM α) : Prop :=
  ∀ t u, R t u → (act t).1 = (act u).1 ∧ R (act t).2 (act u).2

namespace Agrees

theorem pure (a : α) : Agrees R (Pure.pure a) := fun _ _ h => ⟨rfl, h⟩

theorem throw (e : FileError) : Agrees R (MonadExcept.throw e : FileM α) := fun _ _ h => ⟨rfl, h⟩

/-- What follows needs to be in step only if the work before it ends well. -/
theorem bind_at {x : FileM α} {f : α → FileM β} {t u : FileTree} (hx : Agrees R x) (h : R t u)
    (hf : ∀ a, (x t).1 = .ok a → Agrees R (f a)) :
    ((x >>= f) t).1 = ((x >>= f) u).1 ∧ R ((x >>= f) t).2 ((x >>= f) u).2 := by
  obtain ⟨hresult, hleft⟩ := hx t u h
  rw [Outcome.bind_run, Outcome.bind_run]
  rcases hxt : x t with ⟨result, t'⟩
  rcases hxu : x u with ⟨result', u'⟩
  rw [hxt, hxu] at hresult hleft
  rw [hxt] at hf
  obtain rfl : result = result' := hresult
  cases result with
  | error e => exact ⟨rfl, hleft⟩
  | ok a => exact hf a rfl t' u' hleft

theorem bind {x : FileM α} {f : α → FileM β} (hx : Agrees R x) (hf : ∀ a, Agrees R (f a)) :
    Agrees R (x >>= f) := fun _ _ h => hx.bind_at h fun a _ => hf a

theorem attempt {act : FileM α} (h : Agrees R act) : Agrees R (FileM.attempt act) := by
  intro t u htu
  obtain ⟨hresult, hleft⟩ := h t u htu
  rw [attempt_run, attempt_run, hresult]
  exact ⟨rfl, hleft⟩

theorem ask {f : FileTree → α} (h : ∀ t u, R t u → f t = f u) : Agrees R (FileM.ask f) :=
  fun t u htu => ⟨congrArg Except.ok (h t u htu), htu⟩

theorem update {f : FileTree → FileTree} (h : ∀ t u, R t u → R (f t) (f u)) :
    Agrees R (FileM.update f) := fun t u htu => ⟨rfl, h t u htu⟩

theorem change {path : String} {destination : Option String}
    {act : FileTree → Except FileFault FileTree} (h : ∀ t u, R t u → Matched R (act t) (act u)) :
    Agrees R (FileM.change path destination act) := by
  intro t u htu
  have hmatched := h t u htu
  unfold FileM.change
  revert hmatched
  generalize act t = x
  generalize act u = y
  intro hmatched
  cases hmatched with
  | error fault => exact ⟨rfl, htu⟩
  | ok h => exact ⟨rfl, h⟩

end Agrees

/-! ## Operations in step -/

variable {path : String}

theorem agrees_makeDirectory (h : Lockstep R seen) (hpath : seen path) :
    Agrees R (makeDirectory path) := .change fun _ _ htu => h.makeDirectory htu hpath

theorem agrees_write (h : Lockstep R seen) (hpath : seen path) (content : ByteArray) :
    Agrees R (write path content) := .change fun _ _ htu => h.write htu hpath content

theorem agrees_move (h : Lockstep R seen) {source destination : String} (hsource : seen source)
    (hdestination : seen destination) : Agrees R (move source destination) :=
  .change fun _ _ htu => h.move htu hsource hdestination

theorem agrees_removeTree (h : Clears R path) : Agrees R (removeTree path) := .update h

theorem agrees_makeLast (h : Lockstep R seen) (hpath : seen path) : Agrees R (makeLast path) := by
  refine (agrees_makeDirectory h hpath).attempt.bind fun result => ?_
  cases result with
  | ok _ => exact .pure ()
  | error e =>
      refine (Agrees.ask fun _ _ htu => h.isDirectory htu hpath).bind fun isDirectory => ?_
      cases isDirectory with
      | true => exact .pure ()
      | false => exact .throw e

theorem agrees_makeDirectories (h : Lockstep R seen) {path : List Char}
    (hpath : seen (String.ofList path)) : Agrees R (makeDirectories path) := by
  -- the recursion is on the path above, which is shorter and leads a part of the way
  induction hlength : path.length using Nat.strong_induction_on generalizing path with
  | _ n ih =>
      have hlast := agrees_makeLast h hpath
      rw [makeDirectories]
      split
      · rename_i hparts
        have hseen : seen (String.ofList (above path)) := by
          refine h.initial hpath ?_ (start_above hparts.2)
          rw [parts_ofList, segments_above hparts.1]
          exact List.prefix_append _ _
        have hrest : Agrees R (if lastName path = ['.'] then Pure.pure ()
            else makeLast (String.ofList path)) := by
          split
          · exact .pure ()
          · exact hlast
        refine (Agrees.ask fun _ _ htu => h.pathExists htu hseen).bind fun isThere => ?_
        cases isThere with
        | true => exact hlast
        | false =>
            have habove := ih _ (hlength ▸ length_above_lt hparts.1) hseen rfl
            refine habove.attempt.bind fun result => ?_
            cases result with
            | ok _ => exact hrest
            | error e =>
                by_cases hfault : e.fault ≠ .alreadyThere
                · simp only [if_pos hfault]
                  exact .throw e
                · simp only [if_neg hfault]
                  exact hrest
      · exact hlast

end FileM

end WireBindings
