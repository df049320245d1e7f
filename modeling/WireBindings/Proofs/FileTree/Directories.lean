import WireBindings.Proofs.FileTree.Operations

/-!
# Making directories

Making the directories of a path adds directories and changes nothing else, also when it is refused.
Below a directory that is there, it adds them along the path only, and it is refused only by a file
that stands in the way.
-/

namespace WireBindings

namespace FileTree

/-! ## Names below a directory -/

variable {t t' t'' : FileTree} {p q o : Place} {xs : List String}

def DirectoriesAlong (t : FileTree) (p : Place) (xs : List String) : Prop :=
  ∀ ys, ys ≠ [] → ys <+: xs → t.find? (p ++ ys) = some .directory

def ClearAlong (t : FileTree) (p : Place) (xs : List String) : Prop :=
  ∀ ys, ys ≠ [] → ys <+: xs → ∀ content, t.find? (p ++ ys) ≠ some (.file content)

theorem clearAlong_iff :
    ClearAlong t p xs ↔ ∀ ys ∈ xs.inits, ys ≠ [] → t.file? (p ++ ys) = none := by
  simp only [ClearAlong, List.mem_inits, file?_eq_none]
  exact forall_congr' fun ys => Imp.swap

instance (t : FileTree) (p : Place) (xs : List String) : Decidable (ClearAlong t p xs) :=
  decidable_of_iff' _ clearAlong_iff

theorem directoriesAlong_nil (t : FileTree) (p : Place) : DirectoriesAlong t p [] :=
  fun _ hne hpre => absurd (List.prefix_nil.1 hpre) hne

theorem directoriesAlong_cons {x : String} :
    DirectoriesAlong t p (x :: xs) ↔
      t.find? (p ++ [x]) = some .directory ∧ DirectoriesAlong t (p ++ [x]) xs := by
  constructor
  · intro h
    refine ⟨h [x] (List.cons_ne_nil x []) (List.cons_prefix_cons.2 ⟨rfl, List.nil_prefix⟩), ?_⟩
    intro ys _ hpre
    rw [List.append_assoc, List.singleton_append]
    exact h (x :: ys) (List.cons_ne_nil x ys) (List.cons_prefix_cons.2 ⟨rfl, hpre⟩)
  · rintro ⟨hx, hxs⟩ ys hne hpre
    obtain ⟨y, ys, rfl⟩ := List.exists_cons_of_ne_nil hne
    obtain ⟨rfl, hys⟩ := List.cons_prefix_cons.1 hpre
    rw [List.append_cons]
    by_cases hnil : ys = []
    · rw [hnil, List.append_nil]
      exact hx
    · exact hxs ys hnil hys

theorem directoriesAlong_concat {x : String} (h : DirectoriesAlong t p xs)
    (hx : t.find? (p ++ (xs ++ [x])) = some .directory) : DirectoriesAlong t p (xs ++ [x]) := by
  intro ys hne hpre
  rcases List.prefix_concat_iff.1 hpre with rfl | hpre
  · exact hx
  · exact h ys hne hpre

theorem leads_names (h : ∀ x ∈ xs, IsName x) :
    Leads t p xs q ↔ q = p ++ xs ∧ (∀ x ∈ xs, x.utf8ByteSize ≤ maxNameBytes) ∧
      DirectoriesAlong t p xs := by
  induction xs generalizing p with
  | nil =>
      constructor
      · intro hlead
        cases hlead
        exact ⟨(List.append_nil _).symm, fun x hx => absurd hx List.not_mem_nil,
          directoriesAlong_nil t _⟩
      · rintro ⟨rfl, -⟩
        rw [List.append_nil]
        exact .nil p
  | cons x xs ih =>
      obtain ⟨hx, hxs⟩ := List.forall_mem_cons.1 h
      rw [directoriesAlong_cons, List.forall_mem_cons]
      constructor
      · intro hlead
        cases hlead with
        | cons hstep hnext hrest =>
            obtain ⟨hsize, rfl⟩ := (step_name hx).1 hstep
            obtain ⟨rfl, hsizes, hdirectories⟩ := (ih hxs).1 hrest
            exact ⟨List.append_assoc p [x] xs, ⟨hsize, hsizes⟩, hnext, hdirectories⟩
      · rintro ⟨rfl, ⟨hsize, hsizes⟩, hnext, hdirectories⟩
        exact .cons ((step_name hx).2 ⟨hsize, rfl⟩) hnext
          ((ih hxs).2 ⟨List.append_cons p x xs, hsizes, hdirectories⟩)

section

variable {path : String} {ps : List String}

theorem eq_of_resolve (hparts : parts path = ps ++ xs) (hlead : Leads t (start path) ps o)
    (hnames : ∀ x ∈ xs, IsName x) (h : t.resolve path = .ok p) :
    p = o ++ xs ∧ (∀ x ∈ xs, x.utf8ByteSize ≤ maxNameBytes) ∧
      DirectoriesAlong t o xs.dropLast := by
  obtain ⟨-, hdescend⟩ := resolve_eq_ok.1 h
  rw [hparts, hlead.descend_append] at hdescend
  cases xs using List.reverseRecOn with
  | nil =>
      obtain rfl := Except.ok.inj hdescend
      exact ⟨(List.append_nil _).symm, fun x hx => absurd hx List.not_mem_nil,
        directoriesAlong_nil t _⟩
  | append_singleton ys y =>
      rw [List.forall_mem_append, List.forall_mem_singleton] at hnames ⊢
      obtain ⟨q, hq, hstep⟩ := exists_leads_of_descend hdescend
      obtain ⟨rfl, hsizes, hdirectories⟩ := (leads_names hnames.1).1 hq
      obtain ⟨hsize, rfl⟩ := (step_name hnames.2).1 hstep
      rw [List.dropLast_concat]
      exact ⟨List.append_assoc o ys [y], ⟨hsizes, hsize⟩, hdirectories⟩

theorem resolve_names (hadmissible : Admissible path) (hparts : parts path = ps ++ xs)
    (hlead : Leads t (start path) ps o) (hnames : ∀ x ∈ xs, IsName x)
    (hsizes : ∀ x ∈ xs, x.utf8ByteSize ≤ maxNameBytes)
    (hdirectories : DirectoriesAlong t o xs.dropLast) : t.resolve path = .ok (o ++ xs) := by
  refine resolve_eq_ok.2 ⟨hadmissible, ?_⟩
  rw [hparts, hlead.descend_append]
  cases xs using List.reverseRecOn with
  | nil => rw [List.append_nil, descend]
  | append_singleton ys y =>
      rw [List.forall_mem_append, List.forall_mem_singleton] at hnames hsizes
      rw [List.dropLast_concat] at hdirectories
      have hq := (leads_names (q := o ++ ys) hnames.1).2 ⟨rfl, hsizes.1, hdirectories⟩
      rw [hq.descend_append, ← List.append_assoc]
      exact (step_name hnames.2).2 ⟨hsizes.2, rfl⟩

end

/-! ## Trees with further directories -/

/-- At the places that are looked at, the second tree has what the first has, and further
directories at some places where nothing stood. -/
def Gains (seen new : Place → Prop) (t t' : FileTree) : Prop :=
  ∀ q, seen q → t'.find? q = t.find? q ∨ t.find? q = none ∧ t'.find? q = some .directory ∧ new q

namespace Gains

variable {seen seen' new new' : Place → Prop}

theorem refl (seen new : Place → Prop) (t : FileTree) : Gains seen new t t := fun _ _ => .inl rfl

theorem mono (h : Gains seen new t t') (hseen : ∀ q, seen' q → seen q)
    (hnew : ∀ q, new q → new' q) : Gains seen' new' t t' := by
  intro q hq
  rcases h q (hseen q hq) with heq | ⟨hnone, hdirectory, hplace⟩
  · exact .inl heq
  · exact .inr ⟨hnone, hdirectory, hnew q hplace⟩

theorem trans (h : Gains seen new t t') (h' : Gains seen new t' t'') : Gains seen new t t'' := by
  intro q hq
  rcases h' q hq with heq' | ⟨hnone', hdirectory', hplace⟩
  · rcases h q hq with heq | ⟨hnone, hdirectory, hplace⟩
    · exact .inl (heq'.trans heq)
    · exact .inr ⟨hnone, heq'.trans hdirectory, hplace⟩
  · rcases h q hq with heq | ⟨hnone, -, -⟩
    · exact .inr ⟨heq.symm.trans hnone', hdirectory', hplace⟩
    · exact .inr ⟨hnone, hdirectory', hplace⟩

theorem set (h : t.find? p = none) (hnew : new p) : Gains seen new t (t.set p .directory) := by
  intro q _
  by_cases hq : q = p
  · rw [hq]
    exact .inr ⟨h, find?_set_self (isFixed_eq_false (t := t) (by simp [h])) t _, hnew⟩
  · exact .inl (find?_set_of_ne hq t _)

theorem find?_directory (h : Gains seen new t t') (hseen : seen q)
    (hq : t.find? q = some .directory) : t'.find? q = some .directory := by
  rcases h q hseen with heq | ⟨-, hdirectory, -⟩
  · rw [heq, hq]
  · exact hdirectory

theorem find?_file (h : Gains seen new t t') (hseen : seen q) {content : ByteArray} :
    t'.find? q = some (.file content) ↔ t.find? q = some (.file content) := by
  rcases h q hseen with heq | ⟨hnone, hdirectory, -⟩
  · rw [heq]
  · rw [hnone, hdirectory]
    simp

end Gains

/-- The second tree has further directories, and is otherwise like the first. -/
abbrev GainsDirectories (t t' : FileTree) : Prop := Gains (fun _ => True) (fun _ => True) t t'

theorem Gains.directories {new : Place → Prop} (h : Gains (fun _ => True) new t t') :
    GainsDirectories t t' :=
  h.mono (fun _ => id) fun _ _ => trivial

def Along (o : Place) (xs : List String) (q : Place) : Prop :=
  ∃ ys, ys ≠ [] ∧ ys <+: xs ∧ q = o ++ ys

theorem Along.mono {ys : List String} (h : Along o xs q) (hpre : xs <+: ys) : Along o ys q := by
  obtain ⟨zs, hne, hzs, hq⟩ := h
  exact ⟨zs, hne, hzs.trans hpre, hq⟩

theorem not_along_dropLast (h : xs ≠ []) : ¬ Along o xs.dropLast (o ++ xs) := by
  rintro ⟨ys, -, hys, heq⟩
  obtain rfl := List.append_cancel_left heq
  have hlength := hys.length_le
  have hpos := List.length_pos_iff.2 h
  rw [List.length_dropLast] at hlength
  omega

abbrev GainsAlong (o : Place) (xs : List String) (t t' : FileTree) : Prop :=
  Gains (fun _ => True) (Along o xs) t t'

end FileTree

namespace FileM

open FileTree

/-- Makes the last directory of a path; one that is there is no reason to refuse. -/
def makeLast (path : String) : FileM Unit := do
  match ← attempt (makeDirectory path) with
  | .ok _ => pure ()
  | .error e => if !(← ask (·.isDirectory path)) then throw e

theorem makeLast_run (path : String) (t : FileTree) :
    makeLast path t = match t.makeDirectory path with
      | .ok t' => (.ok (), t')
      | .error fault =>
        if t.isDirectory path then (.ok (), t) else (.error { fault, path }, t) := by
  cases hmake : t.makeDirectory path with
  | ok t' =>
      have hrun : attempt (makeDirectory path) t = (.ok (.ok ()), t') := by
        rw [attempt_run, makeDirectory, change_eq_ok.2 hmake]
      rw [makeLast, Outcome.bind_run_of_ok hrun]
      rfl
  | error fault =>
      have hrun : attempt (makeDirectory path) t = (.ok (.error { fault, path }), t) := by
        rw [attempt_run, makeDirectory, change_of_error hmake]
      rw [makeLast, Outcome.bind_run_of_ok hrun]
      simp only
      rw [Outcome.bind_run_of_ok (ask_run _ t)]
      cases t.isDirectory path <;> rfl

theorem makeLast_cases (path : String) (t : FileTree) :
    (∃ p, t.resolve path = .ok p ∧ t.find? p = none ∧
      makeLast path t = (.ok (), t.set p .directory)) ∨
    (t.isDirectory path = true ∧ makeLast path t = (.ok (), t)) ∨
    ∃ e, makeLast path t = (.error e, t) ∧
      ∀ p, t.resolve path = .ok p → ∃ content, t.find? p = some (.file content) := by
  rw [makeLast_run]
  cases hmake : t.makeDirectory path with
  | ok t' =>
      obtain ⟨p, hresolve, hp, rfl⟩ := makeDirectory_eq_ok.1 hmake
      exact .inl ⟨p, hresolve, hp, rfl⟩
  | error fault =>
      cases hdirectory : t.isDirectory path with
      | true => exact .inr (.inl ⟨rfl, rfl⟩)
      | false =>
          refine .inr (.inr ⟨_, rfl, ?_⟩)
          intro p hresolve
          cases hp : t.find? p with
          | none =>
              have hmade := makeDirectory_eq_ok.2 ⟨p, hresolve, hp, rfl⟩
              rw [hmade] at hmake
              cases hmake
          | some e =>
              cases e with
              | file content => exact ⟨content, rfl⟩
              | directory =>
                  rw [isDirectory_eq_true.2 ⟨p, hresolve, hp⟩] at hdirectory
                  cases hdirectory

theorem gains_makeLast (path : String) (t : FileTree) :
    GainsDirectories t (makeLast path t).2 := by
  rcases makeLast_cases path t with ⟨p, -, hp, hrun⟩ | ⟨-, hrun⟩ | ⟨e, hrun, -⟩
  · rw [hrun]
    exact Gains.set hp trivial
  · rw [hrun]
    exact Gains.refl _ _ t
  · rw [hrun]
    exact Gains.refl _ _ t

/-- The directory above a path is made first, unless something stands there. -/
theorem makeDirectories_run (path : List Char) (t : FileTree) :
    makeDirectories path t =
      if lastName path ≠ [] ∧ above path ≠ [] ∧
          t.pathExists (String.ofList (above path)) = false then
        match makeDirectories (above path) t with
        | (.error e, u) =>
          if e.fault ≠ .alreadyThere then (.error e, u)
          else if lastName path = ['.'] then (.ok (), u)
          else makeLast (String.ofList path) u
        | (.ok _, u) =>
          if lastName path = ['.'] then (.ok (), u)
          else makeLast (String.ofList path) u
      else makeLast (String.ofList path) t := by
  unfold lastName above
  conv_lhs => rw [makeDirectories]
  by_cases hparts : Path.lastPart (Path.trimmed path) ≠ [] ∧
      Path.parentPart (Path.trimmed path) ≠ []
  · rw [dif_pos hparts, Outcome.bind_run_of_ok (ask_run _ t)]
    cases hexists : t.pathExists (String.ofList (Path.parentPart (Path.trimmed path))) with
    | true =>
        rw [if_neg (by simp), if_neg (by simp)]
        rfl
    | false =>
        have hmade : Path.lastPart (Path.trimmed path) ≠ [] ∧
            Path.parentPart (Path.trimmed path) ≠ [] ∧ false = false :=
          ⟨hparts.1, hparts.2, rfl⟩
        rw [if_pos Bool.not_false, if_pos hmade]
        dsimp only
        rw [Outcome.bind_run_of_ok (attempt_run _ t)]
        have hjoin (u : FileTree) : (if Path.lastPart (Path.trimmed path) = ['.'] then pure ()
            else makeLast (String.ofList path) : FileM Unit) u =
              if Path.lastPart (Path.trimmed path) = ['.'] then (.ok (), u)
              else makeLast (String.ofList path) u := by
          split <;> rfl
        rcases makeDirectories (Path.parentPart (Path.trimmed path)) t with ⟨e | ⟨⟩, u⟩
        · by_cases hfault : e.fault ≠ .alreadyThere
          · simp only [if_pos hfault]
            rfl
          · simp only [if_neg hfault]
            exact hjoin u
        · exact hjoin u
  · rw [dif_neg hparts, if_neg fun h => hparts ⟨h.1, h.2.1⟩]
    rfl

/-- Either only the last directory is made, or the one above it is made first. Then a refusal may
end the work, and so may a last part that is a dot. -/
theorem makeDirectories_cases (path : List Char) (t : FileTree) :
    ((lastName path = [] ∨ above path = [] ∨ t.pathExists (String.ofList (above path)) = true) ∧
      makeDirectories path t = makeLast (String.ofList path) t) ∨
    (lastName path ≠ [] ∧ above path ≠ [] ∧ ∃ result u,
      makeDirectories (above path) t = (result, u) ∧
      ((∃ e, result = .error e ∧ makeDirectories path t = (.error e, u)) ∨
        (lastName path = ['.'] ∧ makeDirectories path t = (.ok (), u)) ∨
        makeDirectories path t = makeLast (String.ofList path) u)) := by
  rw [makeDirectories_run]
  split
  · rename_i hmade
    refine .inr ⟨hmade.1, hmade.2.1, _, _, rfl, ?_⟩
    by_cases hdot : lastName path = ['.']
    · rcases makeDirectories (above path) t with ⟨e | ⟨⟩, u⟩
      · by_cases hfault : e.fault ≠ .alreadyThere
        · exact .inl ⟨e, rfl, if_pos hfault⟩
        · exact .inr (.inl ⟨hdot, (if_neg hfault).trans (if_pos hdot)⟩)
      · exact .inr (.inl ⟨hdot, if_pos hdot⟩)
    · rcases makeDirectories (above path) t with ⟨e | ⟨⟩, u⟩
      · by_cases hfault : e.fault ≠ .alreadyThere
        · exact .inl ⟨e, rfl, if_pos hfault⟩
        · exact .inr (.inr ((if_neg hfault).trans (if_neg hdot)))
      · exact .inr (.inr (if_neg hdot))
  · rename_i hmade
    refine .inl ⟨?_, rfl⟩
    by_contra hneither
    rw [not_or, not_or, Bool.not_eq_true] at hneither
    exact hmade hneither

theorem makeDirectories_nil (t : FileTree) : (makeDirectories [] t).1 ≠ .ok () := by
  have hresolve (p : Place) : t.resolve (String.ofList []) ≠ .ok p :=
    fun h => (resolve_eq_ok.1 h).1.ne_empty rfl
  have hlast : makeDirectories [] t = makeLast (String.ofList []) t := by
    rcases makeDirectories_cases [] t with ⟨-, hrun⟩ | ⟨hname, -⟩
    · exact hrun
    · exact absurd rfl hname
  rw [hlast]
  rcases makeLast_cases (String.ofList []) t with ⟨p, h, -⟩ | ⟨h, -⟩ | ⟨e, hrun, -⟩
  · exact absurd h (hresolve p)
  · obtain ⟨p, h, -⟩ := isDirectory_eq_true.1 h
    exact absurd h (hresolve p)
  · rw [hrun]
    exact fun h => nomatch h

theorem start_above {path : List Char} (hne : above path ≠ []) :
    start (String.ofList (above path)) = start (String.ofList path) :=
  start_of_isPrefix (above_isPrefix path) hne

/-- Making the directories of a path makes the last ones of paths that lead a part of its way. -/
theorem makeDirectories_induction {holds : FileTree → Prop} {path : List Char} {t : FileTree}
    (hlast : ∀ l, segments l <+: segments path →
      start (String.ofList l) = start (String.ofList path) →
      ∀ u, holds u → holds (makeLast (String.ofList l) u).2)
    (h : holds t) : holds (makeDirectories path t).2 := by
  -- the recursion is on the path above, which is shorter
  induction hlength : path.length using Nat.strong_induction_on generalizing path with
  | _ n ih =>
      have hself := hlast path List.prefix_rfl rfl
      rcases makeDirectories_cases path t with ⟨-, hrun⟩ | ⟨hname, hne, result, u, hmade, hrun⟩
      · rw [hrun]
        exact hself t h
      · have hpre : segments (above path) <+: segments path := by
          rw [segments_above hname]
          exact List.prefix_append _ _
        have habove := ih _ (hlength ▸ length_above_lt hname)
          (fun l hl hstart => hlast l (hl.trans hpre) (hstart.trans (start_above hne))) rfl
        rw [hmade] at habove
        rcases hrun with ⟨e, -, hrun⟩ | ⟨-, hrun⟩ | hrun
        · rw [hrun]
          exact habove
        · rw [hrun]
          exact habove
        · rw [hrun]
          exact hself u habove

theorem gains_makeDirectories (path : List Char) (t : FileTree) :
    GainsDirectories t (makeDirectories path t).2 :=
  makeDirectories_induction (fun _ _ _ u h => h.trans (gains_makeLast _ u)) (Gains.refl _ _ t)

/-! ## Directories below one that is there -/

variable {path : List Char} {ps xs : List String} {o : Place} {t : FileTree}

theorem segments_above_names {y : String} {ys : List String}
    (hparts : segments path = ps ++ (ys ++ [y])) :
    lastName path ≠ [] ∧ segments (above path) = ps ++ ys ∧ String.ofList (lastName path) = y := by
  have hname : lastName path ≠ [] := by
    intro hnil
    rw [segments_eq_nil hnil, ← List.append_assoc] at hparts
    exact List.append_ne_nil_of_right_ne_nil _ (List.cons_ne_nil y []) hparts.symm
  rw [segments_above hname, ← List.append_assoc] at hparts
  obtain ⟨hsegments, hlast⟩ := List.append_inj' hparts (by simp)
  exact ⟨hname, hsegments, List.singleton_inj.1 hlast⟩

theorem gainsAlong_makeLast (hparts : segments path = ps ++ xs)
    (hlead : Leads t (start (String.ofList path)) ps o) (hnames : ∀ x ∈ xs, IsName x) :
    GainsAlong o xs t (makeLast (String.ofList path) t).2 := by
  rcases makeLast_cases (String.ofList path) t with ⟨p, hresolve, hp, hrun⟩ | ⟨-, hrun⟩ |
      ⟨e, hrun, -⟩
  · rw [hrun]
    obtain ⟨rfl, -, -⟩ := eq_of_resolve ((parts_ofList path).trans hparts) hlead hnames hresolve
    have hne : xs ≠ [] := by
      rintro rfl
      rw [List.append_nil, hlead.isDirectory (find?_start _ t)] at hp
      cases hp
    exact Gains.set hp ⟨xs, hne, List.prefix_rfl, rfl⟩
  · rw [hrun]
    exact Gains.refl _ _ t
  · rw [hrun]
    exact Gains.refl _ _ t

/-- A path that leads to a directory needs no further ones. -/
theorem makeDirectories_of_leads (hlead : Leads t (start (String.ofList path)) (segments path) o) :
    (makeDirectories path t).2 = t := by
  induction hlength : path.length using Nat.strong_induction_on generalizing path o with
  | _ n ih =>
      have hlast : (makeLast (String.ofList path) t).2 = t := by
        rcases makeLast_cases (String.ofList path) t with ⟨p, hresolve, hp, -⟩ | ⟨-, hrun⟩ |
            ⟨e, hrun, -⟩
        · obtain ⟨-, hdescend⟩ := resolve_eq_ok.1 hresolve
          rw [parts_ofList, hlead.descend] at hdescend
          obtain rfl := Except.ok.inj hdescend
          rw [hlead.isDirectory (find?_start _ t)] at hp
          cases hp
        · rw [hrun]
        · rw [hrun]
      rcases makeDirectories_cases path t with ⟨-, hrun⟩ | ⟨hname, hne, result, u, hmade, hrun⟩
      · rw [hrun, hlast]
      · -- the path above leads to a directory as well, so nothing is made for it either
        rw [segments_above hname] at hlead
        obtain ⟨q, hq, -⟩ := hlead.exists_of_append
        rw [← start_above hne] at hq
        have habove := ih _ (hlength ▸ length_above_lt hname) hq rfl
        rw [hmade] at habove
        obtain rfl : u = t := habove
        rcases hrun with ⟨e, -, hrun⟩ | ⟨-, hrun⟩ | hrun
        · rw [hrun]
        · rw [hrun]
        · rw [hrun, hlast]

theorem gainsAlong_makeDirectories (hparts : segments path = ps ++ xs)
    (hlead : Leads t (start (String.ofList path)) ps o) (hnames : ∀ x ∈ xs, IsName x) :
    GainsAlong o xs t (makeDirectories path t).2 := by
  -- the names go one by one from the end, until the path is that of the directory itself
  induction xs using List.reverseRecOn generalizing path with
  | nil =>
      rw [List.append_nil] at hparts
      rw [makeDirectories_of_leads (hparts ▸ hlead)]
      exact Gains.refl _ _ t
  | append_singleton ys y ih =>
      rcases makeDirectories_cases path t with ⟨-, hrun⟩ | ⟨-, hne, result, u, hmade, hrun⟩
      · rw [hrun]
        exact gainsAlong_makeLast hparts hlead hnames
      · obtain ⟨-, habove, -⟩ := segments_above_names hparts
        have hgains := ih habove (by rw [start_above hne]; exact hlead)
          (List.forall_mem_append.1 hnames).1
        rw [hmade] at hgains
        have hgains : GainsAlong o (ys ++ [y]) t u :=
          hgains.mono (fun _ hq => hq) fun _ hq => hq.mono (List.prefix_append ys [y])
        have hlead' := hlead.mono fun _ => hgains.find?_directory trivial
        rcases hrun with ⟨e, -, hrun⟩ | ⟨-, hrun⟩ | hrun
        · rw [hrun]
          exact hgains
        · rw [hrun]
          exact hgains
        · rw [hrun]
          exact hgains.trans (gainsAlong_makeLast hparts hlead' hnames)

/-- The last directory is made if those before it are there and no file is in its place. -/
theorem makeLast_ok {y : String} {ys : List String} (hadmissible : Admissible (String.ofList path))
    (hparts : segments path = ps ++ (ys ++ [y]))
    (hlead : Leads t (start (String.ofList path)) ps o) (hnames : ∀ x ∈ ys ++ [y], IsName x)
    (hsizes : ∀ x ∈ ys ++ [y], x.utf8ByteSize ≤ maxNameBytes)
    (hdirectories : DirectoriesAlong t o ys)
    (hclear : ∀ content, t.find? (o ++ (ys ++ [y])) ≠ some (.file content)) :
    (makeLast (String.ofList path) t).1 = .ok () ∧
      DirectoriesAlong (makeLast (String.ofList path) t).2 o (ys ++ [y]) := by
  have hresolve : t.resolve (String.ofList path) = .ok (o ++ (ys ++ [y])) :=
    resolve_names hadmissible ((parts_ofList path).trans hparts) hlead hnames hsizes
      (by rw [List.dropLast_concat]; exact hdirectories)
  rcases makeLast_cases (String.ofList path) t with ⟨p, hp, hnone, hrun⟩ | ⟨hthere, hrun⟩ |
      ⟨e, hrun, hfile⟩
  · obtain rfl := Except.ok.inj (hp.symm.trans hresolve)
    have hgains : GainsDirectories t (t.set (o ++ (ys ++ [y])) .directory) :=
      Gains.set hnone trivial
    rw [hrun]
    refine ⟨rfl, directoriesAlong_concat ?_ ?_⟩
    · exact fun zs hne hzs => hgains.find?_directory trivial (hdirectories zs hne hzs)
    · exact find?_set_self (isFixed_eq_false (t := t) (by simp [hnone])) t _
  · obtain ⟨p, hp, hdirectory⟩ := isDirectory_eq_true.1 hthere
    obtain rfl := Except.ok.inj (hp.symm.trans hresolve)
    rw [hrun]
    exact ⟨rfl, directoriesAlong_concat hdirectories hdirectory⟩
  · obtain ⟨content, hcontent⟩ := hfile _ hresolve
    exact absurd hcontent (hclear content)

theorem makeDirectories_ok_of_leads (hadmissible : Admissible (String.ofList path))
    (hlead : Leads t (start (String.ofList path)) (segments path) o) :
    (makeDirectories path t).1 = .ok () := by
  induction hlength : path.length using Nat.strong_induction_on generalizing path o with
  | _ n ih =>
      have hlast : (makeLast (String.ofList path) t).1 = .ok () := by
        have hresolve : t.resolve (String.ofList path) = .ok o :=
          resolve_eq_ok.2 ⟨hadmissible, by rw [parts_ofList]; exact hlead.descend⟩
        have ho := hlead.isDirectory (find?_start _ t)
        rcases makeLast_cases (String.ofList path) t with ⟨p, -, -, hrun⟩ | ⟨-, hrun⟩ |
            ⟨e, -, hfile⟩
        · rw [hrun]
        · rw [hrun]
        · obtain ⟨content, hcontent⟩ := hfile o hresolve
          rw [ho] at hcontent
          cases hcontent
      rcases makeDirectories_cases path t with ⟨-, hrun⟩ | ⟨hname, hne, result, u, hmade, hrun⟩
      · rw [hrun, hlast]
      · have habove := hlead
        rw [segments_above hname] at habove
        obtain ⟨q, hq, -⟩ := habove.exists_of_append
        rw [← start_above hne] at hq
        have hunchanged := makeDirectories_of_leads hq
        have hok := ih _ (hlength ▸ length_above_lt hname)
          (hadmissible.of_isPrefix (above_isPrefix path) hne) hq rfl
        rw [hmade] at hunchanged hok
        obtain rfl : u = t := hunchanged
        rcases hrun with ⟨e, he, -⟩ | ⟨-, hrun⟩ | hrun
        · cases he.symm.trans hok
        · rw [hrun]
        · rw [hrun, hlast]

theorem directoriesAlong_of_above (hname : lastName path ≠ [])
    (hnone : lastName path = [] ∨ above path = [] ∨
      t.pathExists (String.ofList (above path)) = true)
    (hparts : segments (above path) = ps ++ xs)
    (hlead : Leads t (start (String.ofList path)) ps o) (hnames : ∀ x ∈ xs, IsName x)
    (hclear : ClearAlong t o xs) : DirectoriesAlong t o xs := by
  by_cases hne : above path = []
  · rw [hne, segments_nil] at hparts
    rw [(List.append_eq_nil_iff.1 hparts.symm).2]
    exact directoriesAlong_nil t o
  · obtain ⟨p, e, hresolve, hp⟩ := exists_of_pathExists ((hnone.resolve_left hname).resolve_left hne)
    rw [← start_above hne] at hlead
    obtain ⟨rfl, -, hdirectories⟩ := eq_of_resolve ((parts_ofList _).trans hparts) hlead hnames
      hresolve
    cases xs using List.reverseRecOn with
    | nil => exact directoriesAlong_nil t o
    | append_singleton ys y =>
        rw [List.dropLast_concat] at hdirectories
        refine directoriesAlong_concat hdirectories ?_
        cases e with
        | directory => exact hp
        | file content =>
            exact absurd hp (hclear _ (List.append_ne_nil_of_right_ne_nil ys (by simp))
              List.prefix_rfl content)

/-- Directories below one that is there are made unless a file is in the way. -/
theorem makeDirectories_ok (hadmissible : Admissible (String.ofList path))
    (hparts : segments path = ps ++ xs) (hlead : Leads t (start (String.ofList path)) ps o)
    (hnames : ∀ x ∈ xs, IsName x) (hsizes : ∀ x ∈ xs, x.utf8ByteSize ≤ maxNameBytes)
    (hclear : ClearAlong t o xs) :
    (makeDirectories path t).1 = .ok () ∧ DirectoriesAlong (makeDirectories path t).2 o xs := by
  induction xs using List.reverseRecOn generalizing path with
  | nil =>
      rw [List.append_nil] at hparts
      exact ⟨makeDirectories_ok_of_leads hadmissible (hparts ▸ hlead), directoriesAlong_nil _ o⟩
  | append_singleton ys y ih =>
      obtain ⟨hname, habove, hlast⟩ := segments_above_names hparts
      have hnames' := List.forall_mem_append.1 hnames
      have hsizes' := List.forall_mem_append.1 hsizes
      have hclear' : ClearAlong t o ys := fun zs hne hzs =>
        hclear zs hne (hzs.trans (List.prefix_append ys [y]))
      have hclearLast := hclear (ys ++ [y]) (List.append_ne_nil_of_right_ne_nil ys (by simp))
        List.prefix_rfl
      rcases makeDirectories_cases path t with ⟨hnone, hrun⟩ | ⟨-, hne, result, u, hmade, hrun⟩
      · have hdirectories := directoriesAlong_of_above hname hnone habove hlead hnames'.1 hclear'
        rw [hrun]
        exact makeLast_ok hadmissible hparts hlead hnames hsizes hdirectories hclearLast
      · have hlead' : Leads t (start (String.ofList (above path))) ps o := by
          rw [start_above hne]
          exact hlead
        have hadmissible' := hadmissible.of_isPrefix (above_isPrefix path) hne
        have hgains := gainsAlong_makeDirectories habove hlead' hnames'.1
        obtain ⟨hok, hdirectories⟩ := ih hadmissible' habove hlead' hnames'.1 hsizes'.1 hclear'
        rw [hmade] at hgains hok hdirectories
        -- a last part that is a dot would be left out, but a name is none
        have hdot : lastName path ≠ ['.'] := by
          intro hdot
          rw [hdot] at hlast
          exact (hnames'.2 y List.mem_cons_self).1 hlast.symm
        rcases hrun with ⟨e, he, -⟩ | ⟨hdot', -⟩ | hrun
        · cases he.symm.trans hok
        · exact absurd hdot' hdot
        · rw [hrun]
          exact makeLast_ok hadmissible hparts
            (hlead.mono fun _ => hgains.find?_directory trivial) hnames hsizes hdirectories
            fun content hcontent => hclearLast content ((hgains.find?_file trivial).1 hcontent)

end FileM

end WireBindings
