import WireBindings.Proofs.FileTree.Directories

/-!
# Below a place

Without links, a path leads to one place at most, and in a well-formed tree only directories have
anything below them.
-/

namespace WireBindings

namespace FileTree

variable {t t' : FileTree} {p q r : Place} {ps xs : List String} {path : String}

/-! ## The place of a path -/

/-- The place one part away, whatever stands on the way. -/
def down (p : Place) (part : String) : Place :=
  if part = "." then p
  else if part = ".." then
    if p = ["/"] then p else if p.all (· = "..") then p ++ [".."] else p.dropLast
  else p ++ [part]

/-- The only place that a path can lead to. -/
def place (path : String) : Place := (parts path).foldl down (start path)

theorem eq_down_of_step {part : String} (h : step p part = .ok q) : q = down p part := by
  have hstep : step p part =
      if maxNameBytes < part.utf8ByteSize then .error .nameTooLong else .ok (down p part) := by
    unfold step down
    rw [apply_ite Except.ok, apply_ite Except.ok, apply_ite Except.ok, apply_ite Except.ok]
  rw [hstep] at h
  split at h
  · cases h
  · exact (Except.ok.inj h).symm

theorem Leads.eq_foldl (h : Leads t p ps q) : q = ps.foldl down p := by
  induction h with
  | nil => rfl
  | cons hstep _ _ ih => rw [ih, eq_down_of_step hstep, List.foldl_cons]

theorem eq_place_of_resolve (h : t.resolve path = .ok p) : p = place path := by
  obtain ⟨-, hdescend⟩ := resolve_eq_ok.1 h
  unfold place
  cases hparts : parts path using List.reverseRecOn with
  | nil =>
      rw [hparts] at hdescend
      exact (Except.ok.inj hdescend).symm
  | append_singleton ps part =>
      rw [hparts] at hdescend
      obtain ⟨q, hq, hstep⟩ := exists_leads_of_descend hdescend
      rw [List.foldl_concat, ← hq.eq_foldl]
      exact eq_down_of_step hstep

/-- The places that a path leads through, the last of them its own. -/
def OnWay (path : String) (q : Place) : Prop :=
  ∃ ps, ps <+: parts path ∧ q = ps.foldl down (start path)

theorem onWay_place (path : String) : OnWay path (place path) :=
  ⟨parts path, List.prefix_rfl, rfl⟩

/-! ## Places below -/

def Below (p q : Place) : Prop := ∃ rest, q = p ++ rest ∧ ∀ part ∈ rest, part ≠ ".." ∧ part ≠ "/"

theorem isBelow_eq_true : isBelow p q = true ↔ Below p q := by
  unfold isBelow Below
  rw [Bool.and_eq_true, List.isPrefixOf_iff_prefix, List.all_eq_true]
  constructor
  · rintro ⟨⟨rest, rfl⟩, hall⟩
    refine ⟨rest, rfl, ?_⟩
    rw [List.drop_left] at hall
    exact fun part hpart => by simpa using hall part hpart
  · rintro ⟨rest, rfl, hall⟩
    refine ⟨⟨rest, rfl⟩, ?_⟩
    rw [List.drop_left]
    exact fun part hpart => by simpa using hall part hpart

theorem isBelow_eq_false : isBelow p q = false ↔ ¬ Below p q := by
  rw [← isBelow_eq_true, Bool.not_eq_true]

namespace Below

theorem refl (p : Place) : Below p p :=
  ⟨[], (List.append_nil p).symm, fun _ hpart => absurd hpart List.not_mem_nil⟩

theorem trans (h : Below p q) (h' : Below q r) : Below p r := by
  obtain ⟨rest, rfl, hrest⟩ := h
  obtain ⟨rest', rfl, hrest'⟩ := h'
  exact ⟨rest ++ rest', List.append_assoc _ _ _, List.forall_mem_append.2 ⟨hrest, hrest'⟩⟩

theorem names (p : Place) (h : ∀ x ∈ xs, IsName x) : Below p (p ++ xs) :=
  ⟨xs, rfl, fun x hx => (h x hx).2⟩

theorem down {part : String} (hpart : part ≠ ".." ∧ part ≠ "/") :
    Below p (FileTree.down p part) := by
  unfold FileTree.down
  split
  · exact refl p
  · rw [if_neg hpart.1]
    exact ⟨[part], rfl, List.forall_mem_singleton.2 hpart⟩

theorem foldl_down (h : ∀ part ∈ ps, part ≠ ".." ∧ part ≠ "/") :
    Below p (ps.foldl FileTree.down p) := by
  induction ps generalizing p with
  | nil => exact refl p
  | cons part ps ih =>
      obtain ⟨hpart, hps⟩ := List.forall_mem_cons.1 h
      exact (down hpart).trans (ih hps)

end Below

/-! ## Well-formed trees -/

/-- Everything stands in a directory. -/
def WellFormed (t : FileTree) : Prop :=
  ∀ x ∈ t.entries, isFixed x.1 = true ∨ t.find? x.1.dropLast = some .directory

instance (t : FileTree) : Decidable t.WellFormed := List.decidableBAll _ _

theorem WellFormed.find?_dropLast (h : t.WellFormed) {e : Entry} (hq : t.find? q = some e)
    (hfixed : isFixed q = false) : t.find? q.dropLast = some .directory :=
  (h _ (mem_entries_of_find? hq hfixed)).resolve_left (by simp [hfixed])

theorem isFixed_of_below {part : String} (hpart : part ≠ ".." ∧ part ≠ "/") :
    isFixed (p ++ [part]) = false := by
  unfold isFixed
  rw [Bool.or_eq_false_iff]
  constructor
  · simp [hpart.1]
  · rw [decide_eq_false_iff_not]
    intro heq
    cases p with
    | nil => exact hpart.2 (List.singleton_inj.1 heq)
    | cons first p => simp at heq

/-- What stands below a place stands below a directory. -/
theorem WellFormed.find?_above (h : t.WellFormed) {e : Entry} (hq : t.find? q = some e)
    (hbelow : Below p q) (hne : q ≠ p) : t.find? p = some .directory := by
  obtain ⟨rest, rfl, hrest⟩ := hbelow
  -- up from the place part by part; whatever stands there stands in a directory
  induction rest using List.reverseRecOn generalizing e with
  | nil => exact absurd (List.append_nil p) hne
  | append_singleton ys y ih =>
      rw [List.forall_mem_append, List.forall_mem_singleton] at hrest
      rw [← List.append_assoc] at hq
      have habove := h.find?_dropLast hq (isFixed_of_below hrest.2)
      rw [List.dropLast_concat] at habove
      by_cases hys : p ++ ys = p
      · rw [hys] at habove
        exact habove
      · exact ih hrest.1 habove hys

theorem WellFormed.set (h : t.WellFormed) (hp : t.find? p ≠ some .directory)
    (habove : t.find? p.dropLast = some .directory) (e : Entry) : (t.set p e).WellFormed := by
  have hkeep (x : Place) (hx : t.find? x = some .directory) :
      (t.set p e).find? x = some .directory := by
    have hne : x ≠ p := fun heq => hp (heq ▸ hx)
    rw [find?_set_of_ne hne, hx]
  intro x hx
  rcases List.mem_cons.1 hx with rfl | hx
  · exact .inr (hkeep _ habove)
  · exact (h x (List.mem_filter.1 hx).1).imp_right (hkeep _)

theorem WellFormed.exists_name_of_resolve (h : t.WellFormed) (hresolve : t.resolve path = .ok p)
    (hp : t.find? p ≠ some .directory) :
    ∃ q part, p = q ++ [part] ∧ t.find? q = some .directory ∧ part ≠ ".." ∧ part ≠ "/" := by
  obtain ⟨-, hdescend⟩ := resolve_eq_ok.1 hresolve
  have hstart := find?_start path t
  cases hparts : parts path using List.reverseRecOn with
  | nil =>
      rw [hparts] at hdescend
      obtain rfl := Except.ok.inj hdescend
      exact absurd hstart hp
  | append_singleton ps part =>
      have hpart : part ∈ parts path := hparts ▸ List.mem_append_right _ List.mem_cons_self
      rw [hparts] at hdescend
      obtain ⟨q, hlead, hstep⟩ := exists_leads_of_descend hdescend
      have hq := hlead.isDirectory hstart
      obtain rfl := eq_down_of_step hstep
      -- one part down from a directory is in it; the directory itself and those above it are there
      unfold down at hp ⊢
      split_ifs at hp ⊢ with hdot hup hroot hfixed
      · exact absurd hq hp
      · exact absurd hq hp
      · have hup' : isFixed (q ++ [".."]) = true := by
          rw [isFixed, Bool.or_eq_true]
          exact .inl (by simpa using hfixed)
        exact absurd (find?_of_isFixed hup' t) hp
      · have hnot : isFixed q = false := by
          rw [isFixed, Bool.or_eq_false_iff]
          exact ⟨by simpa using hfixed, by simpa using hroot⟩
        exact absurd (h.find?_dropLast hq hnot) hp
      · exact ⟨q, part, rfl, hq, hup, ne_slash_of_mem_parts hpart⟩

theorem WellFormed.find?_dropLast_of_resolve (h : t.WellFormed) (hresolve : t.resolve path = .ok p)
    (hp : t.find? p = none) : t.find? p.dropLast = some .directory := by
  obtain ⟨q, part, rfl, hq, -⟩ := h.exists_name_of_resolve hresolve (by simp [hp])
  rwa [List.dropLast_concat]

theorem WellFormed.find?_below (h : t.WellFormed) (hp : t.find? p = none) (hbelow : Below p q) :
    t.find? q = none := by
  cases hq : t.find? q with
  | none => rfl
  | some e =>
      by_cases hne : q = p
      · rw [hne, hp] at hq
        cases hq
      · have hdirectory := h.find?_above hq hbelow hne
        rw [hp] at hdirectory
        cases hdirectory

/-! ## The files of a tree -/

def SameFiles (t t' : FileTree) : Prop := ∀ q, t'.file? q = t.file? q

theorem Gains.file? {seen new : Place → Prop} (h : Gains seen new t t') (hq : seen q) :
    t'.file? q = t.file? q := by
  rcases h q hq with heq | ⟨hnone, hdirectory, -⟩
  · exact file?_congr heq
  · rw [file?_of_none hnone, file?_of_directory hdirectory]

theorem GainsDirectories.sameFiles (h : GainsDirectories t t') : SameFiles t t' :=
  fun _ => h.file? trivial

theorem file?_eraseBelow_of_below (h : Below p q) (t : FileTree) :
    (t.eraseBelow p).file? q = none := by
  cases hfixed : isFixed q with
  | true => exact file?_of_isFixed hfixed _
  | false => exact file?_of_none (find?_eraseBelow_of_isBelow (isBelow_eq_true.2 h) hfixed t)

theorem file?_eraseBelow_of_not_below (h : ¬ Below p q) (t : FileTree) :
    (t.eraseBelow p).file? q = t.file? q :=
  file?_congr (find?_eraseBelow_of_not_isBelow (isBelow_eq_false.2 h) t)

theorem file?_removeTree (t : FileTree) (path : String) (q : Place) :
    (t.removeTree path).file? q = t.file? q ∨
      Below (place path) q ∧ (t.removeTree path).file? q = none := by
  unfold removeTree
  split
  · exact .inl rfl
  · rename_i p hresolve
    obtain rfl := eq_place_of_resolve hresolve
    split
    · by_cases hbelow : Below (place path) q
      · refine .inr ⟨hbelow, ?_⟩
        have herased := file?_eraseBelow_of_below hbelow t
        dsimp only
        split
        · by_cases hq : q = place path
          · rw [hq]
            exact file?_set_directory _ _
          · rw [file?_congr (find?_set_of_ne hq _ _), herased]
        · exact herased
      · left
        have herased := file?_eraseBelow_of_not_below hbelow t
        dsimp only
        split
        · have hq : q ≠ place path := by
            rintro rfl
            exact hbelow (Below.refl _)
          rw [file?_congr (find?_set_of_ne hq _ _), herased]
        · exact herased
    · exact .inl rfl

/-! ## Output directories -/

def NeverUp (path : String) : Prop := ".." ∉ parts path

theorem NeverUp.of_mem (h : NeverUp path) {part : String} (hpart : part ∈ parts path) :
    part ≠ ".." ∧ part ≠ "/" :=
  ⟨fun heq => h (heq ▸ hpart), ne_slash_of_mem_parts hpart⟩

theorem OnWay.below (h : OnWay path q) (hdown : NeverUp path) : Below q (place path) := by
  obtain ⟨ps, ⟨rest, hparts⟩, rfl⟩ := h
  rw [place, ← hparts, List.foldl_append]
  refine Below.foldl_down fun part hpart => hdown.of_mem ?_
  rw [← hparts]
  exact List.mem_append_right _ hpart

theorem Leads.of_wellFormed (h : Leads t' p ps q) (hdown : ∀ part ∈ ps, part ≠ ".." ∧ part ≠ "/")
    (hwell : t.WellFormed) (hq : t.find? q = some .directory) : Leads t p ps q := by
  induction h with
  | nil => exact .nil _
  | @cons p next q part ps hstep _ hrest ih =>
      obtain ⟨-, hps⟩ := List.forall_mem_cons.1 hdown
      have hbelow : Below next q := by
        rw [hrest.eq_foldl]
        exact Below.foldl_down hps
      -- `next` is above `q` or is `q` itself
      refine .cons hstep ?_ (ih hps hq)
      by_cases heq : q = next
      · rw [← heq]
        exact hq
      · exact hwell.find?_above hq hbelow heq

/-- A path that leads to a place where no directory stands leads there in every well-formed tree
that has something there. -/
theorem WellFormed.resolve_eq {u : FileTree} {e : Entry} (hwell : u.WellFormed)
    (hresolve : t.resolve path = .ok p) (hp : t.find? p ≠ some .directory) (hdown : NeverUp path)
    (hthere : u.find? p = some e) : u.resolve path = .ok p := by
  have hfixed := isFixed_eq_false hp
  obtain ⟨hadmissible, hdescend⟩ := resolve_eq_ok.1 hresolve
  refine resolve_eq_ok.2 ⟨hadmissible, ?_⟩
  cases hparts : parts path using List.reverseRecOn with
  | nil =>
      rw [hparts] at hdescend
      exact hdescend
  | append_singleton ps part =>
      rw [hparts] at hdescend
      obtain ⟨q, hlead, hstep⟩ := exists_leads_of_descend hdescend
      have hpart : part ≠ ".." := (hdown.of_mem (hparts ▸ List.mem_append_right _ (by simp))).1
      have hps : ∀ part ∈ ps, part ≠ ".." ∧ part ≠ "/" := fun part hmem =>
        hdown.of_mem (hparts ▸ List.mem_append_left _ hmem)
      -- the directory that the last part leads on from is the one that `p` stands in
      have habove : u.find? q = some .directory := by
        have hdirectory := hlead.isDirectory (find?_start path t)
        obtain rfl := eq_down_of_step hstep
        unfold down at hp hfixed hthere
        rw [if_neg hpart] at hp hfixed hthere
        split at hp
        · exact absurd hdirectory hp
        · rename_i hdot
          rw [if_neg hdot] at hfixed hthere
          have hdropped := hwell.find?_dropLast hthere hfixed
          rwa [List.dropLast_concat] at hdropped
      rw [(hlead.of_wellFormed hps hwell habove).descend_append]
      exact hstep

end FileTree

namespace FileM

open FileTree

theorem gainsOnWay_makeLast (path : String) (t : FileTree) :
    Gains (fun _ => True) (OnWay path) t (makeLast path t).2 := by
  rcases makeLast_cases path t with ⟨p, hresolve, hp, hrun⟩ | ⟨-, hrun⟩ | ⟨e, hrun, -⟩
  · rw [hrun]
    refine Gains.set hp ?_
    rw [eq_place_of_resolve hresolve]
    exact onWay_place path
  · rw [hrun]
    exact Gains.refl _ _ t
  · rw [hrun]
    exact Gains.refl _ _ t

/-- Making the directories of a path adds them at places that it leads through. -/
theorem gainsOnWay_makeDirectories (path : List Char) (t : FileTree) :
    Gains (fun _ => True) (OnWay (String.ofList path)) t (makeDirectories path t).2 := by
  refine makeDirectories_induction (fun l hl hstart u h => h.trans ?_) (Gains.refl _ _ t)
  refine (gainsOnWay_makeLast _ u).mono (fun _ => id) ?_
  rintro q ⟨ps, hps, rfl⟩
  rw [parts_ofList] at hps
  refine ⟨ps, ?_, by rw [hstart]⟩
  rw [parts_ofList]
  exact hps.trans hl

theorem wellFormed_makeLast (path : String) {t : FileTree} (h : t.WellFormed) :
    (makeLast path t).2.WellFormed := by
  rcases makeLast_cases path t with ⟨p, hresolve, hp, hrun⟩ | ⟨-, hrun⟩ | ⟨e, hrun, -⟩
  · rw [hrun]
    exact h.set (by simp [hp]) (h.find?_dropLast_of_resolve hresolve hp) _
  · rw [hrun]
    exact h
  · rw [hrun]
    exact h

theorem wellFormed_makeDirectories (path : List Char) {t : FileTree} (h : t.WellFormed) :
    (makeDirectories path t).2.WellFormed :=
  makeDirectories_induction (fun _ _ _ _ hu => wellFormed_makeLast _ hu) h

end FileM

end WireBindings
