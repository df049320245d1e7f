import WireBindings.Proofs.FileTree.Paths
import WireBindings.Proofs.Outcome

/-!
# Operations on a file tree

What each operation does when it is not refused, and runs of operations one after another.
-/

namespace WireBindings

namespace FileTree

variable {t t' : FileTree} {path : String} {p : Place}

/-! ## Resolved paths -/

structure Admissible (path : String) : Prop where
  noZero : '\x00' ∉ path.toList
  ne_empty : path ≠ ""
  size_le : path.utf8ByteSize ≤ maxPathBytes

theorem Admissible.of_isPrefix {l path : List Char} (h : Admissible (String.ofList path))
    (hpre : l <+: path) (hne : l ≠ []) : Admissible (String.ofList l) := by
  obtain ⟨hzero, -, hsize⟩ := h
  obtain ⟨rest, rfl⟩ := hpre
  rw [String.toList_ofList, List.mem_append, not_or] at hzero
  rw [String.ofList_append, String.utf8ByteSize_append] at hsize
  refine ⟨?_, ?_, ?_⟩
  · rw [String.toList_ofList]
    exact hzero.1
  · simpa using hne
  · omega

theorem resolve_eq_ok :
    t.resolve path = .ok p ↔ Admissible path ∧ t.descend (start path) (parts path) = .ok p := by
  unfold resolve
  split
  · rename_i hzero
    simp only [reduceCtorEq, false_iff, not_and]
    exact fun h => absurd (List.contains_iff_mem.1 hzero) h.noZero
  · rename_i hzero
    split
    · rename_i hempty
      simp only [reduceCtorEq, false_iff, not_and]
      exact fun h => absurd (String.isEmpty_iff.1 hempty) h.ne_empty
    · rename_i hempty
      split
      · rename_i hsize
        simp only [reduceCtorEq, false_iff, not_and]
        exact fun h => absurd h.size_le (Nat.not_le.2 hsize)
      · rename_i hsize
        have hadmissible : Admissible path :=
          ⟨mt List.contains_iff_mem.2 hzero, mt String.isEmpty_iff.2 hempty, Nat.not_lt.1 hsize⟩
        exact ⟨fun h => ⟨hadmissible, h⟩, fun h => h.2⟩

/-- A path leads where it led before while the directories stay. -/
theorem resolve_mono (h : t.resolve path = .ok p)
    (hkeep : ∀ x, t.find? x = some .directory → t'.find? x = some .directory) :
    t'.resolve path = .ok p := by
  obtain ⟨hadmissible, hdescend⟩ := resolve_eq_ok.1 h
  refine resolve_eq_ok.2 ⟨hadmissible, ?_⟩
  cases hparts : parts path using List.reverseRecOn with
  | nil =>
      rw [hparts] at hdescend
      exact hdescend
  | append_singleton ps part =>
      rw [hparts] at hdescend
      obtain ⟨q, hq, hstep⟩ := exists_leads_of_descend hdescend
      rw [(hq.mono hkeep).descend_append]
      exact hstep

theorem leads_of_resolve (h : t.resolve path = .ok p)
    (hp : t.find? p = some .directory) : Leads t (start path) (parts path) p := by
  obtain ⟨-, hdescend⟩ := resolve_eq_ok.1 h
  cases hparts : parts path using List.reverseRecOn with
  | nil =>
      rw [hparts] at hdescend
      obtain rfl := Except.ok.inj hdescend
      exact .nil _
  | append_singleton ps part =>
      rw [hparts] at hdescend
      obtain ⟨q, hq, hstep⟩ := exists_leads_of_descend hdescend
      exact hq.concat hstep hp

theorem isFixed_eq_false (h : t.find? p ≠ some .directory) : isFixed p = false := by
  cases hfixed : isFixed p with
  | false => rfl
  | true => exact absurd (find?_of_isFixed hfixed t) h

theorem pathExists_of_directory (h : t.resolve path = .ok p) (hp : t.find? p = some .directory) :
    t.pathExists path = true := by
  unfold pathExists
  simp only [h, hp]

theorem exists_of_pathExists (h : t.pathExists path = true) :
    ∃ p e, t.resolve path = .ok p ∧ t.find? p = some e := by
  unfold pathExists at h
  split at h
  · cases h
  · rename_i p hresolve
    split at h
    · cases h
    · rename_i hp
      exact ⟨p, _, hresolve, hp⟩
    · rename_i hp
      exact ⟨p, _, hresolve, hp⟩

theorem isDirectory_eq_true :
    t.isDirectory path = true ↔ ∃ p, t.resolve path = .ok p ∧ t.find? p = some .directory := by
  unfold isDirectory
  cases t.resolve path <;> simp

/-! ## Operations -/

theorem makeDirectory_eq_ok :
    t.makeDirectory path = .ok t' ↔
      ∃ p, t.resolve path = .ok p ∧ t.find? p = none ∧ t' = t.set p .directory := by
  unfold makeDirectory
  cases hresolve : t.resolve path with
  | error fault => simp [bind, Except.bind]
  | ok p =>
      cases hfind : t.find? p with
      | none => simp [bind, Except.bind, pure, Except.pure, hfind, eq_comm]
      | some e => simp [bind, Except.bind, throw, throwThe, MonadExceptOf.throw, hfind]

theorem write_eq_ok {content : ByteArray} :
    t.write path content = .ok t' ↔
      ∃ p, t.resolve path = .ok p ∧ t.find? p ≠ some .directory ∧
        namesDirectory path = false ∧ t' = t.set p (.file content) := by
  unfold write
  cases hresolve : t.resolve path with
  | error fault => simp [bind, Except.bind]
  | ok p =>
      cases hnames : namesDirectory path <;> cases hfind : t.find? p with
      | none => simp [bind, Except.bind, pure, Except.pure, hfind, eq_comm, throw, throwThe,
          MonadExceptOf.throw]
      | some e =>
          cases e <;> simp [bind, Except.bind, pure, Except.pure, hfind, eq_comm, throw, throwThe,
            MonadExceptOf.throw]

theorem remove_eq_ok : t.remove path = .ok t' ↔ ∃ p content, t.resolve path = .ok p ∧
    t.find? p = some (.file content) ∧ namesDirectory path = false ∧ t' = t.erase p := by
  unfold remove
  cases t.resolve path with
  | error fault => simp [bind, Except.bind]
  | ok p =>
      cases hnames : namesDirectory path <;> rcases hfind : t.find? p with _ | (_ | _) <;>
        simp [bind, Except.bind, pure, Except.pure, hfind, eq_comm, throw, throwThe,
          MonadExceptOf.throw]

theorem move_eq_ok {source destination : String} :
    t.move source destination = .ok t' ↔
      ∃ p q content, t.resolve source = .ok p ∧ t.resolve destination = .ok q ∧
        t.find? p = some (.file content) ∧ t.find? q ≠ some .directory ∧
        namesDirectory source = false ∧ namesDirectory destination = false ∧
        t' = (t.erase p).set q (.file content) := by
  constructor
  · intro h
    unfold move at h
    obtain ⟨p, hsource, h⟩ := Outcome.bind_eq_ok.1 h
    obtain ⟨q, hdestination, h⟩ := Outcome.bind_eq_ok.1 h
    have hmoved {content : ByteArray} (hp : t.find? p = some (.file content))
        (hq : t.find? q ≠ some .directory)
        (h : (if namesDirectory source || namesDirectory destination then
          throw .notDirectory else pure ((t.erase p).set q (.file content)) :
            Except FileFault FileTree) = .ok t') :
        ∃ p q content, t.resolve source = .ok p ∧ t.resolve destination = .ok q ∧
          t.find? p = some (.file content) ∧ t.find? q ≠ some .directory ∧
          namesDirectory source = false ∧ namesDirectory destination = false ∧
          t' = (t.erase p).set q (.file content) := by
      split at h
      · cases h
      · rename_i hnames
        rw [Bool.not_eq_true, Bool.or_eq_false_iff] at hnames
        exact ⟨p, q, content, hsource, hdestination, hp, hq, hnames.1, hnames.2,
          (Outcome.pure_eq_ok.1 h).symm⟩
    rcases hp : t.find? p with _ | (content | _) <;>
      rcases hq : t.find? q with _ | (_ | _) <;> rw [hp, hq] at h
    case some.file.none => exact hmoved hp (by simp [hq]) h
    case some.file.some.file => exact hmoved hp (by simp [hq]) h
    all_goals cases h
  · rintro ⟨p, q, content, hsource, hdestination, hp, hq, hnames, hnames', rfl⟩
    unfold move
    rw [hsource, Outcome.ok_bind, hdestination, Outcome.ok_bind]
    split
    all_goals simp_all

theorem read_of_find? {content : ByteArray} (hresolve : t.resolve path = .ok p)
    (hp : t.find? p = some (.file content)) (hnames : namesDirectory path = false) :
    t.read path = .ok content := by
  unfold read
  rw [hresolve]
  simp [bind, Except.bind, hp, hnames, pure, Except.pure]

theorem read_of_write {content : ByteArray} (h : t.write path content = .ok t') :
    t'.read path = .ok content := by
  obtain ⟨p, hresolve, hfind, hnames, rfl⟩ := write_eq_ok.1 h
  have hkeep (x : Place) (hx : t.find? x = some .directory) :
      (t.set p (.file content)).find? x = some .directory := by
    have hne : x ≠ p := fun heq => hfind (heq ▸ hx)
    rw [find?_set_of_ne hne, hx]
  exact read_of_find? (resolve_mono hresolve hkeep) (find?_set_self (isFixed_eq_false hfind) t _)
    hnames

end FileTree

/-! ## Runs -/

namespace FileM

theorem change_eq_ok {path : String} {destination : Option String}
    {act : FileTree → Except FileFault FileTree} {t t' : FileTree} :
    change path destination act t = (.ok (), t') ↔ act t = .ok t' := by
  constructor
  · intro h
    unfold change at h
    split at h
    · rename_i hact
      cases h
      exact hact
    · cases h
  · intro h
    unfold change
    rw [h]

theorem change_of_error {path : String} {destination : Option String}
    {act : FileTree → Except FileFault FileTree} {t : FileTree} {fault : FileFault}
    (h : act t = .error fault) :
    change path destination act t = (.error { fault, path, destination }, t) := by
  unfold change
  rw [h]

theorem change_eq_error {path : String} {destination : Option String}
    {act : FileTree → Except FileFault FileTree} {t t' : FileTree} {e : FileError}
    (h : change path destination act t = (.error e, t')) :
    t' = t ∧ ∀ u, act t ≠ .ok u := by
  unfold change at h
  split at h
  · cases h
  · rename_i fault hact
    cases h
    exact ⟨rfl, fun u hok => nomatch hact.symm.trans hok⟩

theorem attempt_run {α : Type} (act : FileM α) (t : FileTree) :
    attempt act t = (.ok (act t).1, (act t).2) := rfl

theorem ask_run {α : Type} (f : FileTree → α) (t : FileTree) : ask f t = (.ok (f t), t) := rfl

theorem write_eq_ok {path : String} {content : ByteArray} {t t' : FileTree} :
    write path content t = (.ok (), t') ↔ t.write path content = .ok t' :=
  change_eq_ok

theorem read_of_eq_ok {path : String} {content : ByteArray} {t : FileTree}
    (h : t.read path = .ok content) : read path t = (.ok content, t) := by
  unfold read
  rw [h]

end FileM

end WireBindings
