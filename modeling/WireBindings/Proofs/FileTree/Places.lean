import WireBindings.FileTree

/-!
# Places of a file tree

What stands at a place after a change, and the places that the parts of a path lead to. A path leads
through directories only, so what it leads to depends on these alone.
-/

namespace WireBindings.FileTree

/-! ## Changes seen from a place -/

theorem lookup_filter_key (f : Place → Bool) (q : Place) (entries : List (Place × Entry)) :
    (entries.filter fun x => f x.1).lookup q = if f q then entries.lookup q else none := by
  induction entries with
  | nil => simp
  | cons x entries ih =>
      obtain ⟨p, e⟩ := x
      rw [List.filter_cons, List.lookup_cons]
      by_cases hq : q = p
      · rw [hq] at ih ⊢
        cases hp : f p <;> simp [hp, ih]
      · rw [beq_false_of_ne hq]
        cases f p <;> simp [List.lookup_cons, beq_false_of_ne hq, ih]

theorem find?_of_isFixed {p : Place} (h : isFixed p = true) (t : FileTree) :
    t.find? p = some .directory := if_pos h

theorem find?_set_self {p : Place} (h : isFixed p = false) (t : FileTree) (e : Entry) :
    (t.set p e).find? p = some e := by
  unfold find? set
  rw [if_neg (by simp [h]), List.lookup_cons, beq_self_eq_true]

theorem find?_set_of_ne {p q : Place} (h : q ≠ p) (t : FileTree) (e : Entry) :
    (t.set p e).find? q = t.find? q := by
  unfold find? set
  split
  · rfl
  · rw [List.lookup_cons, beq_false_of_ne h, lookup_filter_key (fun x => decide (x ≠ p)),
      if_pos (by simpa using h)]

theorem set_set (t : FileTree) (p : Place) (e e' : Entry) : (t.set p e).set p e' = t.set p e' := by
  simp [set, List.filter_filter]

theorem find?_erase_of_ne {p q : Place} (h : q ≠ p) (t : FileTree) :
    (t.erase p).find? q = t.find? q := by
  unfold find? erase
  split
  · rfl
  · rw [lookup_filter_key (fun x => decide (x ≠ p)), if_pos (by simpa using h)]

theorem find?_erase_self {p : Place} (h : isFixed p = false) (t : FileTree) :
    (t.erase p).find? p = none := by
  unfold find? erase
  rw [if_neg (by simp [h]), lookup_filter_key (fun x => decide (x ≠ p)), if_neg (by simp)]

theorem find?_eraseBelow_of_isBelow {p q : Place} (h : isBelow p q = true)
    (hfixed : isFixed q = false) (t : FileTree) : (t.eraseBelow p).find? q = none := by
  unfold find? eraseBelow
  rw [if_neg (by simp [hfixed]), lookup_filter_key (fun x => !isBelow p x), if_neg (by simp [h])]

theorem find?_eraseBelow_of_not_isBelow {p q : Place} (h : isBelow p q = false) (t : FileTree) :
    (t.eraseBelow p).find? q = t.find? q := by
  unfold find? eraseBelow
  split
  · rfl
  · rw [lookup_filter_key (fun x => !isBelow p x), if_pos (by simp [h])]

theorem mem_entries_of_find? {t : FileTree} {p : Place} {e : Entry} (h : t.find? p = some e)
    (hfixed : isFixed p = false) : (p, e) ∈ t.entries := by
  unfold find? at h
  rw [if_neg (by simp [hfixed])] at h
  obtain ⟨l, l', hsplit, -⟩ := List.lookup_eq_some_iff.1 h
  simp [hsplit]

def file? (t : FileTree) (p : Place) : Option ByteArray :=
  match t.find? p with
  | some (.file content) => some content
  | _ => none

theorem file?_eq_some {t : FileTree} {p : Place} {content : ByteArray} :
    t.file? p = some content ↔ t.find? p = some (.file content) := by
  unfold file?
  split <;> simp_all

theorem file?_eq_none {t : FileTree} {p : Place} :
    t.file? p = none ↔ ∀ content, t.find? p ≠ some (.file content) := by
  unfold file?
  split <;> simp_all

theorem file?_congr {t t' : FileTree} {p : Place} (h : t.find? p = t'.find? p) :
    t.file? p = t'.file? p := by
  rw [file?, h, file?]

theorem file?_of_directory {t : FileTree} {p : Place} (h : t.find? p = some .directory) :
    t.file? p = none := by
  rw [file?, h]

theorem file?_of_none {t : FileTree} {p : Place} (h : t.find? p = none) : t.file? p = none := by
  rw [file?, h]

theorem file?_of_isFixed {p : Place} (h : isFixed p = true) (t : FileTree) : t.file? p = none :=
  file?_of_directory (find?_of_isFixed h t)

theorem file?_set_directory (t : FileTree) (p : Place) : (t.set p .directory).file? p = none := by
  cases hfixed : isFixed p with
  | true => exact file?_of_isFixed hfixed _
  | false => exact file?_of_directory (find?_set_self hfixed t _)

/-! ## Where parts lead -/

/-- The parts lead from one place to another, each of them to a directory. -/
inductive Leads (t : FileTree) : Place → List String → Place → Prop
  | nil (p : Place) : Leads t p [] p
  | cons {p next q : Place} {part : String} {rest : List String} (hstep : step p part = .ok next)
      (hnext : t.find? next = some .directory) (hrest : Leads t next rest q) :
      Leads t p (part :: rest) q

theorem descend_cons {t : FileTree} {p next : Place} {part : String}
    (hstep : step p part = .ok next) (hnext : t.find? next = some .directory)
    (rest : List String) : t.descend p (part :: rest) = t.descend next rest := by
  cases rest with
  | nil => exact hstep
  | cons part' rest =>
      rw [descend, hstep]
      · simp only [bind, Except.bind, hnext]
      · exact fun h => List.cons_ne_nil _ _ h

namespace Leads

variable {t t' : FileTree} {p q r : Place} {part : String} {ps ps' : List String}

theorem append (h : Leads t p ps q) (h' : Leads t q ps' r) : Leads t p (ps ++ ps') r := by
  induction h with
  | nil => exact h'
  | cons hstep hnext _ ih => exact .cons hstep hnext (ih h')

theorem concat (h : Leads t p ps q) (hstep : step q part = .ok r)
    (hr : t.find? r = some .directory) : Leads t p (ps ++ [part]) r :=
  h.append (.cons hstep hr (.nil r))

theorem exists_of_append (h : Leads t p (ps ++ ps') r) : ∃ q, Leads t p ps q ∧ Leads t q ps' r := by
  induction ps generalizing p with
  | nil => exact ⟨p, .nil p, h⟩
  | cons part ps ih =>
      cases h with
      | cons hstep hnext hrest =>
          obtain ⟨q, hq, hr⟩ := ih hrest
          exact ⟨q, .cons hstep hnext hq, hr⟩

/-- Directories lead where they led before, whatever else has changed. -/
theorem mono (h : Leads t p ps q)
    (hkeep : ∀ x, t.find? x = some .directory → t'.find? x = some .directory) :
    Leads t' p ps q := by
  induction h with
  | nil => exact .nil _
  | cons hstep hnext _ ih => exact .cons hstep (hkeep _ hnext) ih

theorem isDirectory (h : Leads t p ps q) (hp : t.find? p = some .directory) :
    t.find? q = some .directory := by
  induction h with
  | nil => exact hp
  | cons _ hnext _ ih => exact ih hnext

theorem descend_append (h : Leads t p ps q) (rest : List String) :
    t.descend p (ps ++ rest) = t.descend q rest := by
  induction h with
  | nil => rfl
  | @cons p next q part ps hstep hnext _ ih =>
      rw [List.cons_append, ← ih, descend_cons hstep hnext]

theorem descend (h : Leads t p ps q) : t.descend p ps = .ok q := by
  have happend := h.descend_append []
  rwa [List.append_nil] at happend

end Leads

/-- All parts but the last lead through directories. -/
theorem exists_leads_of_descend {t : FileTree} {p r : Place} {ps : List String} {part : String}
    (h : t.descend p (ps ++ [part]) = .ok r) : ∃ q, Leads t p ps q ∧ step q part = .ok r := by
  induction ps generalizing p with
  | nil => exact ⟨p, .nil p, h⟩
  | cons first ps ih =>
      obtain ⟨next, hstep, hnext⟩ : ∃ next, step p first = .ok next ∧
          t.find? next = some .directory := by
        cases hstep : step p first with
        | error fault => simp [descend, hstep, bind, Except.bind] at h
        | ok next =>
            cases hnext : t.find? next with
            | none => simp [descend, hstep, hnext, bind, Except.bind] at h
            | some e =>
                cases e with
                | file content => simp [descend, hstep, hnext, bind, Except.bind] at h
                | directory => exact ⟨next, rfl, hnext⟩
      rw [List.cons_append, descend_cons hstep hnext] at h
      obtain ⟨q, hq, hr⟩ := ih h
      exact ⟨q, .cons hstep hnext hq, hr⟩

end WireBindings.FileTree
