import Mathlib.Data.List.Nodup
import WireBindings.Target.JavaText
import WireBindings.Target.PythonText

/-!
# Names with reserved words set apart

Both targets mark a name that is a reserved word and leave every other name as it is. A marked word
is not reserved, so two names become one only if one of them is the marked form of the other.
-/

namespace WireBindings.Target

/-- A way to set reserved words apart. -/
structure Escaping where
  reserved : String → Bool
  mark : String → String
  injective : Function.Injective mark
  free : ∀ word, reserved word = true → ¬ reserved (mark word) = true

namespace Escaping

variable (e : Escaping) {a b : String}

def escape (name : String) : String := if e.reserved name then e.mark name else name

theorem escape_of_reserved (h : e.reserved a = true) : e.escape a = e.mark a := if_pos h

theorem escape_of_not_reserved (h : ¬ e.reserved a = true) : e.escape a = a := if_neg h

theorem escape_mark (h : e.reserved a = true) : e.escape (e.mark a) = e.mark a :=
  e.escape_of_not_reserved (e.free a h)

theorem ne_mark (h : e.reserved a = true) : a ≠ e.mark a := fun heq => e.free a h (heq ▸ h)

theorem escape_eq_escape_iff : e.escape a = e.escape b ↔
    a = b ∨ e.reserved a = true ∧ b = e.mark a ∨ e.reserved b = true ∧ a = e.mark b := by
  constructor
  · intro h
    by_cases ha : e.reserved a = true
    · rw [e.escape_of_reserved ha] at h
      by_cases hb : e.reserved b = true
      · rw [e.escape_of_reserved hb] at h
        exact .inl (e.injective h)
      · rw [e.escape_of_not_reserved hb] at h
        exact .inr (.inl ⟨ha, h.symm⟩)
    · rw [e.escape_of_not_reserved ha] at h
      by_cases hb : e.reserved b = true
      · rw [e.escape_of_reserved hb] at h
        exact .inr (.inr ⟨hb, h⟩)
      · rw [e.escape_of_not_reserved hb] at h
        exact .inl h
  · rintro (rfl | ⟨ha, rfl⟩ | ⟨hb, rfl⟩)
    · rfl
    · rw [e.escape_of_reserved ha, e.escape_mark ha]
    · rw [e.escape_of_reserved hb, e.escape_mark hb]

/-- Things with different names keep their escaped names apart unless one name is the marked form of
another. -/
theorem nodup_map_iff {α : Type} {l : List α} {name named : α → String}
    (hnamed : ∀ x, named x = e.escape (name x)) (h : (l.map name).Nodup) :
    (l.map named).Nodup ↔
      ∀ x ∈ l, e.reserved (name x) = true → ∀ y ∈ l, name y ≠ e.mark (name x) := by
  rw [List.nodup_map_iff_inj_on (h.of_map name)]
  simp only [hnamed, escape_eq_escape_iff]
  have hname := List.inj_on_of_nodup_map h
  constructor
  · intro hinj x hx hreserved y hy heq
    obtain rfl := hinj x hx y hy (.inr (.inl ⟨hreserved, heq⟩))
    exact e.ne_mark hreserved heq
  · rintro hapart x hx y hy (heq | ⟨hreserved, heq⟩ | ⟨hreserved, heq⟩)
    · exact hname hx hy heq
    · exact absurd heq (hapart x hx hreserved y hy)
    · exact absurd heq (hapart y hy hreserved x hx)

end Escaping

/-! ## Java -/

namespace Java

def escaping : Escaping where
  reserved := isReserved
  mark := ("_" ++ ·)
  injective _ _ := (String.append_right_inj "_").1
  free word h := by
    have hall : ∀ word ∈ reservedWords, ¬ isReserved ("_" ++ word) = true := by decide +kernel
    exact hall word (List.contains_iff_mem.1 h)

theorem safeIdentifier_eq_escape (name : String) :
    safeIdentifier name "" = escaping.escape name := by
  have h : safeIdentifier name "" = if isReserved name then "_" ++ name else name := by
    simp [safeIdentifier]
  exact h

end Java

/-! ## Python -/

namespace Python

theorem isReserved_iff {word : String} : isReserved word = true ↔ word ∈ reservedWords :=
  List.contains_iff_mem

def escaping : Escaping where
  reserved := isReserved
  mark := (· ++ "_")
  injective _ _ := (String.append_left_inj "_").1
  free word h := by
    have hall : ∀ word ∈ reservedWords, ¬ isReserved (word ++ "_") = true := by decide +kernel
    exact hall word (isReserved_iff.1 h)

theorem safeName_eq_escape (name : String) : safeName name "" = escaping.escape name := by
  have h : safeName name "" = if isReserved name then name ++ "_" else name := by simp [safeName]
  exact h

end Python

end WireBindings.Target
