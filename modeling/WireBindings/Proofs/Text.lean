import WireBindings.Text.Hex
import WireBindings.Text.Octets
import Mathlib.Algebra.Group.Nat.Defs
import Mathlib.Data.List.Basic

/-!
# Joined and split texts

What a joined text has comes from its pieces or from what is put between them. What a piece of a
split text has comes from the text, and none of it separates pieces. Line ends that are unified once
stay as they are. Hexadecimal digits stand for their number as far as they count it.
-/

namespace WireBindings.Text

variable {α : Type}

theorem reduceOption_map_some (xs : List α) : (xs.map some).reduceOption = xs :=
  List.filterMap_map.trans List.filterMap_some

/-! ## Joined texts -/

theorem intercalate_cons_eq_flatMap (separator first : List α) (rest : List (List α)) :
    separator.intercalate (first :: rest) = first ++ rest.flatMap (separator ++ ·) := by
  induction rest generalizing first with
  | nil => rw [List.intercalate_singleton, List.flatMap_nil, List.append_nil]
  | cons second rest ih =>
      rw [List.intercalate_cons_cons, ih, List.flatMap_cons, List.append_assoc, List.append_assoc]

theorem forall_mem_intercalate {p : α → Prop} {separator : List α} {pieces : List (List α)}
    (hseparator : ∀ x ∈ separator, p x) (h : ∀ piece ∈ pieces, ∀ x ∈ piece, p x) :
    ∀ x ∈ separator.intercalate pieces, p x := by
  cases pieces with
  | nil => exact nofun
  | cons first rest =>
      obtain ⟨hfirst, hrest⟩ := List.forall_mem_cons.1 h
      rw [intercalate_cons_eq_flatMap, List.forall_mem_append]
      refine ⟨hfirst, fun x hx => ?_⟩
      obtain ⟨piece, hpiece, hx⟩ := List.mem_flatMap.1 hx
      exact (List.mem_append.1 hx).elim (hseparator x) (hrest piece hpiece x)

theorem exists_getLast?_intercalate {x : α} {ws : List (List α)} (hne : ws ≠ [])
    (hws : ∀ w ∈ ws, w ≠ []) :
    ∃ w ∈ ws, ∃ c ∈ w, ([x].intercalate ws).getLast? = some c := by
  induction ws with
  | nil => exact absurd rfl hne
  | cons w ws ih =>
      cases ws with
      | nil =>
          have hw := hws w (by simp)
          refine ⟨w, by simp, w.getLast hw, List.getLast_mem hw, ?_⟩
          rw [List.intercalate_singleton, List.getLast?_eq_some_getLast hw]
      | cons v vs =>
          obtain ⟨u, hu, c, hc, hlast⟩ := ih (by simp) fun w hw => hws w (by simp [hw])
          refine ⟨u, by simp [hu], c, hc, ?_⟩
          rw [List.intercalate_cons_cons, List.getLast?_append, hlast]
          rfl

/-! ## Split texts -/

theorem mem_of_mem_splitOnP {p : α → Bool} {text piece : List α} (h : piece ∈ text.splitOnP p)
    {x : α} (hx : x ∈ piece) : x ∈ text ∧ p x = false := by
  induction text generalizing piece with
  | nil =>
      rw [List.splitOnP_nil, List.mem_singleton] at h
      exact absurd (h ▸ hx) List.not_mem_nil
  | cons a text ih =>
      have htext {piece : List α} (h : piece ∈ text.splitOnP p) (hx : x ∈ piece) :
          x ∈ a :: text ∧ p x = false := (ih h hx).imp_left (List.mem_cons_of_mem a)
      rw [List.splitOnP_cons_eq_if_modifyHead] at h
      split at h
      · rcases List.mem_cons.1 h with rfl | h
        · exact absurd hx List.not_mem_nil
        · exact htext h hx
      · next ha =>
        -- the first piece of the rest is continued to the left
        obtain ⟨first, rest, hsplit⟩ := List.exists_cons_of_ne_nil (List.splitOnP_ne_nil p text)
        rw [hsplit] at htext
        rw [hsplit, List.modifyHead_cons] at h
        rcases List.mem_cons.1 h with rfl | h
        · rcases List.mem_cons.1 hx with rfl | hx
          · exact ⟨List.mem_cons_self, Bool.eq_false_iff.2 ha⟩
          · exact htext List.mem_cons_self hx
        · exact htext (List.mem_cons_of_mem _ h) hx

/-! ## Line ends -/

theorem unifyLineEnds_of_notMem {s : List Char} (h : '\r' ∉ s) : unifyLineEnds s = s := by
  induction s with
  | nil => rfl
  | cons c s ih =>
      rw [List.mem_cons, not_or] at h
      cases s with
      | nil => rw [unifyLineEnds, if_neg (Ne.symm h.1)]
      | cons d s => rw [unifyLineEnds, if_neg (Ne.symm h.1), ih h.2]

theorem notMem_unifyLineEnds (s : List Char) : '\r' ∉ unifyLineEnds s := by
  fun_induction unifyLineEnds s with
  | case1 => exact List.not_mem_nil
  | case2 c =>
      rw [List.mem_singleton]
      split
      · decide
      · exact fun heq => absurd heq.symm ‹_›
  | case3 s ih => exact ih
  | case4 d s _ ih => simpa using ih
  | case5 c d s hc ih =>
      rw [List.mem_cons, not_or]
      exact ⟨fun heq => hc heq.symm, ih⟩

theorem unifyLineEnds_idem (s : List Char) :
    unifyLineEnds (unifyLineEnds s) = unifyLineEnds s :=
  unifyLineEnds_of_notMem (notMem_unifyLineEnds s)

/-! ## Hexadecimal digits -/

theorem hexNumber?_hexDigits (count n : Nat) :
    hexNumber? (hexDigits count n) = some (n % 16 ^ count) := by
  induction count generalizing n with
  | zero => simp [hexDigits, hexNumber?, Nat.mod_one]
  | succ count ih =>
    have hdigits := ih (n / 16)
    unfold hexNumber? at hdigits ⊢
    rw [hexDigits, List.foldlM_append, hdigits]
    simp only [List.foldlM_cons, List.foldlM_nil, hexValue?_hexDigit, Option.map_some,
      Option.bind_eq_bind, Option.bind_some, Option.pure_def, Option.some.injEq]
    rw [Nat.pow_succ', Nat.mod_mul, Nat.add_comm]

theorem hexNumber?_hexDigits_four {n : Nat} (h : n < 0x10000) :
    hexNumber? (hexDigits 4 n) = some n := by
  have hcount : n % 16 ^ 4 = n := Nat.mod_eq_of_lt h
  rw [hexNumber?_hexDigits, hcount]

theorem hexDigits_inj {count n m : Nat} :
    hexDigits count n = hexDigits count m ↔ n % 16 ^ count = m % 16 ^ count := by
  constructor
  · intro h
    have hread := congrArg hexNumber? h
    rw [hexNumber?_hexDigits, hexNumber?_hexDigits] at hread
    exact Option.some.inj hread
  · intro h
    induction count generalizing n m with
    | zero => rfl
    | succ count ih =>
      rw [Nat.pow_succ'] at h
      have hlast : n % 16 = m % 16 := by
        rw [← Nat.mod_mul_right_mod n 16 (16 ^ count), h, Nat.mod_mul_right_mod]
      have hrest : n / 16 % 16 ^ count = m / 16 % 16 ^ count := by
        rw [← Nat.mod_mul_right_div_self, h, Nat.mod_mul_right_div_self]
      rw [hexDigits, hexDigits, ih hrest, hexDigit, hexDigit, hlast]

end WireBindings.Text
