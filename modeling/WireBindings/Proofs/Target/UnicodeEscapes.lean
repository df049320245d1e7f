import Mathlib.Algebra.Ring.Parity
import Mathlib.Data.List.Induction
import WireBindings.Text.Hex

/-!
# Unicode escapes

Source text is translated before it is cut into tokens: a backslash followed by `u` stands for a
code unit, everywhere and so in comments and literals as well, unless the backslash is itself the
second of a pair. A text without escapes is translated to its own code units.
-/

namespace WireBindings.Target.Java

/-- The code units of a character, a pair of surrogates beyond the first plane. -/
def codeUnits (c : Char) : List Nat :=
  if c.toNat < 0x10000 then [c.toNat]
  else [0xd800 + (c.toNat - 0x10000) / 0x400, 0xdc00 + (c.toNat - 0x10000) % 0x400]

def units (s : String) : List Nat := s.toList.flatMap codeUnits

inductive Phase
  /-- In plain text, right after backslashes that are even or odd in number. -/
  | text (even : Bool)
  /-- Behind the mark of an escape, which may be repeated. -/
  | mark
  /-- Among the digits of an escape, with their number so far. One is to come, and `more` others. -/
  | digits (n more : Nat)

/-- The code units of a source text; none if an escape lacks some of its four digits. -/
def translate : Phase → List Char → Option (List Nat)
  | .text _, [] => some []
  | .text even, c :: s =>
    if c = '\\' then
      if even && s.head? = some 'u' then translate .mark s
      else (codeUnits c ++ ·) <$> translate (.text !even) s
    else (codeUnits c ++ ·) <$> translate (.text true) s
  | .mark, c :: s =>
    if c = 'u' then translate .mark s
    else do translate (.digits (← Text.hexValue? c) 2) s
  | .digits n more, c :: s => do
    let n := 16 * n + (← Text.hexValue? c)
    match more with
    | 0 => (n :: ·) <$> translate (.text true) s
    | more + 1 => translate (.digits n more) s
  | .mark, [] | .digits _ _, [] => none

theorem codeUnits_cases (c : Char) : codeUnits c = [c.toNat] ∨
    ∃ high low, codeUnits c = [high, low] ∧ 0xd800 ≤ high ∧ 0xd800 ≤ low := by
  unfold codeUnits
  split
  · exact .inl rfl
  · exact .inr ⟨_, _, rfl, by omega, by omega⟩

theorem exists_of_flatMap_codeUnits {x : Char} (hx : x.toNat < 0xd800) {s : List Char}
    {before after : List Nat} (h : s.flatMap codeUnits = before ++ x.toNat :: after) :
    ∃ first rest, s = first ++ x :: rest ∧ first.flatMap codeUnits = before ∧
      rest.flatMap codeUnits = after := by
  induction s generalizing before with
  | nil => simp at h
  | cons c s ih =>
      have hlater {units before' : List Nat} (hunits : codeUnits c = units)
          (hs : s.flatMap codeUnits = before' ++ x.toNat :: after) :
          ∃ first rest, c :: s = first ++ x :: rest ∧
            first.flatMap codeUnits = units ++ before' ∧ rest.flatMap codeUnits = after := by
        obtain ⟨first, rest, rfl, rfl, rfl⟩ := ih hs
        exact ⟨c :: first, rest, rfl, by rw [List.flatMap_cons, hunits], rfl⟩
      rw [List.flatMap_cons] at h
      rcases codeUnits_cases c with hc | ⟨high, low, hc, hhigh, hlow⟩
      · rw [hc] at h
        cases before with
        | nil =>
            obtain ⟨heq, rfl⟩ := List.cons.inj h
            obtain rfl := Char.toNat_inj.1 heq
            exact ⟨[], s, rfl, rfl, rfl⟩
        | cons m before =>
            simp only [List.cons_append, List.nil_append, List.cons.injEq] at h
            obtain ⟨rfl, h⟩ := h
            exact hlater hc h
      · rw [hc] at h
        -- neither half of a pair is the unit, so it stands behind both
        rcases before with _ | ⟨m, _ | ⟨n, before⟩⟩ <;>
          simp only [List.cons_append, List.nil_append, List.cons.injEq] at h
        · omega
        · omega
        · obtain ⟨rfl, rfl, h⟩ := h
          exact hlater hc h

theorem eq_nil_of_flatMap_codeUnits {s : List Char} (h : s.flatMap codeUnits = []) : s = [] := by
  cases s with
  | nil => rfl
  | cons c s => rcases codeUnits_cases c with hc | ⟨high, low, hc, -, -⟩ <;> simp [hc] at h

/-! ## Escapes -/

def backslashes (s : List Char) : Nat := (s.reverse.takeWhile (· = '\\')).length

/-- Somewhere a backslash with `u` behind it has an even number of backslashes before it. -/
def HasEscape (s : List Char) : Prop :=
  ∃ before after, s = before ++ '\\' :: 'u' :: after ∧ Even (backslashes before)

@[simp] theorem backslashes_nil : backslashes [] = 0 := rfl

theorem backslashes_concat (s : List Char) (c : Char) :
    backslashes (s ++ [c]) = if c = '\\' then backslashes s + 1 else 0 := by
  unfold backslashes
  rw [List.reverse_concat, List.takeWhile_cons]
  split <;> simp_all

/-- An escape is a `u` behind an odd number of backslashes. -/
theorem hasEscape_iff {s : List Char} : HasEscape s ↔
    ∃ before after, s = before ++ 'u' :: after ∧ Odd (backslashes before) := by
  constructor
  · rintro ⟨before, after, rfl, heven⟩
    refine ⟨before ++ ['\\'], after, by simp, ?_⟩
    rw [backslashes_concat, if_pos rfl]
    exact heven.add_one
  · rintro ⟨before, after, rfl, hodd⟩
    cases before using List.reverseRecOn with
    | nil => exact absurd hodd (by decide)
    | append_singleton before c _ =>
        rw [backslashes_concat] at hodd
        split at hodd
        · next hc =>
          subst hc
          exact ⟨before, after, by simp, Nat.not_odd_iff_even.1 (Nat.odd_add_one.1 hodd)⟩
        · exact absurd hodd (by decide)

/-- A text without escapes is translated to its own code units. -/
theorem translate_eq {s : List Char} (h : ¬ HasEscape s) :
    translate (.text true) s = some (s.flatMap codeUnits) := by
  -- the phase tells whether the backslashes that end the text before are even in number
  have hfrom (before : List Char) (hnone : ¬ HasEscape (before ++ s)) :
      translate (.text (decide (Even (backslashes before)))) s = some (s.flatMap codeUnits) := by
    clear h
    induction s generalizing before with
    | nil => rfl
    | cons c s ih =>
        have hrest := ih (before ++ [c]) (by simpa using hnone)
        rw [backslashes_concat] at hrest
        rw [translate, List.flatMap_cons]
        split
        · next hc =>
          subst hc
          have hplain : ¬ (decide (Even (backslashes before)) && s.head? = some 'u') = true := by
            rw [Bool.and_eq_true, decide_eq_true_eq, decide_eq_true_eq]
            rintro ⟨heven, hhead⟩
            obtain ⟨after, rfl⟩ := List.head?_eq_some_iff.1 hhead
            exact hnone ⟨before, after, rfl, heven⟩
          simp only [if_true, Nat.even_add_one, decide_not] at hrest
          rw [if_neg hplain, hrest]
          rfl
        · next hc =>
          simp only [if_neg hc, Even.zero, decide_true] at hrest
          rw [hrest]
          rfl
  exact hfrom [] h

end WireBindings.Target.Java
