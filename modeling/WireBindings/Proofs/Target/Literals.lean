/-!
# Reading literals

What the literals of both target languages have in common: a value that is read piece by piece, the
quotes around it, and escapes of octal digits.
-/

namespace WireBindings.Target

def behind {α : Type} (piece : List Nat) (rest : Option (List Nat × List α)) :
    Option (List Nat × List α) :=
  rest.map fun (value, after) => (piece ++ value, after)

theorem behind_nil {α : Type} (rest : Option (List Nat × List α)) : behind [] rest = rest :=
  Option.map_id'

theorem behind_behind {α : Type} (piece piece' : List Nat) (rest : Option (List Nat × List α)) :
    behind piece (behind piece' rest) = behind (piece ++ piece') rest := by
  rw [behind, behind, behind, Option.map_map]
  simp only [Function.comp_def, List.append_assoc]

theorem take_two_ne {α : Type} {quote : α} {written after : List α}
    (hwritten : written.head? ≠ some quote) (hafter : after.head? ≠ some quote) :
    (written ++ quote :: after).take 2 ≠ [quote, quote] := by
  intro htake
  cases written with
  | nil =>
      rw [List.nil_append, List.take_succ_cons] at htake
      have htail := congrArg List.head? (List.tail_eq_of_cons_eq htake)
      rw [List.head?_take, if_neg Nat.one_ne_zero, List.head?_cons] at htail
      exact hafter htail
  | cons n written =>
      rw [List.cons_append, List.take_succ_cons] at htake
      exact hwritten (congrArg some (List.head_eq_of_cons_eq htake))

def isOctalDigit (n : Nat) : Bool := '0'.toNat ≤ n && n ≤ '7'.toNat

def octalNumber (digits : List Nat) : Nat :=
  digits.foldl (fun n digit => 8 * n + (digit - '0'.toNat)) 0

end WireBindings.Target
