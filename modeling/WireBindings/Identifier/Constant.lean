import WireBindings.Identifier.Words

/-!
# Constant names of literals

Every literal of an enumeration gets an upper-case name of its own. Literals that would get the same
name are told apart by a number, in the order in which they stand.
-/

namespace WireBindings.Identifier

def constantBase (literal : String) : String :=
  match splitChars literal.toList with
  | [] => "EMPTY"
  | ws =>
    let chars := ['_'].intercalate (ws.map (·.map Char.toUpper))
    if (chars.head?.map Char.isDigit).getD false then String.ofList ('_' :: chars)
    else String.ofList chars

/-- The constant names in use, each with the greatest number tried after it. -/
abbrev ConstantNames := List (String × Nat)

namespace ConstantNames

def count? (used : ConstantNames) (name : String) : Option Nat := used.lookup name

def set (used : ConstantNames) (name : String) (n : Nat) : ConstantNames :=
  match used with
  | [] => [(name, n)]
  | (k, m) :: used => if k = name then (k, n) :: used else (k, m) :: set used name n

def numbered (base : String) (n : Nat) : String := base ++ "_" ++ toString n

/-- The least number from `n` on whose numbered name is free, looking at `tries` of them. -/
def freeNumber (used : ConstantNames) (base : String) : Nat → Nat → Nat
  | 0, n => n
  | tries + 1, n =>
    if (used.count? (numbered base n)).isSome then freeNumber used base tries (n + 1) else n

/-- Takes the name of a literal: its base, or the base with the next free number. -/
def take (used : ConstantNames) (literal : String) : String × ConstantNames :=
  let base := constantBase literal
  match used.count? base with
  | none => (base, used.set base 1)
  | some last =>
    -- a list of `k` used names leaves one of any `k + 1` numbers free
    let n := freeNumber used base (used.length + 1) (last + 1)
    let name := numbered base n
    (name, (used.set base n).set name 1)

end ConstantNames

def constantsAfter (used : ConstantNames) : List String → List (String × String)
  | [] => []
  | literal :: literals =>
    let (name, used) := used.take literal
    (name, literal) :: constantsAfter used literals

def constants (literals : List String) : List (String × String) := constantsAfter [] literals

theorem map_snd_constantsAfter (used : ConstantNames) (literals : List String) :
    (constantsAfter used literals).map Prod.snd = literals := by
  induction literals generalizing used with
  | nil => rfl
  | cons literal literals ih =>
    rw [constantsAfter]
    exact congrArg (literal :: ·) (ih _)

theorem map_snd_constants (literals : List String) :
    (constants literals).map Prod.snd = literals := map_snd_constantsAfter [] literals

end WireBindings.Identifier
