import WireBindings.Decimal

/-!
# Values of the data format

A value as a text holds it: whole numbers apart from decimals, and the entries of an object in the
order in which their keys first appear.
-/

namespace WireBindings.Json

/-- A number: a whole one, one written with a fraction or an exponent, or one of the three spellings
beyond the decimals. -/
inductive Number
  | integer (n : Int)
  | decimal (d : Decimal)
  | infinity (negative : Bool)
  | notANumber
  deriving DecidableEq, Repr

inductive Value
  | null
  | bool (b : Bool)
  | number (n : Number)
  | text (s : String)
  | array (items : List Value)
  | object (entries : List (String × Value))

namespace Value

def kindName : Value → String
  | .null => "NoneType"
  | .bool _ => "bool"
  | .number (.integer _) => "int"
  | .number _ => "float"
  | .text _ => "str"
  | .array _ => "list"
  | .object _ => "dict"

def text? : Value → Option String
  | .text s => some s
  | _ => none

def items? : Value → Option (List Value)
  | .array items => some items
  | _ => none

def bool? : Value → Option Bool
  | .bool b => some b
  | _ => none

theorem text?_eq_some {v : Value} {s : String} : v.text? = some s ↔ v = .text s := by
  cases v <;> simp [text?]

theorem items?_eq_some {v : Value} {items : List Value} :
    v.items? = some items ↔ v = .array items := by
  cases v <;> simp [items?]

theorem bool?_eq_some {v : Value} {b : Bool} : v.bool? = some b ↔ v = .bool b := by
  cases v <;> simp [bool?]

def field? (key : String) : List (String × Value) → Option Value
  | [] => none
  | (k, v) :: entries => if k = key then some v else field? key entries

/-- Sets a key: a new one goes to the end, one that is there keeps its place. -/
def setField (key : String) (value : Value) : List (String × Value) → List (String × Value)
  | [] => [(key, value)]
  | (k, v) :: entries =>
    if k = key then (k, value) :: entries else (k, v) :: setField key value entries

theorem sizeOf_lt_of_field? {key : String} {entries : List (String × Value)} {v : Value}
    (h : field? key entries = some v) : sizeOf v < sizeOf entries := by
  induction entries with
  | nil => simp [field?] at h
  | cons e entries ih =>
    obtain ⟨k, w⟩ := e
    rw [field?] at h
    split at h
    · cases h
      simp only [List.cons.sizeOf_spec, Prod.mk.sizeOf_spec]
      omega
    · have := ih h
      simp only [List.cons.sizeOf_spec, Prod.mk.sizeOf_spec]
      omega

end Value

end WireBindings.Json
