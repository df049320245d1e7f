import WireBindings.Decimal.Shortest
import WireBindings.Json.Value
import WireBindings.Text.Quoted

/-!
# Displayed values

The text under which a value is shown where a text is wanted, such as a version component: a text is
shown as it is, and quoted only inside arrays and objects.
-/

namespace WireBindings.Json

/-- The text of a number: whole numbers in full, decimals with the fewest digits that read back. -/
def Number.display : Number → String
  | .integer n => toString n
  | .decimal d => d.text
  | .infinity negative => if negative then "-inf" else "inf"
  | .notANumber => "nan"

namespace Value

mutual

def displayNested : Value → String
  | .null => "None"
  | .bool b => if b then "True" else "False"
  | .number n => n.display
  | .text s => Text.quoted s
  | .array items => "[" ++ ", ".intercalate (displayItems items) ++ "]"
  | .object entries => "\x7b" ++ ", ".intercalate (displayEntries entries) ++ "\x7d"

def displayItems : List Value → List String
  | [] => []
  | v :: items => displayNested v :: displayItems items

def displayEntries : List (String × Value) → List String
  | [] => []
  | (key, v) :: entries => (Text.quoted key ++ ": " ++ displayNested v) :: displayEntries entries

end

def display : Value → String
  | .text s => s
  | v => v.displayNested

end Value

end WireBindings.Json
