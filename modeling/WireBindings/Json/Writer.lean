import WireBindings.Decimal.Shortest
import WireBindings.Json.Value
import WireBindings.Text.Hex

/-!
# Writing a value as a text

Values in plain ASCII, on one line or with an indentation of two spaces for each level. A character
outside ASCII is written as the `\u` escapes of its UTF-16 units.
-/

namespace WireBindings.Json

def unitEscape (n : Nat) : List Char := '\\' :: 'u' :: Text.hexDigits 4 n

def escapeLetter? (c : Char) : Option Char :=
  [('"', '"'), ('\\', '\\'), ('\n', 'n'), ('\r', 'r'), ('\t', 't'), ('\x08', 'b'),
    ('\x0c', 'f')].lookup c

def writtenChar (c : Char) : List Char :=
  let n := c.toNat
  match escapeLetter? c with
  | some letter => ['\\', letter]
  | none =>
    if 0x20 ≤ n ∧ n < 0x7f then [c]
    else if n < 0x10000 then unitEscape n
    else unitEscape (0xd800 + (n - 0x10000) / 0x400) ++ unitEscape (0xdc00 + (n - 0x10000) % 0x400)

def writtenText (s : String) : String :=
  String.ofList ('"' :: s.toList.flatMap writtenChar ++ ['"'])

def Number.written : Number → String
  | .integer n => toString n
  | .decimal d =>
    match Decimal.nearest d.coefficient d.exponent with
    | some _ => d.text
    | none => if d.negative then "-Infinity" else "Infinity"
  | .infinity negative => if negative then "-Infinity" else "Infinity"
  | .notANumber => "NaN"

inductive Layout
  | inline
  | indented
  deriving DecidableEq, Repr

namespace Layout

def lineStart (level : Nat) : String := String.ofList ('\n' :: List.replicate (2 * level) ' ')

def enclose (layout : Layout) (level : Nat) (opening closing : String) (items : List String) :
    String :=
  if items.isEmpty then opening ++ closing
  else
    match layout with
    | inline => opening ++ ", ".intercalate items ++ closing
    | indented =>
      opening ++ lineStart (level + 1) ++ ("," ++ lineStart (level + 1)).intercalate items ++
        lineStart level ++ closing

end Layout

namespace Value

mutual

def writeAt (layout : Layout) (level : Nat) : Value → String
  | .null => "null"
  | .bool b => if b then "true" else "false"
  | .number n => n.written
  | .text s => writtenText s
  | .array items => layout.enclose level "[" "]" (writeItems layout (level + 1) items)
  | .object entries => layout.enclose level "\x7b" "\x7d" (writeEntries layout (level + 1) entries)

def writeItems (layout : Layout) (level : Nat) : List Value → List String
  | [] => []
  | v :: items => writeAt layout level v :: writeItems layout level items

def writeEntries (layout : Layout) (level : Nat) : List (String × Value) → List String
  | [] => []
  | (key, v) :: entries =>
    (writtenText key ++ ": " ++ writeAt layout level v) :: writeEntries layout level entries

end

def write (layout : Layout) (v : Value) : String := writeAt layout 0 v

end Value

end WireBindings.Json
