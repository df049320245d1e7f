/-!
# Lines of generated files

Generated text is put together as a list of lines.
-/

namespace WireBindings.Target

/-- A file of the output: its path below the output directory and its text. -/
structure File where
  path : String
  text : String
  deriving DecidableEq, Repr

def render (lines : List String) : String := String.join (lines.map fun line => line ++ "\n")

def indent (n : Nat) (lines : List String) : List String :=
  lines.map fun line => String.ofList (List.replicate n ' ') ++ line

def onlyIf (condition : Bool) (lines : List String) : List String := if condition then lines else []

def headerText (version : String) : String :=
  "Generated by cdpgen" ++ (if version.isEmpty then "" else " from protocol version " ++ version) ++
    ". Do not edit."

def dottedPath (name : String) : String :=
  String.ofList (name.toList.map fun c => if c = '.' then '/' else c)

def dottedParts (name : String) : List String :=
  (name.toList.splitOnP (· == '.')).map String.ofList

end WireBindings.Target
