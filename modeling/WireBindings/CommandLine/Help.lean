import WireBindings.CommandLine.Interface
import WireBindings.Documentation

/-!
# Usage and help

The usage of a level, broken into lines between its parts, and its help: a row for each argument,
with the explanations in one column.
-/

namespace WireBindings.CommandLine

def lineWidth : Nat := 78
def lastHintColumn : Nat := 24

def Key.hint : Key → String
  | .help => "show this help message and exit"
  | .version => "Print the version of cdpgen."
  | .verbose => "Log the progress of every compilation stage."
  | .out => "Output directory for the Maven project"
  | .package => "Java package of the generated interfaces"
  | .overloads =>
    "Overload policy: 'tiered' adds a shorter overload for commands with exactly one optional " ++
      "parameter, 'full' always emits one method"
  | .jackson => "Add Jackson annotations to enums and data classes"

namespace Level

def hint : Level → Key → String
  | .task .python, .out => "Output directory for the Python project"
  | .task .python, .package => "Name of the generated Python package"
  | _, key => key.hint

def optionParts (level : Level) : List String :=
  level.keys.flatMap fun key =>
    let short := key.spellings.headD key.name
    match key.placeholder?, key.isRequired with
    | none, _ => ["[" ++ short ++ "]"]
    | some value, true => [short, value]
    | some value, false => ["[" ++ short ++ " " ++ value ++ "]"]

def taskChoice : String := "\x7b" ++ ",".intercalate (Task.all.map Task.name) ++ "\x7d"

def operandParts : Level → List String
  | .top => [taskChoice, "..."]
  | .task _ => ["[input ...]"]

/-- Parts joined onto lines; `used` columns of the first are taken. -/
def fillParts (margin used : Nat) (line : List String) : List String → List (List String)
  | [] => if line.isEmpty then [] else [line]
  | part :: parts =>
    if used + 1 + part.length > lineWidth ∧ ¬ line.isEmpty then
      line :: fillParts margin (margin - 1 + part.length + 1) [part] parts
    else fillParts margin (used + part.length + 1) (line ++ [part]) parts

def usage (level : Level) : String :=
  let start := "usage: "
  let whole := start ++ " ".intercalate (level.program :: level.optionParts ++ level.operandParts)
  if whole.length ≤ lineWidth then whole ++ "\n"
  else
    let margin := start.length + level.program.length + 1
    let join (line : List String) := " ".intercalate line
    let indented (line : List String) := String.ofList (List.replicate margin ' ') ++ join line
    let parts := level.program :: level.optionParts
    let lines := match fillParts margin (start.length - 1) [] parts with
      | [] => []
      | first :: rest => (start ++ join first) :: rest.map indented
    let more := (fillParts margin (margin - 1) [] level.operandParts).map indented
    "\n".intercalate (lines ++ more) ++ "\n"

/-- One row of a help text: how far it is indented, the argument and its explanation. -/
structure Row where
  indentation : Nat := 2
  argument : String
  hint : String := ""

def optionRows (level : Level) : List Row :=
  level.keys.map fun key =>
    let value := (key.placeholder?.map (" " ++ ·)).getD ""
    { argument := ", ".intercalate (key.spellings.map (· ++ value)), hint := level.hint key }

def operandRows : Level → List Row
  | .top =>
    { argument := taskChoice } ::
      Task.all.map fun t => { indentation := 4, argument := t.name, hint := t.description }
  | .task _ =>
    [{ argument := "input"
       hint := "Path(s) to the protocol JSON file(s); reads stdin if omitted" }]

/-- The column in which the explanations of rows start: two after the longest argument, unless that
is too far. -/
def hintColumn (rows : List Row) : Nat :=
  min ((rows.map fun r => r.indentation + r.argument.length + 2).foldl max 0) lastHintColumn

/-- The lines of a row. The explanation starts beside the argument if two columns remain free, and
below it otherwise. -/
def Row.lines (column : Nat) (r : Row) : List String :=
  let spaces (n : Nat) := String.ofList (List.replicate n ' ')
  let header := spaces r.indentation ++ r.argument
  if r.hint.isEmpty then [header]
  else
    let hints := Documentation.wrapTo (lineWidth - column : Nat) r.hint
    if header.length + 2 ≤ column then
      match hints with
      | [] => [header]
      | first :: rest =>
        (header ++ spaces (column - header.length) ++ first) :: rest.map (spaces column ++ ·)
    else header :: hints.map (spaces column ++ ·)

def help (level : Level) : String :=
  let operands := level.operandRows
  let options := level.optionRows
  let column := hintColumn (operands ++ options)
  let block (title : String) (rows : List Row) : String :=
    "\n" ++ title ++ ":\n" ++ String.join ((rows.flatMap (Row.lines column)).map (· ++ "\n"))
  level.usage ++ (if level = .top then "\n" ++ summary ++ "\n" else "") ++
    block "positional arguments" operands ++ block "options" options

end Level

end WireBindings.CommandLine
