import WireBindings.Compilation

/-!
# The command line's interface

What can be asked for on the command line: the tasks, and the options that each level understands.
-/

namespace WireBindings.CommandLine

def programName : String := "cdpgen"

def versionText : String := programName ++ " 0.1.0"

def summary : String := "Compile remote-debugging protocol schemas into client bindings."

inductive Task
  | java
  | python
  | check
  deriving DecidableEq, Repr

namespace Task

def all : List Task := [.java, .python, .check]

def name : Task → String
  | .java => "cdp2java"
  | .python => "cdp2py"
  | .check => "cdpcheck"

def description : Task → String
  | .java => "Compile a protocol schema to Java interfaces"
  | .python => "Compile a protocol schema to a Python package"
  | .check => "Validate a protocol schema and print a summary"

def ofName? (s : String) : Option Task := all.find? fun task => task.name = s

end Task

inductive Key
  | help
  | version
  | verbose
  | out
  | package
  | overloads
  | jackson
  deriving DecidableEq, Repr

namespace Key

def name : Key → String
  | .help => "--help"
  | .version => "--version"
  | .verbose => "--verbose"
  | .out => "--out"
  | .package => "--package"
  | .overloads => "--overloads"
  | .jackson => "--jackson-annotation"

/-- All spellings of an option. The one with a single letter is that of help. -/
def spellings (key : Key) : List String :=
  if key = .help then ["-h", key.name] else [key.name]

def choices : Key → List String
  | .overloads => [Plan.Overloads.tiered, .full].map Plan.Overloads.name
  | _ => []

/-- What stands for an option's value in a usage text; none for an option that takes no value. -/
def placeholder? : Key → Option String
  | .out => some "OUT"
  | .package => some "PACKAGE"
  | .overloads => some ("\x7b" ++ ",".intercalate (choices .overloads) ++ "\x7d")
  | .help | .version | .verbose | .jackson => none

def takesValue (key : Key) : Bool := key.placeholder?.isSome

def isRequired (key : Key) : Bool := key = .out

end Key

/-- The levels of arguments: those of the program and, after its name, those of a task. -/
inductive Level
  | top
  | task (t : Task)
  deriving DecidableEq, Repr

namespace Level

def program : Level → String
  | .top => programName
  | .task t => programName ++ " " ++ t.name

def keys : Level → List Key
  | .top => [.help, .version, .verbose]
  | .task .java => [.help, .out, .package, .overloads, .jackson]
  | .task .python => [.help, .out, .package]
  | .task .check => [.help]

def key? (level : Level) (spelling : String) : Option Key :=
  level.keys.find? fun key => key.spellings.contains spelling

end Level

end WireBindings.CommandLine
