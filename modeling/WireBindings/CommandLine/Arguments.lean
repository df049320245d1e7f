import WireBindings.CommandLine.Interface
import WireBindings.Text.Digit
import WireBindings.Text.Quoted

/-!
# Reading arguments

Arguments as what they ask for. Each level first sorts all its arguments into words and then takes
them in order. The program's level ends with the name of a task, and what follows belongs to the
task.
-/

namespace WireBindings.CommandLine

inductive Word
  | plain
  /-- Two dashes, the first that occur: all that follows is plain. -/
  | separator
  /-- An option, with a value after an equals sign if there is one. -/
  | option (key : Key) (value : Option String)
  /-- The letter of help with more behind it, or with what an equals sign gives to it. -/
  | letters (rest : List Char)
  /-- What looks like an option but is none of this level. -/
  | unknown
  deriving DecidableEq, Repr

inductive Refusal
  | ambiguous (argument : String) (candidates : List String)
  | ignoredValue (key : Key) (value : String)
  | missingValue (key : Key)
  | badChoice (option value : String) (choices : List String)
  | missing (keys : List Key)
  | unrecognized (arguments : List String)
  deriving DecidableEq, Repr

def Refusal.message : Refusal → String
  | .ambiguous argument candidates =>
    "ambiguous option: " ++ argument ++ " could match " ++ ", ".intercalate candidates
  | .ignoredValue key value =>
    "argument " ++ "/".intercalate key.spellings ++ ": ignored explicit argument " ++
      Text.quoted value
  | .missingValue key => "argument " ++ key.name ++ ": expected one argument"
  | .badChoice option value choices =>
    "argument " ++ option ++ ": invalid choice: " ++ Text.quoted value ++ " (choose from " ++
      ", ".intercalate (choices.map Text.quoted) ++ ")"
  | .missing keys =>
    "the following arguments are required: " ++ ", ".intercalate (keys.map Key.name)
  | .unrecognized arguments => "unrecognized arguments: " ++ " ".intercalate arguments

inductive Stop
  /-- The help of a level is asked for. -/
  | help (level : Level)
  | refused (level : Level) (refusal : Refusal)
  deriving DecidableEq, Repr

def splitAssigned : List Char → Option (List Char × List Char)
  | [] => none
  | '=' :: s => some ([], s)
  | c :: s => (splitAssigned s).map fun (name, value) => (c :: name, value)

/-- Whether characters are a negative number: digits after the dash, or digits on both sides of a
point, those before it left out at will. One line feed may follow. -/
def isNegativeNumber (s : List Char) : Bool :=
  let s := if s.getLast? = some '\n' then s.dropLast else s
  match s with
  | '-' :: digits =>
    match digits.dropWhile Text.isDecimalDigit with
    | [] => !digits.isEmpty
    | '.' :: places => !places.isEmpty && places.all Text.isDecimalDigit
    | _ => false
  | _ => false

/-- A word that is no option of the level although it starts with a dash. -/
def leftover (s : List Char) : Word :=
  if isNegativeNumber s || s.contains ' ' then .plain else .unknown

def Level.completions (level : Level) (start : List Char) : List Key :=
  level.keys.filter fun key => start.isPrefixOf key.name.toList

/-- An argument as a word of a level. Names may be cut short as long as one option remains. -/
def Level.word (level : Level) (argument : String) : Except Refusal Word :=
  let s := argument.toList
  if argument = "--" then .ok .separator
  else if s.head? ≠ some '-' || s.length = 1 then .ok .plain
  else
    match level.key? argument, splitAssigned s with
    | some key, _ => .ok (.option key none)
    | none, assigned =>
      let name := (assigned.map Prod.fst).getD s
      let value := assigned.map fun p => String.ofList p.2
      if name = ['-', 'h'] then .ok (.letters ((assigned.map Prod.snd).getD []))
      else if ['-', '-'].isPrefixOf s then
        match level.key? (String.ofList name), level.completions name with
        | some key, _ => .ok (.option key value)
        | none, [] => .ok (leftover s)
        | none, [key] => .ok (.option key value)
        | none, candidates => .error (.ambiguous argument (candidates.map Key.name))
      else if ['-', 'h'].isPrefixOf s then .ok (.letters (s.drop 2))
      else .ok (leftover s)

def Level.words (level : Level) : List String → Except Refusal (List (String × Word))
  | [] => .ok []
  | argument :: arguments => do
    let word ← level.word argument
    -- all that follows the first two dashes is plain
    if word = .separator then return (argument, .separator) :: arguments.map fun a => (a, .plain)
    else return (argument, word) :: (← level.words arguments)

/-- What stands behind the letter of help: the same letter again, any number of times, asks for
help. What is left after those is a value, and help takes none. -/
def letters (level : Level) (rest : List Char) : Stop :=
  let value := rest.dropWhile (· = 'h')
  if value.isEmpty && !rest.isEmpty then .help level
  else .refused level (.ignoredValue .help (String.ofList value))

def flag (level : Level) (key : Key) (value : Option String) : Except Stop Unit :=
  match value with
  | some v => .error (.refused level (.ignoredValue key v))
  | none => if key = .help then .error (.help level) else .ok ()

/-- What the arguments of a task say: the options that are given, some with a value, and the
operands. -/
structure Given where
  settings : List (Key × Option String) := []
  operands : List String := []
  unrecognized : List String := []
  deriving DecidableEq, Repr

namespace Given

def setting? (g : Given) (key : Key) : Option (Option String) := g.settings.reverse.lookup key

def value? (g : Given) (key : Key) : Option String := (g.setting? key).join

def has (g : Given) (key : Key) : Bool := (g.setting? key).isSome

def put (g : Given) (key : Key) (value : Option String) : Given :=
  { g with settings := g.settings ++ [(key, value)] }

def set (g : Given) (level : Level) (key : Key) (value : String) : Except Stop Given :=
  -- two dashes are no value, yet they do not leave the option out
  if value = "--" then .ok (g.put key none)
  else if !key.choices.isEmpty && !key.choices.contains value then
    .error (.refused level (.badChoice key.name value key.choices))
  else .ok (g.put key (some value))

end Given

/-- Where operands may stand: in one run of plain words. -/
inductive Run
  | ahead
  | inside
  | past
  deriving DecidableEq, Repr

def Run.interrupt : Run → Run
  | .ahead => .ahead
  | .inside | .past => .past

def takeTask (level : Level) (g : Given) (run : Run) : List (String × Word) → Except Stop Given
  | [] => .ok g
  | (argument, .plain) :: words =>
    -- plain words outside the one run of operands are not recognized
    if run = .past then
      takeTask level { g with unrecognized := g.unrecognized ++ [argument] } .past words
    else takeTask level { g with operands := g.operands ++ [argument] } .inside words
  | (argument, .separator) :: words =>
    if run = .past then
      takeTask level { g with unrecognized := g.unrecognized ++ [argument] } .past words
    else takeTask level g .inside words
  | (_, .option key none) :: words =>
    if key.takesValue then
      match words with
      | (value, .plain) :: words => do
        takeTask level (← g.set level key value) run.interrupt words
      | _ => .error (.refused level (.missingValue key))
    else do
      flag level key none
      takeTask level (g.put key none) run.interrupt words
  | (_, .option key (some value)) :: words => do
    if key.takesValue then takeTask level (← g.set level key value) run.interrupt words
    else
      flag level key (some value)
      takeTask level g run.interrupt words
  | (_, .letters rest) :: _ => .error (letters level rest)
  | (argument, .unknown) :: words =>
    takeTask level { g with unrecognized := g.unrecognized ++ [argument] } run.interrupt words

def readTask (t : Task) (arguments : List String) : Except Stop Given := do
  let level := Level.task t
  let words ← (level.words arguments).mapError (Stop.refused level)
  let g ← takeTask level {} .ahead words
  match level.keys.filter fun key => key.isRequired && !g.has key with
  | [] => return g
  | missing => throw (.refused level (.missing missing))

structure Invocation where
  version : Bool := false
  verbose : Bool := false
  task : Option (Task × Given) := none
  unrecognized : List String := []
  deriving DecidableEq, Repr

def Invocation.choose (i : Invocation) (name : String) (arguments : List String) :
    Except Stop Invocation :=
  match Task.ofName? name with
  | none => .error (.refused .top (.badChoice "command" name (Task.all.map Task.name)))
  | some t => do
    let g ← readTask t arguments
    return { i with task := some (t, g), unrecognized := i.unrecognized ++ g.unrecognized }

def takeTop (i : Invocation) : List (String × Word) → Except Stop Invocation
  | [] => .ok i
  | (name, .plain) :: words => i.choose name (words.map Prod.fst)
  | [(argument, .separator)] => .ok { i with unrecognized := i.unrecognized ++ [argument] }
  | (argument, .separator) :: words => i.choose argument (words.map Prod.fst)
  | (_, .option key value) :: words => do
    flag .top key value
    takeTop { i with
      version := i.version || key = .version, verbose := i.verbose || key = .verbose } words
  | (_, .letters rest) :: _ => .error (letters .top rest)
  | (argument, .unknown) :: words =>
    takeTop { i with unrecognized := i.unrecognized ++ [argument] } words

def readArguments (arguments : List String) : Except Stop Invocation := do
  let words ← (Level.top.words arguments).mapError (Stop.refused .top)
  let i ← takeTop {} words
  if i.unrecognized.isEmpty then return i
  else throw (.refused .top (.unrecognized i.unrecognized))

end WireBindings.CommandLine
