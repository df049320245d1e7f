import WireBindings.Identifier.Constant
import WireBindings.Plan
import WireBindings.Target.Lines
import WireBindings.Target.PythonText

/-!
# Python module of a domain

One module for each domain: enumerations, data classes and aliases, and a protocol class with a
method for each signature and one for each subscription.
-/

namespace WireBindings.Target.Python

open Binding (DataType Descriptor Field Primitive TypeKind)

def primitiveType : Primitive → Except Failure String
  | .integer => .ok "int"
  | .number => .ok "float"
  | .string | .binary => .ok "str"
  | .boolean => .ok "bool"
  | .object => .ok "typing.Dict[str, typing.Any]"
  | .unlisted name => .error (.missingKey name)

/-- The annotation of a value in the module of a domain. Named types are quoted where the
annotation is evaluated when the module is loaded. -/
def typeText (domain : String) (quoted : Bool) : Descriptor → Except Failure String
  | .collection item => return "typing.List[" ++ (← typeText domain quoted item) ++ "]"
  | .named type =>
    let name := typeName type.domain type.name
    let name := if type.domain = domain then name else moduleName type.domain ++ "." ++ name
    .ok (if quoted then "\"" ++ name ++ "\"" else name)
  | .opaqueValue => .ok "typing.Any"
  | .primitive kind => primitiveType kind
  | .absent => .error .missingType

def advisoryLines (a : Advisory) : List String :=
  (if a.experimental then ["Experimental."] else []) ++
    (if a.deprecated then ["Deprecated."] else [])

def docstring (a : Advisory) : List String := docLines a.description ++ advisoryLines a

structure FieldText where
  name : String
  type : String
  initial : String
  docstring : List String
  deriving DecidableEq, Repr

/-- The body of a type: constants with their literals, fields, or what an alias stands for. -/
inductive TypeBody
  | symbols (pairs : List (String × String))
  | fields (fields : List FieldText)
  | target (hint : String)
  deriving DecidableEq, Repr

structure TypeText where
  kind : TypeKind
  name : String
  docstring : List String
  body : TypeBody
  deriving DecidableEq, Repr

structure MethodText where
  name : String
  parameters : String
  returns : String
  docstring : List String
  arguments : List (String × String)
  deriving DecidableEq, Repr

structure SubscriptionText where
  name : String
  eventName : String
  payload : String
  docstring : List String
  deriving DecidableEq, Repr

def fieldText (domain : String) (f : Field) : Except Failure FieldText := do
  let type ← typeText domain false f.type
  let metadata := "metadata=\x7b\"wire\": " ++ stringLiteral f.name ++ "\x7d"
  return {
    name := safeName f.name ""
    type := if f.optional then "typing.Optional[" ++ type ++ "]" else type
    initial :=
      if f.optional then "dataclasses.field(default=None, " ++ metadata ++ ")"
      else "dataclasses.field(" ++ metadata ++ ")"
    docstring := docstring f.advisory }

def typeBody (t : DataType) : Except Failure TypeBody := do
  match t.kind with
  | .enumeration =>
    return .symbols ((Identifier.constants t.values).map fun (name, literal) =>
      (name, stringLiteral literal))
  | .record => return .fields (← t.fields.mapM (fieldText t.domain))
  | .alias | .unlisted _ => return .target (← typeText t.domain true (t.target.getD .absent))

def dataTypeText (t : DataType) : Except Failure TypeText := do
  return {
    kind := t.kind
    name := typeName t.domain t.name
    docstring := docstring t.advisory
    body := ← typeBody t }

/-- A parameter with its annotation; an optional one has a default. -/
def parameterText (domain : String) (p : Field) : Except Failure String := do
  let type ← typeText domain false p.type
  let name := safeName p.name ""
  return if p.optional then name ++ ": typing.Optional[" ++ type ++ "] = None"
    else name ++ ": " ++ type

/-- The parameters of a method. A star stands before the first optional one, so that from there on
they are given by name. -/
def parameterTexts (domain : String) (starred : Bool) : List Field → Except Failure (List String)
  | [] => .ok []
  | p :: parameters => do
    let text ← parameterText domain p
    let rest ← parameterTexts domain (starred || p.optional) parameters
    return if p.optional && !starred then "*" :: text :: rest else text :: rest

def argumentText (p : Field) : String × String :=
  (safeName p.name "",
    " ".intercalate (docstring p.advisory ++ (if p.optional then ["Optional."] else [])))

def methodText (domain : String) (m : Plan.Signature) : Except Failure MethodText := do
  let parameters ← parameterTexts domain false m.parameters
  let returns ← match m.returns with
    | some d => typeText domain false d
    | none => pure "None"
  return {
    name := safeName m.name ""
    parameters := ", ".intercalate ("self" :: parameters)
    returns
    docstring := docstring m.advisory
    arguments := m.parameters.map argumentText }

def subscriptionText (domain : String) (s : Plan.Subscription) :
    Except Failure SubscriptionText := do
  return {
    name := safeName s.name ""
    eventName := markupLiteral s.eventName
    payload := ← typeText domain false (.named s.payload)
    docstring := docstring s.advisory }

def sourceRoot (package : String) : String := "src/" ++ dottedPath package

/-- A docstring over several lines at an indentation; no lines if it is empty. -/
def docstringLines (n : Nat) (lines : List String) : List String :=
  onlyIf (!lines.isEmpty) (indent n (["\"\"\""] ++ lines ++ ["\"\"\""]))

/-- A docstring on one line; no lines if it is empty. -/
def shortDocstring (n : Nat) (lines : List String) : List String :=
  onlyIf (!lines.isEmpty) (indent n ["\"\"\"" ++ " ".intercalate lines ++ "\"\"\""])

def bodyOrPass (lines : List String) : List String := if lines.isEmpty then ["    pass"] else lines

def classDocstring (lines : List String) : List String :=
  docstringLines 4 lines ++ onlyIf (!lines.isEmpty) [""]

def fieldLines (f : FieldText) : List String :=
  ["    " ++ f.name ++ ": " ++ f.type ++ " = " ++ f.initial] ++ shortDocstring 4 f.docstring

def typeLines (t : TypeText) : List String :=
  ["", ""] ++
    match t.body with
    | .symbols pairs =>
      ["class " ++ t.name ++ "(enum.Enum):"] ++ classDocstring t.docstring ++
        bodyOrPass (pairs.map fun (symbol, literal) => "    " ++ symbol ++ " = " ++ literal)
    | .fields fields =>
      ["@dataclasses.dataclass(kw_only=True)", "class " ++ t.name ++ ":"] ++
        classDocstring t.docstring ++ bodyOrPass (fields.flatMap fieldLines)
    | .target hint => [t.name ++ " = " ++ hint] ++ shortDocstring 0 t.docstring

def argumentLine (argument : String × String) : String :=
  "            " ++ argument.1 ++ ":" ++ (if argument.2.isEmpty then "" else " " ++ argument.2)

/-- The docstring of a method: its description, and then its parameters. -/
def methodDocstring (m : MethodText) : List String :=
  onlyIf (!m.docstring.isEmpty || !m.arguments.isEmpty) (
    ["        \"\"\""] ++ indent 8 m.docstring ++
      onlyIf (!m.arguments.isEmpty) (
        onlyIf (!m.docstring.isEmpty) [""] ++ ["        Args:"] ++ m.arguments.map argumentLine) ++
      ["        \"\"\""])

def methodLines (m : MethodText) : List String :=
  ["", "    def " ++ m.name ++ "(" ++ m.parameters ++ ") -> " ++ m.returns ++ ":"] ++
    methodDocstring m ++ ["        ..."]

def subscriptionLines (s : SubscriptionText) : List String :=
  ["",
    "    @_support.event_name(" ++ s.eventName ++ ")",
    "    def " ++ s.name ++ "(self, handler: _support.EventHandler[" ++ s.payload ++
      "]) -> _support.EventListener:"] ++
    docstringLines 8 s.docstring ++ ["        ..."]

def externalLines (externals : List String) : List String :=
  onlyIf (!externals.isEmpty) (
    ["", "if typing.TYPE_CHECKING:"] ++
      externals.map fun name => "    from . import " ++ moduleName name)

def domainFile (package version : String) (plan : Plan.Domain) : Except Failure File := do
  let d := plan.domain
  let doc := docstring d.advisory
  let types ← d.types.mapM dataTypeText
  let methods ← plan.methods.mapM (methodText d.name)
  let subscriptions ← plan.subscriptions.mapM (subscriptionText d.name)
  return {
    path := sourceRoot package ++ "/" ++ moduleName d.name ++ ".py"
    text := render (
      ["# " ++ headerText version] ++ docstringLines 0 doc ++
        ["",
          "from __future__ import annotations",
          "",
          "import dataclasses",
          "import enum",
          "import typing",
          "",
          "from . import _support"] ++
        externalLines d.externals ++
        types.flatMap typeLines ++
        ["", "", "class " ++ d.name ++ "(typing.Protocol):"] ++
        docstringLines 4 doc ++
        methods.flatMap methodLines ++
        subscriptions.flatMap subscriptionLines ++
        onlyIf (methods.isEmpty && subscriptions.isEmpty && doc.isEmpty) ["    pass"]) }

end WireBindings.Target.Python
