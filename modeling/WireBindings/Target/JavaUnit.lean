import WireBindings.Identifier.Constant
import WireBindings.Plan
import WireBindings.Target.JavaScope
import WireBindings.Target.Lines

/-!
# Java interface of a domain

One interface for each domain: its data types nested in it, a method for each signature and one for
each subscription.
-/

namespace WireBindings.Target.Java

open Binding (DataType Descriptor Field TypeKind)

structure Options where
  package : String
  jackson : Bool := false
  deriving DecidableEq, Repr

structure FieldText where
  name : String
  type : String
  accessor : String
  comment : List String
  modifiers : String
  deriving DecidableEq, Repr

/-- The body of a nested type: constants with their literals, fields, or the class it extends. -/
inductive TypeBody
  | constants (pairs : List (String × String))
  | fields (fields : List FieldText)
  | base (name : String)
  deriving DecidableEq, Repr

structure TypeText where
  kind : TypeKind
  name : String
  comment : List String
  annotations : List String
  body : TypeBody
  deriving DecidableEq, Repr

structure MethodText where
  name : String
  returns : String
  parameters : String
  comment : List String
  annotations : List String
  deriving DecidableEq, Repr

structure SubscriptionText where
  name : String
  eventName : String
  payload : String
  comment : List String
  annotations : List String
  deriving DecidableEq, Repr

def fieldText (o : Options) (scope : Scope) (f : Field) : Except Failure FieldText := do
  let wire :=
    if o.jackson then ["@" ++ scope.wireName ++ "(" ++ stringLiteral f.name ++ ")"] else []
  let annotations := scope.annotations f.advisory f.optional ++ wire
  return {
    name := safeIdentifier f.name ""
    type := ← typeText scope f.type
    accessor := accessorSuffix f.name
    comment := docComment f.advisory.description []
    modifiers := String.join (annotations.map (· ++ " ")) }

/-- The items of a list type: an alias of a list extends the list of its items. -/
def itemOf : Descriptor → Descriptor
  | .collection item => item
  | target => target

def typeBody (o : Options) (scope : Scope) (t : DataType) : Except Failure TypeBody := do
  match t.kind with
  | .enumeration =>
    return .constants ((Identifier.constants t.values).map fun (name, literal) =>
      (name, stringLiteral literal))
  | .record => return .fields (← t.fields.mapM (fieldText o scope))
  | .alias | .unlisted _ =>
    let item := itemOf (t.target.getD .absent)
    return .base ("java.util.ArrayList<" ++ (← typeText scope item) ++ ">")

def dataTypeText (o : Options) (scope : Scope) (t : DataType) : Except Failure TypeText := do
  return {
    kind := t.kind
    name := typeName t.domain t.name
    comment := docComment t.advisory.description []
    annotations := scope.annotations t.advisory false
    body := ← typeBody o scope t }

def parameterText (scope : Scope) (p : Field) : Except Failure String := do
  let annotations := scope.annotations p.advisory p.optional ++
    ["@" ++ scope.reference "ParamName" ++ "(" ++ stringLiteral p.name ++ ")"]
  return " ".intercalate annotations ++ " " ++ (← typeText scope p.type) ++ " " ++
    safeIdentifier p.name ""

def methodText (scope : Scope) (m : Plan.Signature) : Except Failure MethodText := do
  let parameters ← m.parameters.mapM (parameterText scope)
  let returns ← match m.returns with
    | some d => typeText scope d
    | none => pure "void"
  return {
    name := safeIdentifier m.name ""
    returns
    parameters := ", ".intercalate parameters
    comment := docComment m.advisory.description (m.parameters.map fun p =>
      ⟨safeIdentifier p.name "", docLines p.advisory.description⟩)
    annotations := scope.annotations m.advisory false }

def subscriptionText (scope : Scope) (s : Plan.Subscription) : Except Failure SubscriptionText := do
  return {
    name := s.name
    eventName := stringLiteral s.eventName
    payload := ← typeText scope (.named s.payload)
    comment := docComment s.advisory.description []
    annotations := scope.annotations s.advisory false }

def sourceRoot (package : String) : String := "src/main/java/" ++ dottedPath package

def nestedNames (d : Binding.Domain) : List String := d.types.map fun t => typeName d.name t.name

def scopeOf (o : Options) (d : Binding.Domain) : Scope :=
  { package := o.package, domain := d.name, nested := nestedNames d }

/-- The types that a unit imports: the interfaces of other domains, the support types whose names
are free, and the wire name annotation; in ascending order. -/
def imports (o : Options) (scope : Scope) (externals : List String) : List String :=
  let interfaces := externals.map fun name => o.package ++ "." ++ name
  let support := (supportTypes.filter fun name => scope.reference name = name).map fun name =>
    o.package ++ "." ++ supportPackage ++ "." ++ name
  let wire := if o.jackson && scope.wireName == "JsonProperty" then [jacksonProperty] else []
  (interfaces ++ support ++ wire).mergeSort fun a b => decide (a ≤ b)

def enumerationLines (o : Options) (scope : Scope) (name : String)
    (pairs : List (String × String)) : List String :=
  let string := scope.reference "String"
  let constants := pairs.zipIdx.flatMap fun ((symbol, literal), i) =>
    onlyIf o.jackson ["        @" ++ scope.wireName ++ "(" ++ literal ++ ")"] ++
      ["        " ++ symbol ++ "(" ++ literal ++ ")" ++ (if i + 1 = pairs.length then ";" else ",")]
  ["    enum " ++ name ++ " \x7b"] ++
    (if pairs.isEmpty then ["        ;"] else constants) ++
    ["",
      "        private final " ++ string ++ " value;",
      "",
      "        " ++ name ++ "(" ++ string ++ " value) \x7b",
      "            this.value = value;",
      "        \x7d",
      "",
      "        public " ++ string ++ " getValue() \x7b",
      "            return value;",
      "        \x7d",
      "",
      "        @" ++ scope.reference "Override",
      "        public " ++ string ++ " toString() \x7b",
      "            return value;",
      "        \x7d",
      "    \x7d"]

def fieldLines (f : FieldText) : List String :=
  ["", "        " ++ f.modifiers ++ "private " ++ f.type ++ " " ++ f.name ++ ";"]

def accessorLines (f : FieldText) : List String :=
  [""] ++ indent 8 f.comment ++
    ["        public " ++ f.type ++ " get" ++ f.accessor ++ "() \x7b",
      "            return " ++ f.name ++ ";",
      "        \x7d",
      ""] ++ indent 8 f.comment ++
    ["        public void set" ++ f.accessor ++ "(" ++ f.type ++ " " ++ f.name ++ ") \x7b",
      "            this." ++ f.name ++ " = " ++ f.name ++ ";",
      "        \x7d"]

def classLines (name : String) (fields : List FieldText) : List String :=
  ["    class " ++ name ++ " \x7b"] ++
    fields.flatMap fieldLines ++ fields.flatMap accessorLines ++
    ["    \x7d"]

def typeLines (o : Options) (scope : Scope) (t : TypeText) : List String :=
  [""] ++ indent 4 t.comment ++ indent 4 t.annotations ++
    match t.body with
    | .constants pairs => enumerationLines o scope t.name pairs
    | .fields fields => classLines t.name fields
    | .base base => ["    class " ++ t.name ++ " extends " ++ base ++ " \x7b", "    \x7d"]

def methodLines (m : MethodText) : List String :=
  [""] ++ indent 4 m.comment ++ indent 4 m.annotations ++
    ["    " ++ m.returns ++ " " ++ m.name ++ "(" ++ m.parameters ++ ");"]

def subscriptionLines (scope : Scope) (s : SubscriptionText) : List String :=
  [""] ++ indent 4 s.comment ++ indent 4 s.annotations ++
    ["    @" ++ scope.reference "EventName" ++ "(" ++ s.eventName ++ ")",
      "    " ++ scope.reference "EventListener" ++ " " ++ s.name ++ "(" ++
        scope.reference "EventHandler" ++ "<" ++ s.payload ++ "> eventListener);"]

def domainFile (o : Options) (version : String) (plan : Plan.Domain) : Except Failure File := do
  let d := plan.domain
  let scope := scopeOf o d
  let types ← d.types.mapM (dataTypeText o scope)
  let methods ← plan.methods.mapM (methodText scope)
  let subscriptions ← plan.subscriptions.mapM (subscriptionText scope)
  let imported := imports o scope d.externals
  return {
    path := sourceRoot o.package ++ "/" ++ d.name ++ ".java"
    text := render (
      ["// " ++ headerText version, "package " ++ o.package ++ ";", ""] ++
        imported.map (fun name => "import " ++ name ++ ";") ++
        onlyIf (!imported.isEmpty) [""] ++
        docComment d.advisory.description [] ++
        scope.annotations d.advisory false ++
        ["public interface " ++ d.name ++ " \x7b"] ++
        types.flatMap (typeLines o scope) ++
        methods.flatMap methodLines ++
        subscriptions.flatMap (subscriptionLines scope) ++
        ["\x7d"]) }

end WireBindings.Target.Java
