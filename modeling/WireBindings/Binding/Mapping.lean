import WireBindings.Binding.Alias
import WireBindings.Binding.Names
import WireBindings.Binding.Ordering
import WireBindings.Failure

/-!
# Binding a resolved document

References become descriptors, and everything that has a name of its own becomes a data type. An
alias is expanded where it is used, unless it is recursive: then it is a data type like the others.
-/

namespace WireBindings.Binding

open Schema (Shape Property TypeKey Resolution)

/-- What binding looks up: the resolved document, the synthesized names of each domain, and the
recursive aliases. -/
structure Context where
  resolution : Resolution
  namings : List (String × Naming)
  recursive : List TypeKey

namespace Context

def ofResolution (r : Resolution) : Except CompileError Context := do
  let namings ← r.document.domains.mapM fun d => return (d.name, ← Naming.ofDomain d)
  return { resolution := r, namings, recursive := r.recursiveAliases }

def nameAt (c : Context) (domain : String) (path : ShapePath) : Except Failure String :=
  match (c.namings.lookup domain).bind fun n => n.find? path with
  | some name => .ok name
  | none => .error (.missingKey (".".intercalate (domain :: path)))

def describeScalar : Schema.Scalar → Descriptor
  | .integer => .primitive .integer
  | .number => .primitive .number
  | .string => .primitive .string
  | .boolean => .primitive .boolean
  | .binary => .primitive .binary
  | .object => .primitive .object
  | .any => .opaqueValue

/-- The descriptor of a shape at a path of a domain, where `follow` describes what a reference leads
to. -/
def describeWith (c : Context) (follow : TypeKey → Except Failure Descriptor) (domain : String)
    (path : ShapePath) : Shape → Except Failure Descriptor
  | .reference target =>
    match c.resolution.target? domain target with
    | some key => follow key
    | none => .error (.missingKey (domain ++ "." ++ target))
  | .scalar kind => .ok (describeScalar kind)
  | .enumeration _ => return .named ⟨domain, ← c.nameAt domain path, .enumeration⟩
  | .record _ => return .named ⟨domain, ← c.nameAt domain path, .record⟩
  | .array item => return .collection (← c.describeWith follow domain (path ++ ["items"]) item)

/-- The descriptor of a reference to a declared type. The expansion of an alias passes at most
`depth` further aliases. -/
def follow (c : Context) (depth : Nat) (key : TypeKey) : Except Failure Descriptor :=
  match c.resolution.table.find? key with
  | none => .error (.missingKey key.qualifiedName)
  | some t =>
    match t.shape.role with
    | .enumeration => .ok (.named ⟨key.domain, t.id, .enumeration⟩)
    | .record => .ok (.named ⟨key.domain, t.id, .record⟩)
    | .array | .primitive =>
      -- an alias that leads back to itself has no finite expansion and keeps its name
      if c.recursive.contains key then .ok (.named ⟨key.domain, t.id, .alias⟩)
      else
        match depth with
        | 0 => .error (.missingKey key.qualifiedName)
        | depth + 1 => c.describeWith (c.follow depth) key.domain (.ofType t.id) t.shape

def describe (c : Context) : String → ShapePath → Shape → Except Failure Descriptor :=
  -- a chain of aliases that are not recursive has at most as many members as there are types
  c.describeWith (c.follow c.resolution.table.types.length)

def field (c : Context) (domain : String) (path : ShapePath) (p : Property) :
    Except Failure Field := do
  return { name := p.name, type := ← c.describe domain (path ++ [p.name]) p.type,
           optional := p.optional, advisory := p.advisory }

def fields (c : Context) (domain : String) (path : ShapePath) (properties : List Property) :
    Except Failure (List Field) :=
  properties.mapM (c.field domain path)

mutual

def inlineTypes (c : Context) (domain description : String) (path : ShapePath) :
    Shape → Except Failure (List DataType)
  | .reference _ | .scalar _ => .ok []
  | .enumeration literals => do
    return [{ domain, name := ← c.nameAt domain path, kind := .enumeration, origin := .inline,
              values := literals, advisory := { description } }]
  | .record properties => do
    let path' := path ++ ["properties"]
    let record : DataType :=
      { domain, name := ← c.nameAt domain path, kind := .record, origin := .inline,
        fields := ← c.fields domain path' properties, advisory := { description } }
    return record :: (← c.inlineMembers domain path' properties)
  | .array item => c.inlineTypes domain description (path ++ ["items"]) item

def inlineMembers (c : Context) (domain : String) (path : ShapePath) :
    List Property → Except Failure (List DataType)
  | [] => .ok []
  | ⟨name, type, _, advisory⟩ :: properties => do
    let first ← c.inlineTypes domain advisory.description (path ++ [name]) type
    return first ++ (← c.inlineMembers domain path properties)

end

/-- The data type of a declared type, unless it is an alias that is expanded. -/
def declaredType? (c : Context) (domain : String) (t : Schema.TypeDeclaration) :
    Except Failure (Option DataType) := do
  let path := ShapePath.ofType t.id
  match t.shape with
  | .enumeration literals =>
    return some { domain, name := t.id, kind := .enumeration, values := literals,
                  advisory := t.advisory }
  | .record properties =>
    return some { domain, name := t.id, kind := .record,
                  fields := ← c.fields domain path properties, advisory := t.advisory }
  | shape =>
    if c.recursive.contains ⟨domain, t.id⟩ then
      return some { domain, name := t.id, kind := .alias,
                    target := some (← c.describe domain path shape), advisory := t.advisory }
    else return none

def typeInlines (c : Context) (domain : String) (t : Schema.TypeDeclaration) :
    Except Failure (List DataType) :=
  match t.shape with
  | .enumeration _ => .ok []
  | .record properties => c.inlineMembers domain (.ofType t.id) properties
  | shape => c.inlineTypes domain t.advisory.description (.ofType t.id) shape

def resultDescription (domain command : String) : String :=
  "Return object for " ++ domain ++ "." ++ command ++ "."

def resultType? (c : Context) (domain : String) (command : Schema.Command) :
    Except Failure (Option DataType) := do
  if command.returns.isEmpty then return none
  else
    let name ← c.nameAt domain (.commandResult command.name)
    return some { domain, name, kind := .record, origin := .result,
                  fields := ← c.fields domain (.commandReturns command.name) command.returns,
                  advisory := { description := resultDescription domain command.name } }

def commandInlines (c : Context) (domain : String) (command : Schema.Command) :
    Except Failure (List DataType) := do
  let parameters ← c.inlineMembers domain (.commandParameters command.name) command.parameters
  let returns ← c.inlineMembers domain (.commandReturns command.name) command.returns
  return parameters ++ returns ++ (← c.resultType? domain command).toList

def payloadType (c : Context) (domain : String) (event : Schema.Event) :
    Except Failure DataType := do
  return { domain, name := ← c.nameAt domain (.eventPayload event.name), kind := .record,
           origin := .event,
           fields := ← c.fields domain (.eventParameters event.name) event.parameters,
           advisory := event.advisory }

def eventInlines (c : Context) (domain : String) (event : Schema.Event) :
    Except Failure (List DataType) := do
  let parameters ← c.inlineMembers domain (.eventParameters event.name) event.parameters
  return parameters ++ [← c.payloadType domain event]

/-- The data types of a domain as they are found: the declared ones, then the others. -/
def foundTypes (c : Context) (d : Schema.Domain) : Except Failure (List DataType) := do
  let declared ← d.types.mapM (c.declaredType? d.name)
  let ofTypes ← d.types.mapM (c.typeInlines d.name)
  let ofCommands ← d.commands.mapM (c.commandInlines d.name)
  let ofEvents ← d.events.mapM (c.eventInlines d.name)
  return declared.filterMap id ++ ofTypes.flatten ++ ofCommands.flatten ++ ofEvents.flatten

def command (c : Context) (domain : String) (command : Schema.Command) :
    Except Failure Command := do
  let result ← c.resultType? domain command
  return { name := command.name,
           parameters := ← c.fields domain (.commandParameters command.name) command.parameters,
           result := result.map fun t => .named t.typeName, advisory := command.advisory }

def event (c : Context) (domain : String) (event : Schema.Event) : Except Failure Event := do
  let payload ← c.payloadType domain event
  return { name := event.name, parameters := payload.fields, payload := payload.typeName,
           advisory := event.advisory }

def externals (c : Context) (domain : String) (types : List DataType) (commands : List Command) :
    List String :=
  let descriptors := types.flatMap DataType.descriptors ++
    commands.flatMap fun command => command.parameters.map Member.type
  let used := (descriptors.filterMap Descriptor.namedType?).map TypeName.domain
  (c.resolution.document.domains.map Schema.Domain.name).filter fun name =>
    name ≠ domain && used.contains name

def domain (c : Context) (d : Schema.Domain) : Except Failure Domain := do
  let types := orderTypes (← c.foundTypes d) d.name
  let commands ← d.commands.mapM (c.command d.name)
  let events ← d.events.mapM (c.event d.name)
  return { name := d.name, types, commands, events,
           externals := c.externals d.name types commands, advisory := d.advisory }

def protocol (c : Context) : Except Failure Protocol := do
  return { domains := ← c.resolution.document.domains.mapM c.domain,
           version := c.resolution.document.version }

end Context

def Protocol.ofResolution (r : Resolution) : Except Failure Protocol := do
  (← Context.ofResolution r).protocol

end WireBindings.Binding
