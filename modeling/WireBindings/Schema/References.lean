import WireBindings.Error
import WireBindings.Schema

/-!
# References between declared types

Every reference of a document leads to a declared type: one of its own domain, or, qualified with
the domain's name, one of a domain among the dependencies. Resolving finds that type for each
reference and reports the first one that leads nowhere.
-/

namespace WireBindings.Schema

structure TypeKey where
  domain : String
  id : String
  deriving DecidableEq, Repr

def TypeKey.qualifiedName (k : TypeKey) : String := k.domain ++ "." ++ k.id

structure Occurrence where
  reference : String
  path : String
  deriving DecidableEq, Repr

structure TypeTable where
  domains : List String
  types : List (TypeKey × TypeDeclaration)

namespace TypeTable

def find? (table : TypeTable) (key : TypeKey) : Option TypeDeclaration := table.types.lookup key

def checkTypes (domainIndex : Nat) (domain : String) (seen : List String) :
    List TypeDeclaration → Nat → Except CompileError Unit
  | [], _ => .ok ()
  | t :: types, i =>
    if seen.contains t.id then
      let root : Location := { root := "domains" }
      .error (.malformed ((((root.index domainIndex).key "types").index i).key "id")
        (.duplicateType t.id domain))
    else checkTypes domainIndex domain (t.id :: seen) types (i + 1)

def checkDomains (seen : List String) : List Domain → Nat → Except CompileError Unit
  | [], _ => .ok ()
  | d :: domains, i => do
    if seen.contains d.name then
      let root : Location := { root := "domains" }
      throw (.malformed ((root.index i).key "domain") (.duplicateDomain d.name))
    checkTypes i d.name [] d.types 0
    checkDomains (d.name :: seen) domains (i + 1)

def ofDocument (d : Document) : Except CompileError TypeTable := do
  checkDomains [] d.domains 0
  return {
    domains := d.domains.map Domain.name
    types := d.domains.flatMap fun domain =>
      domain.types.map fun t => (⟨domain.name, t.id⟩, t) }

end TypeTable

mutual

def Shape.references (path : String) : Shape → List Occurrence
  | .reference target => [⟨target, path⟩]
  | .scalar _ | .enumeration _ => []
  | .record properties => memberReferences path properties
  | .array item => item.references (path ++ ".items")

def memberReferences (path : String) : List Property → List Occurrence
  | [] => []
  | ⟨name, type, _, _⟩ :: properties =>
    type.references (path ++ "." ++ name) ++ memberReferences path properties

end

def Domain.references (d : Domain) : List Occurrence :=
  let path (name : String) := d.name ++ "." ++ name
  d.types.flatMap (fun t => t.shape.references (path t.id)) ++
    d.commands.flatMap (fun c => memberReferences (path c.name) c.parameters ++
      memberReferences (path c.name ++ ".returns") c.returns) ++
    d.events.flatMap (fun e => memberReferences (path e.name) e.parameters)

def splitChars : List Char → Option (List Char) × List Char
  | [] => (none, [])
  | c :: s =>
    match splitChars s with
    | (some q, rest) => (some (c :: q), rest)
    | (none, rest) => if c = '.' then (some [], rest) else (none, c :: rest)

def splitReference (reference : String) : Option String × String :=
  let (qualifier, id) := splitChars reference.toList
  (qualifier.map String.ofList, String.ofList id)

structure Handle where
  owner : String
  reference : String
  target : TypeKey
  deriving DecidableEq, Repr

def TypeTable.resolve (table : TypeTable) (d : Domain) (o : Occurrence) :
    Except CompileError TypeKey := do
  let (qualifier, id) := splitReference o.reference
  let target := qualifier.getD d.name
  if target ≠ d.name ∧ ¬ d.dependencies.contains target then
    throw (.undeclaredDependency d.name target (some o.path))
  if (table.find? ⟨target, id⟩).isNone then
    throw (.unresolved target id (some o.path))
  return ⟨target, id⟩

def isHandled (handles : List Handle) (owner reference : String) : Bool :=
  handles.any fun h => h.owner = owner && h.reference = reference

/-- Adds handles for the references of a domain that have none yet. -/
def TypeTable.resolveAll (table : TypeTable) (d : Domain) (handles : List Handle) :
    List Occurrence → Except CompileError (List Handle)
  | [] => .ok handles
  | o :: occurrences => do
    -- an earlier occurrence in the domain has settled the same reference
    if isHandled handles d.name o.reference then
      table.resolveAll d handles occurrences
    else
      let target ← table.resolve d o
      table.resolveAll d (handles ++ [⟨d.name, o.reference, target⟩]) occurrences

structure Resolution where
  document : Document
  table : TypeTable
  handles : List Handle

namespace Resolution

def resolveDomains (table : TypeTable) :
    List Domain → List Handle → Except CompileError (List Handle)
  | [], handles => .ok handles
  | d :: domains, handles => do
    resolveDomains table domains (← table.resolveAll d handles d.references)

def ofDocument (d : Document) : Except CompileError Resolution := do
  let table ← TypeTable.ofDocument d
  return { document := d, table, handles := ← resolveDomains table d.domains [] }

def target? (r : Resolution) (owner reference : String) : Option TypeKey :=
  (r.handles.find? fun h => h.owner = owner && h.reference = reference).map Handle.target

end Resolution

/-- The dependencies of a domain that no domain of the document meets. -/
def unknownDependencies (known : List String) (d : Domain) : List String :=
  d.dependencies.filter fun name => !known.contains name

end WireBindings.Schema
