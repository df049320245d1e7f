import WireBindings.Error
import WireBindings.Identifier.Case
import WireBindings.Schema

/-!
# Synthesized type names

Types that a domain does not declare get a name made from their owner: command results, event
payloads, and enumerations and records written in place. A name that is taken gets a number. Names
are found by the path from the domain to the place where the type is written.
-/

namespace WireBindings.Binding

open Schema (Shape Property)
open Identifier (pascal)

def maxNameNumber : Nat := 99

structure NameRegistry where
  domain : String
  taken : List String := []
  deriving DecidableEq, Repr

namespace NameRegistry

def reserve (r : NameRegistry) (name : String) : NameRegistry := { r with taken := name :: r.taken }

def candidates (base : String) : List String :=
  base :: (List.range (maxNameNumber - 1)).map fun i => base ++ toString (i + 2)

def synthesize (r : NameRegistry) (base : String) : Except CompileError (String × NameRegistry) :=
  match (candidates base).find? fun name => !r.taken.contains name with
  | some name => .ok (name, r.reserve name)
  | none => .error (.nameCollision r.domain base)

inductive Call
  | reserve (name : String)
  | synthesize (base : String)
  deriving DecidableEq, Repr

/-- The synthesized name, if one was asked for, or why there is none. -/
abbrev Answer := Except CompileError (Option String)

/-- The answer to a call and the registry after it; a refusal takes no name. -/
def answer (r : NameRegistry) : Call → Answer × NameRegistry
  | .reserve name => (.ok none, r.reserve name)
  | .synthesize base =>
    match r.synthesize base with
    | .ok (name, r) => (.ok (some name), r)
    | .error e => (.error e, r)

def answerAll (r : NameRegistry) : List Call → List Answer × NameRegistry
  | [] => ([], r)
  | call :: calls =>
    let (answer, r) := r.answer call
    let (answers, r) := r.answerAll calls
    (answer :: answers, r)

end NameRegistry

/-- The path from a domain to a place in it: fixed words and declared names. -/
abbrev ShapePath := List String

namespace ShapePath

def ofType (id : String) : ShapePath := ["type", id]
def commandParameters (name : String) : ShapePath := ["command", name, "parameters"]
def commandReturns (name : String) : ShapePath := ["command", name, "returns"]
def commandResult (name : String) : ShapePath := ["command", name, "result"]
def eventParameters (name : String) : ShapePath := ["event", name, "parameters"]
def eventPayload (name : String) : ShapePath := ["event", name, "payload"]

end ShapePath

structure Naming where
  registry : NameRegistry
  names : List (ShapePath × String) := []
  deriving DecidableEq, Repr

namespace Naming

/-- The name at a path; of two given to one path, the later. -/
def find? (n : Naming) (path : ShapePath) : Option String := n.names.lookup path

def assign (n : Naming) (path : ShapePath) (base : String) :
    Except CompileError (String × Naming) := do
  let (name, registry) ← n.registry.synthesize base
  return (name, { registry, names := (path, name) :: n.names })

mutual

/-- Names the types written in a shape. The owner of what is nested in a record is the record. -/
def nameShape (owner member : String) (path : ShapePath) (n : Naming) :
    Shape → Except CompileError Naming
  | .reference _ | .scalar _ => .ok n
  | .enumeration _ => return (← n.assign path (pascal owner ++ pascal member)).2
  | .record properties => do
    let (name, n) ← n.assign path (pascal owner ++ pascal member)
    nameMembers name (path ++ ["properties"]) n properties
  | .array item => nameShape owner member (path ++ ["items"]) n item

def nameMembers (owner : String) (path : ShapePath) (n : Naming) :
    List Property → Except CompileError Naming
  | [] => .ok n
  | ⟨name, type, _, _⟩ :: properties => do
    nameMembers owner path (← nameShape owner name (path ++ [name]) n type) properties

end

def nameResults (n : Naming) : List Schema.Command → Except CompileError Naming
  | [] => .ok n
  | c :: commands => do
    if c.returns.isEmpty then n.nameResults commands
    else
      let (_, n) ← n.assign (.commandResult c.name) (pascal c.name ++ "Result")
      n.nameResults commands

def namePayloads (n : Naming) : List Schema.Event → Except CompileError Naming
  | [] => .ok n
  | e :: events => do
    let (_, n) ← n.assign (.eventPayload e.name) (pascal e.name)
    n.namePayloads events

def nameTypes (n : Naming) : List Schema.TypeDeclaration → Except CompileError Naming
  | [] => .ok n
  | t :: types => do
    let n ← match t.shape with
      | .record properties => nameMembers t.id (.ofType t.id) n properties
      | .array item => nameShape t.id "Item" (.ofType t.id) n (.array item)
      | _ => pure n
    n.nameTypes types

def nameCommands (n : Naming) : List Schema.Command → Except CompileError Naming
  | [] => .ok n
  | c :: commands => do
    let n ← nameMembers c.name (.commandParameters c.name) n c.parameters
    let n ← nameMembers c.name (.commandReturns c.name) n c.returns
    n.nameCommands commands

def nameEvents (n : Naming) : List Schema.Event → Except CompileError Naming
  | [] => .ok n
  | e :: events => do
    (← nameMembers e.name (.eventParameters e.name) n e.parameters).nameEvents events

/-- The synthesized names of a domain. Declared types keep their identifiers, and results and
payloads come before what is written in place. -/
def ofDomain (d : Schema.Domain) : Except CompileError Naming := do
  let registry := d.types.foldl (fun r t => r.reserve t.id) { domain := d.name }
  let n ← ({ registry } : Naming).nameResults d.commands
  let n ← n.namePayloads d.events
  let n ← n.nameTypes d.types
  let n ← n.nameCommands d.commands
  n.nameEvents d.events

end Naming

end WireBindings.Binding
