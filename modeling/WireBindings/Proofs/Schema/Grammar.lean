import WireBindings.Proofs.Schema.Entries

/-!
# The grammar of documents

Which values describe a document, and which document each of them describes. A production says what
stands under the keys of a node that count; other keys may hold anything. Lists are described item
by item, in their order.
-/

namespace WireBindings.Schema

open Json (Value)

/-- A value of some form stands under a key, or the key is not there and the default stands for it.
-/
inductive OrDefault {α : Type} (form : α → Value) (default : α) (node : Entries) (key : String) :
    α → Prop
  | found {a : α} (h : Value.field? key node = some (form a)) : OrDefault form default node key a
  | absent (h : Value.field? key node = none) : OrDefault form default node key default

/-- A list stands under a key, with an item for each of `l`; the list may be left out if `l` is
empty. -/
def ItemsNode {α : Type} (item : Value → α → Prop) (node : Entries) (key : String) (l : List α) :
    Prop :=
  ∃ items, OrDefault Value.array [] node key items ∧ List.Forall₂ item items l

structure AdvisoryNode (node : Entries) (a : Advisory) : Prop where
  description : OrDefault Value.text "" node "description" a.description
  experimental : OrDefault Value.bool false node "experimental" a.experimental
  deprecated : OrDefault Value.bool false node "deprecated" a.deprecated

mutual

/-- The body of a type: a known kind, and the key that goes with it. -/
inductive BodyNode : Entries → Shape → Prop
  | scalar {node : Entries} {kind : Scalar}
      (htype : Value.field? "type" node = some (.text kind.name))
      (henum : kind = .string → Value.field? "enum" node = none)
      (hproperties : kind = .object → Value.field? "properties" node = none) :
      BodyNode node (.scalar kind)
  | enumeration {node : Entries} {literals : List String}
      (htype : Value.field? "type" node = some (.text "string"))
      (henum : Value.field? "enum" node = some (.array (literals.map Value.text))) :
      BodyNode node (.enumeration literals)
  | record {node : Entries} {items : List Value} {properties : List Property}
      (htype : Value.field? "type" node = some (.text "object"))
      (hproperties : Value.field? "properties" node = some (.array items))
      (h : List.Forall₂ PropertyNode items properties) : BodyNode node (.record properties)
  | array {node entries : Entries} {item : Shape}
      (htype : Value.field? "type" node = some (.text "array"))
      (hitems : Value.field? "items" node = some (.object entries)) (h : ShapeNode entries item) :
      BodyNode node (.array item)

/-- A type as written: a reference, which hides every other key, or a body. -/
inductive ShapeNode : Entries → Shape → Prop
  | reference {node : Entries} {target : String}
      (href : Value.field? "$ref" node = some (.text target)) : ShapeNode node (.reference target)
  | body {node : Entries} {shape : Shape} (href : Value.field? "$ref" node = none)
      (h : BodyNode node shape) : ShapeNode node shape

inductive PropertyNode : Value → Property → Prop
  | object {node : Entries} {p : Property} (name : Value.field? "name" node = some (.text p.name))
      (type : ShapeNode node p.type)
      (optional : OrDefault Value.bool false node "optional" p.optional)
      (advisory : AdvisoryNode node p.advisory) : PropertyNode (.object node) p

end

/-- A declared type has a body; a reference key plays no part in it. -/
inductive TypeNode : Value → TypeDeclaration → Prop
  | object {node : Entries} {t : TypeDeclaration} (id : Value.field? "id" node = some (.text t.id))
      (shape : BodyNode node t.shape) (advisory : AdvisoryNode node t.advisory) :
      TypeNode (.object node) t

inductive CommandNode : Value → Command → Prop
  | object {node : Entries} {c : Command} (name : Value.field? "name" node = some (.text c.name))
      (parameters : ItemsNode PropertyNode node "parameters" c.parameters)
      (returns : ItemsNode PropertyNode node "returns" c.returns)
      (advisory : AdvisoryNode node c.advisory) : CommandNode (.object node) c

inductive EventNode : Value → Event → Prop
  | object {node : Entries} {e : Event} (name : Value.field? "name" node = some (.text e.name))
      (parameters : ItemsNode PropertyNode node "parameters" e.parameters)
      (advisory : AdvisoryNode node e.advisory) : EventNode (.object node) e

inductive DomainNode : Value → Domain → Prop
  | object {node : Entries} {d : Domain} (name : Value.field? "domain" node = some (.text d.name))
      (dependencies : OrDefault Value.array [] node "dependencies" (d.dependencies.map Value.text))
      (types : ItemsNode TypeNode node "types" d.types)
      (commands : ItemsNode CommandNode node "commands" d.commands)
      (events : ItemsNode EventNode node "events" d.events)
      (advisory : AdvisoryNode node d.advisory) : DomainNode (.object node) d

/-- A component of a version: any value, shown as a text. -/
def versionPart (node : Entries) (key : String) : String :=
  ((Value.field? key node).map Value.display).getD ""

inductive VersionNode : Value → Version → Prop
  | object {node : Entries} :
      VersionNode (.object node) ⟨versionPart node "major", versionPart node "minor"⟩

inductive DocumentNode : Value → Document → Prop
  | object {node : Entries} {items : List Value} {m : Document}
      (hlist : Value.field? "domains" node = some (.array items))
      (domains : List.Forall₂ DomainNode items m.domains)
      (version : Option.Rel VersionNode (Value.field? "version" node) m.version) :
      DocumentNode (.object node) m

end WireBindings.Schema
