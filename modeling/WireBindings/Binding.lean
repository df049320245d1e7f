import WireBindings.Schema

/-!
# Bound protocols

The model that targets print: every enumeration and record is a named data type, and a descriptor
says how a value is typed in terms of those names.
-/

namespace WireBindings.Binding

/-- Kinds of value without a name of their own; `object` is an untyped map. No target prints a kind
that is not listed. -/
inductive Primitive
  | integer
  | number
  | string
  | boolean
  | binary
  | object
  | unlisted (name : String)
  deriving DecidableEq, Repr

namespace Primitive

def name : Primitive → String
  | .integer => "integer"
  | .number => "number"
  | .string => "string"
  | .boolean => "boolean"
  | .binary => "binary"
  | .object => "object"
  | .unlisted name => name

def listed : List Primitive := [.integer, .number, .string, .boolean, .binary, .object]

def ofName (s : String) : Primitive := (listed.find? fun kind => kind.name = s).getD (.unlisted s)

end Primitive

/-- Kinds of named type. A type of another kind is printed like an alias. -/
inductive TypeKind
  | enumeration
  | record
  | alias
  | unlisted (name : String)
  deriving DecidableEq, Repr

namespace TypeKind

def name : TypeKind → String
  | .enumeration => "enum"
  | .record => "object"
  | .alias => "alias"
  | .unlisted name => name

def ofName (s : String) : TypeKind :=
  (([.enumeration, .record, .alias] : List TypeKind).find? fun kind => kind.name = s).getD
    (.unlisted s)

end TypeKind

structure TypeName where
  domain : String
  name : String
  kind : TypeKind
  deriving DecidableEq, Repr

/-- How a value is typed. Binding a document leaves no descriptor out; a model from elsewhere may
have a gap, which no target prints. -/
inductive Descriptor
  | primitive (kind : Primitive)
  | opaqueValue
  | named (type : TypeName)
  | collection (item : Descriptor)
  | absent
  deriving DecidableEq, Repr, Inhabited

def Descriptor.namedType? : Descriptor → Option TypeName
  | .named type => some type
  | .collection item => item.namedType?
  | .primitive _ | .opaqueValue | .absent => none

abbrev Field := Member Descriptor

inductive Origin
  | declared
  | inline
  | result
  | event
  deriving DecidableEq, Repr

def Origin.name : Origin → String
  | .declared => "declared"
  | .inline => "inline"
  | .result => "result"
  | .event => "event"

/-- A named type to print: an enumeration with its literals, a record with its fields or an alias
with its target. -/
structure DataType where
  domain : String
  name : String
  kind : TypeKind
  origin : Origin := .declared
  fields : List Field := []
  values : List String := []
  target : Option Descriptor := none
  advisory : Advisory := {}
  deriving DecidableEq, Repr

namespace DataType

def typeName (t : DataType) : TypeName := ⟨t.domain, t.name, t.kind⟩

def descriptors (t : DataType) : List Descriptor := t.fields.map Member.type ++ t.target.toList

def namedTypes (t : DataType) : List TypeName := t.descriptors.filterMap Descriptor.namedType?

end DataType

structure Command where
  name : String
  parameters : List Field
  result : Option Descriptor
  advisory : Advisory := {}
  deriving DecidableEq, Repr

structure Event where
  name : String
  parameters : List Field
  payload : TypeName
  advisory : Advisory := {}
  deriving DecidableEq, Repr

/-- A domain with its data types in the order in which they are printed, and the other domains that
its unit names. -/
structure Domain where
  name : String
  types : List DataType
  commands : List Command
  events : List Event
  externals : List String := []
  advisory : Advisory := {}
  deriving DecidableEq, Repr

def Domain.type? (d : Domain) (name : String) : Option DataType :=
  d.types.find? fun t => t.name = name

structure Protocol where
  domains : List Domain
  version : Option Schema.Version := none
  deriving DecidableEq, Repr

def Protocol.domain? (p : Protocol) (name : String) : Option Domain :=
  p.domains.find? fun d => d.name = name

end WireBindings.Binding
