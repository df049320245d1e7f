/-!
# Protocol documents

A document lists domains, and each domain its types, commands and events. A shape is the type of a
property as written: enumerations and records that are written in place have no name of their own
yet.
-/

namespace WireBindings

/-- What accompanies a declaration without changing its meaning. -/
structure Advisory where
  description : String := ""
  experimental : Bool := false
  deprecated : Bool := false
  deriving DecidableEq, Repr, Inhabited

/-- A named and typed part of something: a property, a parameter or a field. -/
structure Member (α : Type) where
  name : String
  type : α
  optional : Bool := false
  advisory : Advisory := {}
  deriving DecidableEq, Repr

namespace Schema

/-- The kinds of type that consist of their name alone. An object without properties is one. -/
inductive Scalar
  | integer
  | number
  | string
  | boolean
  | any
  | binary
  | object
  deriving DecidableEq, Repr

namespace Scalar

def name : Scalar → String
  | .integer => "integer"
  | .number => "number"
  | .string => "string"
  | .boolean => "boolean"
  | .any => "any"
  | .binary => "binary"
  | .object => "object"

def all : List Scalar := [.integer, .number, .string, .boolean, .any, .binary, .object]

def ofName? (s : String) : Option Scalar := all.find? fun kind => kind.name = s

end Scalar

inductive Shape
  | reference (target : String)
  | scalar (kind : Scalar)
  | enumeration (literals : List String)
  | record (properties : List (Member Shape))
  | array (item : Shape)

abbrev Property := Member Shape

inductive Role
  | enumeration
  | record
  | array
  | primitive
  deriving DecidableEq, Repr

def Role.name : Role → String
  | .enumeration => "enum"
  | .record => "object"
  | .array => "array"
  | .primitive => "primitive"

def Shape.role : Shape → Role
  | .enumeration _ => .enumeration
  | .record _ => .record
  | .array _ => .array
  | .scalar _ | .reference _ => .primitive

structure TypeDeclaration where
  id : String
  shape : Shape
  advisory : Advisory := {}

structure Command where
  name : String
  parameters : List Property := []
  returns : List Property := []
  advisory : Advisory := {}

structure Event where
  name : String
  parameters : List Property := []
  advisory : Advisory := {}

structure Domain where
  name : String
  advisory : Advisory := {}
  dependencies : List String := []
  types : List TypeDeclaration := []
  commands : List Command := []
  events : List Event := []

structure Version where
  major : String
  minor : String
  deriving DecidableEq, Repr

def Version.text (v : Version) : String := v.major ++ "." ++ v.minor

/-- A whole document; the order of its domains is kept everywhere. -/
structure Document where
  domains : List Domain
  version : Option Version := none

namespace Document

/-- The version as generated files show it, empty if the document has none. -/
def versionText (d : Document) : String := (d.version.map Version.text).getD ""

def domain? (d : Document) (name : String) : Option Domain := d.domains.find? fun x => x.name = name

end Document

end Schema

end WireBindings
