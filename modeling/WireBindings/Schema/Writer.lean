import WireBindings.Json.Writer
import WireBindings.Schema

/-!
# Writing a document as a value

The value that describes a document. Defaults and empty lists of declarations are left out, while an
enumeration or a record keeps its list even when that is empty.
-/

namespace WireBindings.Schema

open Json (Value)

def advisoryEntries (a : Advisory) : List (String × Value) :=
  (if a.description.isEmpty then [] else [("description", .text a.description)]) ++
    (if a.experimental then [("experimental", .bool true)] else []) ++
    (if a.deprecated then [("deprecated", .bool true)] else [])

mutual

def shapeEntries : Shape → List (String × Value)
  | .reference target => [("$ref", .text target)]
  | .scalar kind => [("type", .text kind.name)]
  | .enumeration literals =>
    [("type", .text "string"), ("enum", .array (literals.map Value.text))]
  | .record properties =>
    [("type", .text "object"), ("properties", .array (propertyValues properties))]
  | .array item => [("type", .text "array"), ("items", .object (shapeEntries item))]

def propertyValues : List Property → List Value
  | [] => []
  | ⟨name, type, optional, advisory⟩ :: properties =>
    .object (("name", .text name) :: advisoryEntries advisory ++
      (if optional then [("optional", .bool true)] else []) ++ shapeEntries type) ::
      propertyValues properties

end

/-- An entry for a list, unless the list is empty. -/
def listEntry (key : String) (items : List Value) : List (String × Value) :=
  if items.isEmpty then [] else [(key, .array items)]

def TypeDeclaration.toValue (t : TypeDeclaration) : Value :=
  .object (("id", .text t.id) :: advisoryEntries t.advisory ++ shapeEntries t.shape)

def Command.toValue (c : Command) : Value :=
  .object (("name", .text c.name) :: advisoryEntries c.advisory ++
    listEntry "parameters" (propertyValues c.parameters) ++
    listEntry "returns" (propertyValues c.returns))

def Event.toValue (e : Event) : Value :=
  .object (("name", .text e.name) :: advisoryEntries e.advisory ++
    listEntry "parameters" (propertyValues e.parameters))

def Domain.toValue (d : Domain) : Value :=
  .object (("domain", .text d.name) :: advisoryEntries d.advisory ++
    listEntry "dependencies" (d.dependencies.map Value.text) ++
    listEntry "types" (d.types.map TypeDeclaration.toValue) ++
    listEntry "commands" (d.commands.map Command.toValue) ++
    listEntry "events" (d.events.map Event.toValue))

def Version.toValue (v : Version) : Value :=
  .object [("major", .text v.major), ("minor", .text v.minor)]

def Document.toValue (d : Document) : Value :=
  .object ((match d.version with
    | some v => [("version", v.toValue)]
    | none => []) ++ [("domains", .array (d.domains.map Domain.toValue))])

def Document.fileText (d : Document) : String := d.toValue.write .indented ++ "\n"

end WireBindings.Schema
