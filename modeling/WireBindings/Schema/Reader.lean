import WireBindings.Error
import WireBindings.Json.Display
import WireBindings.Schema

/-!
# Reading a document from a value

A document is read from a value by its keys. Keys that play no part are passed over, and the first
node that is not as it has to be is reported with its location.
-/

namespace WireBindings.Schema

open Json (Value)

abbrev Read := Except CompileError

abbrev Entries := List (String × Value)

def complain {α : Type} (loc : Location) (complaint : Complaint) : Read α :=
  .error (.malformed loc complaint)

def complainKind {α : Type} (loc : Location) (wanted : Wanted) (found : Value) : Read α :=
  complain loc (.mismatch wanted found.kindName)

def expectObject (loc : Location) : Value → Read Entries
  | .object entries => .ok entries
  | v => complainKind loc .object v

def optionalField {α : Type} (wanted : Wanted) (ofValue? : Value → Option α) (node : Entries)
    (key : String) (loc : Location) : Read (Option α) :=
  match Value.field? key node with
  | none => .ok none
  | some v =>
    match ofValue? v with
    | some a => .ok (some a)
    | none => complainKind (loc.key key) wanted v

def listField? : Entries → String → Location → Read (Option (List Value)) :=
  optionalField .list Value.items?

def textField? : Entries → String → Location → Read (Option String) :=
  optionalField .text Value.text?

def listField (node : Entries) (key : String) (loc : Location) : Read (List Value) := do
  return (← listField? node key loc).getD []

def requiredText (node : Entries) (key : String) (loc : Location) : Read String := do
  match ← textField? node key loc with
  | some s => return s
  | none => complain loc (.missingKey key)

/-- The truth value under a key; false without the key. -/
def flagField (node : Entries) (key : String) (loc : Location) : Read Bool := do
  return (← optionalField .bool Value.bool? node key loc).getD false

def readAdvisory (node : Entries) (loc : Location) : Read Advisory := do
  let description := (← textField? node "description" loc).getD ""
  let experimental ← flagField node "experimental" loc
  let deprecated ← flagField node "deprecated" loc
  return { description, experimental, deprecated }

/-- The items of a list, each read at its own location from index `i` on. -/
def readItems {α : Type} (read : Value → Location → Read α) (loc : Location) :
    List Value → Nat → Read (List α)
  | [], _ => .ok []
  | v :: items, i => do
    let first ← read v (loc.index i)
    let rest ← readItems read loc items (i + 1)
    return first :: rest

def readTexts (complaint : Complaint) (loc : Location) (items : List Value) : Read (List String) :=
  readItems (fun v here => match v with
    | .text s => .ok s
    | _ => complain here complaint) loc items 0

mutual

def readShape (node : Entries) (loc : Location) : Read Shape :=
  -- a reference hides every other key
  match Value.field? "$ref" node with
  | some (.text s) => .ok (.reference s)
  | some v => complainKind (loc.key "$ref") .text v
  | none =>
    match Value.field? "type" node with
    | none => complain loc .noShape
    | some (.text "array") =>
      match _h : Value.field? "items" node with
      | none => complain loc .noItems
      | some (.object entries) => do
        return .array (← readShape entries (loc.key "items"))
      | some v => complainKind (loc.key "items") .object v
    | some (.text kind) =>
      -- the kind decides which further key counts
      match Scalar.ofName? kind with
      | none => complain (loc.key "type") (.unknownKind kind)
      | some .string =>
        match Value.field? "enum" node with
        | none => .ok (.scalar .string)
        | some (.array items) => do
          return .enumeration (← readTexts .literalNotText (loc.key "enum") items)
        | some v => complainKind (loc.key "enum") .list v
      | some .object =>
        match _h : Value.field? "properties" node with
        | none => .ok (.scalar .object)
        | some (.array items) => do
          return .record (← readProperties items (loc.key "properties") 0)
        | some v => complainKind (loc.key "properties") .list v
      | some scalar => .ok (.scalar scalar)
    | some v => complainKind (loc.key "type") .text v
termination_by sizeOf node
decreasing_by
  · have := Value.sizeOf_lt_of_field? _h
    simp only [Value.object.sizeOf_spec] at this
    omega
  · have := Value.sizeOf_lt_of_field? _h
    simp only [Value.array.sizeOf_spec] at this
    omega

def readProperty (v : Value) (loc : Location) : Read Property :=
  match v with
  | .object node => do
    let name ← requiredText node "name" loc
    let type ← readShape node loc
    let optional ← flagField node "optional" loc
    let advisory ← readAdvisory node loc
    return { name, type, optional, advisory }
  | v => complainKind loc .object v
termination_by sizeOf v

def readProperties (items : List Value) (loc : Location) (i : Nat) : Read (List Property) :=
  match items with
  | [] => .ok []
  | v :: items => do
    let first ← readProperty v (loc.index i)
    let rest ← readProperties items loc (i + 1)
    return first :: rest
termination_by sizeOf items

end

def readMembers (node : Entries) (key : String) (loc : Location) : Read (List Property) := do
  readProperties (← listField node key loc) (loc.key key) 0

/-- A declared type. It is no reference itself, so a reference key plays no part. -/
def readType (v : Value) (loc : Location) : Read TypeDeclaration := do
  let node ← expectObject loc v
  let id ← requiredText node "id" loc
  if (Value.field? "type" node).isNone then complain loc (.missingKey "type")
  let shape ← readShape (node.filter fun entry => entry.1 ≠ "$ref") loc
  let advisory ← readAdvisory node loc
  return { id, shape, advisory }

def readCommand (v : Value) (loc : Location) : Read Command := do
  let node ← expectObject loc v
  let name ← requiredText node "name" loc
  let parameters ← readMembers node "parameters" loc
  let returns ← readMembers node "returns" loc
  let advisory ← readAdvisory node loc
  return { name, parameters, returns, advisory }

def readEvent (v : Value) (loc : Location) : Read Event := do
  let node ← expectObject loc v
  let name ← requiredText node "name" loc
  let parameters ← readMembers node "parameters" loc
  let advisory ← readAdvisory node loc
  return { name, parameters, advisory }

def readDomain (v : Value) (loc : Location) : Read Domain := do
  let node ← expectObject loc v
  let dependencies ←
    readTexts .dependencyNotText (loc.key "dependencies") (← listField node "dependencies" loc)
  let name ← requiredText node "domain" loc
  let advisory ← readAdvisory node loc
  let types ← readItems readType (loc.key "types") (← listField node "types" loc) 0
  let commands ← readItems readCommand (loc.key "commands") (← listField node "commands" loc) 0
  let events ← readItems readEvent (loc.key "events") (← listField node "events" loc) 0
  return { name, advisory, dependencies, types, commands, events }

/-- A version; a component that is no text is shown as one. -/
def readVersion (v : Value) (loc : Location) : Read Version := do
  let node ← expectObject loc v
  let component (key : String) := ((Value.field? key node).map Value.display).getD ""
  return { major := component "major", minor := component "minor" }

/-- The document that a value describes; locations start with `root`. -/
def Document.ofValue (v : Value) (root : String) : Read Document := do
  let loc : Location := { root }
  let node ← expectObject loc v
  let domains ← match ← listField? node "domains" loc with
    | some items => pure items
    | none => complain loc (.missingKey "domains")
  let version ← match Value.field? "version" node with
    | some v => some <$> readVersion v (loc.key "version")
    | none => pure none
  return { domains := ← readItems readDomain (loc.key "domains") domains 0, version }

end WireBindings.Schema
