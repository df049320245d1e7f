import WireBindings.Json.Reader
import WireBindings.Location

/-!
# Errors of a compilation

The causes for which a document is refused, with their wording. Each has a plain message and may
have a context, the place in the document or protocol that it is about.
-/

namespace WireBindings

inductive Wanted
  | object
  | list
  | text
  | bool
  deriving DecidableEq, Repr

def Wanted.phrase : Wanted → String
  | .object => "an object"
  | .list => "a list"
  | .text => "a string"
  | .bool => "a boolean"

inductive Complaint
  | mismatch (wanted : Wanted) (found : String)
  | missingKey (key : String)
  | noShape
  | unknownKind (kind : String)
  | noItems
  | literalNotText
  | dependencyNotText
  | duplicateDomain (name : String)
  | duplicateType (id domain : String)
  | unreadable (e : Json.ReadError)
  | worded (message : String)
  deriving DecidableEq, Repr

def Complaint.message : Complaint → String
  | .mismatch wanted found => "expected " ++ wanted.phrase ++ ", got " ++ found
  | .missingKey key => "missing required key '" ++ key ++ "'"
  | .noShape => "expected either '$ref' or 'type'"
  | .unknownKind kind => "unknown type kind '" ++ kind ++ "'"
  | .noItems => "array type without 'items'"
  | .literalNotText => "enum literals must be strings"
  | .dependencyNotText => "dependency names must be strings"
  | .duplicateDomain name => "domain '" ++ name ++ "' is defined more than once"
  | .duplicateType id domain =>
    "type '" ++ id ++ "' is declared more than once in domain '" ++ domain ++ "'"
  | .unreadable e => "invalid JSON: " ++ e.message
  | .worded message => message

inductive CompileError
  /-- The document does not have the shape of a protocol. -/
  | malformed (location : Location) (complaint : Complaint)
  /-- A reference names a type that its domain does not declare. -/
  | unresolved (domain typeId : String) (context : Option String)
  /-- A reference leads to a domain that is not among the dependencies. -/
  | undeclaredDependency (source target : String) (context : Option String)
  /-- A required parameter stands after an optional one. -/
  | requiredAfterOptional (domain member parameter : String)
  /-- Every name that a synthesized type could take is taken. -/
  | nameCollision (domain name : String)
  /-- The run was stopped before a domain was emitted. -/
  | cancelled (domain : String)
  /-- Any other refusal, in words of its own. -/
  | refused (reason : String) (context : Option String)
  deriving DecidableEq, Repr

namespace CompileError

def plain : CompileError → String
  | .malformed location complaint =>
    "Malformed schema at " ++ location.text ++ ": " ++ complaint.message
  | .unresolved domain typeId _ => "Unresolved type reference " ++ domain ++ "." ++ typeId
  | .undeclaredDependency source target _ =>
    "Domain " ++ source ++ " references domain " ++ target ++
      " without declaring it as a dependency"
  | .requiredAfterOptional _ _ parameter =>
    "Required parameter '" ++ parameter ++ "' follows an optional parameter"
  | .nameCollision _ name => "Unable to synthesize a unique type name for '" ++ name ++ "'"
  | .cancelled _ => "Compilation cancelled"
  | .refused reason _ => reason

def context : CompileError → Option String
  | .malformed location _ => some location.text
  | .unresolved _ _ context => context
  | .undeclaredDependency _ _ context => context
  | .requiredAfterOptional domain member _ => some (domain ++ "." ++ member)
  | .nameCollision domain _ => some domain
  | .cancelled domain => some domain
  | .refused _ context => context

/-- The plain message, followed by a context that is not empty. -/
def message (e : CompileError) : String :=
  match e.context with
  | none | some "" => e.plain
  | some c => e.plain ++ " (context: " ++ c ++ ")"

end CompileError

end WireBindings
