import WireBindings.Binding
import WireBindings.Failure
import WireBindings.Target.JavaText

/-!
# Java names in scope

What a name inside the interface of a domain means: nested types come first, so a name that one of
them takes is written in full.
-/

namespace WireBindings.Target.Java

open Binding (Descriptor Primitive)

def supportPackage : String := "support"

def supportTypes : List String :=
  ["ParamName", "EventName", "Optional", "Experimental", "EventHandler", "EventListener"]

def jacksonProperty : String := "com.fasterxml.jackson.annotation.JsonProperty"

structure Scope where
  package : String
  domain : String
  nested : List String
  deriving DecidableEq, Repr

namespace Scope

/-- A support type or a type of the language, in full when a nested type or the interface takes its
name. -/
def reference (s : Scope) (name : String) : String :=
  if !s.nested.contains name && name ≠ s.domain then name
  else if supportTypes.contains name then s.package ++ "." ++ supportPackage ++ "." ++ name
  else "java.lang." ++ name

def annotations (s : Scope) (a : Advisory) (optional : Bool) : List String :=
  (if a.experimental then ["@" ++ s.reference "Experimental"] else []) ++
    (if a.deprecated then ["@" ++ s.reference "Deprecated"] else []) ++
    (if optional then ["@" ++ s.reference "Optional"] else [])

def wireName (s : Scope) : String :=
  if s.nested.contains "JsonProperty" then jacksonProperty else "JsonProperty"

end Scope

def primitiveClass (scope : Scope) : Primitive → Except Failure String
  | .integer => .ok (scope.reference "Integer")
  | .number => .ok (scope.reference "Double")
  | .string | .binary => .ok (scope.reference "String")
  | .boolean => .ok (scope.reference "Boolean")
  | .object =>
    .ok ("java.util.Map<" ++ scope.reference "String" ++ ", " ++ scope.reference "Object" ++ ">")
  | .unlisted name => .error (.missingKey name)

/-- The type of a value. Every type is a class, so that each value can be absent. -/
def typeText (scope : Scope) : Descriptor → Except Failure String
  | .collection item => return "java.util.List<" ++ (← typeText scope item) ++ ">"
  | .named type =>
    let name := typeName type.domain type.name
    .ok (if type.domain = scope.domain then name else type.domain ++ "." ++ name)
  | .opaqueValue => .ok (scope.reference "Object")
  | .primitive kind => primitiveClass scope kind
  | .absent => .error .missingType

end WireBindings.Target.Java
