import WireBindings.Documentation
import WireBindings.Identifier.Case

/-!
# Java names, literals and comments

Text that has to pass as a name, a string literal or a comment whatever it is made from.
-/

namespace WireBindings.Target.Java

def reservedWords : List String :=
  ["abstract", "assert", "boolean", "break", "byte", "case", "catch", "char", "class", "const",
    "continue", "default", "do", "double", "else", "enum", "extends", "final", "finally", "float",
    "for", "goto", "if", "implements", "import", "instanceof", "int", "interface", "long", "native",
    "new", "package", "private", "protected", "public", "return", "short", "static", "strictfp",
    "super", "switch", "synchronized", "this", "throw", "throws", "transient", "try", "void",
    "volatile", "while", "true", "false", "null", "record", "var", "yield", "_"]

def isReserved (word : String) : Bool := reservedWords.contains word

/-- A name that can stand inside a class of the given name; an empty class name clashes with none.
-/
def safeIdentifier (name className : String) : String :=
  if isReserved name then "_" ++ name
  else if !className.isEmpty && name == className then name ++ "_"
  else name

def typeName (domain name : String) : String := safeIdentifier name domain

/-- What follows `get` and `set` in accessor names; no class may declare `getClass` anew. -/
def accessorSuffix (fieldName : String) : String :=
  let suffix := Identifier.pascal fieldName
  if suffix = "Class" then suffix ++ "_" else suffix

def literalChar (c : Char) : List Char :=
  if c = '\\' ∨ c = '"' then ['\\', c]
  else if c = '\n' then ['\\', 'n']
  else if c = '\r' then ['\\', 'r']
  else [c]

def stringLiteral (s : String) : String :=
  String.ofList ('"' :: s.toList.flatMap literalChar ++ ['"'])

def guardComment : List Char → List Char
  | [] => []
  | [c] => [c]
  | c :: d :: s =>
    if c = '*' ∧ d = '/' then "*&#47;".toList ++ guardComment s
    -- escapes are decoded before comments are recognised, so they count inside comments too
    else if c = '\\' ∧ d = 'u' then '\\' :: '\\' :: 'u' :: guardComment s
    else c :: guardComment (d :: s)

def docLines (description : String) : List String :=
  let guarded := String.ofList (guardComment description.toList)
  if Documentation.isVoid guarded then [] else Documentation.wrap guarded

structure ParameterDoc where
  name : String
  doc : List String
  deriving DecidableEq, Repr

def parameterLine (p : ParameterDoc) : String :=
  String.ofList (Text.trimEnd (" * @param " ++ p.name ++ " " ++ " ".intercalate p.doc).toList)

/-- A documentation comment; no lines if there is nothing to say. -/
def docComment (description : String) (parameters : List ParameterDoc) : List String :=
  let lines := docLines description
  let documented := parameters.filter fun p => !p.doc.isEmpty
  match lines, documented with
  | [], [] => []
  | [line], [] => ["/** " ++ line ++ " */"]
  | lines, documented =>
    ["/**"] ++ lines.map (" * " ++ ·) ++
      (if lines.isEmpty || documented.isEmpty then [] else [" *"]) ++
      documented.map parameterLine ++ [" */"]

end WireBindings.Target.Java
