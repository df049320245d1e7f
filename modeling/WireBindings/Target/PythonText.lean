import WireBindings.Documentation
import WireBindings.Identifier.Case
import WireBindings.Json.Writer

/-!
# Python names, literals and docstrings

Text that has to pass as a name, a string literal or a docstring whatever it is made from.
-/

namespace WireBindings.Target.Python

/-- Words that cannot name a class, an attribute or a parameter: those of the language, the names of
the receivers, and the modules that class bodies refer to. -/
def reservedWords : List String :=
  ["False", "None", "True", "and", "as", "assert", "async", "await", "break", "class", "continue",
    "def", "del", "elif", "else", "except", "finally", "for", "from", "global", "if", "import",
    "in", "is", "lambda", "nonlocal", "not", "or", "pass", "raise", "return", "try", "while", "with",
    "yield", "self", "cls", "dataclasses", "enum", "typing"]

def isReserved (word : String) : Bool := reservedWords.contains word

/-- A name that differs from the given class name; an empty class name clashes with none. -/
def safeName (name className : String) : String :=
  if isReserved name || (!className.isEmpty && name == className) then name ++ "_" else name

def moduleName (domain : String) : String := safeName (Identifier.snake domain) ""

def typeName (domain name : String) : String := safeName name domain

def stringLiteral (s : String) : String := Json.writtenText s

def markupChar (c : Char) : List Char :=
  if c = '<' ∨ c = '>' ∨ c = '&' ∨ c = '\'' then Json.unitEscape c.toNat else [c]

/-- A text without the characters that matter in markup. -/
def guardMarkup (s : String) : String := String.ofList (s.toList.flatMap markupChar)

def markupLiteral (s : String) : String := guardMarkup (stringLiteral s)

def markupList (items : List String) : String :=
  "[" ++ ", ".intercalate (items.map markupLiteral) ++ "]"

def docChar (c : Char) : List Char := if c = '\\' ∨ c = '"' then ['\\', c] else [c]

def docLines (description : String) : List String :=
  let guarded := String.ofList (description.toList.flatMap docChar)
  if Documentation.isVoid guarded then [] else Documentation.wrap guarded

end WireBindings.Target.Python
