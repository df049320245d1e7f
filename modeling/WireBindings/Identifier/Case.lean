import WireBindings.Identifier.Words

/-!
# Pascal, camel and snake case

Identifiers rebuilt from their words. A text without words is left as it is, except in Pascal case,
where only a leading underscore stays.
-/

namespace WireBindings.Identifier

def capitalize : List Char → List Char
  | [] => []
  | c :: s => c.toUpper :: s

def pascal (s : String) : String :=
  let chars := s.toList
  let lead := if chars.head? = some '_' then ['_'] else []
  String.ofList (lead ++ (splitChars chars).flatMap capitalize)

def camel (s : String) : String :=
  match splitChars s.toList with
  | [] => s
  | w :: ws => String.ofList (w.map Char.toLower ++ ws.flatMap capitalize)

def snake (s : String) : String :=
  match splitChars s.toList with
  | [] => s
  | ws => String.ofList (['_'].intercalate (ws.map (·.map Char.toLower)))

end WireBindings.Identifier
