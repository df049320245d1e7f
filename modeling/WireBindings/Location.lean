/-!
# Locations in a document

The path from a root to a node, and the text under which messages name it.
-/

namespace WireBindings

/-- One step down: to the value of a key, or to an item of a list. -/
inductive Step
  | key (name : String)
  | index (i : Nat)
  deriving DecidableEq, Repr

def Step.text : Step → String
  | .key name => "." ++ name
  | .index i => "[" ++ toString i ++ "]"

/-- A root and the steps down from it. -/
structure Location where
  root : String
  steps : List Step := []
  deriving DecidableEq, Repr

namespace Location

def key (l : Location) (name : String) : Location := { l with steps := l.steps ++ [.key name] }

def index (l : Location) (i : Nat) : Location := { l with steps := l.steps ++ [.index i] }

def text (l : Location) : String := l.root ++ String.join (l.steps.map Step.text)

end Location

end WireBindings
