import WireBindings.Text.Blank

/-!
# Wrapped descriptions

A description as lines of bounded width. Lines of the text stay apart, and the words of each fill as
few lines as they fit on.
-/

namespace WireBindings.Documentation

def defaultWidth : Int := 96

/-- Words joined onto `current`, a new line for each that does not fit. -/
def fill (width : Int) (current : List Char) : List (List Char) → List (List Char)
  | [] => [current]
  | w :: ws =>
    if current.isEmpty then fill width w ws
    else if current.length + 1 + w.length > width then current :: fill width w ws
    else fill width (current ++ ' ' :: w) ws

def wrapChars (width : Int) (s : List Char) : List (List Char) :=
  (Text.lines (Text.trim s)).flatMap fun line => fill width [] (Text.words line)

def wrapTo (width : Int) (s : String) : List String := (wrapChars width s.toList).map String.ofList

def wrap (s : String) : List String := wrapTo defaultWidth s

def isVoid (s : String) : Bool := s.toList.all Text.isBlank

end WireBindings.Documentation
