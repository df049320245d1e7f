import WireBindings.Text.LowerCase

/-!
# Path texts

Paths as they are written, with slashes between their parts.
-/

namespace WireBindings.Path

/-- A path below another; an absolute one stands alone. -/
def join (base path : String) : String :=
  if path.toList.head? = some '/' then path
  else if base.isEmpty || base.toList.getLast? = some '/' then base ++ path
  else base ++ "/" ++ path

def lastPart (path : List Char) : List Char := (path.reverse.takeWhile (· ≠ '/')).reverse

/-- The characters before the last part, without slashes at their end unless there is nothing else.
-/
def parentPart (path : List Char) : List Char :=
  let head := path.take (path.length - (lastPart path).length)
  if head.all (· = '/') then head else (head.reverse.dropWhile (· = '/')).reverse

def baseName (path : String) : String := String.ofList (lastPart path.toList)

def parent (path : String) : String := String.ofList (parentPart path.toList)

theorem length_lastPart_le (path : List Char) : (lastPart path).length ≤ path.length := by
  have h := (List.takeWhile_prefix (l := path.reverse) (· ≠ '/')).length_le
  simpa [lastPart] using h

theorem length_parentPart_le (path : List Char) :
    (parentPart path).length ≤ path.length - (lastPart path).length := by
  unfold parentPart
  simp only
  split
  · simp only [List.length_take]; omega
  · rw [List.length_reverse]
    refine Nat.le_trans (List.dropWhile_suffix _).length_le ?_
    rw [List.length_reverse, List.length_take]
    omega

theorem length_parentPart_lt {path : List Char} (h : lastPart path ≠ []) :
    (parentPart path).length < path.length := by
  have h1 := length_lastPart_le path
  have h2 := List.length_pos_iff.2 h
  have h3 := length_parentPart_le path
  omega

def trimmed (path : List Char) : List Char :=
  if lastPart path = [] then parentPart path else path

theorem length_trimmed_le (path : List Char) : (trimmed path).length ≤ path.length := by
  have h := length_parentPart_le path
  unfold trimmed
  split <;> omega

/-- A name without its extension. A dot that only dots stand before starts none. -/
def stem (name : String) : String :=
  match name.toList.reverse.dropWhile (· ≠ '.') with
  | [] => name
  | _ :: before => if before.all (· = '.') then name else String.ofList before.reverse

def packageName (path : String) : String :=
  let name := (stem (baseName path)).toList.map fun c => if c = '-' ∨ c = ' ' then '_' else c
  Text.lower (String.ofList name)

end WireBindings.Path
