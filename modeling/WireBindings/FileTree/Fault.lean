import WireBindings.Text.Quoted

/-!
# Refusals of a file system

Why an operation on files is refused, with the number and the wording that go with it.
-/

namespace WireBindings

/-- The kinds of refusal of a file system. A path with a zero character is no path and a text with a
surrogate on its own has no bytes, so the system is never asked about them. -/
inductive FileFault
  | zeroCharacter
  | loneSurrogate
  | missing
  | alreadyThere
  | notDirectory
  | isDirectory
  | notEmpty
  | invalidArgument
  | nameTooLong
  deriving DecidableEq, Repr

def FileFault.number? : FileFault → Option Nat
  | .zeroCharacter | .loneSurrogate => none
  | .missing => some 2
  | .alreadyThere => some 17
  | .notDirectory => some 20
  | .isDirectory => some 21
  | .invalidArgument => some 22
  | .nameTooLong => some 36
  | .notEmpty => some 39

def FileFault.wording : FileFault → String
  | .zeroCharacter => "embedded null byte"
  | .loneSurrogate => "surrogates not allowed"
  | .missing => "No such file or directory"
  | .alreadyThere => "File exists"
  | .notDirectory => "Not a directory"
  | .isDirectory => "Is a directory"
  | .invalidArgument => "Invalid argument"
  | .nameTooLong => "File name too long"
  | .notEmpty => "Directory not empty"

structure FileError where
  fault : FileFault
  path : String
  destination : Option String := none
  deriving DecidableEq, Repr

def FileError.message (e : FileError) : String :=
  match e.fault.number? with
  | none => e.fault.wording
  | some number =>
    let arrow := match e.destination with
      | some d => " -> " ++ Text.quoted d
      | none => ""
    "[Errno " ++ toString number ++ "] " ++ e.fault.wording ++ ": " ++ Text.quoted e.path ++ arrow

end WireBindings
