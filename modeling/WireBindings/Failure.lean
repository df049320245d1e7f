import WireBindings.Error
import WireBindings.FileTree.Fault
import WireBindings.Text.Octets

/-!
# Failures of a run

Everything that ends a run without a result: a document that cannot be compiled, options that do
not go together, and what reading and writing files can meet.
-/

namespace WireBindings

inductive Failure
  /-- The document cannot be compiled. -/
  | compilation (e : CompileError)
  /-- No target has this name. -/
  | unknownTarget (name : String) (targets : List String)
  /-- No overload policy has this name. -/
  | unknownPolicy (name : String)
  /-- An overload policy is asked for, but none is named. -/
  | unnamedPolicy
  /-- The target cannot express the policy; `supported` is the one it can. -/
  | unsupportedPolicy (target supported : String)
  /-- A type that has to be printed is missing. -/
  | missingType
  /-- A table has no entry for this key. -/
  | missingKey (key : String)
  /-- A list of input paths is empty. -/
  | noInputs
  /-- An input is not UTF-8. -/
  | notText (fault : Text.OctetFault)
  /-- The file system refused an operation. -/
  | file (e : FileError)
  deriving DecidableEq, Repr

def Failure.message : Failure → String
  | .compilation e => e.message
  | .unknownTarget name targets =>
    "Unknown target '" ++ name ++ "', expected one of " ++ ", ".intercalate targets
  | .unknownPolicy name => Text.quoted name ++ " is not a valid OverloadPolicy"
  | .unnamedPolicy => "[] is not a valid OverloadPolicy"
  | .unsupportedPolicy target supported =>
    "Target '" ++ target ++ "' supports only the '" ++ supported ++ "' overload policy"
  | .missingType => "Unsupported descriptor None"
  | .missingKey key => Text.quoted key
  | .noInputs => "list index out of range"
  | .notText fault => fault.message
  | .file e => e.message

instance : MonadLift (Except CompileError) (Except Failure) where
  monadLift := Except.mapError Failure.compilation

end WireBindings
