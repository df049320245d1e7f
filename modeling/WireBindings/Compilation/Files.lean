import WireBindings.Compilation
import WireBindings.Output
import WireBindings.Schema.File

/-!
# Compilation from files to files

Nothing is written unless every domain has been printed.
-/

namespace WireBindings.Compilation

/-- The package name that goes with input paths unless one is given: that of the first path. -/
def defaultPackage : List String → Except Failure String
  | [] => .error .noInputs
  | path :: _ => .ok (Path.packageName path)

def Options.forInputs (o : Options) (paths : List String) : Except Failure Options := do
  if o.package.isEmpty then return { o with package := ← defaultPackage paths } else return o

/-- Compiles the documents at paths to files below `out`, whose paths are returned. -/
def compileFiles (o : Options) (stop : Cancellation) (paths : List String) (out : String) :
    Session (List String) := do
  let o ← Session.ofExcept (o.forInputs paths)
  let d ← Schema.load paths
  let files ← Session.ofExcept (compile o stop d)
  Session.ofFiles (Output.writeAll out files)

def checkFiles (policy : String) (paths : List String) : Session Summary := do
  let d ← Schema.load paths
  Session.ofExcept (check policy d)

end WireBindings.Compilation
