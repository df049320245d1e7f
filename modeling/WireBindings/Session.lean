import WireBindings.Failure
import WireBindings.FileTree

/-!
# Work on files

Work that reads and writes files and may end in a failure. What was done before a failure stays
done.
-/

namespace WireBindings

abbrev Session := ExceptT Failure (StateM FileTree)

namespace Session

/-- File operations as work: a refusal is a failure. -/
def ofFiles {α : Type} (act : FileM α) : Session α := fun t =>
  let (result, t') := act t
  (result.mapError Failure.file, t')

def ofExcept {α : Type} (result : Except Failure α) : Session α := fun t => (result, t)

instance : MonadLift FileM Session where
  monadLift := ofFiles

instance : MonadLift (Except Failure) Session where
  monadLift := ofExcept

end Session

end WireBindings
