import WireBindings.FileTree
import WireBindings.Target.Lines
import WireBindings.Text.Hex

/-!
# Writing output

The files of an output are first written to a staging directory below the output directory and then
moved to their places, so that a file that the system does not let be written leaves the others as
they were.
-/

namespace WireBindings.Output

open Target (File)

def stagingName (n : Nat) : String := ".cdpgen-" ++ String.ofList (Text.hexDigits 8 n)

/-- The path of a staging directory below `out` at which nothing stands. -/
def freshStaging (out : String) (t : FileTree) : String :=
  let path (n : Nat) := Path.join out (stagingName n)
  (((List.range (t.entries.length + 1)).map path).find? fun p => !t.pathExists p).getD (path 0)

def makeParent (path : String) : FileM Unit := FileM.makeDirectories (Path.parentPart path.toList)

def stageAll (staging : String) : List File → FileM Unit
  | [] => pure ()
  | file :: files => do
    let path := Path.join staging file.path
    makeParent path
    FileM.write path file.text.toUTF8
    stageAll staging files

def moveAll (staging out : String) : List File → FileM (List String)
  | [] => pure []
  | file :: files => do
    let path := Path.join out file.path
    makeParent path
    FileM.move (Path.join staging file.path) path
    return path :: (← moveAll staging out files)

/-- Writes files below a directory and returns their paths. -/
def writeVia (staging out : String) (isNew : Bool) (files : List File) : FileM (List String) := do
  FileM.makeDirectory staging
  match ← FileM.attempt (stageAll staging files) with
  | .error e =>
    -- only after a refusal by the system is anything cleaned up
    if e.fault.number?.isSome then
      FileM.removeTree staging
      if isNew then FileM.removeTree out
    throw e
  | .ok _ =>
    -- what was moved before a refusal stays; the staging directory goes in any case
    let moved ← FileM.attempt (moveAll staging out files)
    FileM.removeTree staging
    match moved with
    | .error e => throw e
    | .ok written => return written

/-- Writes files below a directory, which is made if it is not there, and returns their paths. -/
def writeAll (out : String) (files : List File) : FileM (List String) := do
  let isNew := !(← FileM.ask (·.pathExists out))
  FileM.makeDirectories out.toList
  writeVia (← FileM.ask (freshStaging out)) out isNew files

end WireBindings.Output
