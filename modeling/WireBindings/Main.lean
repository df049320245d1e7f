import WireBindings.CommandLine

/-!
# The program

Takes the part of the file system that a run looks at as a file tree, runs the program on it and
carries out what has changed.
-/

namespace WireBindings.Program

def spoolDirectory : Place := ["/", "tmp"]
def spoolPath : String := "/tmp/tmpstdin.json"

def pathOf : Place → String
  | "/" :: rest => "/" ++ "/".intercalate rest
  | place => "/".intercalate place

/-- What stands at a path, as far as it can be read. Only a directory has itself as an entry. -/
def look (path : String) : IO (Option Entry) := do
  try
    let _ ← IO.FS.Handle.mk (path ++ "/.") .read
    return some .directory
  catch _ =>
    try return some (.file (← IO.FS.readBinFile path))
    catch _ => return none

def survey (t : FileTree) (paths : List String) : IO FileTree := do
  let mut t := t
  for place in paths.flatMap FileTree.placesAlong do
    if (t.find? place).isNone then
      if let some entry ← look (pathOf place) then t := t.set place entry
  return t

def carryOut (before after : FileTree) : IO Unit := do
  let changed := after.entries.filter fun x => before.find? x.1 ≠ some x.2
  for (place, entry) in changed.mergeSort fun x y => decide (x.1.length ≤ y.1.length) do
    match entry with
    | .directory => IO.FS.createDir (pathOf place)
    | .file content => IO.FS.writeBinFile (pathOf place) content
  let removed := before.entries.filter fun x => (after.find? x.1).isNone
  for (place, entry) in removed.mergeSort fun x y => decide (y.1.length ≤ x.1.length) do
    match entry with
    | .directory => IO.FS.removeDir (pathOf place)
    | .file _ => IO.FS.removeFile (pathOf place)

def jobOf? (arguments : List String) : Option CommandLine.Job :=
  match CommandLine.readArguments arguments with
  | .ok { version := false, task := some (task, given), .. } =>
    some (CommandLine.jobOf spoolPath task given)
  | _ => none

def treeFor (job : CommandLine.Job) (input : ByteArray) : IO FileTree := do
  let t ← survey (({} : FileTree).set spoolDirectory .directory) job.inputs
  let spooled := (CommandLine.spool spoolPath input t).2
  survey t (job.footprint (if job.inputs = [spoolPath] then spooled else t))

end WireBindings.Program

open WireBindings in
def main (arguments : List String) : IO UInt32 := do
  let job? := Program.jobOf? arguments
  let readsInput := job?.any fun job => job.given.operands.isEmpty
  let input ← if readsInput then (← IO.getStdin).readBinToEnd else pure ByteArray.empty
  let before ← match job? with
    | some job => Program.treeFor job input
    | none => pure {}
  let (outcome, after) := CommandLine.run Program.spoolPath arguments input before
  Program.carryOut before after
  (← IO.getStderr).putStr outcome.errors
  (← IO.getStdout).putStr outcome.output
  return UInt32.ofNat outcome.status
