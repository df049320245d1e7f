import WireBindings.FileTree.Fault
import WireBindings.Path

/-!
# File trees

Files and directories as a value, seen from a working directory. Every operation takes paths as they
are written, and a refused operation leaves the tree as it is.
-/

namespace WireBindings

/-- The parts of a path from the working directory on, after as many `..` as lead out of it; an
absolute path starts with `/`. -/
abbrev Place := List String

inductive Entry
  | file (content : ByteArray)
  | directory

instance : DecidableEq Entry
  | .file a, .file b =>
    if h : a.data = b.data then .isTrue (congrArg Entry.file (ByteArray.ext h))
    else .isFalse fun e => h (congrArg ByteArray.data (Entry.file.inj e))
  | .directory, .directory => .isTrue rfl
  | .file _, .directory => .isFalse Entry.noConfusion
  | .directory, .file _ => .isFalse Entry.noConfusion

structure FileTree where
  entries : List (Place × Entry) := []

/-- Operations on a file tree. A refusal keeps what was done before it. -/
abbrev FileM := ExceptT FileError (StateM FileTree)

namespace FileTree

def isFixed (p : Place) : Bool := p.all (· = "..") || p = ["/"]

def find? (t : FileTree) (p : Place) : Option Entry :=
  if isFixed p then some .directory else t.entries.lookup p

def set (t : FileTree) (p : Place) (e : Entry) : FileTree where
  entries := (p, e) :: t.entries.filter fun x => x.1 ≠ p

def erase (t : FileTree) (p : Place) : FileTree where
  entries := t.entries.filter fun x => x.1 ≠ p

def isBelow (p q : Place) : Bool :=
  p.isPrefixOf q && (q.drop p.length).all fun part => part ≠ ".." && part ≠ "/"

def eraseBelow (t : FileTree) (p : Place) : FileTree where
  entries := t.entries.filter fun x => !isBelow p x.1

def maxNameBytes : Nat := 255
def maxPathBytes : Nat := 4095

def parts (path : String) : List String :=
  ((path.toList.splitOnP (· == '/')).filter (!·.isEmpty)).map String.ofList

def step (p : Place) (part : String) : Except FileFault Place :=
  if maxNameBytes < part.utf8ByteSize then .error .nameTooLong
  else if part = "." then .ok p
  else if part = ".." then
    if p = ["/"] then .ok p
    -- above the working directory and above what is above it there is always one more
    else if p.all (· = "..") then .ok (p ++ [".."])
    else .ok p.dropLast
  else .ok (p ++ [part])

/-- The place that parts lead to from a directory. All but the last have to lead to directories. -/
def descend (t : FileTree) (p : Place) : List String → Except FileFault Place
  | [] => .ok p
  | [part] => step p part
  | part :: rest => do
    let next ← step p part
    match t.find? next with
    | none => throw .missing
    | some (.file _) => throw .notDirectory
    | some .directory => t.descend next rest

def resolve (t : FileTree) (path : String) : Except FileFault Place :=
  if path.toList.contains '\x00' then .error .zeroCharacter
  else if path.isEmpty then .error .missing
  else if maxPathBytes < path.utf8ByteSize then .error .nameTooLong
  else t.descend (if path.toList.head? = some '/' then ["/"] else []) (parts path)

/-- Whether a path ends in a slash, so that only a directory can stand there. -/
def namesDirectory (path : String) : Bool := path.toList.getLast? = some '/'

def pathExists (t : FileTree) (path : String) : Bool :=
  match t.resolve path with
  | .error _ => false
  | .ok p =>
    match t.find? p with
    | none => false
    | some .directory => true
    | some (.file _) => !namesDirectory path

def isDirectory (t : FileTree) (path : String) : Bool :=
  match t.resolve path with
  | .error _ => false
  | .ok p => t.find? p = some .directory

def read (t : FileTree) (path : String) : Except FileFault ByteArray := do
  match t.find? (← t.resolve path) with
  | none => throw .missing
  | some .directory => throw .isDirectory
  | some (.file content) => if namesDirectory path then throw .notDirectory else return content

def makeDirectory (t : FileTree) (path : String) : Except FileFault FileTree := do
  let p ← t.resolve path
  match t.find? p with
  | some _ => throw .alreadyThere
  | none => return t.set p .directory

/-- The tree with a file at a path; a file that is there gets the new content. -/
def write (t : FileTree) (path : String) (content : ByteArray) : Except FileFault FileTree := do
  let p ← t.resolve path
  match t.find? p with
  | some .directory => throw .isDirectory
  | some (.file _) =>
    if namesDirectory path then throw .notDirectory else return t.set p (.file content)
  | none => if namesDirectory path then throw .isDirectory else return t.set p (.file content)

def move (t : FileTree) (source destination : String) : Except FileFault FileTree := do
  let p ← t.resolve source
  let q ← t.resolve destination
  match t.find? p, t.find? q with
  | none, _ => throw .missing
  | some .directory, some (.file _) => throw .notDirectory
  | some .directory, _ => throw .invalidArgument
  | some (.file _), some .directory => throw .isDirectory
  -- a file takes the place of another, but never that of a directory
  | some (.file content), _ =>
    if namesDirectory source || namesDirectory destination then throw .notDirectory
    else return (t.erase p).set q (.file content)

def placesAlong (path : String) : List Place :=
  let start : Place := if path.toList.head? = some '/' then ["/"] else []
  ((parts path).foldl (fun places part =>
    match step (places.headD start) part with
    | .ok p => p :: places
    | .error _ => places) []).reverse

def remove (t : FileTree) (path : String) : Except FileFault FileTree := do
  let p ← t.resolve path
  match t.find? p with
  | none => throw .missing
  | some .directory => throw .isDirectory
  | some (.file _) => if namesDirectory path then throw .notDirectory else return t.erase p

/-- Whether a path names its directory by one of the two entries that every directory has for
itself and the one above it. -/
def endsInDots (path : String) : Bool :=
  match (parts path).getLast? with
  | some part => part = "." || part = ".."
  | none => false

/-- The tree without the directory at a path and what is below it. -/
def removeTree (t : FileTree) (path : String) : FileTree :=
  match t.resolve path with
  | .error _ => t
  | .ok p =>
    if t.find? p = some .directory then
      let emptied := t.eraseBelow p
      -- no directory goes by the name of an entry of its own, only what is in it
      if endsInDots path then emptied.set p .directory else emptied
    else t

/-- What stands below a directory, in the order of the paths from there on: files with their sizes,
and directories, whose paths end in a slash. -/
def listing (t : FileTree) (base : Place) : List (String × Option Nat) :=
  let row (x : Place × Entry) : String × Option Nat :=
    let path := "/".intercalate (x.1.drop base.length)
    match x.2 with
    | .file content => (path, some content.size)
    | .directory => (path ++ "/", none)
  ((t.entries.filter fun x => x.1 ≠ base && isBelow base x.1).map row).mergeSort
    fun a b => decide (a.1 ≤ b.1)

end FileTree

namespace FileM

def change (path : String) (destination : Option String)
    (act : FileTree → Except FileFault FileTree) : FileM Unit := fun t =>
  match act t with
  | .ok t' => (.ok (), t')
  | .error fault => (.error { fault, path, destination }, t)

def ask {α : Type} (f : FileTree → α) : FileM α := fun t => (.ok (f t), t)

def update (f : FileTree → FileTree) : FileM Unit := fun t => (.ok (), f t)

def attempt {α : Type} (act : FileM α) : FileM (Except FileError α) := fun t =>
  let (result, t') := act t
  (.ok result, t')

def read (path : String) : FileM ByteArray := fun t =>
  match t.read path with
  | .ok content => (.ok content, t)
  | .error fault => (.error { fault, path }, t)

def makeDirectory (path : String) : FileM Unit := change path none (·.makeDirectory path)

def write (path : String) (content : ByteArray) : FileM Unit :=
  change path none (·.write path content)

def move (source destination : String) : FileM Unit :=
  change source (some destination) (·.move source destination)

def remove (path : String) : FileM Unit := change path none (·.remove path)

def removeTree (path : String) : FileM Unit := update (·.removeTree path)

/-- Makes the directory at a path and those above it, as far as they are not there. -/
def makeDirectories (path : List Char) : FileM Unit := do
  let name := Path.lastPart (Path.trimmed path)
  let above := Path.parentPart (Path.trimmed path)
  let text := String.ofList path
  if h : name ≠ [] ∧ above ≠ [] then
    if !(← ask (·.pathExists (String.ofList above))) then
      have : above.length < path.length :=
        Nat.lt_of_lt_of_le (Path.length_parentPart_lt h.1) (Path.length_trimmed_le path)
      match ← attempt (makeDirectories above) with
      | .ok _ => pure ()
      | .error e => if e.fault ≠ .alreadyThere then throw e
      if name = ['.'] then return
  match ← attempt (makeDirectory text) with
  | .ok _ => pure ()
  | .error e => if !(← ask (·.isDirectory text)) then throw e
termination_by path.length

end FileM

end WireBindings
