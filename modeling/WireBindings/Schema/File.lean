import WireBindings.Json.Reader
import WireBindings.Schema.Merge
import WireBindings.Schema.Reader
import WireBindings.Schema.Writer
import WireBindings.Session

/-!
# Documents in files

A document is read from one file or merged from several, and saved to one.
-/

namespace WireBindings.Schema

/-- The document of a text with surrogates on their own. They may stand where the document takes
nothing from, so that it does not matter what is read in their place; a document that takes one in
is refused, since nobody could write it. -/
def Document.ofBrokenText (name text : String) : Except Failure Document :=
  let documentWith (standIn : String) : Except Failure Document := do
    let v ← (Json.Value.readWith standIn text).mapError fun e =>
      Failure.compilation (.malformed { root := name } (.unreadable e))
    (Document.ofValue v name).mapError Failure.compilation
  let refusal := Failure.file { fault := .loneSurrogate, path := name }
  match documentWith "\ufffd", documentWith "\ufffe" with
  | .ok d, .ok d' => if d.fileText = d'.fileText then .ok d else .error refusal
  | .error e, .error e' => .error (if e = e' then e else refusal)
  | _, _ => .error refusal

/-- The document of a file's content. A complaint about it is located from the file's name on. -/
def Document.ofContent (name : String) (content : ByteArray) : Except Failure Document := do
  let text ← (Text.readable content).mapError Failure.notText
  match Json.Value.read text with
  | .error .loneSurrogate => Document.ofBrokenText name text
  | .error e => throw (.compilation (.malformed { root := name } (.unreadable e)))
  | .ok v => (Document.ofValue v name).mapError Failure.compilation

def readFile (path : String) : Session Document := do
  let content ← (FileM.read path : FileM ByteArray)
  Session.ofExcept (Document.ofContent (Path.baseName path) content)

/-- The documents as one. A document alone is returned as it is. -/
def combine : List Document → Except CompileError Document
  | [d] => .ok d
  | documents => merge documents

def load (paths : List String) : Session Document := do
  let documents ← paths.mapM readFile
  Session.ofExcept ((combine documents).mapError Failure.compilation)

def Document.save (d : Document) (path : String) : FileM Unit := do
  let directory := Path.parentPart path.toList
  if directory ≠ [] then
    if !(← FileM.ask (·.pathExists (String.ofList directory))) then
      FileM.makeDirectories directory
  FileM.write path d.fileText.toUTF8

end WireBindings.Schema
