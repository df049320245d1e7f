import WireBindings.Error
import WireBindings.Schema

/-!
# Merging documents

Several documents as one: their domains in order and the first version that is given.
-/

namespace WireBindings.Schema

def Document.indexed (d : Document) : List (Domain × Nat) := d.domains.zipIdx

def indexedDomains (documents : List Document) : List (Domain × Nat × Nat) :=
  documents.zipIdx.flatMap fun (d, i) => d.indexed.map fun (domain, j) => (domain, i, j)

def checkDistinct (seen : List String) : List (Domain × Nat × Nat) → Except CompileError Unit
  | [] => .ok ()
  | (domain, i, j) :: rest =>
    if seen.contains domain.name then
      let root : Location := { root := "documents" }
      .error (.malformed ((((root.index i).key "domains").index j).key "domain")
        (.duplicateDomain domain.name))
    else checkDistinct (domain.name :: seen) rest

def merge (documents : List Document) : Except CompileError Document := do
  checkDistinct [] (indexedDomains documents)
  return {
    domains := documents.flatMap Document.domains
    version := documents.findSome? Document.version }

end WireBindings.Schema
