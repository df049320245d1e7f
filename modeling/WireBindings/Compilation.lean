import WireBindings.Binding.Mapping
import WireBindings.Target.JavaProject
import WireBindings.Target.PythonProject

/-!
# Compilation of a document

From a document to the files of a target: references are resolved, types bound, methods planned, and
each domain printed as a unit of its own, followed by the files that go with them.
-/

namespace WireBindings.Compilation

open Schema (Document)
open Plan (Overloads)
open Target (File)

inductive Language
  | java
  | python
  deriving DecidableEq, Repr

inductive PolicyRequest
  /-- The one that goes with the target. -/
  | ofTarget
  | named (name : String)
  /-- A request that names none. -/
  | unnamed
  deriving DecidableEq, Repr

namespace Language

def name : Language → String
  | .java => "java"
  | .python => "python"

def all : List Language := [.java, .python]

def ofName (s : String) : Except Failure Language :=
  match all.find? fun language => language.name = s with
  | some language => .ok language
  | none => .error (.unknownTarget s (all.map name))

/-- The policy for a language unless one is asked for. -/
def defaultOverloads : Language → Overloads
  | .java => .tiered
  | .python => .full

/-- The policy for a language: one that it cannot express is refused. A Python class keeps only
the last method of a name. -/
def overloads (language : Language) (request : PolicyRequest) : Except Failure Overloads := do
  let policy ← match request with
    | .ofTarget => pure language.defaultOverloads
    | .named name => Overloads.ofName name
    | .unnamed => throw .unnamedPolicy
  if language = .python ∧ policy ≠ .full then
    throw (.unsupportedPolicy language.name Overloads.full.name)
  return policy

end Language

def bind (d : Document) : Except Failure Binding.Protocol := do
  Binding.Protocol.ofResolution (← Schema.Resolution.ofDocument d)

def plan (policy : String) (d : Document) : Except Failure Plan.Protocol := do
  let protocol ← bind d
  -- what is wrong with the document is reported before an unknown policy
  let policy ← Overloads.ofName policy
  Plan.Protocol.ofBinding policy protocol

structure Options where
  target : String := "java"
  package : String := "protocol"
  overloads : PolicyRequest := .ofTarget
  jackson : Bool := false
  deriving DecidableEq, Repr

def Options.choice (o : Options) : Except Failure (Language × Overloads) := do
  let language ← Language.ofName o.target
  return (language, ← language.overloads o.overloads)

def domainFile (language : Language) (o : Options) (version : String) (d : Plan.Domain) :
    Except Failure File :=
  match language with
  | .java => Target.Java.domainFile { package := o.package, jackson := o.jackson } version d
  | .python => Target.Python.domainFile o.package version d

def supportFiles (language : Language) (o : Options) (version : String) (p : Plan.Protocol) :
    List File :=
  match language with
  | .java => Target.Java.supportFiles { package := o.package, jackson := o.jackson } version p
  | .python => Target.Python.supportFiles o.package version p

abbrev Cancellation := Nat → Bool

def Cancellation.never : Cancellation := fun _ => false

/-- The files of domains, in order, unless the run is stopped before one of them. The question is
asked once before each, and has been asked `asked` times. -/
def emitDomains (emit : Plan.Domain → Except Failure File) (stop : Cancellation) (asked : Nat) :
    List Plan.Domain → Except Failure (List File)
  | [] => .ok []
  | d :: domains => do
    if stop asked then throw (.compilation (.cancelled d.domain.name))
    let file ← emit d
    let rest ← emitDomains emit stop (asked + 1) domains
    return file :: rest

/-- Sets the text of a path: a new path goes to the end, one that is there keeps its place. -/
def setFile (file : File) : List File → List File
  | [] => [file]
  | f :: files => if f.path = file.path then file :: files else f :: setFile file files

/-- One file for each path: the first place of the path and its last text. -/
def collect (files : List File) : List File := files.foldl (fun acc file => setFile file acc) []

def compile (o : Options) (stop : Cancellation) (d : Document) : Except Failure (List File) := do
  let (language, policy) ← o.choice
  let plan ← plan policy.name d
  let version := d.versionText
  let units ← emitDomains (domainFile language o version) stop 0 plan.domains
  return collect (units ++ supportFiles language o version plan)

structure Summary where
  version : String
  domains : Nat
  types : Nat
  synthesizedTypes : Nat
  commands : Nat
  methods : Nat
  events : Nat
  deriving DecidableEq, Repr

namespace Summary

def ofPlan (version : String) (p : Plan.Protocol) : Summary :=
  let domains := p.protocol.domains
  let types := domains.flatMap Binding.Domain.types
  { version
    domains := domains.length
    types := types.length
    synthesizedTypes := (types.filter fun t => t.origin ≠ .declared).length
    commands := (domains.flatMap Binding.Domain.commands).length
    methods := (p.domains.flatMap Plan.Domain.methods).length
    events := (domains.flatMap Binding.Domain.events).length }

def text (s : Summary) : String :=
  "protocol " ++ (if s.version.isEmpty then "(unversioned)" else s.version) ++ ": " ++
    toString s.domains ++ " domains, " ++ toString s.types ++ " types (" ++
    toString s.synthesizedTypes ++ " synthesized), " ++ toString s.commands ++ " commands (" ++
    toString s.methods ++ " methods), " ++ toString s.events ++ " events"

end Summary

def check (policy : String) (d : Document) : Except Failure Summary := do
  return Summary.ofPlan d.versionText (← plan policy d)

end WireBindings.Compilation
