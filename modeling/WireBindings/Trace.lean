import WireBindings.Compilation

/-!
# Traces

What a run reports of its stages while it is under way. A trace ends at the stage that fails.
-/

namespace WireBindings.Trace

open Schema (Document TypeTable TypeKey Resolution)

inductive Level
  | debug
  | info
  | warning
  deriving DecidableEq, Repr

def Level.name : Level → String
  | .debug => "DEBUG"
  | .info => "INFO"
  | .warning => "WARNING"

inductive Step
  | unknownDependency (domain dependency : String)
  | resolved (references types : Nat)
  | recursiveAlias (key : TypeKey)
  | brokenCycle (domain type : String)
  | bound (domain : String) (types synthesized commands events : Nat)
  | planned (domain : String) (methods commands subscriptions : Nat)
  | rendered (language : Compilation.Language) (package unit : String)
  | compiled (domains files : Nat) (language : Compilation.Language)
  | written (files : Nat) (out : String)
  deriving DecidableEq, Repr

namespace Step

def level : Step → Level
  | .unknownDependency .. => .warning
  | .written .. => .info
  | _ => .debug

def channel : Step → String
  | .unknownDependency .. | .resolved .. => "cdpgen.resolver"
  | .recursiveAlias .. | .bound .. => "cdpgen.typemapper"
  | .brokenCycle .. => "cdpgen.dependency_resolver"
  | .planned .. => "cdpgen.planner"
  | .rendered .java _ _ => "cdpgen.cdptojava"
  | .rendered .python _ _ => "cdpgen.cdptopython"
  | .compiled .. | .written .. => "cdpgen.compiler"

def message : Step → String
  | .unknownDependency domain dependency =>
    "Domain " ++ domain ++ " declares dependency on unknown domain " ++ dependency
  | .resolved references types =>
    "Resolved " ++ toString references ++ " distinct references against " ++ toString types ++
      " types"
  | .recursiveAlias key => "Materializing self-referencing alias " ++ key.qualifiedName
  | .brokenCycle domain type =>
    "Breaking dependency cycle in domain " ++ domain ++ " at type " ++ type
  | .bound domain types synthesized commands events =>
    "Mapped domain " ++ domain ++ ": " ++ toString types ++ " types (" ++ toString synthesized ++
      " synthesized), " ++ toString commands ++ " commands, " ++ toString events ++ " events"
  | .planned domain methods commands subscriptions =>
    "Planned domain " ++ domain ++ ": " ++ toString methods ++ " methods for " ++
      toString commands ++ " commands, " ++ toString subscriptions ++ " subscriptions"
  | .rendered .java package unit => "Rendered Java interface " ++ package ++ "." ++ unit
  | .rendered .python package unit => "Rendered Python module " ++ package ++ "." ++ unit
  | .compiled domains files language =>
    "Compiled " ++ toString domains ++ " domains into " ++ toString files ++ " files for target " ++
      language.name
  | .written files out => "Wrote " ++ toString files ++ " files to " ++ out

def line (s : Step) : String := s.level.name ++ " " ++ s.channel ++ ": " ++ s.message

end Step

/-- The reports on unknown dependencies, up to the first domain whose references do not resolve. -/
def dependencies (table : TypeTable) : List Schema.Domain → List Step
  | [] => []
  | d :: domains =>
    (Schema.unknownDependencies table.domains d).map (Step.unknownDependency d.name) ++
      match table.resolveAll d [] d.references with
      | .ok _ => dependencies table domains
      | .error _ => []

def resolving (d : Document) : List Step :=
  match TypeTable.ofDocument d with
  | .error _ => []
  | .ok table =>
    dependencies table d.domains ++
      match Resolution.ofDocument d with
      | .ok r => [.resolved r.handles.length r.table.types.length]
      | .error _ => []

def bindingDomain (c : Binding.Context) (d : Schema.Domain) : List Step :=
  match c.foundTypes d with
  | .error _ => []
  | .ok types =>
    ((Binding.orderSteps types d.name).filter Binding.OrderStep.breaksCycle).map
        (fun step => Step.brokenCycle d.name step.type.name) ++
      [.bound d.name types.length (types.filter fun t => t.origin ≠ .declared).length
        d.commands.length d.events.length]

def binding (d : Document) : List Step :=
  resolving d ++
    match Resolution.ofDocument d >>= Binding.Context.ofResolution with
    | .error _ => []
    | .ok c => c.recursive.map Step.recursiveAlias ++ d.domains.flatMap (bindingDomain c)

def planningDomains (policy : Plan.Overloads) : List Binding.Domain → List Step
  | [] => []
  | d :: domains =>
    match Plan.Domain.ofBinding policy d with
    | .error _ => []
    | .ok p =>
      .planned d.name p.methods.length d.commands.length p.subscriptions.length ::
        planningDomains policy domains

def planning (policy : Plan.Overloads) (d : Document) : List Step :=
  binding d ++
    match Compilation.bind d with
    | .error _ => []
    | .ok p => planningDomains policy p.domains

def unitName (language : Compilation.Language) (domain : String) : String :=
  match language with
  | .java => domain
  | .python => Target.Python.moduleName domain

/-- The reports of compiling a document. Options that do not go together let no stage begin. -/
def compiling (o : Compilation.Options) (d : Document) : List Step :=
  match o.choice with
  | .error _ => []
  | .ok (language, policy) =>
    planning policy d ++
      match Compilation.compile o .never d with
      | .error _ => []
      | .ok files =>
        d.domains.map (fun domain =>
            .rendered language o.package (unitName language domain.name)) ++
          [.compiled d.domains.length files.length language]

/-- The lines of the reports that are shown: all of them, or warnings alone. -/
def shown (verbose : Bool) (steps : List Step) : List String :=
  (steps.filter fun s => verbose || s.level = .warning).map Step.line

end WireBindings.Trace
