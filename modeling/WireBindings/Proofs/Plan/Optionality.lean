import WireBindings.Proofs.Compilation.Stages

/-!
# Optional parameters from the document to the plan

A bound document is planned exactly when optional parameters come last everywhere. Its signatures
then tell the required parameters of each command from the optional ones, under either policy.
-/

namespace WireBindings

def Schema.Domain.callables (d : Schema.Domain) : List Plan.Callable :=
  d.commands.map (fun c => .of d.name c.name c.parameters) ++
    d.events.map fun e => .of d.name e.name e.parameters

def Schema.Document.callables (doc : Schema.Document) : List Plan.Callable :=
  doc.domains.flatMap Schema.Domain.callables

/-! ## Binding keeps parameters -/

namespace Binding.Context

variable {c : Context} {domain : String}

theorem FieldsOf.map_parameter {path : ShapePath} {properties : List Schema.Property}
    {fields : List Field} (h : c.FieldsOf domain path properties fields) :
    properties.map Member.parameter = fields.map Member.parameter :=
  Outcome.map_eq_map_of_forall₂ h fun p _ f hf => by
    rw [Member.parameter, Member.parameter, hf.name, hf.optional]

theorem CommandOf.callable_eq {command : Schema.Command} {bound : Command}
    (h : c.CommandOf domain command bound) :
    Plan.Callable.of domain command.name command.parameters =
      .of domain bound.name bound.parameters := by
  rw [Plan.Callable.of, h.parameters.map_parameter, h.name, Plan.Callable.of]

theorem EventOf.callable_eq {event : Schema.Event} {bound : Event}
    (h : c.EventOf domain event bound) :
    Plan.Callable.of domain event.name event.parameters =
      .of domain bound.name bound.parameters := by
  rw [Plan.Callable.of, h.parameters.map_parameter, h.name, Plan.Callable.of]

theorem Bound.callables_eq {d : Schema.Domain} {bound : Domain} (h : c.Bound d bound) :
    d.callables = bound.callables := by
  rw [Schema.Domain.callables, Domain.callables, h.name,
    Outcome.map_eq_map_of_forall₂ h.commands fun _ _ _ hbound => hbound.callable_eq,
    Outcome.map_eq_map_of_forall₂ h.events fun _ _ _ hbound => hbound.callable_eq]

end Binding.Context

namespace Plan

open Schema (Document)

structure Keeps (command : Schema.Command) (bound : Binding.Command) : Prop where
  name : bound.name = command.name
  parameters : bound.parameters.map Member.parameter = command.parameters.map Member.parameter
  result : bound.result = none ↔ command.returns = []
  advisory : bound.advisory = command.advisory

theorem keeps_of_commandOf {c : Binding.Context} {domain : String} {command : Schema.Command}
    {bound : Binding.Command} (h : c.CommandOf domain command bound) : Keeps command bound where
  name := h.name
  parameters := h.parameters.map_parameter.symm
  result := by
    rcases h.result with ⟨hnone, hreturns⟩ | ⟨t, -, hsome, hreturns⟩
    · exact ⟨fun _ => hreturns, fun _ => hnone⟩
    · rw [hsome]
      exact ⟨fun h => (nomatch h), fun h => absurd h hreturns⟩
  advisory := h.advisory

theorem callables_of_bind {doc : Document} {bound : Binding.Protocol}
    (h : Compilation.bind doc = .ok bound) : doc.callables = bound.callables := by
  obtain ⟨r, c, -, -, hbound⟩ := Compilation.exists_bound_of_bind h
  rw [Document.callables, Binding.Protocol.callables, List.flatMap_def, List.flatMap_def,
    Outcome.map_eq_map_of_forall₂ hbound fun _ _ _ h => h.callables_eq]

/-! ## Signatures with every parameter -/

theorem Signature.optional_short (s : Signature) : s.short.optional = [] := by
  rw [optional, short, required, List.filter_filter, List.filter_eq_nil_iff]
  intro f _
  simp

/-- What is left of the methods of a domain without the shorter overloads: a signature is one if the
next has exactly one optional parameter. -/
def dropShort : List Signature → List Signature
  | [] => []
  | [s] => [s]
  | s :: t :: rest =>
    if t.optional.length = 1 then dropShort (t :: rest) else s :: dropShort (t :: rest)

def fullSignatures : Overloads → List Signature → List Signature
  | .tiered => dropShort
  | .full => id

theorem dropShort_cons_of_head {s : Signature} {rest : List Signature}
    (h : ∀ t ∈ rest.head?, t.optional.length ≠ 1) :
    dropShort (s :: rest) = s :: dropShort rest := by
  cases rest with
  | nil => rfl
  | cons t rest => rw [dropShort, if_neg (h t rfl)]

/-- No command has a first method with exactly one optional parameter. -/
theorem head_signatures_ne_one (commands : List Binding.Command) :
    ∀ t ∈ (commands.flatMap (signaturesOf .tiered)).head?, t.optional.length ≠ 1 := by
  cases commands with
  | nil => simp
  | cons c commands =>
      rw [List.flatMap_cons, signaturesOf]
      split
      · simp [Signature.optional_short]
      · rename_i h
        simpa using h

theorem dropShort_flatMap (commands : List Binding.Command) :
    dropShort (commands.flatMap (signaturesOf .tiered)) = commands.map fullSignature := by
  induction commands with
  | nil => rfl
  | cons c commands ih =>
      have hhead := head_signatures_ne_one commands
      rw [List.flatMap_cons, List.map_cons, ← ih, ← dropShort_cons_of_head hhead]
      by_cases hone : (fullSignature c).optional.length = 1
      · rw [signaturesOf, if_pos ⟨rfl, hone⟩, List.cons_append, List.singleton_append, dropShort,
          if_pos hone]
      · rw [signaturesOf, if_neg fun h => hone h.2, List.singleton_append]

theorem fullSignatures_flatMap (policy : Overloads) (commands : List Binding.Command) :
    fullSignatures policy (commands.flatMap (signaturesOf policy)) =
      commands.map fullSignature := by
  cases policy with
  | tiered => exact dropShort_flatMap commands
  | full =>
      have hsingle : signaturesOf .full = fun c => [fullSignature c] := by
        funext c
        rw [signaturesOf, if_neg fun h => absurd h.1 (by decide)]
      rw [hsingle, ← List.map_eq_flatMap]
      rfl

def Protocol.withoutShort (p : Protocol) : Protocol where
  protocol := p.protocol
  domains := p.domains.map fun d => { d with methods := dropShort d.methods }
  policy := .full

theorem planOf_withoutShort (bound : Binding.Protocol) :
    (Protocol.planOf .tiered bound).withoutShort = Protocol.planOf .full bound := by
  have hdomain : ∀ d : Binding.Domain,
      { Domain.planOf .tiered d with methods := dropShort (Domain.planOf .tiered d).methods } =
        Domain.planOf .full d := by
    intro d
    have hfull := fullSignatures_flatMap .full d.commands
    have htiered := dropShort_flatMap d.commands
    rw [Domain.planOf, Domain.planOf, htiered, ← hfull]
    rfl
  rw [Protocol.withoutShort, Protocol.planOf, Protocol.planOf, List.map_map]
  congr 1
  exact List.map_congr_left fun d _ => hdomain d

/-! ## What the signatures tell -/

/-- The names of what a command has to be given and of what it may be given. -/
structure Outline where
  name : String
  required : List String
  optional : List String
  deriving DecidableEq, Repr

def Signature.outline (s : Signature) : Outline :=
  ⟨s.name, s.required.map Member.name, s.optional.map Member.name⟩

def outlineOf (command : Schema.Command) : Outline where
  name := command.name
  required := (command.parameters.filter fun p => !p.optional).map Member.name
  optional := (command.parameters.filter Member.optional).map Member.name

theorem map_name_filter {α : Type} (q : Bool → Bool) (members : List (Member α)) :
    (members.filter fun p => q p.optional).map Member.name =
      ((members.map Member.parameter).filter fun p => q p.optional).map Parameter.name := by
  rw [List.filter_map, List.map_map]
  rfl

theorem Keeps.outline_eq {command : Schema.Command} {bound : Binding.Command}
    (h : Keeps command bound) : outlineOf command = (fullSignature bound).outline := by
  have hnames : ∀ q : Bool → Bool,
      (command.parameters.filter fun p => q p.optional).map Member.name =
        (bound.parameters.filter fun p => q p.optional).map Member.name := by
    intro q
    rw [map_name_filter, map_name_filter, h.parameters]
  rw [outlineOf, Signature.outline, Outline.mk.injEq]
  exact ⟨h.name.symm, hnames not, hnames id⟩

/-- A planned domain: its methods are those of the commands that it binds, and tell of each what
the document says. -/
structure Lossless (policy : Overloads) (d : Schema.Domain) (planned : Domain) : Prop where
  commands : List.Forall₂ Keeps d.commands planned.domain.commands
  methods : planned.methods = planned.domain.commands.flatMap (signaturesOf policy)
  told : (fullSignatures policy planned.methods).map Signature.outline = d.commands.map outlineOf

theorem lossless_planOf {c : Binding.Context} {d : Schema.Domain} {bound : Binding.Domain}
    (policy : Overloads) (h : c.Bound d bound) :
    Lossless policy d (Domain.planOf policy bound) := by
  have hkeeps : List.Forall₂ Keeps d.commands bound.commands :=
    h.commands.imp fun _ _ hcommand => keeps_of_commandOf hcommand
  refine ⟨hkeeps, rfl, ?_⟩
  rw [Domain.planOf, fullSignatures_flatMap, List.map_map]
  exact (Outcome.map_eq_map_of_forall₂ hkeeps fun _ _ _ hcommand => hcommand.outline_eq).symm

/-- A bound document is planned unless a required parameter follows an optional one, and then the
first that does is reported. Every command gets one signature with all its parameters, before
which the tiered policy puts a shorter one for exactly one optional parameter; so the signatures
tell the parameters of every command, and without the shorter ones they are those of the full
policy. -/
theorem optionality_lossless {doc : Document} {bound : Binding.Protocol}
    (hbind : Compilation.bind doc = .ok bound) (policy : Overloads) :
    ((∃ p, Compilation.plan policy.name doc = .ok p) ↔
      ∀ c ∈ doc.callables, Trailing c.parameters) ∧
    ((¬ ∀ c ∈ doc.callables, Trailing c.parameters) →
      ∃ before c after q, doc.callables = before ++ c :: after ∧
        (∀ x ∈ before, Trailing x.parameters) ∧ Offends c.parameters q ∧
        Compilation.plan policy.name doc =
          .error (.compilation (.requiredAfterOptional c.domain c.name q.name))) ∧
    (∀ p, Compilation.plan policy.name doc = .ok p →
      List.Forall₂ (Lossless policy) doc.domains p.domains) ∧
    ∀ t, Compilation.plan Overloads.tiered.name doc = .ok t →
      Compilation.plan Overloads.full.name doc = .ok t.withoutShort := by
  have hok : ∀ {policy p}, Compilation.plan (Overloads.name policy) doc = .ok p ↔
      (∀ c ∈ doc.callables, Trailing c.parameters) ∧ p = Protocol.planOf policy bound := by
    intro policy p
    rw [callables_of_bind hbind]
    exact Compilation.plan_eq_ok_iff hbind
  refine ⟨⟨?_, ?_⟩, ?_, ?_, ?_⟩
  · rintro ⟨p, hp⟩
    exact (hok.1 hp).1
  · intro h
    exact ⟨_, hok.2 ⟨h, rfl⟩⟩
  · intro h
    cases hplan : Protocol.ofBinding policy bound with
    | ok p =>
        rw [callables_of_bind hbind] at h
        exact absurd (Protocol.ofBinding_eq_ok_iff.1 hplan).1 h
    | error e =>
        obtain ⟨before, c, after, q, hsplit, hbefore, hq, rfl⟩ :=
          Protocol.ofBinding_eq_error_iff.1 hplan
        refine ⟨before, c, after, q, (callables_of_bind hbind).trans hsplit, hbefore, hq, ?_⟩
        rw [Compilation.plan_of_bind hbind, hplan]
        rfl
  · intro p hp
    obtain ⟨-, rfl⟩ := hok.1 hp
    obtain ⟨r, c, -, -, hbound⟩ := Compilation.exists_bound_of_bind hbind
    exact List.forall₂_map_right_iff.2 (hbound.imp fun _ _ h => lossless_planOf policy h)
  · intro t ht
    obtain ⟨htrailing, rfl⟩ := hok.1 ht
    exact hok.2 ⟨htrailing, planOf_withoutShort bound⟩

/-- Commands with none, one and two optional parameters. -/
def snapshots : Document where
  domains := [
    { name := "HeapProfiler"
      commands := [
        { name := "enable" },
        { name := "takeHeapSnapshot"
          parameters := [
            { name := "target", type := .scalar .string },
            { name := "reportProgress", type := .scalar .boolean, optional := true }] },
        { name := "stop"
          parameters := [
            { name := "reportProgress", type := .scalar .boolean, optional := true },
            { name := "exposeInternals", type := .scalar .boolean, optional := true }]
          returns := [{ name := "samples", type := .array (.scalar .integer) }] }]
      events := [{ name := "finished" }] }]

theorem optionality_lossless_snapshots :
    ∃ bound t, Compilation.bind snapshots = .ok bound ∧
      Compilation.plan "tiered" snapshots = .ok t ∧
      (t.domains.flatMap Domain.methods).map Signature.outline =
        [⟨"enable", [], []⟩, ⟨"takeHeapSnapshot", ["target"], []⟩,
          ⟨"takeHeapSnapshot", ["target"], ["reportProgress"]⟩,
          ⟨"stop", [], ["reportProgress", "exposeInternals"]⟩] ∧
      List.Forall₂ (Lossless .tiered) snapshots.domains t.domains ∧
      Compilation.plan "full" snapshots = .ok t.withoutShort := by
  have houtlines : (Compilation.plan "tiered" snapshots).toOption.map
      (fun t => (t.domains.flatMap Domain.methods).map Signature.outline) =
      some [⟨"enable", [], []⟩, ⟨"takeHeapSnapshot", ["target"], []⟩,
        ⟨"takeHeapSnapshot", ["target"], ["reportProgress"]⟩,
        ⟨"stop", [], ["reportProgress", "exposeInternals"]⟩] := by decide +kernel
  obtain ⟨t, ht, houtlines⟩ := Option.map_eq_some_iff.1 houtlines
  have ht : Compilation.plan "tiered" snapshots = .ok t := Outcome.toOption_eq_some.1 ht
  obtain ⟨bound, hbind, -⟩ := Outcome.bind_eq_ok.1 ht
  obtain ⟨-, -, hlossless, hfull⟩ := optionality_lossless hbind .tiered
  exact ⟨bound, t, hbind, ht, houtlines, hlossless t ht, hfull t ht⟩

end Plan

end WireBindings
