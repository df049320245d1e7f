import WireBindings.Plan
import WireBindings.Proofs.Outcome

/-!
# What is planned for a command

Planning first looks for a required parameter after an optional one, in every command and event, and
refuses the first it finds. Nothing else is refused: what a command and an event get is then a
function of each alone.
-/

namespace WireBindings

structure Parameter where
  name : String
  optional : Bool
  deriving DecidableEq, Repr

def Member.parameter {α : Type} (m : Member α) : Parameter := ⟨m.name, m.optional⟩

namespace Plan

def Trailing (parameters : List Parameter) : Prop :=
  parameters.Pairwise fun p q => p.optional = true → q.optional = true

instance (parameters : List Parameter) : Decidable (Trailing parameters) :=
  inferInstanceAs (Decidable (parameters.Pairwise _))

def Offends (parameters : List Parameter) (q : Parameter) : Prop :=
  ∃ before after, parameters = before ++ q :: after ∧ Trailing before ∧
    (∃ p ∈ before, p.optional = true) ∧ q.optional = false

def offender? : List Parameter → Option Parameter
  | [] => none
  | p :: parameters =>
    if p.optional then parameters.find? fun q => !q.optional else offender? parameters

theorem trailing_of_all_optional {parameters : List Parameter}
    (h : ∀ p ∈ parameters, p.optional = true) : Trailing parameters :=
  List.pairwise_of_forall_mem_list fun _ _ q hq _ => h q hq

theorem trailing_cons_iff {p : Parameter} {parameters : List Parameter} :
    Trailing (p :: parameters) ↔
      (p.optional = true → ∀ q ∈ parameters, q.optional = true) ∧ Trailing parameters := by
  rw [Trailing, List.pairwise_cons]
  constructor
  · rintro ⟨h, hrest⟩
    exact ⟨fun hp q hq => h q hq hp, hrest⟩
  · rintro ⟨h, hrest⟩
    exact ⟨fun q hq hp => h hp q hq, hrest⟩

theorem offender?_eq_none_iff {parameters : List Parameter} :
    offender? parameters = none ↔ Trailing parameters := by
  induction parameters with
  | nil => simp [offender?, Trailing]
  | cons p parameters ih =>
      rw [offender?, trailing_cons_iff]
      cases hp : p.optional with
      | true =>
          have hnone : (parameters.find? fun q => !q.optional) = none ↔
              ∀ q ∈ parameters, q.optional = true := by simp
          rw [if_pos rfl, hnone]
          exact ⟨fun h => ⟨fun _ => h, trailing_of_all_optional h⟩, fun h => h.1 rfl⟩
      | false =>
          rw [if_neg Bool.false_ne_true, ih]
          exact ⟨fun h => ⟨fun hfalse => absurd hfalse Bool.false_ne_true, h⟩, fun h => h.2⟩

theorem offender?_eq_some_iff {parameters : List Parameter} {q : Parameter} :
    offender? parameters = some q ↔ Offends parameters q := by
  induction parameters with
  | nil =>
      constructor
      · intro h
        cases h
      · rintro ⟨before, after, h, -⟩
        simp at h
  | cons p parameters ih =>
      rw [offender?]
      cases hp : p.optional with
      | true =>
          rw [if_pos rfl, List.find?_eq_some_iff_append]
          constructor
          · rintro ⟨hq, before, after, rfl, hbefore⟩
            have hall : ∀ x ∈ before, x.optional = true := by simpa using hbefore
            refine ⟨p :: before, after, rfl, ?_, ⟨p, List.mem_cons_self, hp⟩, by simpa using hq⟩
            exact trailing_cons_iff.2 ⟨fun _ => hall, trailing_of_all_optional hall⟩
          · rintro ⟨before, after, h, htrailing, ⟨x, hx, -⟩, hq⟩
            obtain ⟨y, before, rfl⟩ := List.exists_cons_of_ne_nil (List.ne_nil_of_mem hx)
            obtain ⟨rfl, rfl⟩ := List.cons.inj h
            have hall := (trailing_cons_iff.1 htrailing).1 hp
            exact ⟨by simp [hq], before, after, rfl, by simpa using hall⟩
      | false =>
          rw [if_neg Bool.false_ne_true, ih]
          constructor
          · rintro ⟨before, after, rfl, htrailing, ⟨x, hx, hopt⟩, hq⟩
            refine ⟨p :: before, after, rfl, ?_, ⟨x, List.mem_cons_of_mem _ hx, hopt⟩, hq⟩
            exact trailing_cons_iff.2 ⟨fun h => by simp [hp] at h, htrailing⟩
          · rintro ⟨before, after, h, htrailing, ⟨x, hx, hopt⟩, hq⟩
            obtain ⟨y, before, rfl⟩ := List.exists_cons_of_ne_nil (List.ne_nil_of_mem hx)
            obtain ⟨rfl, rfl⟩ := List.cons.inj h
            have hmem : x ∈ before := by
              rcases List.mem_cons.1 hx with rfl | hx
              · simp [hp] at hopt
              · exact hx
            exact ⟨before, after, rfl, (trailing_cons_iff.1 htrailing).2, ⟨x, hmem, hopt⟩, hq⟩

/-- A command or an event of a domain, by what a caller sees of it. -/
structure Callable where
  domain : String
  name : String
  parameters : List Parameter
  deriving DecidableEq, Repr

def Callable.of {α : Type} (domain name : String) (members : List (Member α)) : Callable :=
  ⟨domain, name, members.map Member.parameter⟩

def Callable.verdict (c : Callable) : Except CompileError Unit :=
  match offender? c.parameters with
  | some q => .error (.requiredAfterOptional c.domain c.name q.name)
  | none => .ok ()

theorem Callable.verdict_eq_ok_iff {c : Callable} :
    c.verdict = .ok () ↔ Trailing c.parameters := by
  rw [verdict, ← offender?_eq_none_iff]
  cases offender? c.parameters with
  | none => simp
  | some q => simp

theorem Callable.verdict_eq_error_iff {c : Callable} {e : CompileError} :
    c.verdict = .error e ↔
      ∃ q, Offends c.parameters q ∧ e = .requiredAfterOptional c.domain c.name q.name := by
  simp only [verdict, ← offender?_eq_some_iff]
  cases offender? c.parameters with
  | none => simp
  | some q => simp [eq_comm]

theorem checkTrailing_eq (domain member : String) (fields : List Binding.Field) :
    checkTrailing domain member fields =
      (Callable.of domain member fields).verdict := by
  induction fields with
  | nil => rfl
  | cons f fields ih =>
      have hoptional : (Member.parameter f).optional = f.optional := rfl
      rw [checkTrailing, Callable.verdict, Callable.of, List.map_cons, offender?, hoptional]
      cases hf : f.optional with
      | true =>
          rw [if_pos rfl, if_pos rfl, List.find?_map]
          cases hfind : fields.find? fun q => !q.optional with
          | none => simp [Function.comp_def, Member.parameter, hfind]
          | some q => simp [Function.comp_def, Member.parameter, hfind]
      | false =>
          rw [if_neg Bool.false_ne_true, if_neg Bool.false_ne_true, ih]
          rfl

/-! ## What is planned once nothing is refused -/

def fullSignature (c : Binding.Command) : Signature where
  name := c.name
  parameters := c.parameters
  returns := c.result
  advisory := c.advisory

def Signature.short (s : Signature) : Signature := { s with parameters := s.required }

/-- The signatures of a command: with exactly one optional parameter and the tiered policy, one
without it goes first. -/
def signaturesOf (policy : Overloads) (c : Binding.Command) : List Signature :=
  if policy = .tiered ∧ (fullSignature c).optional.length = 1 then
    [(fullSignature c).short, fullSignature c]
  else [fullSignature c]

def subscriptionOf (e : Binding.Event) : Subscription where
  name := "on" ++ Identifier.pascal e.name
  eventName := e.name
  payload := e.payload
  advisory := e.advisory

/-- The plan of a domain in which nothing is refused. -/
def Domain.planOf (policy : Overloads) (d : Binding.Domain) : Domain where
  domain := d
  methods := d.commands.flatMap (signaturesOf policy)
  subscriptions := d.events.map subscriptionOf

def Protocol.planOf (policy : Overloads) (p : Binding.Protocol) : Protocol where
  protocol := p
  domains := p.domains.map (Domain.planOf policy)
  policy := policy

theorem signatures_eq (policy : Overloads) (domain : String) (c : Binding.Command) :
    signatures policy domain c = (do
      (Callable.of domain c.name c.parameters).verdict
      return signaturesOf policy c) := by
  have hoptional : (fullSignature c).optional = c.parameters.filter Member.optional := rfl
  rw [signatures, checkTrailing_eq, signaturesOf, hoptional]
  by_cases h : policy = .tiered ∧ (c.parameters.filter Member.optional).length = 1
  · rw [if_pos h, if_pos h]
    rfl
  · rw [if_neg h, if_neg h]
    rfl

theorem subscription_eq (domain : String) (e : Binding.Event) :
    subscription domain e = (do
      (Callable.of domain e.name e.parameters).verdict
      return subscriptionOf e) := by
  rw [subscription, checkTrailing_eq]
  rfl

end Plan

def Binding.Domain.callables (d : Binding.Domain) : List Plan.Callable :=
  d.commands.map (fun c => .of d.name c.name c.parameters) ++
    d.events.map fun e => .of d.name e.name e.parameters

def Binding.Protocol.callables (p : Binding.Protocol) : List Plan.Callable :=
  p.domains.flatMap Binding.Domain.callables

namespace Plan

theorem Domain.ofBinding_eq (policy : Overloads) (d : Binding.Domain) :
    Domain.ofBinding policy d = (do
      forM d.callables Callable.verdict
      return Domain.planOf policy d) := by
  have hsignatures := funext (signatures_eq policy d.name)
  have hsubscription := funext (subscription_eq d.name)
  rw [Domain.ofBinding, hsignatures, hsubscription, Outcome.mapM_check, Outcome.mapM_check,
    Binding.Domain.callables, List.forM_append, List.forM_map, List.forM_map]
  simp only [bind_assoc, pure_bind]
  rfl

/-- Everything is checked in the order of the document, and then everything is planned. -/
theorem Protocol.ofBinding_eq (policy : Overloads) (p : Binding.Protocol) :
    Protocol.ofBinding policy p = (do
      forM p.callables Callable.verdict
      return Protocol.planOf policy p) := by
  have hdomain := funext (Domain.ofBinding_eq policy)
  rw [Protocol.ofBinding, hdomain, Outcome.mapM_check, Binding.Protocol.callables,
    Outcome.forM_flatMap]
  simp only [bind_assoc, pure_bind]
  rfl

theorem Protocol.ofBinding_eq_ok_iff {policy : Overloads} {p : Binding.Protocol} {plan : Protocol} :
    Protocol.ofBinding policy p = .ok plan ↔
      (∀ c ∈ p.callables, Trailing c.parameters) ∧ plan = Protocol.planOf policy p := by
  have hchecked : forM p.callables Callable.verdict = .ok () ↔
      ∀ c ∈ p.callables, Trailing c.parameters := by
    simp only [Outcome.forM_eq_ok, Callable.verdict_eq_ok_iff]
  rw [Protocol.ofBinding_eq, Outcome.bind_eq_ok, ← hchecked]
  constructor
  · rintro ⟨⟨⟩, h, hplan⟩
    exact ⟨h, (Outcome.pure_eq_ok.1 hplan).symm⟩
  · rintro ⟨h, rfl⟩
    exact ⟨(), h, rfl⟩

theorem Protocol.ofBinding_eq_error_iff {policy : Overloads} {p : Binding.Protocol}
    {e : CompileError} :
    Protocol.ofBinding policy p = .error e ↔ ∃ before c after q,
      p.callables = before ++ c :: after ∧ (∀ x ∈ before, Trailing x.parameters) ∧
        Offends c.parameters q ∧ e = .requiredAfterOptional c.domain c.name q.name := by
  have herror : Protocol.ofBinding policy p = .error e ↔
      forM p.callables Callable.verdict = .error e := by
    rw [Protocol.ofBinding_eq]
    cases forM p.callables Callable.verdict with
    | ok u => simp [pure, Except.pure]
    | error e => simp [bind, Except.bind]
  rw [herror, Outcome.forM_eq_error]
  simp only [Callable.verdict_eq_ok_iff, Callable.verdict_eq_error_iff]
  constructor
  · rintro ⟨before, c, after, h, hbefore, q, hq, he⟩
    exact ⟨before, c, after, q, h, hbefore, hq, he⟩
  · rintro ⟨before, c, after, q, h, hbefore, hq, he⟩
    exact ⟨before, c, after, h, hbefore, q, hq, he⟩

end Plan

end WireBindings
