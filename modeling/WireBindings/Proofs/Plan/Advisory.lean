import WireBindings.Proofs.Binding.Advisory
import WireBindings.Proofs.Plan.Signatures

/-!
# Plans with changed descriptions and flags

What is planned for a domain, and whether anything in it is refused, does not depend on what
accompanies its declarations.
-/

namespace WireBindings

open Binding (mapField)

variable {f : Advisory → Advisory}

theorem Plan.Callable.of_map_mapField (domain name : String) (fields : List Binding.Field) :
    Callable.of domain name (fields.map (mapField f)) = .of domain name fields := by
  rw [of, of, List.map_map]
  rfl

theorem Binding.Domain.callables_mapAdvisory (d : Binding.Domain) :
    (d.mapAdvisory f).callables = d.callables := by
  simp only [callables, mapAdvisory, List.map_map, Function.comp_def, Command.mapAdvisory,
    Event.mapAdvisory, Plan.Callable.of_map_mapField]

theorem Binding.Protocol.callables_mapAdvisory (p : Binding.Protocol) :
    (p.mapAdvisory f).callables = p.callables := by
  simp only [callables, mapAdvisory, List.flatMap_map, Domain.callables_mapAdvisory]

namespace Plan

def Signature.mapAdvisory (f : Advisory → Advisory) (s : Signature) : Signature :=
  { s with parameters := s.parameters.map (mapField f), advisory := f s.advisory }

def Subscription.mapAdvisory (f : Advisory → Advisory) (s : Subscription) : Subscription :=
  { s with advisory := f s.advisory }

def Domain.mapAdvisory (f : Advisory → Advisory) (d : Domain) : Domain where
  domain := d.domain.mapAdvisory f
  methods := d.methods.map (Signature.mapAdvisory f)
  subscriptions := d.subscriptions.map (Subscription.mapAdvisory f)

def Protocol.mapAdvisory (f : Advisory → Advisory) (p : Protocol) : Protocol where
  protocol := p.protocol.mapAdvisory f
  domains := p.domains.map (Domain.mapAdvisory f)
  policy := p.policy

def Protocol.bare (p : Protocol) : Protocol := p.mapAdvisory Advisory.erase

theorem Signature.optional_mapAdvisory (s : Signature) :
    (s.mapAdvisory f).optional = s.optional.map (mapField f) := by
  rw [optional, mapAdvisory, List.filter_map]
  rfl

theorem Signature.short_mapAdvisory (s : Signature) :
    (s.mapAdvisory f).short = s.short.mapAdvisory f := by
  rw [short, required, mapAdvisory, List.filter_map]
  rfl

theorem signaturesOf_mapAdvisory (policy : Overloads) (c : Binding.Command) :
    signaturesOf policy (c.mapAdvisory f) =
      (signaturesOf policy c).map (Signature.mapAdvisory f) := by
  have hfull : fullSignature (c.mapAdvisory f) = (fullSignature c).mapAdvisory f := rfl
  rw [signaturesOf, signaturesOf, hfull, Signature.optional_mapAdvisory, List.length_map,
    Signature.short_mapAdvisory]
  split
  · rfl
  · rfl

theorem Domain.planOf_mapAdvisory (policy : Overloads) (d : Binding.Domain) :
    Domain.planOf policy (d.mapAdvisory f) = (Domain.planOf policy d).mapAdvisory f := by
  simp only [planOf, mapAdvisory, Binding.Domain.mapAdvisory, List.flatMap_map,
    signaturesOf_mapAdvisory, List.map_flatMap, List.map_map]
  rfl

theorem Protocol.planOf_mapAdvisory (policy : Overloads) (p : Binding.Protocol) :
    Protocol.planOf policy (p.mapAdvisory f) = (Protocol.planOf policy p).mapAdvisory f := by
  simp only [planOf, mapAdvisory, Binding.Protocol.mapAdvisory, List.map_map, Function.comp_def,
    Domain.planOf_mapAdvisory]

/-- Two protocols that differ in descriptions and flags alone are planned alike. -/
theorem ofBinding_congr {p p' : Binding.Protocol} (h : p.mapAdvisory f = p'.mapAdvisory f)
    (policy : Overloads) :
    (Protocol.ofBinding policy p).map (Protocol.mapAdvisory f) =
      (Protocol.ofBinding policy p').map (Protocol.mapAdvisory f) := by
  have hcallables : p.callables = p'.callables := by
    rw [← p.callables_mapAdvisory, h, p'.callables_mapAdvisory]
  have hplan : (Protocol.planOf policy p).mapAdvisory f =
      (Protocol.planOf policy p').mapAdvisory f := by
    rw [← Protocol.planOf_mapAdvisory, h, Protocol.planOf_mapAdvisory]
  rw [Protocol.ofBinding_eq, Protocol.ofBinding_eq, hcallables]
  cases forM p'.callables Callable.verdict with
  | error e => rfl
  | ok u => exact congrArg Except.ok hplan

end Plan

end WireBindings
