import WireBindings.Proofs.Binding.DomainOrder
import WireBindings.Proofs.Compilation.Stages

/-!
# External domains

The unit of a domain imports exactly the other domains that a type printed in it names. A domain
can be imported without being a dependency: an alias of a dependency is expanded to a type of a
third domain. Every step of an expansion follows a declared dependency, though.
-/

namespace WireBindings

namespace Schema

open Relation

def Document.DependsOn (doc : Document) (domain dependency : String) : Prop :=
  ∃ d ∈ doc.domains, d.name = domain ∧ dependency ∈ d.dependencies

theorem Document.Leads.reaches {doc : Document} {d : Domain} (hd : d ∈ doc.domains)
    {reference : String} {key : TypeKey} (h : doc.Leads d reference key) :
    ReflTransGen doc.DependsOn d.name key.domain := by
  cases h with
  | unqualified hid ht => exact .refl
  | own hid ht => exact .refl
  | foreign hid hne hdependency ht => exact .single ⟨d, hd, rfl, hdependency⟩

theorem Resolution.reaches_of_target? {doc : Document} {r : Resolution}
    (hr : ofDocument doc = .ok r) {owner reference : String} {key : TypeKey}
    (h : r.target? owner reference = some key) :
    ReflTransGen doc.DependsOn owner key.domain := by
  obtain ⟨d, hd, rfl, -, hleads⟩ := (target?_eq_some_iff hr).1 h
  exact hleads.reaches hd

end Schema

namespace Binding.Context

open Schema (Document Resolution Shape)
open Relation (ReflTransGen)

section

variable {doc : Document} {r : Resolution} {c : Context} (hr : Resolution.ofDocument doc = .ok r)
  (hc : ofResolution r = .ok c)

include hr hc

/-- An unfolding ends in a domain that the one it starts in depends on, in any number of steps. -/
theorem Unfolds.reaches {domain : String} {path : ShapePath} {shape : Shape} {type : Descriptor}
    (h : c.Unfolds domain path shape type) {n : TypeName} (hn : type.namedType? = some n) :
    ReflTransGen doc.DependsOn domain n.domain := by
  obtain ⟨rfl, -, -⟩ := ofResolution_eq_ok hc
  induction h with
  | scalar domain path kind => cases kind <;> cases hn
  | enumeration literals hname =>
      obtain rfl := Option.some.inj hn
      exact .refl
  | record properties hname =>
      obtain rfl := Option.some.inj hn
      exact .refl
  | array h ih => exact ih hn
  | toEnumeration htarget ht hshape =>
      obtain rfl := Option.some.inj hn
      exact Resolution.reaches_of_target? hr htarget
  | toRecord htarget ht hshape =>
      obtain rfl := Option.some.inj hn
      exact Resolution.reaches_of_target? hr htarget
  | toRecursive htarget ht halias hloop =>
      obtain rfl := Option.some.inj hn
      exact Resolution.reaches_of_target? hr htarget
  | toBody htarget ht halias hloop h ih =>
      exact (Resolution.reaches_of_target? hr htarget).trans (ih hn)

variable {d : Schema.Domain} (hd : d ∈ doc.domains) {bound : Domain} (h : c.Bound d bound)

include hd h

theorem Bound.reaches_of_mem_mentioned {n : TypeName} (hn : n ∈ bound.mentioned) :
    ReflTransGen doc.DependsOn bound.name n.domain := by
  obtain ⟨type, htype, hn⟩ := List.mem_filterMap.1 hn
  rw [h.name]
  cases h.describes hr hc hd type htype with
  | shape hstands hunfolds => exact hunfolds.reaches hr hc hn
  | subject hs hst _ =>
      obtain rfl := Option.some.inj hn
      rw [DataType.typeName, hst.domain_eq]

/-- The parameters of an event are the fields of its payload, which is one of the data types. -/
theorem Bound.exists_payload {event : Event} (hevent : event ∈ bound.events) :
    ∃ t ∈ bound.types, t.typeName = event.payload ∧ t.fields = event.parameters := by
  obtain ⟨declared, hdeclared, hof⟩ := Outcome.exists_left_of_forall₂ h.events hevent
  obtain ⟨t, ht, hst⟩ := h.exists_type hr hc hd (payload_mem_subjects.2 hdeclared)
  obtain ⟨t', hst', hpayload⟩ := hof.payload
  refine ⟨t, ht, (hst.typeName_eq hst').trans hpayload.symm, ?_⟩
  cases hst with
  | payload hname hfields => exact hfields.unique hof.parameters

/-- What a bound domain points at in another domain, its data types or its parameters do. Results
and payloads are data types of the domain itself. -/
theorem Bound.uses_iff {name : String} :
    bound.uses name = true ↔ name ≠ bound.name ∧ ∃ n ∈ bound.mentioned, n.domain = name := by
  have hown : ∀ {s t}, c.Realizes d.name s t → t.typeName.domain = bound.name := fun hst =>
    hst.domain_eq.trans h.name.symm
  constructor
  · intro huses
    refine ⟨?_, Domain.exists_mentioned_of_uses huses⟩
    rw [Domain.uses, Bool.and_eq_true] at huses
    simpa using huses.1
  · rintro ⟨hne, n, hn, rfl⟩
    obtain ⟨type, htype, hn⟩ := List.mem_filterMap.1 hn
    rw [Domain.uses, Bool.and_eq_true, List.contains_iff_mem]
    refine ⟨by simpa using hne, List.mem_map.2 ⟨n, List.mem_filterMap.2 ⟨type, ?_, hn⟩, rfl⟩⟩
    simp only [Domain.descriptors, List.mem_append, List.mem_flatMap] at htype ⊢
    rcases htype with (htype | ⟨command, hcommand, htype⟩) | ⟨event, hevent, htype⟩
    · exact .inl htype
    · rcases htype with htype | htype
      · exact .inr ⟨command, hcommand, htype⟩
      · obtain ⟨declared, -, hof⟩ := Outcome.exists_left_of_forall₂ h.commands hcommand
        rcases hof.result with ⟨hnone, -⟩ | ⟨t, hst, hsome, -⟩
        · simp [hnone] at htype
        · obtain rfl : type = .named t.typeName := by simpa [hsome] using htype
          obtain rfl := Option.some.inj hn
          exact absurd (hown hst) hne
    · obtain ⟨t, ht, hpayload, hfields⟩ := h.exists_payload hr hc hd hevent
      rcases List.mem_cons.1 htype with rfl | htype
      · obtain rfl := Option.some.inj hn
        obtain ⟨s, -, hst⟩ := h.exists_subject hr hc hd ht
        exact absurd (hpayload ▸ hown hst) hne
      · exact .inl ⟨t, ht, List.mem_append_left _ (hfields ▸ htype)⟩

end

end Binding.Context

namespace Plan

open Binding (DataType Descriptor TypeName)

/-- The descriptors that the unit of a domain prints: those of its data types, the parameters and
results of its methods and the payloads of its subscriptions. -/
def Domain.printed (d : Domain) : List Descriptor :=
  d.domain.types.flatMap DataType.descriptors ++
    d.methods.flatMap (fun m => m.parameters.map Member.type ++ m.returns.toList) ++
    d.subscriptions.map fun s => .named s.payload

def Domain.printedNames (d : Domain) : List TypeName :=
  d.printed.filterMap Descriptor.namedType?

/-- The external domains of a planned domain are the ones that its unit names, in the order of the
document, and it depends on each of them in one or more steps. -/
structure Domain.ImportsExactly (doc : Schema.Document) (d : Domain) : Prop where
  ordered : d.domain.externals.Sublist (doc.domains.map Schema.Domain.name)
  nodup : d.domain.externals.Nodup
  mem_iff : ∀ name, name ∈ d.domain.externals ↔
    name ≠ d.domain.name ∧ ∃ n ∈ d.printedNames, n.domain = name
  reached : ∀ name ∈ d.domain.externals, Relation.TransGen doc.DependsOn d.domain.name name

theorem fullSignature_mem_signaturesOf (policy : Overloads) (c : Binding.Command) :
    fullSignature c ∈ signaturesOf policy c := by
  unfold signaturesOf
  split <;> simp

theorem printed_subset_of_mem_signaturesOf {policy : Overloads} {c : Binding.Command}
    {m : Signature} (hm : m ∈ signaturesOf policy c) :
    m.parameters.map Member.type ++ m.returns.toList ⊆
      c.parameters.map Member.type ++ c.result.toList := by
  have hsub : m.parameters ⊆ c.parameters ∧ m.returns = c.result := by
    unfold signaturesOf at hm
    split at hm
    · rcases List.mem_cons.1 hm with rfl | hm
      · exact ⟨List.filter_subset_self _, rfl⟩
      · obtain rfl := List.mem_singleton.1 hm
        exact ⟨List.Subset.refl _, rfl⟩
    · obtain rfl := List.mem_singleton.1 hm
      exact ⟨List.Subset.refl _, rfl⟩
  obtain ⟨hparameters, hreturns⟩ := hsub
  rw [hreturns]
  exact List.append_subset.2 ⟨List.subset_append_of_subset_left _ (List.map_subset _ hparameters),
    List.subset_append_right _ _⟩

theorem printedNames_subset_mentioned (policy : Overloads) (bound : Binding.Domain) :
    (Domain.planOf policy bound).printedNames ⊆ bound.mentioned := by
  refine List.filterMap_subset _ fun type htype => ?_
  simp only [Domain.printed, Domain.planOf, Binding.Domain.descriptors, List.mem_append,
    List.mem_flatMap, List.mem_map] at htype ⊢
  rcases htype with (htype | ⟨m, ⟨command, hcommand, hm⟩, htype⟩) | ⟨s, ⟨event, hevent, rfl⟩, rfl⟩
  · exact .inl (.inl htype)
  · refine .inl (.inr ⟨command, hcommand, ?_⟩)
    have hmem := printed_subset_of_mem_signaturesOf hm
    simpa using hmem (by simpa using htype)
  · exact .inr ⟨event, hevent, List.mem_cons_self⟩

theorem exists_printed_of_uses (policy : Overloads) {bound : Binding.Domain} {name : String}
    (h : bound.uses name = true) :
    ∃ n ∈ (Domain.planOf policy bound).printedNames, n.domain = name := by
  rw [Binding.Domain.uses, Bool.and_eq_true, List.contains_iff_mem] at h
  obtain ⟨n, hn, hname⟩ := List.mem_map.1 h.2
  obtain ⟨type, htype, hn⟩ := List.mem_filterMap.1 hn
  refine ⟨n, List.mem_filterMap.2 ⟨type, List.mem_append_left _ ?_, hn⟩, hname⟩
  rcases List.mem_append.1 htype with htype | htype
  · exact List.mem_append_left _ htype
  · obtain ⟨command, hcommand, htype⟩ := List.mem_flatMap.1 htype
    refine List.mem_append_right _ (List.mem_flatMap.2 ⟨fullSignature command, ?_, ?_⟩)
    · exact List.mem_flatMap.2 ⟨command, hcommand, fullSignature_mem_signaturesOf policy command⟩
    · exact List.mem_append_left _ htype

theorem importsExactly_planOf (policy : Overloads) {doc : Schema.Document}
    {r : Schema.Resolution} {c : Binding.Context} (hr : Schema.Resolution.ofDocument doc = .ok r)
    (hc : Binding.Context.ofResolution r = .ok c) {p : Binding.Protocol}
    (hbound : List.Forall₂ c.Bound doc.domains p.domains) {d : Schema.Domain}
    (hd : d ∈ doc.domains) {bound : Binding.Domain} (hmem : bound ∈ p.domains)
    (h : c.Bound d bound) : (Domain.planOf policy bound).ImportsExactly doc where
  ordered := h.externals_sublist hr hc
  nodup := (h.externals_sublist hr hc).nodup (Schema.Resolution.distinct hr).domains
  mem_iff := by
    intro name
    have hexternals : name ∈ bound.externals ↔ bound.uses name = true := by
      rw [h.mem_externals_iff hr hc]
      exact ⟨And.right, fun huses =>
        ⟨Binding.Context.mem_names_of_uses hr hc hbound hmem huses, huses⟩⟩
    constructor
    · intro hname
      have huses := hexternals.1 hname
      exact ⟨((h.uses_iff hr hc hd).1 huses).1, exists_printed_of_uses policy huses⟩
    · rintro ⟨hne, n, hn, rfl⟩
      refine hexternals.2 ((h.uses_iff hr hc hd).2 ⟨hne, n, ?_, rfl⟩)
      exact printedNames_subset_mentioned policy bound hn
  reached := by
    intro name hname
    obtain ⟨hne, n, hn, rfl⟩ := (h.uses_iff hr hc hd).1 ((h.mem_externals_iff hr hc).1 hname).2
    have hreaches := h.reaches_of_mem_mentioned hr hc hd hn
    exact (Relation.reflTransGen_iff_eq_or_transGen.1 hreaches).resolve_left hne

end Plan

namespace Compilation

open Schema (Document)

/-- A planned unit lists as external domains exactly the other domains that it names, each once and
in the order of the document. Declared dependencies lead to every one of them. -/
theorem externals_exact {policy : String} {doc : Document} {p : Plan.Protocol}
    (h : plan policy doc = .ok p) :
    p.domains.map (fun d => d.domain.name) = doc.domains.map Schema.Domain.name ∧
      ∀ d ∈ p.domains, d.ImportsExactly doc := by
  refine ⟨(names_of_plan h).1, fun planned hplanned => ?_⟩
  obtain ⟨overloads, bound, rfl, hbind, rfl⟩ := exists_bound_of_plan h
  obtain ⟨r, c, hr, hc, hbound⟩ := exists_bound_of_bind hbind
  obtain ⟨b, hb, rfl⟩ := List.mem_map.1 hplanned
  obtain ⟨d, hd, hdb⟩ := Outcome.exists_left_of_forall₂ hbound hb
  exact Plan.importsExactly_planOf overloads hr hc hbound hd hb hdb

/-- The first domain depends on the second alone, and an alias of that one leads it to the third. -/
def relayed : Document where
  domains := [
    { name := "Page"
      dependencies := ["Relay"]
      commands := [
        { name := "open"
          parameters := [{ name := "frames", type := .array (.reference "Relay.Frames") }] }] },
    { name := "Relay"
      dependencies := ["Frame"]
      types := [{ id := "Frames", shape := .array (.reference "Frame.Node") }] },
    { name := "Frame"
      types := [{ id := "Node", shape := .record [{ name := "id", type := .scalar .string }] }] }]

theorem externals_exact_relayed :
    ∃ p, plan "tiered" relayed = .ok p ∧
      p.domains.map (fun d => d.domain.externals) = [["Frame"], [], []] ∧
      (∀ d ∈ p.domains, d.ImportsExactly relayed) ∧
      Relation.TransGen relayed.DependsOn "Page" "Frame" := by
  have hexternals : (plan "tiered" relayed).toOption.map
      (fun p => p.domains.map fun d => (d.domain.name, d.domain.externals)) =
      some [("Page", ["Frame"]), ("Relay", []), ("Frame", [])] := by decide +kernel
  obtain ⟨p, hp, hexternals⟩ := Option.map_eq_some_iff.1 hexternals
  have hp : plan "tiered" relayed = .ok p := Outcome.toOption_eq_some.1 hp
  obtain ⟨-, hexact⟩ := externals_exact hp
  have hpage : ("Page", ["Frame"]) ∈ p.domains.map fun d => (d.domain.name, d.domain.externals) :=
    hexternals ▸ List.mem_cons_self
  obtain ⟨d, hd, hpage⟩ := List.mem_map.1 hpage
  obtain ⟨hname, hframe⟩ := Prod.mk.inj hpage
  have hreached := (hexact d hd).reached "Frame" (hframe ▸ List.mem_cons_self)
  have hlists := congrArg (List.map Prod.snd) hexternals
  rw [List.map_map] at hlists
  exact ⟨p, hp, hlists, hexact, hname ▸ hreached⟩

end Compilation

end WireBindings
