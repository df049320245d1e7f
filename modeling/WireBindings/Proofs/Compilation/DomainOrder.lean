import WireBindings.Proofs.Binding.Completeness
import WireBindings.Proofs.Binding.DomainOrder
import WireBindings.Proofs.Plan.Optionality

/-!
# The order of domains

Reordering the domains of a document reorders its plan, and further domains add to it. Nothing else
about the plan of a domain changes, but for the order in which its external domains are listed.
-/

namespace WireBindings

open Schema (Document Resolution)

namespace Plan

def Domain.listed (names : List String) (d : Domain) : Domain :=
  { d with domain := d.domain.listed names }

/-- Planned domains in the order of names, each with the same external domains in that order. -/
structure Rearranged (names : List String) (domains domains' : List Domain) : Prop where
  ordered : domains'.map (fun d => d.domain.name) = names
  perm : domains'.Perm (domains.map (Domain.listed names))
  externals : ∀ d ∈ domains, (d.listed names).domain.externals.Perm d.domain.externals

theorem Overloads.name_injective : Function.Injective Overloads.name := by
  rintro (_ | _) (_ | _) h
  · rfl
  · exact absurd h (by decide)
  · exact absurd h (by decide)
  · rfl

theorem map_planOf_listed (policy : Overloads) (names : List String)
    (domains : List Binding.Domain) :
    (domains.map (Binding.Domain.listed names)).map (Domain.planOf policy) =
      (domains.map (Domain.planOf policy)).map (Domain.listed names) := by
  rw [List.map_map, List.map_map]
  rfl

end Plan

namespace Compilation

variable {doc doc' : Document}

theorem exists_bind_of_perm (hperm : doc.domains.Perm doc'.domains) {bound : Binding.Protocol}
    (h : bind doc = .ok bound) : ∃ bound', bind doc' = .ok bound' := by
  obtain ⟨r, c, hr, hc, -⟩ := exists_bound_of_bind h
  obtain ⟨r', hr'⟩ := Resolution.exists_ofDocument_of_perm hperm hr
  obtain ⟨c', hc'⟩ := Binding.Context.exists_ofResolution_of_perm hperm hr hc hr'
  obtain ⟨bound', hbound', -⟩ := Binding.Context.exists_protocol hr' hc'
  refine ⟨bound', ?_⟩
  rw [Binding.bind_of_ofDocument hr', Binding.Protocol.ofResolution, hc']
  exact hbound'

/-- Whether a document is planned does not depend on the order of its domains. -/
theorem exists_plan_of_perm (hperm : doc.domains.Perm doc'.domains) {policy : String}
    (h : ∃ p, plan policy doc = .ok p) : ∃ p, plan policy doc' = .ok p := by
  obtain ⟨p, hp⟩ := h
  obtain ⟨overloads, bound, rfl, hbind, -⟩ := exists_bound_of_plan hp
  obtain ⟨bound', hbind'⟩ := exists_bind_of_perm hperm hbind
  have hcallables : doc.callables.Perm doc'.callables := hperm.flatMap_right _
  rw [Plan.callables_of_bind hbind, Plan.callables_of_bind hbind'] at hcallables
  have htrailing := ((plan_eq_ok_iff hbind).1 hp).1
  exact ⟨_, (plan_eq_ok_iff hbind').2 ⟨fun c hc => htrailing c (hcallables.mem_iff.2 hc), rfl⟩⟩

/-- A document is planned in any order of its domains or in none, and then each domain is planned
alike, with the same external domains in the order of the document. Domains that are added to a
document leave the others planned as they were: none of these refers to them, or the document would
not have been planned without them. -/
theorem domain_order_irrelevant (policy : String) (doc doc' : Document) :
    (doc.domains.Perm doc'.domains →
      ((∃ p, plan policy doc = .ok p) ↔ ∃ p', plan policy doc' = .ok p')) ∧
    ∀ p p', plan policy doc = .ok p → plan policy doc' = .ok p' →
      (doc.domains.Perm doc'.domains →
        Plan.Rearranged (doc'.domains.map Schema.Domain.name) p.domains p'.domains) ∧
      (doc.domains.Sublist doc'.domains → p.domains.Sublist p'.domains) := by
  refine ⟨fun hperm => ⟨exists_plan_of_perm hperm, exists_plan_of_perm hperm.symm⟩, ?_⟩
  intro p p' hp hp'
  obtain ⟨overloads, bound, rfl, hbind, rfl⟩ := exists_bound_of_plan hp
  obtain ⟨overloads', bound', hpolicy, hbind', rfl⟩ := exists_bound_of_plan hp'
  obtain rfl := Plan.Overloads.name_injective hpolicy
  obtain ⟨r, c, hr, hc, hbound⟩ := exists_bound_of_bind hbind
  obtain ⟨r', c', hr', hc', hbound'⟩ := exists_bound_of_bind hbind'
  constructor
  · intro hperm
    have hnames : bound'.domains.map Binding.Domain.name = doc'.domains.map Schema.Domain.name :=
      (Outcome.map_eq_map_of_forall₂ hbound' fun _ _ _ h => h.name.symm).symm
    have hdomains := Binding.Context.perm_map_listed hr hc hbound hr' hc' hperm hbound'
    refine ⟨?_, ?_, ?_⟩
    · rw [← hnames, Plan.Protocol.planOf, List.map_map]
      rfl
    · rw [Plan.Protocol.planOf, Plan.Protocol.planOf, ← Plan.map_planOf_listed]
      exact hdomains.map _
    · intro planned hplanned
      obtain ⟨b, hb, rfl⟩ := List.mem_map.1 hplanned
      obtain ⟨d, -, h⟩ := Outcome.exists_left_of_forall₂ hbound hb
      have hexternals := h.externals_sublist hr hc
      have hsub := List.Subset.trans hexternals.subset (hperm.map _).subset
      exact Binding.Domain.externals_listed_perm hsub (Resolution.distinct hr').domains
        (hexternals.nodup (Resolution.distinct hr).domains)
  · intro hsublist
    have hdomains := Binding.Context.sublist_of_sublist hr hc hbound hr' hc' hsublist hbound'
    exact hdomains.map (Plan.Domain.planOf overloads)

def watched : Document where
  domains := Binding.crossed.domains ++ [
    { name := "Watcher"
      dependencies := ["B", "A"]
      commands := [
        { name := "watch"
          parameters := [
            { name := "rings", type := .array (.reference "A.Ring") },
            { name := "pace", type := .reference "A.Pace", optional := true }] }] }]

theorem domain_order_irrelevant_watched :
    ∃ p p' q, plan "tiered" Binding.crossed = .ok p ∧ plan "tiered" watched = .ok p' ∧
      plan "tiered" { domains := watched.domains.reverse } = .ok q ∧
      p.domains.Sublist p'.domains ∧
      Plan.Rearranged ["Watcher", "B", "A"] p'.domains q.domains ∧
      p'.domains.map (fun d => d.domain.externals) = [["B"], ["A"], ["A", "B"]] ∧
      q.domains.map (fun d => d.domain.externals) = [["B", "A"], ["A"], ["B"]] := by
  have hcrossed : (plan "tiered" Binding.crossed).isOk = true := by decide +kernel
  have hwatched : (plan "tiered" watched).toOption.map
      (fun p => p.domains.map fun d => d.domain.externals) =
      some [["B"], ["A"], ["A", "B"]] := by decide +kernel
  have hreverse : (plan "tiered" { domains := watched.domains.reverse }).toOption.map
      (fun p => p.domains.map fun d => d.domain.externals) =
      some [["B", "A"], ["A"], ["B"]] := by decide +kernel
  obtain ⟨p, hp⟩ := Outcome.exists_eq_ok_of_isOk hcrossed
  obtain ⟨p', hp', hexternals⟩ := Option.map_eq_some_iff.1 hwatched
  obtain ⟨q, hq, hexternals'⟩ := Option.map_eq_some_iff.1 hreverse
  have hp' := Outcome.toOption_eq_some.1 hp'
  have hq := Outcome.toOption_eq_some.1 hq
  obtain ⟨-, hadded⟩ := domain_order_irrelevant "tiered" Binding.crossed watched
  obtain ⟨-, hordered⟩ :=
    domain_order_irrelevant "tiered" watched { domains := watched.domains.reverse }
  have hsublist : Binding.crossed.domains.Sublist watched.domains := List.sublist_append_left _ _
  have hperm : watched.domains.Perm watched.domains.reverse := (List.reverse_perm _).symm
  exact ⟨p, p', q, hp, hp', hq, (hadded p p' hp hp').2 hsublist, (hordered p' q hp' hq).1 hperm,
    hexternals, hexternals'⟩

end Compilation

end WireBindings
