import WireBindings.Compilation
import WireBindings.Proofs.Binding.Protocol
import WireBindings.Proofs.Plan.Signatures

/-!
# The stages of planning

Whatever policy is asked for, a document is resolved and bound first, and refused with a compile
error if that fails.
-/

namespace WireBindings.Compilation

open Schema (Document Resolution)
open Plan (Overloads)

theorem ofName_name (policy : Overloads) : Overloads.ofName policy.name = .ok policy := by
  cases policy <;> rfl

theorem eq_name_of_ofName {s : String} {policy : Overloads} (h : Overloads.ofName s = .ok policy) :
    s = policy.name := by
  unfold Overloads.ofName at h
  split at h
  · next found hfound =>
      obtain rfl := Except.ok.inj h
      have hname := List.find?_some hfound
      exact (of_decide_eq_true hname).symm
  · cases h

section

variable {doc : Document} {bound : Binding.Protocol}

theorem exists_bound_of_bind (h : bind doc = .ok bound) :
    ∃ r c, Resolution.ofDocument doc = .ok r ∧ Binding.Context.ofResolution r = .ok c ∧
      List.Forall₂ c.Bound doc.domains bound.domains := by
  obtain ⟨r, hr, hbound⟩ := Outcome.bind_eq_ok.1 h
  have hr := Outcome.liftM_eq_ok.1 hr
  obtain ⟨c, hc, hbound⟩ := Binding.exists_bound hr hbound
  exact ⟨r, c, hr, hc, hbound⟩

theorem bind_eq_error {f : Failure} (h : bind doc = .error f) : ∃ e, f = .compilation e := by
  unfold bind at h
  cases hr : Resolution.ofDocument doc with
  | error e =>
      rw [hr] at h
      exact ⟨e, (Except.error.inj h).symm⟩
  | ok r =>
      rw [hr] at h
      obtain ⟨bound, hbound⟩ | ⟨domain, base, hcollision⟩ :=
        Binding.exists_protocol_or_nameCollision hr
      · cases hbound.symm.trans h
      · exact ⟨_, Except.error.inj (h.symm.trans hcollision)⟩

theorem plan_of_bind_error {policy : String} {f : Failure} (h : bind doc = .error f) :
    plan policy doc = .error f := by
  rw [plan, h]
  rfl

theorem plan_of_bind (h : bind doc = .ok bound) (policy : Overloads) :
    plan policy.name doc = liftM (Plan.Protocol.ofBinding policy bound) := by
  rw [plan, h, Outcome.ok_bind, ofName_name]
  rfl

theorem plan_eq_ok_iff (h : bind doc = .ok bound) {policy : Overloads} {p : Plan.Protocol} :
    plan policy.name doc = .ok p ↔ (∀ c ∈ bound.callables, Plan.Trailing c.parameters) ∧
      p = Plan.Protocol.planOf policy bound := by
  rw [plan_of_bind h, Outcome.liftM_eq_ok, Plan.Protocol.ofBinding_eq_ok_iff]

/-- A document that is planned was bound before, and under a policy that there is. -/
theorem exists_bound_of_plan {policy : String} {p : Plan.Protocol} (h : plan policy doc = .ok p) :
    ∃ overloads bound, policy = Overloads.name overloads ∧ bind doc = .ok bound ∧
      p = Plan.Protocol.planOf overloads bound := by
  obtain ⟨bound, hbind, h'⟩ := Outcome.bind_eq_ok.1 h
  obtain ⟨overloads, hname, -⟩ := Outcome.bind_eq_ok.1 h'
  obtain rfl := eq_name_of_ofName hname
  exact ⟨overloads, bound, rfl, hbind, ((plan_eq_ok_iff hbind).1 h).2⟩

/-- The planned domains are those of the document, and these have names of their own. -/
theorem names_of_plan {policy : String} {p : Plan.Protocol} (h : plan policy doc = .ok p) :
    p.domains.map (fun d => d.domain.name) = doc.domains.map Schema.Domain.name ∧
      (doc.domains.map Schema.Domain.name).Nodup := by
  obtain ⟨overloads, bound, rfl, hbind, rfl⟩ := exists_bound_of_plan h
  obtain ⟨r, c, hr, -, hbound⟩ := exists_bound_of_bind hbind
  have hnames : doc.domains.map Schema.Domain.name = bound.domains.map Binding.Domain.name :=
    Outcome.map_eq_map_of_forall₂ hbound fun _ _ _ h => h.name.symm
  refine ⟨?_, (Resolution.distinct hr).domains⟩
  rw [hnames, Plan.Protocol.planOf, List.map_map]
  rfl

end

end WireBindings.Compilation
