import WireBindings.Proofs.Binding.Completeness
import WireBindings.Proofs.Binding.Transport
import WireBindings.Proofs.Compilation.Stages
import WireBindings.Proofs.Plan.Advisory

/-!
# Descriptions and flags are only carried along

A document is planned as it is without descriptions and flags: it is refused for the same reason, or
the plan is the same but for these.
-/

namespace WireBindings

open Schema (Document Resolution)

namespace Binding

variable {f : Advisory → Advisory}

theorem Context.namings_mapAdvisory (r : Resolution) :
    (Context.ofResolution (r.mapAdvisory f)).map Context.namings =
      (Context.ofResolution r).map Context.namings := by
  have hnamings : (r.mapAdvisory f).document.domains.mapM
      (fun d => return (d.name, ← Naming.ofDomain d)) =
      r.document.domains.mapM fun d => return (d.name, ← Naming.ofDomain d) := by
    rw [Resolution.mapAdvisory, Document.mapAdvisory, List.mapM_map]
    simp only [Function.comp_def, Naming.ofDomain_mapAdvisory]
    rfl
  rw [Context.ofResolution, Context.ofResolution, hnamings]
  cases r.document.domains.mapM fun d => return (d.name, ← Naming.ofDomain d) with
  | error e => rfl
  | ok namings => rfl

theorem Context.version_of_protocol {c : Context} {p : Protocol} (h : c.protocol = .ok p) :
    p.version = c.resolution.document.version := by
  obtain ⟨domains, -, h⟩ := Outcome.bind_eq_ok.1 h
  rw [← Outcome.pure_eq_ok.1 h]

theorem protocol_mapAdvisory (hf : Advisory.Reduces f) {doc : Document} {r : Resolution}
    {c c' : Context} (hr : Resolution.ofDocument doc = .ok r) (hc : Context.ofResolution r = .ok c)
    (hr' : Resolution.ofDocument (doc.mapAdvisory f) = .ok (r.mapAdvisory f))
    (hc' : Context.ofResolution (r.mapAdvisory f) = .ok c') :
    c'.protocol.map (Protocol.mapAdvisory f) = c.protocol.map (Protocol.mapAdvisory f) := by
  obtain ⟨p, hp, hbound⟩ := Context.exists_protocol hr hc
  obtain ⟨p', hp', hbound'⟩ := Context.exists_protocol hr' hc'
  have hres := (Context.ofResolution_eq_ok hc).1
  have hres' := (Context.ofResolution_eq_ok hc').1
  have hext := Context.extends_of_embeds hr hc hr' hc' (doc.embeds_mapAdvisory f)
  have hdomains : p.domains.map (Domain.mapAdvisory f) =
      p'.domains.map (Domain.mapAdvisory f) := by
    refine Outcome.map_eq_map_of_forall₂_map hbound hbound' ?_
    intro d hd b b' hb hb'
    have hfound := Context.find?_of_mem_types hr hc hd
    have hexternals : b'.externals = b.externals := by
      rw [hb'.externals_eq, hb.externals_eq, hb.uses_eq hf hext hfound hb', hres, hres',
        Resolution.document_eq hr, Resolution.document_eq hr', Document.map_name_mapAdvisory]
    rw [hb.mapAdvisory_eq hf hext hfound hb', hexternals]
    rfl
  have hversion : p'.version = p.version := by
    rw [Context.version_of_protocol hp, Context.version_of_protocol hp', hres, hres']
    rfl
  rw [hp, hp', Except.map, Except.map, Protocol.mapAdvisory, Protocol.mapAdvisory, hdomains,
    hversion]

theorem bind_mapAdvisory (hf : Advisory.Reduces f) (doc : Document) :
    (Compilation.bind (doc.mapAdvisory f)).map (Protocol.mapAdvisory f) =
      (Compilation.bind doc).map (Protocol.mapAdvisory f) := by
  have hresolve := Resolution.ofDocument_mapAdvisory (f := f) doc
  cases hr : Resolution.ofDocument doc with
  | error e =>
      rw [hr] at hresolve
      rw [Compilation.bind, Compilation.bind, hresolve, hr]
      rfl
  | ok r =>
      rw [hr] at hresolve
      have hr' : Resolution.ofDocument (doc.mapAdvisory f) = .ok (r.mapAdvisory f) := hresolve
      rw [bind_of_ofDocument hr, bind_of_ofDocument hr', Protocol.ofResolution,
        Protocol.ofResolution]
      obtain ⟨e, hc, hc'⟩ | ⟨c, c', hc, hc', -⟩ :=
        Outcome.cases_of_map_eq_map (Context.namings_mapAdvisory (f := f) r)
      · rw [hc, hc']
      · rw [hc, hc']
        exact protocol_mapAdvisory hf hr hc' hr' hc

end Binding

namespace Compilation

/-- Documents are planned alike but for descriptions and flags if they are bound so. -/
theorem plan_map_bare_congr {a b : Document}
    (h : (bind a).map (Binding.Protocol.mapAdvisory Advisory.erase) =
      (bind b).map (Binding.Protocol.mapAdvisory Advisory.erase)) (policy : String) :
    (plan policy a).map Plan.Protocol.bare = (plan policy b).map Plan.Protocol.bare := by
  obtain ⟨e, ha, hb⟩ | ⟨p, q, ha, hb, hpq⟩ := Outcome.cases_of_map_eq_map h
  · rw [plan_of_bind_error ha, plan_of_bind_error hb]
  · rw [plan, plan, ha, hb]
    cases Plan.Overloads.ofName policy with
    | error e => rfl
    | ok overloads =>
        simp only [Outcome.ok_bind, Outcome.liftM_map]
        exact congrArg liftM (Plan.ofBinding_congr hpq overloads)

theorem plan_bare (policy : String) (doc : Document) :
    (plan policy doc.bare).map Plan.Protocol.bare = (plan policy doc).map Plan.Protocol.bare :=
  plan_map_bare_congr (Binding.bind_mapAdvisory Advisory.reduces_erase doc) policy

/-- Two documents that differ only in descriptions and flags are both refused for one reason, or
planned alike but for descriptions and flags. -/
theorem advisory_irrelevant {a b : Document} (h : a.bare = b.bare) (policy : String) :
    (∃ e, plan policy a = .error e ∧ plan policy b = .error e) ∨
      ∃ p q, plan policy a = .ok p ∧ plan policy b = .ok q ∧ p.bare = q.bare := by
  have hbare : (plan policy a).map Plan.Protocol.bare = (plan policy b).map Plan.Protocol.bare := by
    rw [← plan_bare, h, plan_bare]
  exact Outcome.cases_of_map_eq_map hbare

def accompanied (note : Advisory) : Document where
  domains := [
    { name := "Tree"
      types := [
        { id := "Children", shape := .array (.reference "Children"), advisory := note },
        { id := "Leaf", advisory := note
          shape := .record [
            { name := "children", type := .reference "Children", optional := true
              advisory := note },
            { name := "color", type := .array (.enumeration ["red", "green"])
              advisory := note }] }]
      commands := [
        { name := "grow", advisory := note
          parameters := [
            { name := "leaf", type := .reference "Leaf", optional := true, advisory := note }] }]
      events := [{ name := "grown", advisory := note }]
      advisory := note }]

theorem advisory_irrelevant_accompanied :
    ∃ p q, plan "tiered" (accompanied {}) = .ok p ∧
      plan "tiered" (accompanied ⟨"An annotated tree.", true, true⟩) = .ok q ∧
      p ≠ q ∧ p.bare = q.bare := by
  have hne : (plan "tiered" (accompanied {})).toOption ≠
      (plan "tiered" (accompanied ⟨"An annotated tree.", true, true⟩)).toOption := by decide +kernel
  have hbare : (accompanied {}).bare = (accompanied ⟨"An annotated tree.", true, true⟩).bare := rfl
  obtain ⟨e, he, he'⟩ | ⟨p, q, hp, hq, hpq⟩ := advisory_irrelevant hbare "tiered"
  · rw [he, he'] at hne
    exact absurd rfl hne
  · refine ⟨p, q, hp, hq, ?_, hpq⟩
    rintro rfl
    rw [hp, hq] at hne
    exact hne rfl

end Compilation

end WireBindings
