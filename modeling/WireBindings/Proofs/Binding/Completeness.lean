import WireBindings.Compilation
import WireBindings.Proofs.Binding.Protocol
import Mathlib.Algebra.Ring.Nat

/-!
# No type is lost and none is duplicated

The data types of a bound domain are one for each subject of the domain. The numbers that a check
reports are the numbers of subjects.
-/

namespace WireBindings.Binding

open Schema (Resolution Document)

def Subject.isSynthesized : Subject → Bool
  | .declared _ | .alias _ => false
  | .written _ | .result _ | .payload _ => true

def synthesizedCount (d : Schema.Domain) : Nat :=
  (writtenInDomain d).length + (returning d).length + d.events.length

def typeCount (r : Resolution) (d : Schema.Domain) : Nat :=
  (namedTypes d).length + (recursiveTypes r d).length + synthesizedCount d

theorem length_subjects (r : Resolution) (d : Schema.Domain) :
    (subjects r d).length = typeCount r d := by
  simp only [subjects, typeCount, synthesizedCount, List.length_append, List.length_map]
  omega

theorem countP_subjects (r : Resolution) (d : Schema.Domain) :
    (subjects r d).countP Subject.isSynthesized = synthesizedCount d := by
  have hall {α : Type} (f : α → Subject) (l : List α) (hf : ∀ a, (f a).isSynthesized = true) :
      (l.map f).countP Subject.isSynthesized = l.length := by
    rw [List.countP_map, List.countP_eq_length]
    exact fun a _ => hf a
  have hnone {α : Type} (f : α → Subject) (l : List α) (hf : ∀ a, (f a).isSynthesized = false) :
      (l.map f).countP Subject.isSynthesized = 0 := by
    rw [List.countP_map, List.countP_eq_zero]
    exact fun a _ h => Bool.noConfusion ((hf a).symm.trans h)
  simp only [subjects, synthesizedCount, List.countP_append]
  rw [hnone Subject.declared _ fun _ => rfl, hnone Subject.alias _ fun _ => rfl,
    hall Subject.written _ fun _ => rfl, hall Subject.result _ fun _ => rfl,
    hall Subject.payload _ fun _ => rfl]
  omega

theorem Context.Realizes.isSynthesized_eq {c : Context} {domain : String} {s : Subject}
    {t : DataType} (h : c.Realizes domain s t) :
    s.isSynthesized = decide (t.origin ≠ .declared) := by
  cases h <;> rfl

section

variable {doc : Document} {r : Resolution} {c : Context} (hr : Resolution.ofDocument doc = .ok r)
  (hc : Context.ofResolution r = .ok c) {d : Schema.Domain} (hd : d ∈ doc.domains)

include hr hc hd

theorem Context.Bound.length_types {bound : Domain} (h : c.Bound d bound) :
    bound.types.length = typeCount r d := by
  obtain ⟨rfl, -, -⟩ := Context.ofResolution_eq_ok hc
  obtain ⟨types, hperm, hrealize⟩ := h.exists_perm hr hc hd
  rw [hperm.length_eq, ← hrealize.length_eq, length_subjects]

theorem Context.Bound.countP_types {bound : Domain} (h : c.Bound d bound) :
    (bound.types.filter fun t => t.origin ≠ .declared).length = synthesizedCount d := by
  obtain ⟨types, hperm, hrealize⟩ := h.exists_perm hr hc hd
  have hmap := Outcome.map_eq_map_of_forall₂ hrealize fun _ _ _ h => h.isSynthesized_eq
  have hcount := congrArg (List.countP id) hmap
  rw [List.countP_map, List.countP_map] at hcount
  rw [← List.countP_eq_length_filter, hperm.countP_eq, ← countP_subjects c.resolution d]
  exact hcount.symm

end

/-- A check binds the document, and counts what is bound. -/
theorem check_eq_ok {policy : String} {doc : Document} {s : Compilation.Summary}
    (h : Compilation.check policy doc = .ok s) :
    ∃ p, Compilation.bind doc = .ok p ∧ s.types = (p.domains.flatMap Domain.types).length ∧
      s.synthesizedTypes =
        ((p.domains.flatMap Domain.types).filter fun t => t.origin ≠ .declared).length := by
  obtain ⟨planned, hplanned, h⟩ := Outcome.bind_eq_ok.1 h
  obtain rfl := Outcome.pure_eq_ok.1 h
  obtain ⟨p, hp, hplanned⟩ := Outcome.bind_eq_ok.1 hplanned
  obtain ⟨overloads, -, hplanned⟩ := Outcome.bind_eq_ok.1 hplanned
  rw [Outcome.liftM_eq_ok] at hplanned
  obtain ⟨domains, -, hplanned⟩ := Outcome.bind_eq_ok.1 hplanned
  obtain rfl := Outcome.pure_eq_ok.1 hplanned
  exact ⟨p, hp, rfl, rfl⟩

theorem bind_of_ofDocument {doc : Document} {r : Resolution}
    (hr : Resolution.ofDocument doc = .ok r) :
    Compilation.bind doc = Protocol.ofResolution r := by
  unfold Compilation.bind
  rw [hr]
  rfl

/-- Up to their order, the data types of each bound domain are exactly those of its subjects: its
declared enumerations and records, its recursive aliases, and its written types, results and
payloads. A check counts them. -/
theorem types_perm_subjects {doc : Document} {r : Resolution} {p : Protocol}
    (hr : Resolution.ofDocument doc = .ok r) (hp : Protocol.ofResolution r = .ok p) :
    (∃ c, Context.ofResolution r = .ok c ∧
      List.Forall₂ (fun d bound => bound.name = d.name ∧ ∃ types, bound.types.Perm types ∧
        c.RealizeAll d.name (subjects r d) types) doc.domains p.domains) ∧
    ∀ policy s, Compilation.check policy doc = .ok s →
      s.types = (doc.domains.map (typeCount r)).sum ∧
        s.synthesizedTypes = (doc.domains.map synthesizedCount).sum := by
  obtain ⟨c, hc, hbound⟩ := exists_bound hr hp
  have hres := (Context.ofResolution_eq_ok hc).1
  refine ⟨⟨c, hc, Outcome.forall₂_imp_of_mem hbound ?_⟩, ?_⟩
  · intro d hd bound h
    exact ⟨h.name, hres ▸ h.exists_perm hr hc hd⟩
  · intro policy s hs
    obtain ⟨p', hp', htypes, hsynthesized⟩ := check_eq_ok hs
    rw [bind_of_ofDocument hr] at hp'
    obtain rfl := Except.ok.inj (hp.symm.trans hp')
    have hlengths := Outcome.map_eq_map_of_forall₂ hbound fun d hd bound h =>
      (h.length_types hr hc hd).symm
    have hcounts := Outcome.map_eq_map_of_forall₂ hbound fun d hd bound h =>
      (h.countP_types hr hc hd).symm
    rw [htypes, hsynthesized, List.filter_flatMap, List.length_flatMap, List.length_flatMap,
      hlengths, hcounts]
    exact ⟨rfl, rfl⟩

def forest : Document where
  domains := [
    { name := "Tree"
      types := [
        { id := "Forest", shape := .array (.reference "Forest") },
        { id := "Leaf", shape := .record [
          { name := "kind", type := .array (.enumeration ["needle", "blade"]) }] }]
      commands := [
        { name := "grow"
          parameters := [{ name := "in", type := .reference "Forest" }]
          returns := [
            { name := "grown", type := .record [{ name := "by", type := .scalar .number }] }] }]
      events := [{ name := "felled" }] }]

theorem types_perm_subjects_forest :
    ∃ r p s, Resolution.ofDocument forest = .ok r ∧ Protocol.ofResolution r = .ok p ∧
      Compilation.check "full" forest = .ok s ∧ s.types = 6 ∧ s.synthesizedTypes = 4 ∧
      s.types = (forest.domains.map (typeCount r)).sum ∧
      s.synthesizedTypes = (forest.domains.map synthesizedCount).sum := by
  have hcheck : (Compilation.check "full" forest).toOption.map
      (fun s => (s.types, s.synthesizedTypes)) = some (6, 4) := by decide +kernel
  obtain ⟨s, hs, hcounts⟩ := Option.map_eq_some_iff.1 hcheck
  obtain ⟨htypes, hsynthesized⟩ := Prod.mk.inj hcounts
  have hs : Compilation.check "full" forest = .ok s := Outcome.toOption_eq_some.1 hs
  obtain ⟨p, hp, -⟩ := check_eq_ok hs
  obtain ⟨r, hr, hp⟩ := Outcome.bind_eq_ok.1 hp
  have hr : Resolution.ofDocument forest = .ok r := Outcome.liftM_eq_ok.1 hr
  obtain ⟨-, hsums⟩ := types_perm_subjects hr hp
  exact ⟨r, p, s, hr, hp, hs, htypes, hsynthesized, hsums "full" s hs⟩

end WireBindings.Binding
