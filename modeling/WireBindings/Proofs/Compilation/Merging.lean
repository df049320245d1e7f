import WireBindings.Proofs.Binding.Mentions
import WireBindings.Proofs.Compilation.Stages
import WireBindings.Proofs.Schema.Merge

/-!
# A document in parts

A document may be spread over files. Repeated domains are looked for when the files are merged and
again when the document is resolved, so the plan is the same as that of the whole document.
-/

namespace WireBindings.Compilation

open Schema (Document merge combine joined domainNames FirstRepeated repeatedDomain)

/-- The domains of a document in several, the first of which with a version has that of the
document. -/
def Splits (parts : List Document) (d : Document) : Prop :=
  parts.flatMap Document.domains = d.domains ∧ parts.findSome? Document.version = d.version

def planParts (put : List Document → Except CompileError Document) (policy : String)
    (parts : List Document) : Except Failure Plan.Protocol := do
  plan policy (← put parts)

theorem Splits.joined_eq {parts : List Document} {d : Document} (h : Splits parts d) :
    joined parts = d := by
  obtain ⟨domains, version⟩ := d
  obtain ⟨rfl, rfl⟩ := h
  rfl

theorem splits_cons {first d : Document} {rest : List Document}
    (hdomains : first.domains ++ rest.flatMap Document.domains = d.domains)
    (hversion : first.version = d.version) (hrest : ∀ part ∈ rest, part.version = none) :
    Splits (first :: rest) d := by
  refine ⟨by rw [List.flatMap_cons, hdomains], ?_⟩
  have hnone : rest.findSome? Document.version = none := List.findSome?_eq_none_iff.2 hrest
  rw [List.findSome?_cons, hnone, hversion]
  cases d.version <;> rfl

section

variable {parts : List Document} {d : Document} (h : Splits parts d)

include h

theorem domainNames_of_splits : domainNames parts = d.domains.map Schema.Domain.name := by
  rw [domainNames, h.1]

/-- Planning what a document was split into, put together in a way that adds nothing to merging. -/
theorem plan_splits (policy : String) {f : List Document → Except CompileError Document}
    (hok : ∀ {d}, f parts = .ok d → d = joined parts)
    (hnodup : (domainNames parts).Nodup → f parts = .ok (joined parts)) :
    ((d.domains.map Schema.Domain.name).Nodup →
      planParts f policy parts = plan policy d) ∧
    (planParts f policy parts).toOption = (plan policy d).toOption := by
  have hplan : (d.domains.map Schema.Domain.name).Nodup →
      planParts f policy parts = plan policy d := by
    intro hnames
    rw [← domainNames_of_splits h] at hnames
    rw [planParts, hnodup hnames, h.joined_eq]
    rfl
  refine ⟨hplan, ?_⟩
  by_cases hnames : (d.domains.map Schema.Domain.name).Nodup
  · rw [hplan hnames]
  · ext p
    rw [Outcome.toOption_eq_some, Outcome.toOption_eq_some, planParts, Outcome.bind_eq_ok]
    constructor
    · rintro ⟨d', hd', hp⟩
      rw [hok (Outcome.liftM_eq_ok.1 hd'), h.joined_eq] at hp
      exact hp
    · intro hp
      exact absurd (names_of_plan hp).2 hnames

end

/-- Merging succeeds exactly if the names of all domains are different, and then concatenates; it
fails at the first repeated name otherwise. It may be done in groups, and a document that is split
and merged is planned as before or refused as before. -/
theorem merging_is_concatenation :
    (∀ documents d, merge documents = .ok d ↔
      (domainNames documents).Nodup ∧
        d = ⟨documents.flatMap Document.domains, documents.findSome? Document.version⟩) ∧
    (∀ documents e, merge documents = .error e ↔
      ∃ i j name, FirstRepeated documents i j name ∧ e = repeatedDomain i j name) ∧
    (∀ groups : List (List Document),
      (do merge (← groups.mapM merge)).toOption = (merge groups.flatten).toOption ∧
      (do merge (← groups.mapM combine)).toOption = (merge groups.flatten).toOption) ∧
    (∀ policy parts d, Splits parts d →
      ((d.domains.map Schema.Domain.name).Nodup →
        planParts merge policy parts = plan policy d ∧
        planParts combine policy parts = plan policy d) ∧
      (planParts merge policy parts).toOption = (plan policy d).toOption ∧
      (planParts combine policy parts).toOption = (plan policy d).toOption) := by
  have hcombine : ∀ {group d}, combine group = .ok d → d = joined group := fun h =>
    (Schema.combine_eq_ok_iff.1 h).2
  have hcombine' : ∀ {group}, (domainNames group).Nodup → combine group = .ok (joined group) :=
    fun h => Schema.combine_eq_ok_iff.2 ⟨.inr h, rfl⟩
  refine ⟨fun _ _ => Schema.merge_eq_ok_iff, fun _ _ => Schema.merge_eq_error_iff,
    fun groups => ⟨?_, ?_⟩, fun policy parts d h => ?_⟩
  · exact Schema.merge_groups (fun h => (Schema.merge_eq_ok_iff.1 h).2) Schema.merge_of_nodup groups
  · exact Schema.merge_groups hcombine hcombine' groups
  · obtain ⟨hmerge, hmerge'⟩ := plan_splits h policy (f := merge)
      (fun h => (Schema.merge_eq_ok_iff.1 h).2) Schema.merge_of_nodup
    obtain ⟨hsame, hsame'⟩ := plan_splits h policy (f := combine) hcombine hcombine'
    exact ⟨fun hnames => ⟨hmerge hnames, hsame hnames⟩, hmerge', hsame'⟩

/-- Two domains in files of their own, and one file that holds a version and no domain. -/
def crossedParts : List Document :=
  [{ domains := [], version := some ⟨"1", "3"⟩ }, { domains := Binding.crossed.domains.take 1 },
    { domains := Binding.crossed.domains.drop 1 }]

theorem merging_is_concatenation_crossed :
    Splits crossedParts { Binding.crossed with version := some ⟨"1", "3"⟩ } ∧
    planParts merge "tiered" crossedParts =
      plan "tiered" { Binding.crossed with version := some ⟨"1", "3"⟩ } ∧
    (planParts merge "tiered" crossedParts).isOk = true ∧
    merge (crossedParts ++ crossedParts) = .error (repeatedDomain 4 0 "A") := by
  have hsplit : Splits crossedParts { Binding.crossed with version := some ⟨"1", "3"⟩ } :=
    splits_cons rfl rfl (by decide)
  obtain ⟨-, herror, -, hplan⟩ := merging_is_concatenation
  have hplan := ((hplan "tiered" _ _ hsplit).1 (by decide)).1
  refine ⟨hsplit, hplan, ?_, (herror _ _).2 ⟨4, 0, "A", ?_, rfl⟩⟩
  · rw [hplan]
    decide +kernel
  · exact ⟨crossedParts ++ crossedParts.take 1, _, _, [], _, [], rfl, rfl, rfl, rfl, rfl, by decide,
      by decide⟩

end WireBindings.Compilation
