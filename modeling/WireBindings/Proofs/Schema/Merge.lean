import WireBindings.Proofs.Outcome
import WireBindings.Schema.File
import Mathlib.Data.List.Induction
import Mathlib.Data.List.Nodup

/-!
# Merging is concatenation

Documents whose domains have names of their own merge to one with all their domains, and others are
refused at the first domain whose name occurred before. What they merge to does not depend on how
they are grouped.
-/

namespace WireBindings.Schema

/-- All domains of documents under the first version that is given. -/
def joined (documents : List Document) : Document where
  domains := documents.flatMap Document.domains
  version := documents.findSome? Document.version

def domainNames (documents : List Document) : List String :=
  (documents.flatMap Document.domains).map Domain.name

theorem joined_cons (d : Document) (documents : List Document) :
    joined (d :: documents) =
      ⟨d.domains ++ (joined documents).domains, d.version.or (joined documents).version⟩ := by
  unfold joined
  rw [List.flatMap_cons, List.findSome?_cons]
  cases d.version <;> rfl

theorem joined_append (documents documents' : List Document) :
    joined (documents ++ documents') =
      ⟨(joined documents).domains ++ (joined documents').domains,
        (joined documents).version.or (joined documents').version⟩ := by
  simp only [joined, List.flatMap_append, List.findSome?_append]

@[simp] theorem joined_singleton (d : Document) : joined [d] = d := by
  rw [joined_cons]
  simp [joined]

theorem joined_flatten (groups : List (List Document)) :
    joined groups.flatten = joined (groups.map joined) := by
  induction groups with
  | nil => rfl
  | cons group groups ih => rw [List.flatten_cons, joined_append, ih, List.map_cons, joined_cons]

theorem domainNames_flatten (groups : List (List Document)) :
    domainNames groups.flatten = domainNames (groups.map joined) :=
  congrArg (fun d : Document => d.domains.map Domain.name) (joined_flatten groups)

theorem nodup_domainNames_of_mem {groups : List (List Document)} {group : List Document}
    (h : (domainNames groups.flatten).Nodup) (hgroup : group ∈ groups) :
    (domainNames group).Nodup := by
  obtain ⟨before, after, rfl⟩ := List.append_of_mem hgroup
  have hsplit : domainNames (before ++ group :: after).flatten =
      domainNames before.flatten ++ domainNames group ++ domainNames after.flatten := by
    simp [domainNames]
  rw [hsplit] at h
  exact h.of_append_left.of_append_right

/-! ## The first repeated name -/

/-- The domain at some indices has a name that occurred before it, and no domain before it does. -/
def FirstRepeated (documents : List Document) (i j : Nat) (name : String) : Prop :=
  ∃ before document after front domain back, documents = before ++ document :: after ∧
    document.domains = front ++ domain :: back ∧ i = before.length ∧ j = front.length ∧
    domain.name = name ∧ ((before.flatMap Document.domains ++ front).map Domain.name).Nodup ∧
    name ∈ (before.flatMap Document.domains ++ front).map Domain.name

def repeatedDomain (i j : Nat) (name : String) : CompileError :=
  .malformed ((((({ root := "documents" } : Location).index i).key "domains").index j).key "domain")
    (.duplicateDomain name)

example : (repeatedDomain 1 0 "Page").plain =
    "Malformed schema at documents[1].domains[0].domain: domain 'Page' is defined more than once" :=
  by decide +kernel

/-- In a list with repetitions there is a first one. -/
theorem exists_first_repeated {α β : Type} {f : α → β} {l : List α} (h : ¬ (l.map f).Nodup) :
    ∃ front a back, l = front ++ a :: back ∧ (front.map f).Nodup ∧ f a ∈ front.map f := by
  induction l using List.reverseRecOn with
  | nil => exact absurd List.nodup_nil h
  | append_singleton l a ih =>
      by_cases hl : (l.map f).Nodup
      · refine ⟨l, a, [], rfl, hl, ?_⟩
        by_contra hmem
        rw [List.map_append, List.map_singleton, List.nodup_append_comm] at h
        exact h (List.nodup_cons.2 ⟨hmem, hl⟩)
      · obtain ⟨front, b, back, rfl, hnodup, hmem⟩ := ih hl
        exact ⟨front, b, back ++ [a], by simp, hnodup, hmem⟩

theorem exists_document_of_flatMap_eq {documents : List Document} {front back : List Domain}
    {d : Domain} (h : documents.flatMap Document.domains = front ++ d :: back) :
    ∃ before document after front' back', documents = before ++ document :: after ∧
      document.domains = front' ++ d :: back' ∧
      front = before.flatMap Document.domains ++ front' := by
  induction documents generalizing front with
  | nil => simp at h
  | cons document documents ih =>
      rw [List.flatMap_cons] at h
      rcases List.append_eq_append_iff.1 h with ⟨rest, rfl, hrest⟩ | ⟨rest, hdocument, hrest⟩
      · obtain ⟨before, found, after, front', back', rfl, hfound, rfl⟩ := ih hrest
        exact ⟨document :: before, found, after, front', back', rfl, hfound, by simp⟩
      · cases rest with
        | nil =>
            obtain ⟨before, found, after, front', back', rfl, hfound, hempty⟩ :=
              @ih [] hrest.symm
            refine ⟨document :: before, found, after, front', back', rfl, hfound, ?_⟩
            rw [List.flatMap_cons, List.append_assoc, ← hempty, hdocument]
            simp
        | cons first rest =>
            obtain ⟨rfl, -⟩ := List.cons.inj hrest
            exact ⟨[], document, documents, front, rest, rfl, hdocument, rfl⟩

theorem map_fst_indexedDomains (documents : List Document) :
    (indexedDomains documents).map Prod.fst = documents.flatMap Document.domains := by
  have hall : ∀ k, ((documents.zipIdx k).flatMap fun x =>
      x.1.indexed.map fun y => (y.1, x.2, y.2)).map Prod.fst =
        documents.flatMap Document.domains := by
    induction documents with
    | nil => simp
    | cons d documents ih =>
        intro k
        rw [List.zipIdx_cons, List.flatMap_cons, List.map_append, ih, List.flatMap_cons]
        simp [Document.indexed, Function.comp_def, List.zipIdx_map_fst]
  exact hall 0

theorem indexedDomains_eq {documents before after : List Document} {document : Document}
    {front back : List Domain} {d : Domain} (hdocuments : documents = before ++ document :: after)
    (hdocument : document.domains = front ++ d :: back) :
    ∃ passed rest, indexedDomains documents = passed ++ (d, before.length, front.length) :: rest ∧
      passed.map Prod.fst = before.flatMap Document.domains ++ front := by
  let passed := indexedDomains before ++ front.zipIdx.map fun x => (x.1, before.length, x.2)
  have hpassed : passed.map Prod.fst = before.flatMap Document.domains ++ front := by
    rw [List.map_append, map_fst_indexedDomains, List.map_map]
    exact congrArg _ (List.zipIdx_map_fst 0 front)
  have hsplit : ∃ rest,
      indexedDomains documents = passed ++ (d, before.length, front.length) :: rest := by
    subst hdocuments
    simp only [passed, indexedDomains, List.zipIdx_append, List.flatMap_append, List.zipIdx_cons,
      List.flatMap_cons, Document.indexed, hdocument, List.map_append, List.map_cons, Nat.zero_add,
      List.append_assoc, List.cons_append]
    exact ⟨_, rfl⟩
  obtain ⟨rest, hsplit⟩ := hsplit
  exact ⟨passed, rest, hsplit, hpassed⟩

theorem checkDistinct_append {seen : List String} {front rest : List (Domain × Nat × Nat)}
    (hnodup : (front.map fun x => x.1.name).Nodup) (hfresh : ∀ x ∈ front, x.1.name ∉ seen) :
    checkDistinct seen (front ++ rest) =
      checkDistinct ((front.map fun x => x.1.name).reverse ++ seen) rest := by
  induction front generalizing seen with
  | nil => rfl
  | cons x front ih =>
      obtain ⟨hx, hfront⟩ := List.forall_mem_cons.1 hfresh
      rw [List.map_cons, List.nodup_cons] at hnodup
      have hfresh' : ∀ y ∈ front, y.1.name ∉ x.1.name :: seen := by
        intro y hy hmem
        rcases List.mem_cons.1 hmem with heq | hmem
        · exact hnodup.1 (heq ▸ List.mem_map_of_mem hy)
        · exact hfront y hy hmem
      rw [List.cons_append, checkDistinct, if_neg (by simpa using hx), ih hnodup.2 hfresh']
      simp

theorem merge_of_nodup {documents : List Document} (h : (domainNames documents).Nodup) :
    merge documents = .ok (joined documents) := by
  have hnodup : ((indexedDomains documents).map fun x => x.1.name).Nodup := by
    have hmap := congrArg (List.map Domain.name) (map_fst_indexedDomains documents)
    rw [List.map_map] at hmap
    exact hmap ▸ h
  have hcheck : checkDistinct [] (indexedDomains documents ++ []) = .ok () :=
    checkDistinct_append hnodup fun _ _ => List.not_mem_nil
  rw [List.append_nil] at hcheck
  rw [merge, hcheck]
  rfl

theorem merge_of_firstRepeated {documents : List Document} {i j : Nat} {name : String}
    (h : FirstRepeated documents i j name) :
    merge documents = .error (repeatedDomain i j name) := by
  obtain ⟨before, document, after, front, d, back, hdocuments, hdocument, rfl, rfl, rfl, hnodup,
    hmem⟩ := h
  obtain ⟨passed, rest, hindexed, hpassed⟩ := indexedDomains_eq hdocuments hdocument
  rw [← hpassed, List.map_map] at hnodup hmem
  have hseen : d.name ∈ (passed.map fun x => x.1.name).reverse ++ [] := by
    rw [List.append_nil, List.mem_reverse]
    exact hmem
  have hcheck : checkDistinct [] (indexedDomains documents) =
      .error (repeatedDomain before.length front.length d.name) := by
    rw [hindexed, checkDistinct_append hnodup fun _ _ => List.not_mem_nil, checkDistinct,
      if_pos (by simpa using hseen)]
    rfl
  rw [merge, hcheck]
  rfl

theorem exists_firstRepeated {documents : List Document} (h : ¬ (domainNames documents).Nodup) :
    ∃ i j name, FirstRepeated documents i j name := by
  obtain ⟨passed, d, rest, hflat, hnodup, hmem⟩ := exists_first_repeated h
  obtain ⟨before, document, after, front, back, hdocuments, hdocument, rfl⟩ :=
    exists_document_of_flatMap_eq hflat
  exact ⟨_, _, _, before, document, after, front, d, back, hdocuments, hdocument, rfl, rfl, rfl,
    hnodup, hmem⟩

theorem merge_eq_ok_iff {documents : List Document} {d : Document} :
    merge documents = .ok d ↔ (domainNames documents).Nodup ∧ d = joined documents := by
  constructor
  · intro h
    by_cases hnodup : (domainNames documents).Nodup
    · rw [merge_of_nodup hnodup] at h
      exact ⟨hnodup, (Except.ok.inj h).symm⟩
    · obtain ⟨i, j, name, hfirst⟩ := exists_firstRepeated hnodup
      rw [merge_of_firstRepeated hfirst] at h
      cases h
  · rintro ⟨hnodup, rfl⟩
    exact merge_of_nodup hnodup

theorem merge_eq_error_iff {documents : List Document} {e : CompileError} :
    merge documents = .error e ↔
      ∃ i j name, FirstRepeated documents i j name ∧ e = repeatedDomain i j name := by
  constructor
  · intro h
    have hnodup : ¬ (domainNames documents).Nodup := by
      intro hnodup
      rw [merge_of_nodup hnodup] at h
      cases h
    obtain ⟨i, j, name, hfirst⟩ := exists_firstRepeated hnodup
    rw [merge_of_firstRepeated hfirst] at h
    exact ⟨i, j, name, hfirst, (Except.error.inj h).symm⟩
  · rintro ⟨i, j, name, hfirst, rfl⟩
    exact merge_of_firstRepeated hfirst

theorem combine_eq_ok_iff {documents : List Document} {d : Document} :
    combine documents = .ok d ↔
      (documents.length = 1 ∨ (domainNames documents).Nodup) ∧ d = joined documents := by
  unfold combine
  split
  · next d' =>
      simp [eq_comm]
  · next hne =>
      have hlength : documents.length ≠ 1 := by
        intro h
        obtain ⟨d', rfl⟩ := List.length_eq_one_iff.1 h
        exact hne d' rfl
      simp [merge_eq_ok_iff, hlength]

/-! ## Grouping -/

/-- Groups that are merged first, in a way that adds nothing to merging, merge to the same. -/
theorem merge_groups {f : List Document → Except CompileError Document}
    (hok : ∀ {group d}, f group = .ok d → d = joined group)
    (hnodup : ∀ {group}, (domainNames group).Nodup → f group = .ok (joined group))
    (groups : List (List Document)) :
    (do merge (← groups.mapM f)).toOption = (merge groups.flatten).toOption := by
  ext d
  rw [Outcome.toOption_eq_some, Outcome.toOption_eq_some, merge_eq_ok_iff, domainNames_flatten,
    joined_flatten, Outcome.bind_eq_ok]
  constructor
  · rintro ⟨merged, hmapM, hmerge⟩
    have hmerged : groups.map joined = merged.map id :=
      Outcome.map_eq_map_of_forall₂ (Outcome.mapM_eq_ok.1 hmapM) fun _ _ _ h => (hok h).symm
    rw [List.map_id] at hmerged
    rw [hmerged]
    exact merge_eq_ok_iff.1 hmerge
  · rintro ⟨hdistinct, rfl⟩
    refine ⟨groups.map joined, ?_, merge_of_nodup hdistinct⟩
    rw [← domainNames_flatten] at hdistinct
    rw [Outcome.mapM_eq_ok, List.forall₂_map_right_iff, List.forall₂_same]
    exact fun group hgroup => hnodup (nodup_domainNames_of_mem hdistinct hgroup)

end WireBindings.Schema
