import WireBindings.Proofs.Outcome
import WireBindings.Proofs.Schema.Shapes
import Mathlib.Data.List.Nodup

/-!
# The types of a resolved document

A document that resolves has domains and types with names of their own, and its table holds the
declared types and no other.
-/

namespace WireBindings.Schema

/-- Domains have names of their own, and so have the types of each domain. -/
structure Document.Distinct (doc : Document) : Prop where
  domains : (doc.domains.map Domain.name).Nodup
  types : ∀ d ∈ doc.domains, (d.types.map TypeDeclaration.id).Nodup

theorem Document.Distinct.eq_of_name_eq {doc : Document} (h : doc.Distinct) {d d' : Domain}
    (hd : d ∈ doc.domains) (hd' : d' ∈ doc.domains) (hname : d.name = d'.name) : d = d' :=
  List.inj_on_of_nodup_map h.domains hd hd' hname

def Document.declarations (doc : Document) : List (TypeKey × TypeDeclaration) :=
  doc.domains.flatMap fun d => d.types.map fun t => (⟨d.name, t.id⟩, t)

theorem lookup_eq_some_iff_mem {α β : Type} [BEq α] [LawfulBEq α] {l : List (α × β)} {a : α}
    {b : β} (h : (l.map Prod.fst).Nodup) : l.lookup a = some b ↔ (a, b) ∈ l := by
  induction l with
  | nil => simp
  | cons x l ih =>
      obtain ⟨a', b'⟩ := x
      rw [List.map_cons, List.nodup_cons] at h
      rw [List.lookup_cons]
      by_cases ha : a = a'
      · subst ha
        have hmem : (a, b) ∉ l := fun hm => h.1 (List.mem_map.2 ⟨_, hm, rfl⟩)
        simp [hmem, eq_comm]
      · have hbeq : (a == a') = false := by simpa using ha
        simp [hbeq, ha, ih h.2]

namespace TypeTable

theorem checkTypes_eq_ok {index : Nat} {domain : String} {seen : List String}
    {types : List TypeDeclaration} {i : Nat} :
    checkTypes index domain seen types i = .ok () ↔
      (types.map TypeDeclaration.id).Nodup ∧ ∀ t ∈ types, t.id ∉ seen := by
  induction types generalizing seen i with
  | nil => simp [checkTypes]
  | cons t types ih =>
      rw [checkTypes]
      by_cases hseen : t.id ∈ seen
      · simp [hseen]
      · simp only [List.contains_eq_mem, hseen, decide_false, Bool.false_eq_true, if_false, ih,
          List.map_cons, List.nodup_cons, List.mem_map, List.mem_cons]
        constructor
        · rintro ⟨hnodup, hfresh⟩
          refine ⟨⟨?_, hnodup⟩, ?_⟩
          · rintro ⟨t', ht', hid⟩
            exact hfresh t' ht' (.inl hid)
          · rintro t' (rfl | ht')
            · exact hseen
            · exact fun hmem => hfresh t' ht' (.inr hmem)
        · rintro ⟨⟨hid, hnodup⟩, hfresh⟩
          refine ⟨hnodup, ?_⟩
          rintro t' ht' (heq | hmem)
          · exact hid ⟨t', ht', heq⟩
          · exact hfresh t' (.inr ht') hmem

theorem checkDomains_eq_ok {seen : List String} {domains : List Domain} {i : Nat} :
    checkDomains seen domains i = .ok () ↔
      ((domains.map Domain.name).Nodup ∧ ∀ d ∈ domains, (d.types.map TypeDeclaration.id).Nodup) ∧
        ∀ d ∈ domains, d.name ∉ seen := by
  induction domains generalizing seen i with
  | nil => simp [checkDomains]
  | cons d domains ih =>
      rw [checkDomains]
      by_cases hseen : d.name ∈ seen
      · simp [hseen]
      · simp only [List.contains_eq_mem, hseen, decide_false, Bool.false_eq_true, if_false,
          List.map_cons, List.nodup_cons, List.mem_map, List.mem_cons]
        rw [Outcome.bind_eq_ok]
        constructor
        · rintro ⟨⟨⟩, hcheck, hrest⟩
          obtain ⟨htypes, -⟩ := checkTypes_eq_ok.1 hcheck
          obtain ⟨⟨hnodup, hall⟩, hfresh⟩ := ih.1 hrest
          refine ⟨⟨⟨?_, hnodup⟩, ?_⟩, ?_⟩
          · rintro ⟨d', hd', hname⟩
            exact hfresh d' hd' (hname ▸ List.mem_cons_self)
          · rintro d' (rfl | hd')
            · exact htypes
            · exact hall d' hd'
          · rintro d' (rfl | hd')
            · exact hseen
            · exact fun hmem => hfresh d' hd' (List.mem_cons_of_mem _ hmem)
        · rintro ⟨⟨⟨hname, hnodup⟩, hall⟩, hfresh⟩
          refine ⟨(), checkTypes_eq_ok.2 ⟨hall d (.inl rfl), by simp⟩,
            ih.2 ⟨⟨hnodup, fun d' hd' => hall d' (.inr hd')⟩, ?_⟩⟩
          intro d' hd' hmem
          rcases List.mem_cons.1 hmem with heq | hmem
          · exact hname ⟨d', hd', heq⟩
          · exact hfresh d' (.inr hd') hmem

theorem ofDocument_eq_ok {doc : Document} {table : TypeTable} :
    ofDocument doc = .ok table ↔
      doc.Distinct ∧ table = ⟨doc.domains.map Domain.name, doc.declarations⟩ := by
  rw [ofDocument, Outcome.bind_eq_ok]
  constructor
  · rintro ⟨_, hcheck, htable⟩
    obtain ⟨⟨hdomains, htypes⟩, -⟩ := checkDomains_eq_ok.1 hcheck
    exact ⟨⟨hdomains, htypes⟩, (Outcome.pure_eq_ok.1 htable).symm⟩
  · rintro ⟨hdistinct, rfl⟩
    exact ⟨(), checkDomains_eq_ok.2 ⟨⟨hdistinct.domains, hdistinct.types⟩, by simp⟩, rfl⟩

theorem nodup_keys {doc : Document} (h : doc.Distinct) :
    (doc.declarations.map Prod.fst).Nodup := by
  have hmap : doc.declarations.map Prod.fst =
      doc.domains.flatMap fun d => d.types.map fun t => (⟨d.name, t.id⟩ : TypeKey) := by
    simp [Document.declarations, List.map_flatMap, Function.comp_def]
  rw [hmap, List.nodup_flatMap]
  refine ⟨?_, ?_⟩
  · intro d hd
    have hids := h.types d hd
    have hcomp : d.types.map (fun t => (⟨d.name, t.id⟩ : TypeKey)) =
        (d.types.map TypeDeclaration.id).map (TypeKey.mk d.name) := by simp
    rw [hcomp]
    exact hids.map fun a b hab => (TypeKey.mk.inj hab).2
  · have hpair := List.pairwise_map.1 h.domains
    refine hpair.imp ?_
    intro d d' hne key hkey hkey'
    obtain ⟨t, -, rfl⟩ := List.mem_map.1 hkey
    obtain ⟨t', -, heq⟩ := List.mem_map.1 hkey'
    exact hne (TypeKey.mk.inj heq).1.symm

/-- The table holds exactly the types that the document declares. -/
theorem find?_eq_some_iff {doc : Document} {table : TypeTable} (h : ofDocument doc = .ok table)
    {key : TypeKey} {t : TypeDeclaration} :
    table.find? key = some t ↔
      ∃ d ∈ doc.domains, d.name = key.domain ∧ t ∈ d.types ∧ t.id = key.id := by
  obtain ⟨hdistinct, rfl⟩ := ofDocument_eq_ok.1 h
  rw [find?, lookup_eq_some_iff_mem (nodup_keys hdistinct)]
  simp only [Document.declarations, List.mem_flatMap, List.mem_map, Prod.mk.injEq]
  constructor
  · rintro ⟨d, hd, t', ht', rfl, rfl⟩
    exact ⟨d, hd, rfl, ht', rfl⟩
  · rintro ⟨d, hd, hname, ht, hid⟩
    exact ⟨d, hd, t, ht, by rw [hname, hid], rfl⟩

end TypeTable

namespace Resolution

section

variable {doc : Document} {r : Resolution} (hr : ofDocument doc = .ok r)

include hr

theorem document_eq : r.document = doc := by
  obtain ⟨table, -, h⟩ := Outcome.bind_eq_ok.1 hr
  obtain ⟨handles, -, h⟩ := Outcome.bind_eq_ok.1 h
  rw [← Outcome.pure_eq_ok.1 h]

theorem table_eq : TypeTable.ofDocument doc = .ok r.table := by
  obtain ⟨table, htable, h⟩ := Outcome.bind_eq_ok.1 hr
  obtain ⟨handles, -, h⟩ := Outcome.bind_eq_ok.1 h
  rw [htable, ← Outcome.pure_eq_ok.1 h]

theorem distinct : doc.Distinct := (TypeTable.ofDocument_eq_ok.1 (table_eq hr)).1

theorem find?_eq_some_iff {key : TypeKey} {t : TypeDeclaration} :
    r.table.find? key = some t ↔
      ∃ d ∈ doc.domains, d.name = key.domain ∧ t ∈ d.types ∧ t.id = key.id :=
  TypeTable.find?_eq_some_iff (table_eq hr)

end

end Resolution

end WireBindings.Schema
