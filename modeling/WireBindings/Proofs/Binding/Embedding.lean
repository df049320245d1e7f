import WireBindings.Proofs.Binding.AliasChain
import WireBindings.Proofs.Schema.Advisory

/-!
# Documents within documents

A document that is resolved can be part of a larger one that is, with other descriptions and flags.
Whatever a reference of the smaller document leads to, it leads to in the larger one, and the
recursive aliases of the smaller document are the ones that are recursive in the larger.
-/

namespace WireBindings.Schema

variable {f : Advisory → Advisory} {doc doc' : Document}

/-- The domains of a document, with what accompanies them changed, are domains of another. -/
def Document.Embeds (f : Advisory → Advisory) (doc doc' : Document) : Prop :=
  ∀ d ∈ doc.domains, d.mapAdvisory f ∈ doc'.domains

theorem Document.embeds_mapAdvisory (f : Advisory → Advisory) (doc : Document) :
    doc.Embeds f (doc.mapAdvisory f) := fun _ hd => List.mem_map_of_mem hd

theorem Document.embeds_of_subset (h : doc.domains ⊆ doc'.domains) : doc.Embeds id doc' := by
  intro d hd
  rw [d.mapAdvisory_id]
  exact h hd

theorem Domain.refersAt_mapAdvisory_iff {d : Domain} {o : Occurrence} :
    (d.mapAdvisory f).RefersAt o ↔ d.RefersAt o := by
  rw [← mem_references_iff, ← mem_references_iff, references_mapAdvisory]

theorem Shape.points_mapAdvisory_iff {shape : Shape} {target : String} :
    (shape.mapAdvisory f).Points target ↔ shape.Points target := by
  induction shape with
  | reference name => exact Iff.rfl
  | scalar kind => exact Iff.rfl
  | enumeration literals => exact Iff.rfl
  | record properties ih =>
      rw [mapAdvisory]
      exact iff_of_false (by rintro ⟨⟩) (by rintro ⟨⟩)
  | array item ih =>
      rw [mapAdvisory]
      constructor
      · rintro (_ | ⟨h⟩)
        exact .array (ih.1 h)
      · rintro (_ | ⟨h⟩)
        exact .array (ih.2 h)

theorem Shape.Points.exists_refersAt {shape : Shape} {target : String} (h : shape.Points target)
    (path : String) : ∃ o, shape.RefersAt path o ∧ o.reference = target := by
  induction h generalizing path with
  | reference target => exact ⟨_, .here, rfl⟩
  | array h ih =>
      obtain ⟨o, ho, href⟩ := ih (path ++ ".items")
      exact ⟨o, .item ho, href⟩

theorem Document.Leads.key_eq {d : Domain} {reference : String} {key : TypeKey}
    (h : doc.Leads d reference key) :
    key = ⟨(splitReference reference).1.getD d.name, (splitReference reference).2⟩ := by
  cases h with
  | unqualified hid ht =>
      rw [splitReference_of_not_mem hid]
      rfl
  | own hid ht =>
      rw [splitReference_qualified hid]
      rfl
  | foreign hid hne hdep ht =>
      rw [splitReference_qualified hid]
      rfl

theorem Document.Leads.unique {d : Domain} {reference : String} {key key' : TypeKey}
    (h : doc.Leads d reference key) (h' : doc.Leads d reference key') : key = key' :=
  h.key_eq.trans h'.key_eq.symm

theorem Resolution.target?_eq_some_iff {r : Resolution} (hr : ofDocument doc = .ok r)
    {owner reference : String} {key : TypeKey} :
    r.target? owner reference = some key ↔
      ∃ d ∈ doc.domains, d.name = owner ∧ (∃ o, d.RefersAt o ∧ o.reference = reference) ∧
        doc.Leads d reference key := by
  have hexact := exact hr
  have hdistinct := distinct hr
  constructor
  · intro htarget
    obtain ⟨h, hfind, rfl⟩ := Option.map_eq_some_iff.1 htarget
    have hmem := List.mem_of_find?_eq_some hfind
    have hkeys := List.find?_some hfind
    simp only [Bool.and_eq_true, decide_eq_true_eq] at hkeys
    obtain ⟨rfl, rfl⟩ := hkeys
    obtain ⟨d, hd, hname, hleads⟩ := hexact.leads h hmem
    obtain ⟨d', hd', hname', hrefers⟩ := (hexact.handled h.owner h.reference).1 ⟨h, hmem, rfl, rfl⟩
    obtain rfl := hdistinct.eq_of_name_eq hd' hd (hname'.trans hname.symm)
    exact ⟨d', hd, hname, hrefers, hleads⟩
  · rintro ⟨d, hd, rfl, hrefers, hleads⟩
    obtain ⟨h, hmem, howner, rfl⟩ := (hexact.handled d.name reference).2 ⟨d, hd, rfl, hrefers⟩
    obtain ⟨d', hd', hname, hleads'⟩ := hexact.leads h hmem
    obtain rfl := hdistinct.eq_of_name_eq hd' hd (hname.trans howner)
    rw [← howner, hexact.target h hmem, hleads'.unique hleads]

/-! ## What a document has, a larger one has -/

section

variable (h : doc.Embeds f doc')

include h

theorem Document.Embeds.declares {key : TypeKey} {t : TypeDeclaration} (ht : doc.Declares key t) :
    doc'.Declares key (t.mapAdvisory f) := by
  obtain ⟨d, hd, hname, hmem, hid⟩ := ht
  exact ⟨d.mapAdvisory f, h d hd, hname, List.mem_map_of_mem hmem, hid⟩

theorem Document.Embeds.leads {d : Domain} {reference : String} {key : TypeKey}
    (hleads : doc.Leads d reference key) : doc'.Leads (d.mapAdvisory f) reference key := by
  cases hleads with
  | unqualified hid ht => exact .unqualified hid (h.declares ht)
  | own hid ht => exact .own hid (h.declares ht)
  | foreign hid hne hdep ht => exact .foreign hid hne hdep (h.declares ht)

namespace Resolution

variable {r r' : Resolution} (hr : ofDocument doc = .ok r) (hr' : ofDocument doc' = .ok r')

include hr hr'

theorem find?_of_embeds {key : TypeKey} {t : TypeDeclaration} (ht : r.table.find? key = some t) :
    r'.table.find? key = some (t.mapAdvisory f) :=
  (find?_eq_some_iff hr').2 (h.declares ((find?_eq_some_iff hr).1 ht))

theorem target?_of_embeds {owner reference : String} {key : TypeKey}
    (htarget : r.target? owner reference = some key) :
    r'.target? owner reference = some key := by
  obtain ⟨d, hd, hname, ⟨o, ho, href⟩, hleads⟩ := (target?_eq_some_iff hr).1 htarget
  exact (target?_eq_some_iff hr').2
    ⟨d.mapAdvisory f, h d hd, hname, ⟨o, Domain.refersAt_mapAdvisory_iff.2 ho, href⟩,
      h.leads hleads⟩

theorem leadsTo_of_embeds {a b : TypeKey} (hab : r.LeadsTo a b) : r'.LeadsTo a b := by
  obtain ⟨t, target, ht, hpoints, htarget, halias⟩ := hab
  obtain ⟨t', ht', halias'⟩ := isAlias_eq_true.1 halias
  refine ⟨t.mapAdvisory f, target, find?_of_embeds h hr hr' ht,
    Shape.points_mapAdvisory_iff.2 hpoints, target?_of_embeds h hr hr' htarget, ?_⟩
  exact isAlias_eq_true.2
    ⟨t'.mapAdvisory f, find?_of_embeds h hr hr' ht', Shape.isAlias_mapAdvisory_iff.2 halias'⟩

theorem leadsTo_of_embeds_of_find? {a b : TypeKey} {t : TypeDeclaration}
    (ht : r.table.find? a = some t) (hab : r'.LeadsTo a b) :
    r.LeadsTo a b ∧ ∃ t', r.table.find? b = some t' := by
  obtain ⟨_, target, ht', hpoints, htarget', halias'⟩ := hab
  obtain rfl := Option.some.inj ((find?_of_embeds h hr hr' ht).symm.trans ht')
  have hpoints := Shape.points_mapAdvisory_iff.1 hpoints
  obtain ⟨d, hd, hname, hmem, -⟩ := (find?_eq_some_iff hr).1 ht
  obtain ⟨o, ho, rfl⟩ := hpoints.exists_refersAt (d.name ++ "." ++ t.id)
  have hrefers := Domain.mem_references_iff.2 (.type hmem ho)
  obtain ⟨b', htarget⟩ := exists_target?_eq_some hr hd hrefers
  rw [hname] at htarget
  obtain rfl := Option.some.inj ((target?_of_embeds h hr hr' htarget).symm.trans htarget')
  obtain ⟨tb, htb⟩ := exists_find?_of_target? hr htarget
  obtain ⟨tb', htb', halias'⟩ := isAlias_eq_true.1 halias'
  obtain rfl := Option.some.inj ((find?_of_embeds h hr hr' htb).symm.trans htb')
  exact ⟨⟨t, o.reference, ht, hpoints, htarget,
    isAlias_eq_true.2 ⟨tb, htb, Shape.isAlias_mapAdvisory_iff.1 halias'⟩⟩, tb, htb⟩

/-- An alias of the smaller document is recursive in it if it is in the larger. -/
theorem loops_iff_of_embeds {key : TypeKey} {t : TypeDeclaration}
    (ht : r.table.find? key = some t) :
    Relation.TransGen r'.LeadsTo key key ↔ Relation.TransGen r.LeadsTo key key := by
  constructor
  · intro hloop
    have hreach : ∀ {b}, Relation.TransGen r'.LeadsTo key b →
        Relation.TransGen r.LeadsTo key b ∧ ∃ t', r.table.find? b = some t' := by
      intro b hb
      induction hb with
      | single hab =>
          obtain ⟨hstep, hfound⟩ := leadsTo_of_embeds_of_find? h hr hr' ht hab
          exact ⟨.single hstep, hfound⟩
      | tail _ hbc ih =>
          obtain ⟨hreach, t', ht'⟩ := ih
          obtain ⟨hstep, hfound⟩ := leadsTo_of_embeds_of_find? h hr hr' ht' hbc
          exact ⟨hreach.tail hstep, hfound⟩
    exact (hreach hloop).1
  · have hle : r.LeadsTo ≤ r'.LeadsTo := fun _ _ hab => leadsTo_of_embeds h hr hr' hab
    exact Relation.TransGen.mono hle key key

end Resolution

end

end WireBindings.Schema
