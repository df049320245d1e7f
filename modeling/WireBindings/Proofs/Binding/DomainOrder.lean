import WireBindings.Proofs.Binding.Mentions
import WireBindings.Proofs.Binding.Transport

/-!
# Domains among other domains

A domain is bound to the same in every document that has the domains that it is bound among, in any
order. Only its external domains are listed in the order of the document.
-/

namespace WireBindings

namespace Schema

open Resolution

variable {doc doc' : Document} (hperm : doc.domains.Perm doc'.domains)

include hperm

theorem Document.Distinct.of_perm (h : doc.Distinct) : doc'.Distinct where
  domains := (hperm.map Domain.name).nodup_iff.1 h.domains
  types d hd := h.types d (hperm.mem_iff.2 hd)

/-- Whether a document resolves does not depend on the order of its domains. -/
theorem Resolution.exists_ofDocument_of_perm {r : Resolution} (hr : ofDocument doc = .ok r) :
    ∃ r', ofDocument doc' = .ok r' := by
  have hdistinct := (distinct hr).of_perm hperm
  obtain ⟨r', hr', -⟩ | ⟨before, d, o, after, e, hsplit, -, hrefuses, -⟩ :=
    exact_or_refused hdistinct
  · exact ⟨r', hr'⟩
  · have hmem : (d, o) ∈ doc'.occurrences := by simp [hsplit]
    obtain ⟨hd', ho⟩ := Document.mem_occurrences_iff.1 hmem
    have hd : d ∈ doc.domains := hperm.mem_iff.2 hd'
    obtain ⟨key, htarget⟩ := exists_target?_eq_some hr hd (Domain.mem_references_iff.2 ho)
    obtain ⟨d', hd', hname, -, hleads⟩ := (target?_eq_some_iff hr).1 htarget
    obtain rfl := (distinct hr).eq_of_name_eq hd' hd hname
    have hleads' := (Document.embeds_of_subset hperm.subset).leads hleads
    rw [d'.mapAdvisory_id] at hleads'
    exact absurd ⟨key, hleads'⟩ (hrefuses.not_leads hdistinct)

end Schema

namespace Binding

open Schema (Document Resolution)

namespace Context

theorem exists_ofResolution {r : Resolution}
    (h : ∀ d ∈ r.document.domains, ∃ n, Naming.ofDomain d = .ok n) :
    ∃ c, ofResolution r = .ok c := by
  have hentries : ∀ d ∈ r.document.domains,
      ∃ entry, (do return (d.name, ← Naming.ofDomain d)) = Except.ok (ε := CompileError) entry := by
    intro d hd
    obtain ⟨n, hn⟩ := h d hd
    rw [hn]
    exact ⟨_, rfl⟩
  obtain ⟨namings, hnamings⟩ := Outcome.exists_mapM hentries
  rw [ofResolution, hnamings]
  exact ⟨_, rfl⟩

theorem exists_ofResolution_of_perm {doc doc' : Document}
    (hperm : doc.domains.Perm doc'.domains) {r r' : Resolution} {c : Context}
    (hr : Resolution.ofDocument doc = .ok r) (hc : ofResolution r = .ok c)
    (hr' : Resolution.ofDocument doc' = .ok r') : ∃ c', ofResolution r' = .ok c' := by
  refine exists_ofResolution fun d hd => ?_
  rw [Resolution.document_eq hr'] at hd
  obtain ⟨n, hn, -⟩ := exists_naming hr hc (hperm.mem_iff.2 hd)
  exact ⟨n, hn⟩

end Context

def Domain.listed (names : List String) (d : Domain) : Domain :=
  { d with externals := names.filter d.externals.contains }

theorem Domain.externals_listed_perm {names : List String} {d : Domain}
    (hsub : d.externals ⊆ names) (hnames : names.Nodup) (hnodup : d.externals.Nodup) :
    (d.listed names).externals.Perm d.externals := by
  refine (List.perm_ext_iff_of_nodup (hnames.filter _) hnodup).2 fun name => ?_
  rw [List.mem_filter, List.contains_iff_mem]
  exact ⟨And.right, fun h => ⟨hsub h, h⟩⟩

theorem Domain.listed_eq_self {names : List String} {d : Domain}
    (hsub : d.externals.Sublist names) (hnames : names.Nodup) : d.listed names = d := by
  have hperm := externals_listed_perm hsub.subset hnames (hsub.nodup hnames)
  have heq := (hnames.perm_iff_eq_of_sublist List.filter_sublist hsub).1 hperm
  rw [listed]
  exact congrArg (fun externals => { d with externals }) heq

theorem Domain.exists_mentioned_of_uses {d : Domain} {name : String} (h : d.uses name = true) :
    ∃ n ∈ d.mentioned, n.domain = name := by
  rw [uses, Bool.and_eq_true, List.contains_iff_mem] at h
  obtain ⟨n, hn, hname⟩ := List.mem_map.1 h.2
  obtain ⟨type, htype, hn⟩ := List.mem_filterMap.1 hn
  refine ⟨n, List.mem_filterMap.2 ⟨type, ?_, hn⟩, hname⟩
  rcases List.mem_append.1 htype with htype | htype
  · exact List.mem_append_left _ (List.mem_append_left _ htype)
  · obtain ⟨command, hcommand, htype⟩ := List.mem_flatMap.1 htype
    refine List.mem_append_left _ (List.mem_append_right _ (List.mem_flatMap.2 ?_))
    exact ⟨command, hcommand, List.mem_append_left _ htype⟩

namespace Context

section

variable {doc doc' : Document} {r r' : Resolution} {c c' : Context}
  (hr : Resolution.ofDocument doc = .ok r) (hc : ofResolution r = .ok c)
  {p : Protocol} (hbound : List.Forall₂ c.Bound doc.domains p.domains)

include hr hc

include hbound in
theorem mem_names_of_uses {bound : Domain} (hmem : bound ∈ p.domains) {name : String}
    (h : bound.uses name = true) : name ∈ doc.domains.map Schema.Domain.name := by
  obtain ⟨n, hn, rfl⟩ := Domain.exists_mentioned_of_uses h
  obtain ⟨owner, howner, hname, -⟩ := exists_type_of_mem_mentioned hr hc hbound hmem hn
  obtain ⟨d, hd, hdomain⟩ := Outcome.exists_left_of_forall₂ hbound howner
  rw [← hname, hdomain.name]
  exact List.mem_map_of_mem hd

theorem Bound.externals_sublist {d : Schema.Domain} {bound : Domain} (h : c.Bound d bound) :
    bound.externals.Sublist (doc.domains.map Schema.Domain.name) := by
  rw [h.externals_eq, (ofResolution_eq_ok hc).1, Resolution.document_eq hr]
  exact List.filter_sublist

theorem Bound.mem_externals_iff {d : Schema.Domain} {bound : Domain} (h : c.Bound d bound)
    {name : String} : name ∈ bound.externals ↔
      name ∈ doc.domains.map Schema.Domain.name ∧ bound.uses name = true := by
  rw [h.externals_eq, (ofResolution_eq_ok hc).1, Resolution.document_eq hr, List.mem_filter]

variable (hr' : Resolution.ofDocument doc' = .ok r') (hc' : ofResolution r' = .ok c')
  (hsub : doc.domains ⊆ doc'.domains)

include hbound hr' hc' hsub

/-- In a document with further domains, a domain is bound to the same with its external domains in
the order of that document. -/
theorem Bound.eq_listed {d : Schema.Domain} (hd : d ∈ doc.domains) {bound bound' : Domain}
    (hmem : bound ∈ p.domains) (h : c.Bound d bound) (h' : c'.Bound d bound') :
    bound' = bound.listed (doc'.domains.map Schema.Domain.name) := by
  have hext := extends_of_embeds hr hc hr' hc' (Document.embeds_of_subset hsub)
  have hfound := find?_of_mem_types hr hc hd
  rw [← d.mapAdvisory_id] at h'
  have heq := h.mapAdvisory_eq Advisory.reduces_id hext hfound h'
  rw [Domain.mapAdvisory_id, Domain.mapAdvisory_id] at heq
  have hexternals : bound'.externals =
      (doc'.domains.map Schema.Domain.name).filter bound.externals.contains := by
    rw [h'.externals_eq, h.uses_eq Advisory.reduces_id hext hfound h', (ofResolution_eq_ok hc').1,
      Resolution.document_eq hr']
    refine List.filter_congr fun name _ => ?_
    rw [Bool.eq_iff_iff, List.contains_iff_mem, h.mem_externals_iff hr hc]
    exact ⟨fun huses => ⟨mem_names_of_uses hr hc hbound hmem huses, huses⟩, And.right⟩
  rw [heq, hexternals, Domain.listed]

theorem eq_map_listed {domains : List Schema.Domain} (hdomains : domains ⊆ doc.domains)
    {bounds bounds' : List Domain}
    (h : List.Forall₂ (fun d bound => c.Bound d bound ∧ bound ∈ p.domains) domains bounds)
    (h' : List.Forall₂ c'.Bound domains bounds') :
    bounds' = bounds.map (Domain.listed (doc'.domains.map Schema.Domain.name)) := by
  have hsame : List.Forall₂ Eq domains domains := List.forall₂_same.2 fun _ _ => rfl
  have hmap : bounds'.map id =
      bounds.map (Domain.listed (doc'.domains.map Schema.Domain.name)) := by
    refine Outcome.map_eq_map_of_related hsame h' h ?_
    rintro d hd _ bound' bound rfl hdb' ⟨hdb, hmem⟩
    exact hdb.eq_listed hr hc hbound hr' hc' hsub (hdomains hd) hmem hdb'
  rw [← hmap, List.map_id]

omit hsub in
/-- In another order of the domains, each domain is bound as before but for the order of its
external domains. -/
theorem perm_map_listed (hperm : doc.domains.Perm doc'.domains) {p' : Protocol}
    (hbound' : List.Forall₂ c'.Bound doc'.domains p'.domains) :
    p'.domains.Perm (p.domains.map (Domain.listed (doc'.domains.map Schema.Domain.name))) := by
  obtain ⟨bounds, hbounds, hpermBounds⟩ :=
    Outcome.exists_perm_of_forall₂ hperm (Outcome.forall₂_and_mem hbound)
  have heq := eq_map_listed hr hc hbound hr' hc' hperm.subset hperm.symm.subset hbounds hbound'
  rw [heq]
  exact (hpermBounds.map _).symm

omit hsub in
/-- Further domains leave the others bound as they were. -/
theorem sublist_of_sublist (hsublist : doc.domains.Sublist doc'.domains) {p' : Protocol}
    (hbound' : List.Forall₂ c'.Bound doc'.domains p'.domains) :
    p.domains.Sublist p'.domains := by
  obtain ⟨bounds, hbounds, hsublistBounds⟩ :=
    Outcome.exists_sublist_of_forall₂ hsublist hbound'
  have heq := eq_map_listed hr hc hbound hr' hc' hsublist.subset (List.Subset.refl _)
    (Outcome.forall₂_and_mem hbound) hbounds
  have hself : ∀ bound ∈ p.domains,
      bound.listed (doc'.domains.map Schema.Domain.name) = bound := by
    intro bound hmem
    obtain ⟨d, -, h⟩ := Outcome.exists_left_of_forall₂ hbound hmem
    have hsub := (h.externals_sublist hr hc).trans (hsublist.map _)
    exact Domain.listed_eq_self hsub (Resolution.distinct hr').domains
  rw [List.map_congr_left hself, List.map_id'] at heq
  rw [← heq]
  exact hsublistBounds

end

end Context

end Binding

end WireBindings
