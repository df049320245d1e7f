import WireBindings.Proofs.Binding.Mentions

/-!
# What aliases become

Exactly the aliases that lead back to themselves are kept as data types. A reference to any other
alias is bound to what the body of the alias is bound to in the domain that declares it.
-/

namespace WireBindings.Binding

open Schema (Shape TypeKey TypeDeclaration Resolution Document)

namespace Context

def Loops (c : Context) (key : TypeKey) : Prop :=
  Relation.TransGen c.resolution.LeadsTo key key

/-- A bound domain in which aliases are expanded, down to those that are on a cycle. -/
structure Expands (c : Context) (d : Schema.Domain) (bound : Domain) : Prop where
  isBound : c.Bound d bound
  kept : ∀ id, (∃ t ∈ bound.types, t.kind = .alias ∧ t.name = id) ↔ c.Loops ⟨d.name, id⟩
  mentioned : ∀ n ∈ bound.mentioned, n.kind = .alias → c.Loops ⟨n.domain, n.name⟩
  unfolding : ∀ path shape, Stands d path shape → ∃ type,
    c.describe d.name path shape = .ok type ∧
      ∀ type', c.Unfolds d.name path shape type' ↔ type' = type
  toKept : ∀ path target key, Stands d path (.reference target) →
    c.resolution.target? d.name target = some key → c.Loops key →
      c.describe d.name path (.reference target) = .ok (.named ⟨key.domain, key.id, .alias⟩)
  toBody : ∀ path target key t, Stands d path (.reference target) →
    c.resolution.target? d.name target = some key → c.resolution.table.find? key = some t →
      t.shape.IsAlias → ¬ c.Loops key →
        c.describe d.name path (.reference target) =
          c.describe key.domain (.ofType key.id) t.shape

theorem Realizes.exists_alias {c : Context} {domain : String} {s : Subject} {t : DataType}
    (h : c.Realizes domain s t) (hkind : t.kind = .alias) :
    ∃ declared, s = .alias declared ∧ t.name = declared.id := by
  cases h with
  | recursive htarget => exact ⟨_, rfl, rfl⟩
  | enumeration hshape => cases hkind
  | record hshape hfields => cases hkind
  | writtenEnumeration hname => cases hkind
  | writtenRecord hname hfields => cases hkind
  | result hname hfields => cases hkind
  | payload hname hfields => cases hkind

theorem Loops.exists_find? {c : Context} {key : TypeKey} (h : c.Loops key) :
    ∃ t, c.resolution.table.find? key = some t ∧ t.shape.IsAlias := by
  obtain ⟨_, -, _, _, _, _, _, halias⟩ := Relation.TransGen.tail'_iff.1 h
  exact Resolution.isAlias_eq_true.1 halias

section

variable {doc : Document} {r : Resolution} {c : Context} (hr : Resolution.ofDocument doc = .ok r)
  (hc : ofResolution r = .ok c) {d : Schema.Domain} (hd : d ∈ doc.domains)

include hr hc hd

theorem Bound.exists_alias_iff {bound : Domain} (h : c.Bound d bound) (id : String) :
    (∃ t ∈ bound.types, t.kind = .alias ∧ t.name = id) ↔ c.Loops ⟨d.name, id⟩ := by
  constructor
  · rintro ⟨t, ht, hkind, rfl⟩
    obtain ⟨s, hs, hst⟩ := h.exists_subject hr hc hd ht
    obtain ⟨declared, rfl, hname⟩ := hst.exists_alias hkind
    rw [hname]
    exact Resolution.isRecursive_iff.1 (alias_mem_subjects.1 hs).2
  · intro hloops
    obtain ⟨rfl, -, -⟩ := ofResolution_eq_ok hc
    obtain ⟨t, hfind, -⟩ := hloops.exists_find?
    obtain ⟨d', hd', hname, ht, rfl⟩ :=
      (Resolution.find?_eq_some_iff hr).1 hfind
    obtain rfl := (Resolution.distinct hr).eq_of_name_eq hd' hd hname
    have hs := alias_mem_subjects.2 ⟨ht, Resolution.isRecursive_iff.2 hloops⟩
    obtain ⟨t', ht', hst⟩ := h.exists_type hr hc hd hs
    cases hst with
    | recursive htarget => exact ⟨_, ht', rfl, rfl⟩

theorem Bound.loops_of_mem_mentioned {bound : Domain} (h : c.Bound d bound) {n : TypeName}
    (hn : n ∈ bound.mentioned) (hkind : n.kind = .alias) : c.Loops ⟨n.domain, n.name⟩ := by
  obtain ⟨type, htype, hn⟩ := List.mem_filterMap.1 hn
  cases h.describes hr hc hd type htype with
  | shape hstands hunfolds => exact hunfolds.recursive_of_alias hn hkind
  | subject hs hst _ =>
      obtain rfl := Option.some.inj hn
      obtain ⟨declared, rfl, hname⟩ := hst.exists_alias hkind
      rw [DataType.typeName, hst.domain_eq, hname]
      exact Resolution.isRecursive_iff.1 (alias_mem_subjects.1 hs).2

/-- A shape is described by each of its unfoldings, since it has only one. -/
theorem describe_eq_of_unfolds {path : ShapePath} {shape : Shape} {type : Descriptor}
    (hstands : Stands d path shape) (h : c.Unfolds d.name path shape type) :
    c.describe d.name path shape = .ok type := by
  obtain ⟨type', htype', hiff⟩ := exists_describe_iff_unfolds hr hc hd hstands
  rw [htype', (hiff type).1 h]

theorem describe_of_loops {path : ShapePath} {target : String} {key : TypeKey}
    (hstands : Stands d path (.reference target))
    (htarget : c.resolution.target? d.name target = some key) (hloops : c.Loops key) :
    c.describe d.name path (.reference target) = .ok (.named ⟨key.domain, key.id, .alias⟩) := by
  obtain ⟨t, ht, halias⟩ := hloops.exists_find?
  exact describe_eq_of_unfolds hr hc hd hstands (.toRecursive htarget ht halias hloops)

theorem describe_of_not_loops {path : ShapePath} {target : String} {key : TypeKey}
    {t : TypeDeclaration} (hstands : Stands d path (.reference target))
    (htarget : c.resolution.target? d.name target = some key)
    (ht : c.resolution.table.find? key = some t) (halias : t.shape.IsAlias)
    (hloops : ¬ c.Loops key) :
    c.describe d.name path (.reference target) =
      c.describe key.domain (.ofType key.id) t.shape := by
  obtain ⟨rfl, -, -⟩ := ofResolution_eq_ok hc
  obtain ⟨owner, howner, hname, hmem, hid⟩ := (Resolution.find?_eq_some_iff hr).1 ht
  have hbody : Stands owner (.ofType key.id) t.shape := hid ▸ .body hmem halias
  obtain ⟨type, htype, hunfolds⟩ := exists_describe_unfolds hr hc howner hbody
  rw [hname] at htype hunfolds
  rw [htype]
  exact describe_eq_of_unfolds hr hc hd hstands (.toBody htarget ht halias hloops hunfolds)

theorem Bound.expands {bound : Domain} (h : c.Bound d bound) : c.Expands d bound where
  isBound := h
  kept := h.exists_alias_iff hr hc hd
  mentioned := fun _ hn hkind => h.loops_of_mem_mentioned hr hc hd hn hkind
  unfolding := fun _ _ hstands => exists_describe_iff_unfolds hr hc hd hstands
  toKept := fun _ _ _ hstands htarget hloops =>
    describe_of_loops hr hc hd hstands htarget hloops
  toBody := fun _ _ _ _ hstands htarget ht halias hloops =>
    describe_of_not_loops hr hc hd hstands htarget ht halias hloops

end

end Context

/-- Binding a resolved document ends, whatever leads to what in it, and expands its aliases. -/
theorem aliases_expanded {doc : Document} {r : Resolution}
    (hr : Resolution.ofDocument doc = .ok r) :
    ((∃ p, Protocol.ofResolution r = .ok p) ∨
      ∃ domain base,
        Protocol.ofResolution r = .error (.compilation (.nameCollision domain base))) ∧
    ∀ p, Protocol.ofResolution r = .ok p →
      ∃ c, Context.ofResolution r = .ok c ∧ List.Forall₂ c.Expands doc.domains p.domains := by
  refine ⟨exists_protocol_or_nameCollision hr, ?_⟩
  intro p hp
  obtain ⟨c, hc, hbound⟩ := exists_bound hr hp
  refine ⟨c, hc, Outcome.forall₂_imp_of_mem hbound ?_⟩
  intro d hd bound h
  exact h.expands hr hc hd

/-- The aliases on the cycle are kept; the one that only leads to it is not. -/
theorem aliases_expanded_crossed :
    ∃ p, Compilation.bind crossed = .ok p ∧
      p.domains.map (fun d => (d.types.filter fun t => t.kind = .alias).map DataType.name) =
        [["Ring"], ["Ring"]] ∧
      ∃ c : Context, List.Forall₂ c.Expands crossed.domains p.domains := by
  have haliases : (Compilation.bind crossed).toOption.map
      (fun p => p.domains.map fun d =>
        (d.types.filter fun t => t.kind = .alias).map DataType.name) =
      some [["Ring"], ["Ring"]] := by decide +kernel
  obtain ⟨p, hp, haliases⟩ := Option.map_eq_some_iff.1 haliases
  have hp : Compilation.bind crossed = .ok p := Outcome.toOption_eq_some.1 hp
  obtain ⟨r, hr, hp'⟩ := Outcome.bind_eq_ok.1 hp
  obtain ⟨-, hexpands⟩ := aliases_expanded (Outcome.liftM_eq_ok.1 hr)
  obtain ⟨c, -, hc⟩ := hexpands p hp'
  exact ⟨p, hp, haliases, c, hc⟩

end WireBindings.Binding
