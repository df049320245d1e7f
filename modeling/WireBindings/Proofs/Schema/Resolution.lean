import WireBindings.Proofs.Schema.References
import Mathlib.Data.List.Nodup

/-!
# Which documents resolve

A document resolves exactly when every reference in it leads to a declared type under the declared
dependencies. The handles are then those of its references and nothing else; otherwise the first
reference that leads nowhere is the one reported.
-/

namespace WireBindings.Schema

/-! ## Qualified names -/

theorem splitChars_of_not_mem {s : List Char} (h : '.' ∉ s) : splitChars s = (none, s) := by
  induction s with
  | nil => rfl
  | cons c s ih =>
      rw [List.mem_cons, not_or] at h
      rw [splitChars, ih h.2]
      exact if_neg (Ne.symm h.1)

theorem splitChars_append {q id : List Char} (h : '.' ∉ id) :
    splitChars (q ++ '.' :: id) = (some q, id) := by
  induction q with
  | nil => simp [splitChars, splitChars_of_not_mem h]
  | cons c q ih => rw [List.cons_append, splitChars, ih]

theorem splitReference_of_not_mem {id : String} (h : '.' ∉ id.toList) :
    splitReference id = (none, id) := by
  simp [splitReference, splitChars_of_not_mem h]

theorem splitReference_qualified {qualifier id : String} (h : '.' ∉ id.toList) :
    splitReference (qualifier ++ "." ++ id) = (some qualifier, id) := by
  have htext : (qualifier ++ "." ++ id).toList = qualifier.toList ++ '.' :: id.toList := by simp
  rw [splitReference, htext, splitChars_append h]
  simp

theorem exists_last_dot {s : List Char} (h : '.' ∈ s) :
    ∃ q id, '.' ∉ id ∧ s = q ++ '.' :: id := by
  induction s with
  | nil => cases h
  | cons c s ih =>
      by_cases hs : '.' ∈ s
      · obtain ⟨q, id, hid, rfl⟩ := ih hs
        exact ⟨c :: q, id, hid, rfl⟩
      · obtain rfl : '.' = c := by simpa [hs] using h
        exact ⟨[], s, hs, rfl⟩

/-- A text without a dot is its own identifier; any other splits at its last dot. -/
theorem unqualified_or_qualified (reference : String) :
    '.' ∉ reference.toList ∨
      ∃ qualifier id, '.' ∉ id.toList ∧ reference = qualifier ++ "." ++ id := by
  by_cases h : '.' ∈ reference.toList
  · obtain ⟨q, id, hid, heq⟩ := exists_last_dot h
    refine .inr ⟨String.ofList q, String.ofList id, by simpa using hid, ?_⟩
    rw [← String.toList_inj, heq]
    simp
  · exact .inl h

/-! ## Where references stand -/

inductive Shape.RefersAt : String → Shape → Occurrence → Prop
  | here {path target : String} : RefersAt path (.reference target) ⟨target, path⟩
  | item {path : String} {item : Shape} {o : Occurrence} (h : RefersAt (path ++ ".items") item o) :
      RefersAt path (.array item) o
  | property {path : String} {properties : List Property} {p : Property} {o : Occurrence}
      (hp : p ∈ properties) (h : RefersAt (path ++ "." ++ p.name) p.type o) :
      RefersAt path (.record properties) o

inductive Domain.RefersAt (d : Domain) (o : Occurrence) : Prop
  | type {t : TypeDeclaration} (ht : t ∈ d.types)
      (h : t.shape.RefersAt (d.name ++ "." ++ t.id) o)
  | parameter {c : Command} (hc : c ∈ d.commands) {p : Property} (hp : p ∈ c.parameters)
      (h : p.type.RefersAt (d.name ++ "." ++ c.name ++ "." ++ p.name) o)
  | returned {c : Command} (hc : c ∈ d.commands) {p : Property} (hp : p ∈ c.returns)
      (h : p.type.RefersAt (d.name ++ "." ++ c.name ++ ".returns" ++ "." ++ p.name) o)
  | payload {e : Event} (he : e ∈ d.events) {p : Property} (hp : p ∈ e.parameters)
      (h : p.type.RefersAt (d.name ++ "." ++ e.name ++ "." ++ p.name) o)

theorem Shape.mem_references_iff {path : String} {shape : Shape} {o : Occurrence} :
    o ∈ shape.references path ↔ shape.RefersAt path o := by
  induction shape generalizing path with
  | reference target =>
      rw [Shape.references, List.mem_singleton]
      constructor
      · rintro rfl
        exact .here
      · rintro ⟨⟩
        rfl
  | scalar kind =>
      rw [Shape.references]
      exact ⟨fun h => (nomatch h), fun h => (nomatch h)⟩
  | enumeration literals =>
      rw [Shape.references]
      exact ⟨fun h => (nomatch h), fun h => (nomatch h)⟩
  | record properties ih =>
      rw [Shape.references, memberReferences_eq_flatMap, List.mem_flatMap]
      constructor
      · rintro ⟨p, hp, h⟩
        exact .property hp ((ih p hp).1 h)
      · rintro (_ | _ | @⟨_, _, p, _, hp, h⟩)
        exact ⟨p, hp, (ih p hp).2 h⟩
  | array item ih =>
      rw [Shape.references, ih]
      constructor
      · exact .item
      · rintro (_ | ⟨h⟩)
        exact h

theorem mem_memberReferences_iff {path : String} {properties : List Property} {o : Occurrence} :
    o ∈ memberReferences path properties ↔
      ∃ p ∈ properties, p.type.RefersAt (path ++ "." ++ p.name) o := by
  rw [memberReferences_eq_flatMap, List.mem_flatMap]
  simp only [Shape.mem_references_iff]

theorem Domain.mem_references_iff {d : Domain} {o : Occurrence} :
    o ∈ d.references ↔ d.RefersAt o := by
  simp only [Domain.references, List.mem_append, List.mem_flatMap, Shape.mem_references_iff,
    mem_memberReferences_iff]
  constructor
  · rintro ((⟨t, ht, h⟩ | ⟨c, hc, ⟨p, hp, h⟩ | ⟨p, hp, h⟩⟩) | ⟨e, he, p, hp, h⟩)
    · exact .type ht h
    · exact .parameter hc hp h
    · exact .returned hc hp h
    · exact .payload he hp h
  · rintro (⟨ht, h⟩ | ⟨hc, hp, h⟩ | ⟨hc, hp, h⟩ | ⟨he, hp, h⟩)
    · exact .inl (.inl ⟨_, ht, h⟩)
    · exact .inl (.inr ⟨_, hc, .inl ⟨_, hp, h⟩⟩)
    · exact .inl (.inr ⟨_, hc, .inr ⟨_, hp, h⟩⟩)
    · exact .inr ⟨_, he, _, hp, h⟩

/-! ## Where references lead -/

def Document.Declares (doc : Document) (key : TypeKey) (t : TypeDeclaration) : Prop :=
  ∃ d ∈ doc.domains, d.name = key.domain ∧ t ∈ d.types ∧ t.id = key.id

/-- A reference in a domain leads to a declared type: one of the domain itself, with its name
before the last dot or without any, or one of another domain among the dependencies. -/
inductive Document.Leads (doc : Document) (d : Domain) : String → TypeKey → Prop
  | unqualified {id : String} {t : TypeDeclaration} (hid : '.' ∉ id.toList)
      (h : doc.Declares ⟨d.name, id⟩ t) : Leads doc d id ⟨d.name, id⟩
  | own {id : String} {t : TypeDeclaration} (hid : '.' ∉ id.toList)
      (h : doc.Declares ⟨d.name, id⟩ t) : Leads doc d (d.name ++ "." ++ id) ⟨d.name, id⟩
  | foreign {target id : String} {t : TypeDeclaration} (hid : '.' ∉ id.toList)
      (hne : target ≠ d.name) (hdep : target ∈ d.dependencies) (h : doc.Declares ⟨target, id⟩ t) :
      Leads doc d (target ++ "." ++ id) ⟨target, id⟩

/-- Why a reference in a domain is refused: another domain in it is no dependency, or the domain
that it means does not declare the type. -/
inductive Document.Refuses (doc : Document) (d : Domain) : Occurrence → CompileError → Prop
  | undeclared {target id path : String} (hid : '.' ∉ id.toList) (hne : target ≠ d.name)
      (hdep : target ∉ d.dependencies) :
      Refuses doc d ⟨target ++ "." ++ id, path⟩ (.undeclaredDependency d.name target (some path))
  | unqualified {id path : String} (hid : '.' ∉ id.toList)
      (h : ∀ t, ¬ doc.Declares ⟨d.name, id⟩ t) :
      Refuses doc d ⟨id, path⟩ (.unresolved d.name id (some path))
  | qualified {target id path : String} (hid : '.' ∉ id.toList)
      (hallowed : target = d.name ∨ target ∈ d.dependencies)
      (h : ∀ t, ¬ doc.Declares ⟨target, id⟩ t) :
      Refuses doc d ⟨target ++ "." ++ id, path⟩ (.unresolved target id (some path))

namespace TypeTable

section

variable {doc : Document} {table : TypeTable} (htable : ofDocument doc = .ok table)

include htable

theorem find?_eq_none_iff {key : TypeKey} :
    table.find? key = none ↔ ∀ t, ¬ doc.Declares key t := by
  rw [Option.eq_none_iff_forall_ne_some]
  exact forall_congr' fun t => not_congr (find?_eq_some_iff htable)

omit htable in
theorem resolve_of_split {d : Domain} {reference path id : String} {qualifier : Option String}
    (h : splitReference reference = (qualifier, id)) :
    table.resolve d ⟨reference, path⟩ =
      if qualifier.getD d.name ≠ d.name ∧ qualifier.getD d.name ∉ d.dependencies then
        .error (.undeclaredDependency d.name (qualifier.getD d.name) (some path))
      else if table.find? ⟨qualifier.getD d.name, id⟩ = none then
        .error (.unresolved (qualifier.getD d.name) id (some path))
      else .ok ⟨qualifier.getD d.name, id⟩ := by
  simp only [resolve, h, Outcome.throw_bind, List.contains_eq_mem, decide_eq_true_eq,
    Option.isNone_iff_eq_none]
  split
  · rfl
  · split <;> rfl

omit htable in
theorem resolve_unqualified {d : Domain} {path id : String} (hid : '.' ∉ id.toList) :
    table.resolve d ⟨id, path⟩ =
      if table.find? ⟨d.name, id⟩ = none then .error (.unresolved d.name id (some path))
      else .ok ⟨d.name, id⟩ := by
  rw [resolve_of_split (splitReference_of_not_mem hid), Option.getD_none,
    if_neg fun h => h.1 rfl]

omit htable in
theorem resolve_qualified {d : Domain} {path target id : String} (hid : '.' ∉ id.toList) :
    table.resolve d ⟨target ++ "." ++ id, path⟩ =
      if target ≠ d.name ∧ target ∉ d.dependencies then
        .error (.undeclaredDependency d.name target (some path))
      else if table.find? ⟨target, id⟩ = none then .error (.unresolved target id (some path))
      else .ok ⟨target, id⟩ := by
  rw [resolve_of_split (splitReference_qualified hid), Option.getD_some]

theorem find?_ne_none_iff {key : TypeKey} :
    table.find? key ≠ none ↔ ∃ t, doc.Declares key t := by
  rw [Ne, find?_eq_none_iff htable, not_forall_not]

/-- Resolving finds the type that a reference leads to. -/
theorem resolve_eq_ok_iff {d : Domain} {reference path : String} {key : TypeKey} :
    table.resolve d ⟨reference, path⟩ = .ok key ↔ doc.Leads d reference key := by
  constructor
  · intro h
    rcases unqualified_or_qualified reference with hid | ⟨target, id, hid, rfl⟩
    · rw [resolve_unqualified hid] at h
      split at h
      · cases h
      · rename_i hfound
        obtain ⟨t, ht⟩ := (find?_ne_none_iff htable).1 hfound
        cases h
        exact .unqualified hid ht
    · rw [resolve_qualified hid] at h
      split at h
      · cases h
      · rename_i hallowed
        split at h
        · cases h
        · rename_i hfound
          obtain ⟨t, ht⟩ := (find?_ne_none_iff htable).1 hfound
          cases h
          by_cases hname : target = d.name
          · subst hname
            exact .own hid ht
          · have hdep : target ∈ d.dependencies := by simpa [hname] using hallowed
            exact .foreign hid hname hdep ht
  · intro h
    cases h with
    | unqualified hid ht =>
        rw [resolve_unqualified hid, if_neg ((find?_ne_none_iff htable).2 ⟨_, ht⟩)]
    | own hid ht =>
        rw [resolve_qualified hid, if_neg fun h => h.1 rfl,
          if_neg ((find?_ne_none_iff htable).2 ⟨_, ht⟩)]
    | foreign hid hne hdep ht =>
        rw [resolve_qualified hid, if_neg fun h => h.2 hdep,
          if_neg ((find?_ne_none_iff htable).2 ⟨_, ht⟩)]

theorem resolve_eq_error_iff {d : Domain} {o : Occurrence} {e : CompileError} :
    table.resolve d o = .error e ↔ doc.Refuses d o e := by
  obtain ⟨reference, path⟩ := o
  constructor
  · intro h
    rcases unqualified_or_qualified reference with hid | ⟨target, id, hid, rfl⟩
    · rw [resolve_unqualified hid] at h
      split at h
      · rename_i hmissing
        cases h
        exact .unqualified hid ((find?_eq_none_iff htable).1 hmissing)
      · cases h
    · rw [resolve_qualified hid] at h
      split at h
      · rename_i hforeign
        cases h
        exact .undeclared hid hforeign.1 hforeign.2
      · rename_i hallowed
        split at h
        · rename_i hmissing
          cases h
          refine .qualified hid ?_ ((find?_eq_none_iff htable).1 hmissing)
          by_cases hname : target = d.name
          · exact .inl hname
          · exact .inr (by simpa [hname] using hallowed)
        · cases h
  · intro h
    cases h with
    | undeclared hid hne hdep =>
        rw [resolve_qualified hid, if_pos ⟨hne, hdep⟩]
    | unqualified hid hmissing =>
        rw [resolve_unqualified hid, if_pos ((find?_eq_none_iff htable).2 hmissing)]
    | qualified hid hallowed hmissing =>
        rw [resolve_qualified hid, if_neg fun h => hallowed.elim h.1 h.2,
          if_pos ((find?_eq_none_iff htable).2 hmissing)]

end

end TypeTable

/-! ## Resolving every reference -/

def Document.occurrences (doc : Document) : List (Domain × Occurrence) :=
  doc.domains.flatMap fun d => d.references.map fun o => (d, o)

theorem Document.mem_occurrences_iff {doc : Document} {d : Domain} {o : Occurrence} :
    (d, o) ∈ doc.occurrences ↔ d ∈ doc.domains ∧ d.RefersAt o := by
  simp only [occurrences, List.mem_flatMap, List.mem_map, Prod.mk.injEq,
    ← Domain.mem_references_iff]
  constructor
  · rintro ⟨d', hd, o', ho, rfl, rfl⟩
    exact ⟨hd, ho⟩
  · rintro ⟨hd, ho⟩
    exact ⟨d, hd, o, ho, rfl, rfl⟩

/-- Adds handles for references of several domains that have none yet. -/
def TypeTable.resolveEach (table : TypeTable) (handles : List Handle) :
    List (Domain × Occurrence) → Except CompileError (List Handle)
  | [] => .ok handles
  | (d, o) :: rest => do
    if isHandled handles d.name o.reference then
      table.resolveEach handles rest
    else
      let target ← table.resolve d o
      table.resolveEach (handles ++ [⟨d.name, o.reference, target⟩]) rest

namespace TypeTable

theorem resolveEach_append (table : TypeTable) (handles : List Handle)
    (l l' : List (Domain × Occurrence)) :
    table.resolveEach handles (l ++ l') =
      (do table.resolveEach (← table.resolveEach handles l) l') := by
  induction l generalizing handles with
  | nil => rfl
  | cons x l ih =>
      obtain ⟨d, o⟩ := x
      rw [List.cons_append, resolveEach, resolveEach]
      split
      · rw [ih]
      · rw [bind_assoc]
        simp only [ih]

theorem resolveAll_eq_resolveEach (table : TypeTable) (d : Domain) (handles : List Handle)
    (occurrences : List Occurrence) :
    table.resolveAll d handles occurrences =
      table.resolveEach handles (occurrences.map fun o => (d, o)) := by
  induction occurrences generalizing handles with
  | nil => rfl
  | cons o occurrences ih =>
      rw [List.map_cons, resolveAll, resolveEach]
      simp only [ih]

end TypeTable

/-- Resolving domain by domain is one pass over the references of all. -/
theorem Resolution.resolveDomains_eq_resolveEach (table : TypeTable) (domains : List Domain)
    (handles : List Handle) :
    resolveDomains table domains handles =
      table.resolveEach handles
        (domains.flatMap fun d => d.references.map fun o => (d, o)) := by
  induction domains generalizing handles with
  | nil => rfl
  | cons d domains ih =>
      rw [List.flatMap_cons, TypeTable.resolveEach_append, resolveDomains,
        TypeTable.resolveAll_eq_resolveEach]
      simp only [ih]

theorem isHandled_mono {handles handles' : List Handle} (h : handles ⊆ handles')
    {owner reference : String} (hh : isHandled handles owner reference = true) :
    isHandled handles' owner reference = true := by
  simp only [isHandled, List.any_eq_true] at hh ⊢
  obtain ⟨x, hx, hxo⟩ := hh
  exact ⟨x, h hx, hxo⟩

/-- Handles that stand for the references seen so far and for nothing else. -/
structure Document.Handles (doc : Document) (seen : List (Domain × Occurrence))
    (handles : List Handle) : Prop where
  leads : ∀ h ∈ handles, ∃ x ∈ seen, x.1.name = h.owner ∧ x.2.reference = h.reference ∧
    doc.Leads x.1 h.reference h.target
  handled : ∀ x ∈ seen, isHandled handles x.1.name x.2.reference = true
  nodup : (handles.map fun h => (h.owner, h.reference)).Nodup

theorem isHandled_eq_true_iff {handles : List Handle} {owner reference : String} :
    isHandled handles owner reference = true ↔
      ∃ h ∈ handles, h.owner = owner ∧ h.reference = reference := by
  simp [isHandled]

namespace Document.Handles

variable {doc : Document} {seen : List (Domain × Occurrence)} {handles : List Handle}
  {d : Domain} {o : Occurrence}

theorem skip (hcovers : doc.Handles seen handles)
    (hhandled : isHandled handles d.name o.reference = true) :
    doc.Handles (seen ++ [(d, o)]) handles where
  leads h hh := by
    obtain ⟨x, hx, hlead⟩ := hcovers.leads h hh
    exact ⟨x, List.mem_append_left _ hx, hlead⟩
  handled x hx := by
    rcases List.mem_append.1 hx with hx | hx
    · exact hcovers.handled x hx
    · obtain rfl := List.mem_singleton.1 hx
      exact hhandled
  nodup := hcovers.nodup

theorem add (hcovers : doc.Handles seen handles) {target : TypeKey}
    (hnew : ¬ isHandled handles d.name o.reference = true)
    (hleads : doc.Leads d o.reference target) :
    doc.Handles (seen ++ [(d, o)]) (handles ++ [⟨d.name, o.reference, target⟩]) where
  leads h hh := by
    rcases List.mem_append.1 hh with hh | hh
    · obtain ⟨x, hx, hlead⟩ := hcovers.leads h hh
      exact ⟨x, List.mem_append_left _ hx, hlead⟩
    · obtain rfl := List.mem_singleton.1 hh
      exact ⟨(d, o), by simp, rfl, rfl, hleads⟩
  handled x hx := by
    rcases List.mem_append.1 hx with hx | hx
    · exact isHandled_mono (List.subset_append_left _ _) (hcovers.handled x hx)
    · obtain rfl := List.mem_singleton.1 hx
      exact isHandled_eq_true_iff.2 ⟨_, List.mem_append_right _ List.mem_cons_self, rfl, rfl⟩
  nodup := by
    rw [List.map_append, List.nodup_append']
    refine ⟨hcovers.nodup, List.nodup_singleton _, ?_⟩
    intro pair hmem hpair
    obtain rfl := List.mem_singleton.1 hpair
    obtain ⟨h, hh, heq⟩ := List.mem_map.1 hmem
    obtain ⟨howner, hreference⟩ := Prod.mk.inj heq
    exact hnew (isHandled_eq_true_iff.2 ⟨h, hh, howner, hreference⟩)

/-- A reference that has a handle leads somewhere, since names of domains are not shared. -/
theorem leads_of_isHandled (hcovers : doc.Handles seen handles) (hdistinct : doc.Distinct)
    (hseen : ∀ x ∈ seen, x.1 ∈ doc.domains) (hd : d ∈ doc.domains)
    (hhandled : isHandled handles d.name o.reference = true) :
    ∃ key, doc.Leads d o.reference key := by
  obtain ⟨h, hh, howner, hreference⟩ := isHandled_eq_true_iff.1 hhandled
  obtain ⟨x, hx, hname, -, hlead⟩ := hcovers.leads h hh
  obtain rfl := hdistinct.eq_of_name_eq (hseen x hx) hd (hname.trans howner)
  exact ⟨h.target, hreference ▸ hlead⟩

end Document.Handles

/-- How resolving references ends: with a handle for each, or with the first that is refused. -/
inductive Document.Settles (doc : Document) (seen rest : List (Domain × Occurrence)) :
    Except CompileError (List Handle) → Prop
  | handles {handles : List Handle} (h : doc.Handles (seen ++ rest) handles)
      (hall : ∀ x ∈ rest, ∃ key, doc.Leads x.1 x.2.reference key) :
      Settles doc seen rest (.ok handles)
  | refused {before after : List (Domain × Occurrence)} {d : Domain} {o : Occurrence}
      {e : CompileError} (hrest : rest = before ++ (d, o) :: after)
      (hbefore : ∀ x ∈ before, ∃ key, doc.Leads x.1 x.2.reference key) (h : doc.Refuses d o e) :
      Settles doc seen rest (.error e)

theorem Document.Settles.cons {doc : Document} {seen rest : List (Domain × Occurrence)}
    {x : Domain × Occurrence} {result : Except CompileError (List Handle)}
    (hlead : ∃ key, doc.Leads x.1 x.2.reference key)
    (h : doc.Settles (seen ++ [x]) rest result) : doc.Settles seen (x :: rest) result := by
  cases h with
  | handles h hall =>
      rw [List.append_assoc] at h
      exact .handles h (List.forall_mem_cons.2 ⟨hlead, hall⟩)
  | @refused before after d o e hrest hbefore h =>
      have hsplit : x :: rest = (x :: before) ++ (d, o) :: after := by
        rw [hrest, List.cons_append]
      exact .refused hsplit (List.forall_mem_cons.2 ⟨hlead, hbefore⟩) h

theorem TypeTable.resolveEach_settles {doc : Document} {table : TypeTable}
    (htable : ofDocument doc = .ok table) {seen rest : List (Domain × Occurrence)}
    {handles : List Handle} (hcovers : doc.Handles seen handles)
    (hseen : ∀ x ∈ seen, x.1 ∈ doc.domains) (hrest : ∀ x ∈ rest, x.1 ∈ doc.domains) :
    doc.Settles seen rest (table.resolveEach handles rest) := by
  -- the handles stand for the references seen so far, which become more with each step
  induction rest generalizing seen handles with
  | nil => exact .handles (by simpa using hcovers) (by simp)
  | cons x rest ih =>
      obtain ⟨d, o⟩ := x
      obtain ⟨hd, hrest⟩ := List.forall_mem_cons.1 hrest
      have hseen' : ∀ x ∈ seen ++ [(d, o)], x.1 ∈ doc.domains :=
        List.forall_mem_append.2 ⟨hseen, List.forall_mem_singleton.2 hd⟩
      rw [resolveEach]
      by_cases hhandled : isHandled handles d.name o.reference = true
      · rw [if_pos hhandled]
        have hdistinct := (TypeTable.ofDocument_eq_ok.1 htable).1
        exact .cons (hcovers.leads_of_isHandled hdistinct hseen hd hhandled)
          (ih (hcovers.skip hhandled) hseen' hrest)
      · rw [if_neg hhandled]
        cases hresolve : table.resolve d o with
        | error e =>
            have hsplit : (d, o) :: rest = [] ++ (d, o) :: rest := rfl
            exact .refused hsplit (by simp) ((resolve_eq_error_iff htable).1 hresolve)
        | ok target =>
            have hleads := (resolve_eq_ok_iff htable).1 hresolve
            exact .cons ⟨target, hleads⟩ (ih (hcovers.add hhandled hleads) hseen' hrest)

namespace Resolution

/-- What resolving a document gives: a handle for each of its references and no other, which leads
to the declared type and whose qualified name says where that is. -/
structure Exact (doc : Document) (r : Resolution) : Prop where
  handled : ∀ owner reference, (∃ h ∈ r.handles, h.owner = owner ∧ h.reference = reference) ↔
    ∃ d ∈ doc.domains, d.name = owner ∧ ∃ o, d.RefersAt o ∧ o.reference = reference
  nodup : (r.handles.map fun h => (h.owner, h.reference)).Nodup
  target : ∀ h ∈ r.handles, r.target? h.owner h.reference = some h.target
  leads : ∀ h ∈ r.handles, ∃ d ∈ doc.domains, d.name = h.owner ∧
    doc.Leads d h.reference h.target
  declared : ∀ h ∈ r.handles, ∃ t, r.table.find? h.target = some t ∧ doc.Declares h.target t
  split : ∀ h ∈ r.handles,
    splitReference h.target.qualifiedName = (some h.target.domain, h.target.id)

theorem target?_of_mem {r : Resolution} {h : Handle} (hh : h ∈ r.handles)
    (hnodup : (r.handles.map fun h => (h.owner, h.reference)).Nodup) :
    r.target? h.owner h.reference = some h.target := by
  have hsome : (r.handles.find? fun x => x.owner = h.owner && x.reference = h.reference).isSome :=
    List.find?_isSome.2 ⟨h, hh, by simp⟩
  obtain ⟨x, hx⟩ := Option.isSome_iff_exists.1 hsome
  have hkeys := List.find?_some hx
  simp only [Bool.and_eq_true, decide_eq_true_eq] at hkeys
  have hmem := List.mem_of_find?_eq_some hx
  have heq : x = h := List.inj_on_of_nodup_map hnodup hmem hh (Prod.ext hkeys.1 hkeys.2)
  rw [target?, hx, heq]
  rfl

end Resolution

/-- An identifier that a reference leads to has no dot, so its qualified name splits back. -/
theorem Document.Leads.split {doc : Document} {d : Domain} {reference : String} {key : TypeKey}
    (h : doc.Leads d reference key) :
    splitReference key.qualifiedName = (some key.domain, key.id) := by
  cases h with
  | unqualified hid _ => exact splitReference_qualified hid
  | own hid _ => exact splitReference_qualified hid
  | foreign hid _ _ _ => exact splitReference_qualified hid

theorem Document.Leads.dot_not_mem {doc : Document} {d : Domain} {reference : String}
    {key : TypeKey} (h : doc.Leads d reference key) : '.' ∉ key.id.toList := by
  cases h with
  | unqualified hid _ => exact hid
  | own hid _ => exact hid
  | foreign hid _ _ _ => exact hid

theorem Document.Leads.declares {doc : Document} {d : Domain} {reference : String} {key : TypeKey}
    (h : doc.Leads d reference key) : ∃ t, doc.Declares key t := by
  cases h with
  | unqualified _ ht => exact ⟨_, ht⟩
  | own _ ht => exact ⟨_, ht⟩
  | foreign _ _ _ ht => exact ⟨_, ht⟩

namespace Resolution

theorem exact_of_handles {doc : Document} {table : TypeTable} {handles : List Handle}
    (htable : TypeTable.ofDocument doc = .ok table) (h : doc.Handles doc.occurrences handles) :
    Exact doc ⟨doc, table, handles⟩ where
  handled owner reference := by
    rw [← isHandled_eq_true_iff]
    constructor
    · intro hhandled
      obtain ⟨x, hx, rfl, rfl⟩ := isHandled_eq_true_iff.1 hhandled
      obtain ⟨⟨d, o⟩, hmem, hname, href, -⟩ := h.leads x hx
      obtain ⟨hd, ho⟩ := Document.mem_occurrences_iff.1 hmem
      exact ⟨d, hd, hname, o, ho, href⟩
    · rintro ⟨d, hd, rfl, o, ho, rfl⟩
      exact h.handled (d, o) (Document.mem_occurrences_iff.2 ⟨hd, ho⟩)
  nodup := h.nodup
  target x hx := target?_of_mem hx h.nodup
  leads x hx := by
    obtain ⟨⟨d, o⟩, hmem, hname, -, hlead⟩ := h.leads x hx
    exact ⟨d, (Document.mem_occurrences_iff.1 hmem).1, hname, hlead⟩
  declared x hx := by
    obtain ⟨_, -, -, -, hlead⟩ := h.leads x hx
    obtain ⟨t, ht⟩ := hlead.declares
    exact ⟨t, (TypeTable.find?_eq_some_iff htable).2 ht, ht⟩
  split x hx := by
    obtain ⟨_, -, -, -, hlead⟩ := h.leads x hx
    exact hlead.split

/-- With distinct names, either every reference leads to a type and the document resolves, or the
first that does not is reported. -/
theorem exact_or_refused {doc : Document} (hdistinct : doc.Distinct) :
    (∃ r, ofDocument doc = .ok r ∧ Exact doc r ∧
      ∀ x ∈ doc.occurrences, ∃ key, doc.Leads x.1 x.2.reference key) ∨
    ∃ before d o after e, doc.occurrences = before ++ (d, o) :: after ∧
      (∀ x ∈ before, ∃ key, doc.Leads x.1 x.2.reference key) ∧ doc.Refuses d o e ∧
      ofDocument doc = .error e := by
  obtain ⟨table, htable⟩ : ∃ table, TypeTable.ofDocument doc = .ok table :=
    ⟨_, TypeTable.ofDocument_eq_ok.2 ⟨hdistinct, rfl⟩⟩
  have hmem : ∀ x ∈ doc.occurrences, x.1 ∈ doc.domains := by
    rintro ⟨d, o⟩ hx
    exact (Document.mem_occurrences_iff.1 hx).1
  have hnone : doc.Handles [] [] := ⟨by simp, by simp, by simp⟩
  have hsettles := TypeTable.resolveEach_settles htable hnone (by simp) hmem
  have hresolve : ofDocument doc = (do
      let handles ← table.resolveEach [] doc.occurrences
      return ⟨doc, table, handles⟩) := by
    rw [ofDocument, htable, Outcome.ok_bind, resolveDomains_eq_resolveEach]
    rfl
  cases hresult : table.resolveEach [] doc.occurrences with
  | ok handles =>
      rw [hresult] at hsettles hresolve
      obtain ⟨h, hall⟩ := hsettles
      exact .inl ⟨_, hresolve, exact_of_handles htable h, hall⟩
  | error e =>
      rw [hresult] at hsettles hresolve
      obtain _ | ⟨hsplit, hbefore, h⟩ := hsettles
      exact .inr ⟨_, _, _, _, e, hsplit, hbefore, h, hresolve⟩

section

variable {doc : Document} {r : Resolution} (hr : ofDocument doc = .ok r)

include hr

theorem exact : Exact doc r := by
  obtain ⟨r', hr', hexact, -⟩ | ⟨_, _, _, _, e, -, -, -, herror⟩ := exact_or_refused (distinct hr)
  · obtain rfl := Except.ok.inj (hr.symm.trans hr')
    exact hexact
  · cases hr.symm.trans herror

theorem exists_find?_of_target? {owner reference : String} {key : TypeKey}
    (h : r.target? owner reference = some key) : ∃ t, r.table.find? key = some t := by
  obtain ⟨x, hx, rfl⟩ := Option.map_eq_some_iff.1 h
  obtain ⟨t, ht, -⟩ := (exact hr).declared x (List.mem_of_find?_eq_some hx)
  exact ⟨t, ht⟩

theorem exists_target?_eq_some {d : Domain} (hd : d ∈ doc.domains) {o : Occurrence}
    (ho : o ∈ d.references) : ∃ key, r.target? d.name o.reference = some key := by
  obtain ⟨h, hh, howner, hreference⟩ := ((exact hr).handled d.name o.reference).2
    ⟨d, hd, rfl, o, Domain.mem_references_iff.1 ho, rfl⟩
  rw [← howner, ← hreference]
  exact ⟨h.target, (exact hr).target h hh⟩

end

end Resolution

theorem Document.Refuses.not_leads {doc : Document} (hdistinct : doc.Distinct) {d : Domain}
    {o : Occurrence} {e : CompileError} (h : doc.Refuses d o e) :
    ¬ ∃ key, doc.Leads d o.reference key := by
  rintro ⟨key, hlead⟩
  obtain ⟨table, htable⟩ : ∃ table, TypeTable.ofDocument doc = .ok table :=
    ⟨_, TypeTable.ofDocument_eq_ok.2 ⟨hdistinct, rfl⟩⟩
  have herror := (TypeTable.resolve_eq_error_iff htable).2 h
  have hok : table.resolve d o = .ok key := (TypeTable.resolve_eq_ok_iff htable).2 hlead
  cases hok.symm.trans herror

/-- A document resolves exactly when its names are distinct and each of its references leads to a
declared type. The handles are then those of its references; with distinct names, it is the first
reference that leads nowhere which is reported. -/
theorem resolution_exact (doc : Document) :
    ((∃ r, Resolution.ofDocument doc = .ok r) ↔
      doc.Distinct ∧ ∀ d ∈ doc.domains, ∀ o, d.RefersAt o →
        ∃ key, doc.Leads d o.reference key) ∧
    (∀ r, Resolution.ofDocument doc = .ok r → Resolution.Exact doc r) ∧
    (doc.Distinct →
      (∃ d ∈ doc.domains, ∃ o, d.RefersAt o ∧ ¬ ∃ key, doc.Leads d o.reference key) →
      ∃ before d o after e, doc.occurrences = before ++ (d, o) :: after ∧
        (∀ x ∈ before, ∃ key, doc.Leads x.1 x.2.reference key) ∧ doc.Refuses d o e ∧
        Resolution.ofDocument doc = .error e) := by
  refine ⟨⟨?_, ?_⟩, ?_, ?_⟩
  · rintro ⟨r, hr⟩
    have hdistinct := Resolution.distinct hr
    refine ⟨hdistinct, ?_⟩
    intro d hd o ho
    obtain ⟨-, -, -, hall⟩ | ⟨_, _, _, _, e, -, -, -, herror⟩ :=
      Resolution.exact_or_refused hdistinct
    · exact hall (d, o) (Document.mem_occurrences_iff.2 ⟨hd, ho⟩)
    · cases hr.symm.trans herror
  · rintro ⟨hdistinct, hall⟩
    obtain ⟨r, hr, -⟩ | ⟨before, d, o, after, e, hsplit, -, hrefuses, -⟩ :=
      Resolution.exact_or_refused hdistinct
    · exact ⟨r, hr⟩
    · have hmem : (d, o) ∈ doc.occurrences := by simp [hsplit]
      obtain ⟨hd, ho⟩ := Document.mem_occurrences_iff.1 hmem
      exact absurd (hall d hd o ho) (hrefuses.not_leads hdistinct)
  · exact fun r hr => Resolution.exact hr
  · rintro hdistinct ⟨d, hd, o, ho, hbad⟩
    obtain ⟨-, -, -, hall⟩ | hrefused := Resolution.exact_or_refused hdistinct
    · exact absurd (hall (d, o) (Document.mem_occurrences_iff.2 ⟨hd, ho⟩)) hbad
    · exact hrefused

end WireBindings.Schema
