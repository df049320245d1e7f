import WireBindings.Binding.Mapping
import WireBindings.Proofs.Binding.AliasChain
import WireBindings.Proofs.Binding.Naming
import WireBindings.Proofs.Schema.Resolution
import Mathlib.Data.List.Perm.Subperm

/-!
# Expansion of aliases

A shape is described by its finite unfolding: references end at enumerations, records and recursive
aliases, and every other alias is replaced by its body. The binder reaches this unfolding for every
shape of a resolved document.
-/

namespace WireBindings.Binding.Context

open Schema (Shape Property TypeKey TypeDeclaration Resolution Document)

/-- The unfolding of a shape at a path of a domain, down to enumerations, records, recursive aliases
and scalars. -/
inductive Unfolds (c : Context) : String → ShapePath → Shape → Descriptor → Prop
  | scalar (domain : String) (path : ShapePath) (kind : Schema.Scalar) :
      Unfolds c domain path (.scalar kind) (describeScalar kind)
  | enumeration {domain : String} {path : ShapePath} {name : String} (literals : List String)
      (hname : c.nameAt domain path = .ok name) :
      Unfolds c domain path (.enumeration literals) (.named ⟨domain, name, .enumeration⟩)
  | record {domain : String} {path : ShapePath} {name : String} (properties : List Property)
      (hname : c.nameAt domain path = .ok name) :
      Unfolds c domain path (.record properties) (.named ⟨domain, name, .record⟩)
  | array {domain : String} {path : ShapePath} {item : Shape} {type : Descriptor}
      (h : Unfolds c domain (path ++ ["items"]) item type) :
      Unfolds c domain path (.array item) (.collection type)
  | toEnumeration {domain target : String} {path : ShapePath} {key : TypeKey}
      {t : TypeDeclaration} {literals : List String}
      (htarget : c.resolution.target? domain target = some key)
      (ht : c.resolution.table.find? key = some t) (hshape : t.shape = .enumeration literals) :
      Unfolds c domain path (.reference target) (.named ⟨key.domain, key.id, .enumeration⟩)
  | toRecord {domain target : String} {path : ShapePath} {key : TypeKey}
      {t : TypeDeclaration} {properties : List Property}
      (htarget : c.resolution.target? domain target = some key)
      (ht : c.resolution.table.find? key = some t) (hshape : t.shape = .record properties) :
      Unfolds c domain path (.reference target) (.named ⟨key.domain, key.id, .record⟩)
  | toRecursive {domain target : String} {path : ShapePath} {key : TypeKey} {t : TypeDeclaration}
      (htarget : c.resolution.target? domain target = some key)
      (ht : c.resolution.table.find? key = some t) (halias : t.shape.IsAlias)
      (hloop : Relation.TransGen c.resolution.LeadsTo key key) :
      Unfolds c domain path (.reference target) (.named ⟨key.domain, key.id, .alias⟩)
  | toBody {domain target : String} {path : ShapePath} {key : TypeKey} {t : TypeDeclaration}
      {type : Descriptor} (htarget : c.resolution.target? domain target = some key)
      (ht : c.resolution.table.find? key = some t) (halias : t.shape.IsAlias)
      (hloop : ¬ Relation.TransGen c.resolution.LeadsTo key key)
      (h : Unfolds c key.domain (.ofType key.id) t.shape type) :
      Unfolds c domain path (.reference target) type

/-! ## What following a declared type does -/

section

variable {c : Context} {key : TypeKey} {t : TypeDeclaration} {depth : Nat}
  (ht : c.resolution.table.find? key = some t) (hid : t.id = key.id)

include ht hid

theorem follow_of_enumeration {literals : List String} (hshape : t.shape = .enumeration literals) :
    c.follow depth key = .ok (.named ⟨key.domain, key.id, .enumeration⟩) := by
  unfold follow
  simp only [ht, hshape, Shape.role, hid]

theorem follow_of_record {properties : List Property} (hshape : t.shape = .record properties) :
    c.follow depth key = .ok (.named ⟨key.domain, key.id, .record⟩) := by
  unfold follow
  simp only [ht, hshape, Shape.role, hid]

theorem follow_of_recursive (halias : t.shape.IsAlias) (hrec : c.recursive.contains key = true) :
    c.follow depth key = .ok (.named ⟨key.domain, key.id, .alias⟩) := by
  unfold follow
  rcases halias with hrole | hrole
  · simp only [ht, hrole, hrec, if_true, hid]
  · simp only [ht, hrole, hrec, if_true, hid]

omit hid in
theorem follow_zero_of_body (halias : t.shape.IsAlias)
    (hrec : ¬ c.recursive.contains key = true) :
    c.follow 0 key = .error (.missingKey key.qualifiedName) := by
  rw [follow]
  rcases halias with hrole | hrole
  · simp only [ht, hrole, hrec]
    rfl
  · simp only [ht, hrole, hrec]
    rfl

theorem follow_of_body (halias : t.shape.IsAlias) (hrec : ¬ c.recursive.contains key = true) :
    c.follow (depth + 1) key =
      c.describeWith (c.follow depth) key.domain (.ofType key.id) t.shape := by
  rw [follow]
  rcases halias with hrole | hrole
  · simp only [ht, hrole, hrec, hid]
    rfl
  · simp only [ht, hrole, hrec, hid]
    rfl

end

/-! ## What a context holds -/

theorem ofResolution_eq_ok {r : Resolution} {c : Context} (h : ofResolution r = .ok c) :
    c.resolution = r ∧ c.recursive = r.recursiveAliases ∧
      List.Forall₂ (fun d entry => entry.1 = d.name ∧ Naming.ofDomain d = .ok entry.2)
        r.document.domains c.namings := by
  obtain ⟨namings, hnamings, h⟩ := Outcome.bind_eq_ok.1 h
  obtain rfl := Outcome.pure_eq_ok.1 h
  refine ⟨rfl, rfl, (Outcome.mapM_eq_ok.1 hnamings).imp ?_⟩
  intro d entry hentry
  obtain ⟨n, hn, hentry⟩ := Outcome.bind_eq_ok.1 hentry
  obtain rfl := Outcome.pure_eq_ok.1 hentry
  exact ⟨rfl, hn⟩

theorem ofResolution_eq_error {r : Resolution} {e : CompileError} (h : ofResolution r = .error e) :
    ∃ domain base, e = .nameCollision domain base := by
  unfold ofResolution at h
  cases hnamings : r.document.domains.mapM fun d => return (d.name, ← Naming.ofDomain d) with
  | ok namings =>
      rw [hnamings] at h
      cases h
  | error e' =>
      rw [hnamings] at h
      obtain rfl := Except.error.inj h
      obtain ⟨d, -, hd⟩ := Outcome.exists_of_mapM_eq_error hnamings
      cases hn : Naming.ofDomain d with
      | ok n =>
          rw [hn] at hd
          cases hd
      | error e =>
          rw [hn] at hd
          obtain rfl := Except.error.inj hd
          exact Naming.ofDomain_eq_error hn

section

variable {doc : Document} {r : Resolution} {c : Context} (hr : Resolution.ofDocument doc = .ok r)
  (hc : ofResolution r = .ok c)

include hr hc

theorem exists_naming {d : Schema.Domain} (hd : d ∈ doc.domains) :
    ∃ n, Naming.ofDomain d = .ok n ∧
      ∀ path name, c.nameAt d.name path = .ok name ↔ n.find? path = some name := by
  obtain ⟨-, -, hnamings⟩ := ofResolution_eq_ok hc
  rw [Resolution.document_eq hr] at hnamings
  have hkeys : doc.domains.map Schema.Domain.name = c.namings.map Prod.fst :=
    Outcome.map_eq_map_of_forall₂ hnamings fun _ _ _ h => h.1.symm
  have hnodup : (c.namings.map Prod.fst).Nodup := hkeys ▸ (Resolution.distinct hr).domains
  obtain ⟨⟨name, n⟩, hentry, rfl, hn⟩ := Outcome.exists_right_of_forall₂ hnamings hd
  refine ⟨n, hn, ?_⟩
  intro path name
  have hlookup := (Schema.lookup_eq_some_iff_mem hnodup).2 hentry
  rw [nameAt, hlookup, Option.bind_some]
  cases n.find? path with
  | none => simp
  | some found => simp

theorem not_mem_ids_of_nameAt {d : Schema.Domain} (hd : d ∈ doc.domains) {path : ShapePath}
    {name : String} (hname : c.nameAt d.name path = .ok name) :
    name ∉ d.types.map TypeDeclaration.id := by
  obtain ⟨n, hn, hnameAt⟩ := exists_naming hr hc hd
  have hids := (Resolution.distinct hr).types d hd
  exact Naming.not_mem_ids_of_find? hn hids ((hnameAt path name).1 hname)

theorem isWordText_of_nameAt {d : Schema.Domain} (hd : d ∈ doc.domains) {path : ShapePath}
    {name : String} (hname : c.nameAt d.name path = .ok name) : Identifier.IsWordText name := by
  obtain ⟨n, hn, hnameAt⟩ := exists_naming hr hc hd
  exact Naming.isWordText_of_find? hn ((hnameAt path name).1 hname)

theorem nameAt_inj {d : Schema.Domain} (hd : d ∈ doc.domains) {path path' : ShapePath}
    {name : String} (hname : c.nameAt d.name path = .ok name)
    (hname' : c.nameAt d.name path' = .ok name) : path = path' := by
  obtain ⟨n, hn, hnameAt⟩ := exists_naming hr hc hd
  have hids := (Resolution.distinct hr).types d hd
  exact Naming.find?_inj hn hids ((hnameAt path name).1 hname) ((hnameAt path' name).1 hname')

theorem exists_nameAt {d : Schema.Domain} (hd : d ∈ doc.domains) {path : ShapePath}
    (hpath : path ∈ synthesizedPaths d) : ∃ name, c.nameAt d.name path = .ok name := by
  obtain ⟨n, hn, hname⟩ := exists_naming hr hc hd
  obtain ⟨name, hfind⟩ := Naming.exists_find?_of_mem hn hpath
  exact ⟨name, (hname path name).2 hfind⟩

theorem recursive_contains_iff {key : TypeKey} :
    c.recursive.contains key = true ↔ Relation.TransGen c.resolution.LeadsTo key key := by
  obtain ⟨hres, hrec, -⟩ := ofResolution_eq_ok hc
  rw [hrec, hres, List.contains_iff_mem, Resolution.mem_recursiveAliases hr]

theorem recursive_contains_eq (key : TypeKey) :
    c.recursive.contains key = c.resolution.isRecursive key := by
  rw [Bool.eq_iff_iff, recursive_contains_iff hr hc, Resolution.isRecursive_iff]

/-! ## Every shape of a document unfolds -/

/-- Describing a shape that stands in a domain succeeds when following its reference does. -/
theorem describeWith_unfolds {d : Schema.Domain} (hd : d ∈ doc.domains)
    {f : TypeKey → Except Failure Descriptor} {path : ShapePath} {shape : Shape}
    (hstands : Stands d path shape)
    (hfollow : ∀ target key, shape.Points target → r.target? d.name target = some key →
      ∃ type, f key = .ok type ∧ ∀ path, c.Unfolds d.name path (.reference target) type) :
    ∃ type, c.describeWith f d.name path shape = .ok type ∧ c.Unfolds d.name path shape type := by
  have hres := (ofResolution_eq_ok hc).1
  induction shape generalizing path with
  | reference target =>
      obtain ⟨place, hsub⟩ := hstands.references_subset
      have hmem : (⟨target, place⟩ : Schema.Occurrence) ∈ d.references :=
        hsub (by simp [Shape.references])
      obtain ⟨key, hkey⟩ := Resolution.exists_target?_eq_some hr hd hmem
      obtain ⟨type, htype, hunfolds⟩ := hfollow target key (.reference target) hkey
      refine ⟨type, ?_, hunfolds path⟩
      rw [describeWith, hres, hkey]
      exact htype
  | scalar kind => exact ⟨_, rfl, .scalar d.name path kind⟩
  | enumeration literals =>
      have hpath : path ∈ synthesizedPaths d := hstands.path_mem (by simp [writtenTypes])
      obtain ⟨name, hname⟩ := exists_nameAt hr hc hd hpath
      exact ⟨_, by rw [describeWith, hname]; rfl, .enumeration literals hname⟩
  | record properties ih =>
      have hpath : path ∈ synthesizedPaths d := hstands.path_mem (by simp [writtenTypes])
      obtain ⟨name, hname⟩ := exists_nameAt hr hc hd hpath
      exact ⟨_, by rw [describeWith, hname]; rfl, .record properties hname⟩
  | array item ih =>
      obtain ⟨type, htype, hunfolds⟩ := ih hstands.item fun target key hpoints htarget =>
        hfollow target key (.array hpoints) htarget
      exact ⟨.collection type, by rw [describeWith, htype]; rfl, .array hunfolds⟩

/-- Following a declared type succeeds within `depth` further aliases. The aliases passed so far
all lead to it, so it is not among them unless it is recursive; together with what `depth` allows
they are as many as there are types. -/
theorem follow_unfolds {depth : Nat} {key : TypeKey} {t : TypeDeclaration} {passed : List TypeKey}
    (ht : r.table.find? key = some t) (hnodup : passed.Nodup)
    (hsub : passed ⊆ r.table.types.map Prod.fst)
    (hlead : t.shape.IsAlias → ∀ a ∈ passed, Relation.TransGen r.LeadsTo a key)
    (hdepth : r.table.types.length ≤ depth + passed.length) :
    ∃ type, c.follow depth key = .ok type ∧ ∀ domain target path,
      r.target? domain target = some key → c.Unfolds domain path (.reference target) type := by
  obtain ⟨rfl, -, -⟩ := ofResolution_eq_ok hc
  induction depth using Nat.strong_induction_on generalizing key t passed with
  | _ depth ih =>
      obtain ⟨d, hd, hname, hmem, hid⟩ := (Resolution.find?_eq_some_iff hr).1 ht
      rcases t.shape.enumeration_or_record_or_alias with ⟨l, hshape⟩ | ⟨l, hshape⟩ | halias
      · exact ⟨_, follow_of_enumeration ht hid hshape, fun _ _ _ h => .toEnumeration h ht hshape⟩
      · exact ⟨_, follow_of_record ht hid hshape, fun _ _ _ h => .toRecord h ht hshape⟩
      by_cases hloop : Relation.TransGen c.resolution.LeadsTo key key
      · have hcontains := (recursive_contains_iff hr hc).2 hloop
        exact ⟨_, follow_of_recursive ht hid halias hcontains,
          fun _ _ _ h => .toRecursive h ht halias hloop⟩
      have hkey : key ∈ c.resolution.table.types.map Prod.fst :=
        Resolution.mem_keys_of_isAlias (Resolution.isAlias_eq_true.2 ⟨t, ht, halias⟩)
      -- an alias that was passed before would be on a cycle, so a step uses up one more type
      have hpassed : key ∉ passed := fun hmem => hloop (hlead halias key hmem)
      have hnodup' : (key :: passed).Nodup := List.nodup_cons.2 ⟨hpassed, hnodup⟩
      have hsub' : key :: passed ⊆ c.resolution.table.types.map Prod.fst :=
        List.cons_subset.2 ⟨hkey, hsub⟩
      have hlength := (hnodup'.subperm hsub').length_le
      rw [List.length_cons, List.length_map] at hlength
      obtain ⟨depth, rfl⟩ : ∃ n, depth = n + 1 := ⟨depth - 1, by omega⟩
      have hstands : Stands d (.ofType key.id) t.shape := hid ▸ Stands.body hmem halias
      have hcontains : ¬ c.recursive.contains key = true :=
        fun h => hloop ((recursive_contains_iff hr hc).1 h)
      obtain ⟨type, htype, hunfolds⟩ := describeWith_unfolds hr hc hd hstands <| by
        intro target next hpoints htarget
        obtain ⟨t', ht'⟩ := Resolution.exists_find?_of_target? hr htarget
        have hstep : t'.shape.IsAlias → c.resolution.LeadsTo key next := fun halias' =>
          ⟨t, target, ht, hpoints, hname ▸ htarget, Resolution.isAlias_eq_true.2 ⟨t', ht', halias'⟩⟩
        have hlead' : t'.shape.IsAlias →
            ∀ a ∈ key :: passed, Relation.TransGen c.resolution.LeadsTo a next := by
          intro halias' a ha
          rcases List.mem_cons.1 ha with rfl | ha
          · exact .single (hstep halias')
          · exact (hlead halias a ha).tail (hstep halias')
        have hdepth' : c.resolution.table.types.length ≤ depth + (key :: passed).length := by
          rw [List.length_cons]
          omega
        obtain ⟨type, htype, h⟩ := ih depth (by omega) hnodup' ht' hsub' hlead' hdepth'
        exact ⟨type, htype, fun path => h d.name target path htarget⟩
      rw [hname] at htype hunfolds
      refine ⟨type, ?_, fun _ _ _ h => .toBody h ht halias hloop hunfolds⟩
      rw [follow_of_body ht hid halias hcontains, htype]

theorem exists_describe_unfolds {d : Schema.Domain} (hd : d ∈ doc.domains) {path : ShapePath}
    {shape : Shape} (hstands : Stands d path shape) :
    ∃ type, c.describe d.name path shape = .ok type ∧ c.Unfolds d.name path shape type := by
  obtain ⟨rfl, -, -⟩ := ofResolution_eq_ok hc
  apply describeWith_unfolds hr hc hd hstands
  intro target key _ htarget
  obtain ⟨t, ht⟩ := Resolution.exists_find?_of_target? hr htarget
  obtain ⟨type, htype, h⟩ := follow_unfolds hr hc ht List.nodup_nil (by simp)
    (by simp) (by simp : c.resolution.table.types.length ≤ c.resolution.table.types.length + _)
  exact ⟨type, htype, fun path => h d.name target path htarget⟩

theorem Unfolds.eq_of_describeWith {domain : String} {path : ShapePath} {shape : Shape}
    {type type' : Descriptor} {depth : Nat} (h : c.Unfolds domain path shape type)
    (h' : c.describeWith (c.follow depth) domain path shape = .ok type') : type' = type := by
  obtain ⟨rfl, -, -⟩ := ofResolution_eq_ok hc
  have hid : ∀ {key t}, c.resolution.table.find? key = some t → t.id = key.id := by
    intro key t ht
    obtain ⟨d, -, -, -, hid⟩ := (Resolution.find?_eq_some_iff hr).1 ht
    exact hid
  induction h generalizing depth type' with
  | scalar domain path kind => exact (Except.ok.inj h').symm
  | enumeration literals hname =>
      rw [describeWith, hname] at h'
      exact (Except.ok.inj h').symm
  | record properties hname =>
      rw [describeWith, hname] at h'
      exact (Except.ok.inj h').symm
  | array h ih =>
      obtain ⟨item, hitem, h'⟩ := Outcome.bind_eq_ok.1 h'
      rw [← Outcome.pure_eq_ok.1 h', ih hitem]
  | toEnumeration htarget ht hshape =>
      rw [describeWith, htarget] at h'
      simp only [follow_of_enumeration ht (hid ht) hshape] at h'
      exact (Except.ok.inj h').symm
  | toRecord htarget ht hshape =>
      rw [describeWith, htarget] at h'
      simp only [follow_of_record ht (hid ht) hshape] at h'
      exact (Except.ok.inj h').symm
  | toRecursive htarget ht halias hloop =>
      have hrec := (recursive_contains_iff hr hc).2 hloop
      rw [describeWith, htarget] at h'
      simp only [follow_of_recursive ht (hid ht) halias hrec] at h'
      exact (Except.ok.inj h').symm
  | @toBody domain target path key t type htarget ht halias hloop h ih =>
      have hrec : ¬ c.recursive.contains key = true :=
        fun hrec => hloop ((recursive_contains_iff hr hc).1 hrec)
      rw [describeWith, htarget] at h'
      cases depth with
      | zero =>
          simp only [follow_zero_of_body ht halias hrec] at h'
          cases h'
      | succ depth =>
          simp only [follow_of_body ht (hid ht) halias hrec] at h'
          exact ih h'

/-- A shape that stands in a domain has exactly one unfolding, and is described by it. -/
theorem exists_describe_iff_unfolds {d : Schema.Domain} (hd : d ∈ doc.domains) {path : ShapePath}
    {shape : Shape} (hstands : Stands d path shape) :
    ∃ type, c.describe d.name path shape = .ok type ∧
      ∀ type', c.Unfolds d.name path shape type' ↔ type' = type := by
  obtain ⟨type, htype, hunfolds⟩ := exists_describe_unfolds hr hc hd hstands
  refine ⟨type, htype, fun type' => ⟨?_, ?_⟩⟩
  · intro hunfolds'
    exact (hunfolds'.eq_of_describeWith hr hc htype).symm
  · rintro rfl
    exact hunfolds

end

/-- An unfolding ends at no alias but a recursive one. -/
theorem Unfolds.recursive_of_alias {c : Context} {domain : String} {path : ShapePath}
    {shape : Shape} {type : Descriptor} (h : c.Unfolds domain path shape type) {n : TypeName}
    (hn : type.namedType? = some n) (hkind : n.kind = .alias) :
    Relation.TransGen c.resolution.LeadsTo ⟨n.domain, n.name⟩ ⟨n.domain, n.name⟩ := by
  induction h with
  | scalar domain path kind => cases kind <;> cases hn
  | enumeration literals hname =>
      cases hn
      cases hkind
  | record properties hname =>
      cases hn
      cases hkind
  | array h ih => exact ih hn
  | toEnumeration htarget ht hshape =>
      cases hn
      cases hkind
  | toRecord htarget ht hshape =>
      cases hn
      cases hkind
  | toRecursive htarget ht halias hloop =>
      cases hn
      exact hloop
  | toBody htarget ht halias hloop h ih => exact ih hn

end WireBindings.Binding.Context
