import WireBindings.Proofs.Target.JavaNames

/-!
# Names that reach their types

A reference reaches its type exactly when no other type takes the name that stands for it, and the
imports of a unit have distinct simple names exactly when no imported interface is named like
another import.
-/

namespace WireBindings.Target.Java

open Binding (DataType TypeName)

theorem filter_eq_singleton_of_nodup_map {α β : Type} [DecidableEq β] {f : α → β} {l : List α}
    (hnodup : (l.map f).Nodup) {a : α} (ha : a ∈ l) : l.filter (fun b => f b = f a) = [a] := by
  induction l with
  | nil => cases ha
  | cons b l ih =>
      obtain ⟨hb, hnodup⟩ := List.nodup_cons.1 hnodup
      rcases List.mem_cons.1 ha with rfl | ha
      · rw [List.filter_cons_of_pos (by simp), List.filter_eq_nil_iff.2]
        intro x hx hkey
        exact hb (of_decide_eq_true hkey ▸ List.mem_map_of_mem hx)
      · have hne : f b ≠ f a := fun hkey => hb (hkey ▸ List.mem_map_of_mem ha)
        rw [List.filter_cons_of_neg (by simpa using hne), ih hnodup ha]

namespace CompilationUnit

variable {u : CompilationUnit}

/-! ## Spelling -/

theorem free_iff {name : String} :
    (!u.scope.nested.contains name && decide (name ≠ u.scope.domain)) = true ↔ u.Free name := by
  rw [Bool.and_eq_true, decide_eq_true_eq, Bool.not_eq_true', ← Bool.not_eq_true,
    List.contains_iff_mem]
  rfl

theorem reference_of_free {name : String} (h : u.Free name) : u.scope.reference name = name := by
  rw [Scope.reference, if_pos (free_iff.2 h)]

theorem reference_of_support {name : String} (h : ¬ u.Free name) (hname : name ∈ supportTypes) :
    u.scope.reference name = u.options.package ++ "." ++ supportPackage ++ "." ++ name := by
  rw [Scope.reference, if_neg (mt free_iff.1 h), if_pos (List.contains_iff_mem.2 hname)]
  rfl

theorem reference_of_language {name : String} (h : ¬ u.Free name) (hname : name ∉ supportTypes) :
    u.scope.reference name = "java.lang." ++ name := by
  rw [Scope.reference, if_neg (mt free_iff.1 h), if_neg (mt List.contains_iff_mem.1 hname)]

theorem reference_eq_self_iff {name : String} (hname : name ∈ supportTypes) :
    u.scope.reference name = name ↔ u.Free name := by
  refine ⟨fun heq => by_contra fun hfree => ?_, reference_of_free⟩
  rw [reference_of_support hfree hname] at heq
  have hlength := congrArg String.length heq
  simp only [String.length_append] at hlength
  have hdot : ".".length = 1 := rfl
  omega

theorem wireName_eq_iff : u.scope.wireName = "JsonProperty" ↔
    "JsonProperty" ∉ nestedNames u.own := by
  have hne : jacksonProperty ≠ "JsonProperty" := by decide
  unfold Scope.wireName
  split
  · next h => simpa [hne, scope, scopeOf] using h
  · next h => simpa [scope, scopeOf] using h

section

variable (h : u.Coherent)

include h

/-! ## Imports -/

theorem Coherent.map_simpleName_imported :
    u.imported.map (fun e => simpleName (u.canonicalName e)) =
      u.own.externals ++ (supportTypes.filter fun name => u.scope.reference name = name) ++
        if u.options.jackson && u.scope.wireName == "JsonProperty" then ["JsonProperty"]
        else [] := by
  have hwire : simpleName jacksonProperty = "JsonProperty" := by decide +kernel
  have hsupport : ∀ name ∈ supportTypes, '.' ∉ name.toList := by decide
  have hexternals : ∀ e ∈ u.own.externals, '.' ∉ e.toList := by
    intro e he
    obtain ⟨-, d, hd, rfl⟩ := h.known e he
    exact h.dotless d hd
  rw [imported, List.map_append, List.map_append, List.map_map, List.map_map]
  congr 1
  · congr 1
    · exact (List.map_congr_left fun e he => simpleName_append (hexternals e he)).trans
        (List.map_id _)
    · refine (List.map_congr_left fun name hname => ?_).trans (List.map_id _)
      exact simpleName_append (hsupport name (List.mem_of_mem_filter hname))
  · split
    · exact congrArg (fun name => [name]) hwire
    · rfl

omit h in
theorem importNames_perm : u.importNames.Perm (u.imported.map u.canonicalName) := by
  refine (List.mergeSort_perm _ _).trans (List.Perm.of_eq ?_)
  rw [imported, List.map_append, List.map_append, List.map_map, List.map_map]
  congr 1
  split <;> rfl

omit h in
theorem mem_importedSupport_iff {name : String} :
    name ∈ (supportTypes.filter fun name => u.scope.reference name = name) ↔
      name ∈ supportTypes ∧ u.Free name := by
  rw [List.mem_filter, decide_eq_true_eq]
  exact and_congr_right fun hname => reference_eq_self_iff hname

omit h in
theorem importsWireName_iff : (u.options.jackson && u.scope.wireName == "JsonProperty") = true ↔
    u.options.jackson = true ∧ "JsonProperty" ∉ nestedNames u.own := by
  rw [Bool.and_eq_true, beq_iff_eq, wireName_eq_iff]

theorem Coherent.nodup_imports_iff : (u.importNames.map simpleName).Nodup ↔
    (∀ e ∈ u.own.externals, e ∈ supportTypes → e ∈ nestedNames u.own) ∧
      (u.options.jackson = true → "JsonProperty" ∈ u.own.externals →
        "JsonProperty" ∈ nestedNames u.own) := by
  have hfree : (supportTypes.filter fun name => u.scope.reference name = name).Nodup :=
    List.Nodup.filter _ (by decide)
  rw [(importNames_perm.map simpleName).nodup_iff, List.map_map, Function.comp_def,
    h.map_simpleName_imported, List.nodup_append', List.nodup_append']
  constructor
  · rintro ⟨⟨-, -, hapart⟩, -, hwire⟩
    constructor
    · intro e he hname
      by_contra hnested
      exact hapart he (mem_importedSupport_iff.2 ⟨hname, hnested, (h.known e he).1⟩)
    · intro hjackson he
      by_contra hnested
      rw [if_pos (importsWireName_iff.2 ⟨hjackson, hnested⟩)] at hwire
      exact hwire (List.mem_append_left _ he) (List.mem_singleton_self _)
  · rintro ⟨hsupports, hproperty⟩
    refine ⟨⟨h.nodup, hfree, fun e he hname => ?_⟩, ?_, ?_⟩
    · obtain ⟨hname, hnested, -⟩ := mem_importedSupport_iff.1 hname
      exact hnested (hsupports e he hname)
    · split
      · exact List.nodup_singleton _
      · exact List.nodup_nil
    · split
      · next hwire =>
          obtain ⟨hjackson, hnested⟩ := importsWireName_iff.1 hwire
          intro e he hname
          obtain rfl := List.mem_singleton.1 hname
          rcases List.mem_append.1 he with he | he
          · exact hnested (hproperty hjackson he)
          · exact absurd (mem_importedSupport_iff.1 he).1 (by decide)
      · exact List.disjoint_nil_right _

/-! ## Packages -/

theorem Coherent.topLevel_of_java {package : List String} (hjava : package.head? = some "java")
    (name : String) :
    u.topLevel package name =
      if package = ["java", "lang"] then
        if name ∈ languagePackage then [.language name] else []
      else if package = ["java", "util"] then
        if name ∈ libraryTypes then [.library name] else []
      else [] := by
  have hne : package ≠ u.packageParts := by
    rintro rfl
    exact h.package hjava
  have hne' : package ≠ u.packageParts ++ [supportPackage] := by
    rintro rfl
    rw [List.head?_append_of_ne_nil _ u.packageParts_ne_nil] at hjava
    exact h.package hjava
  rw [topLevel, if_neg hne, if_neg hne']

theorem Coherent.topLevel_of_prefix {package names : List String} {name : String}
    (hne : package ≠ []) (heq : package ++ name :: names = u.packageParts) :
    u.topLevel package name = [] := by
  have hlength := congrArg List.length heq
  rw [List.length_append, List.length_cons] at hlength
  have hhead : package.head? = u.packageParts.head? := by
    rw [← heq, List.head?_append_of_ne_nil _ hne]
  have hown : package ≠ u.packageParts := by
    rintro rfl
    omega
  have hsupport : package ≠ u.packageParts ++ [supportPackage] := by
    intro h
    have := congrArg List.length h
    rw [List.length_append, List.length_singleton] at this
    omega
  have hjava : ∀ second, package ≠ ["java", second] := by
    rintro second rfl
    exact h.package hhead.symm
  rw [topLevel, if_neg hown, if_neg hsupport, if_neg (hjava _), if_neg (hjava _)]

theorem Coherent.walk_package {names rest : List String} {package : List String}
    (hne : package ≠ []) (heq : package ++ names = u.packageParts) :
    u.walk package (names ++ rest) = u.walk u.packageParts rest := by
  induction names generalizing package with
  | nil => rw [← heq, List.append_nil, List.nil_append]
  | cons name names ih =>
      rw [List.cons_append, walk_of_package (h.topLevel_of_prefix hne heq)]
      exact ih (List.append_ne_nil_of_left_ne_nil hne _) (by rw [← heq, List.append_assoc]; rfl)

theorem Coherent.walk_java (second name : String) :
    u.walk ["java"] [second, name] = u.topLevel ["java", second] name := by
  have hjava : u.topLevel ["java"] second = [] := by
    rw [h.topLevel_of_java rfl, if_neg (by simp), if_neg (by simp)]
  rw [walk_of_package hjava]
  exact walk_singleton

/-! ## References -/

/-- A name in full reaches a type of the platform unless some type is named like its root. -/
theorem Coherent.reaches_iff_of_java {r : Reference} {second name : String} {e : Entity}
    (hparts : dottedParts (r.spelling u.scope) = ["java", second, name])
    (hr : ∀ t, ¬ r.Means (.dataType t)) (htop : u.topLevel ["java", second] name = [e])
    (he : r.Means e) : u.Reaches r ↔ u.lookUp "java" = [] := by
  rw [reaches_iff_of_parts hparts (List.cons_ne_nil _ _) hr, h.walk_java, htop]
  exact and_iff_left ⟨e, rfl, he⟩

theorem Coherent.reaches_library_iff (name : { name : String // name ∈ libraryTypes }) :
    u.Reaches (.library name) ↔ u.Clear (.library name) := by
  obtain ⟨name, hname⟩ := name
  have hall : ∀ name ∈ libraryTypes, dottedParts ("java.util." ++ name) =
      ["java", "util", name] := by decide +kernel
  refine h.reaches_iff_of_java (hall name hname) (by simp [Reference.Means]) ?_ rfl
  rw [h.topLevel_of_java rfl, if_neg (by simp), if_pos rfl, if_pos hname]

omit h in
theorem topLevel_own_eq_nil_iff {name : String} (hname : name ≠ rootInterface) :
    u.topLevel u.packageParts name = [] ↔ ∀ d ∈ u.domains, d.name ≠ name := by
  rw [topLevel, if_pos rfl, if_neg hname, List.append_nil, List.map_eq_nil_iff,
    List.filter_eq_nil_iff]
  simp only [decide_eq_true_eq, ne_eq]

omit h in
theorem importedAs_eq_nil_iff {name : String} : u.importedAs name = [] ↔
    name ∉ u.imported.map fun e => simpleName (u.canonicalName e) := by
  simp only [importedAs, List.filter_eq_nil_iff, decide_eq_true_eq, List.mem_map, not_exists,
    not_and]

omit h in
theorem not_language_of_mem_importedAs {name other : String} {e : Entity}
    (he : e ∈ u.importedAs other) : e ≠ .language name := by
  rintro rfl
  have he := List.mem_of_mem_filter he
  simp only [imported, List.mem_append, List.mem_map, reduceCtorEq, and_false, exists_false,
    false_or] at he
  split at he
  · simp at he
  · cases he

omit h in
theorem not_language_of_mem_topLevel {name other : String} {e : Entity}
    (he : e ∈ u.topLevel u.packageParts other) : e ≠ .language name := by
  rintro rfl
  rw [topLevel, if_pos rfl] at he
  simp only [List.mem_append, List.mem_map, reduceCtorEq, and_false, exists_false,
    false_or] at he
  split at he
  · simp at he
  · cases he

theorem Coherent.importedAs_eq_nil {name : String} (hsupport : name ∉ supportTypes)
    (hproperty : name ≠ "JsonProperty") (hdomains : ∀ d ∈ u.domains, d.name ≠ name) :
    u.importedAs name = [] := by
  rw [importedAs_eq_nil_iff, h.map_simpleName_imported]
  intro hmem
  rcases List.mem_append.1 hmem with hmem | hmem
  · rcases List.mem_append.1 hmem with hmem | hmem
    · obtain ⟨-, d, hd, heq⟩ := h.known name hmem
      exact hdomains d hd heq
    · exact hsupport (List.mem_of_mem_filter hmem)
  · split at hmem
    · exact hproperty (List.mem_singleton.1 hmem)
    · cases hmem

/-- The interface of a domain is found before a type of the language that has its name. -/
theorem Coherent.lookUp_eq_language_iff {name : String} (hfree : u.Free name)
    (hname : name ∈ languagePackage) (hsupport : name ∉ supportTypes)
    (hproperty : name ≠ "JsonProperty") (hroot : name ≠ rootInterface) :
    u.lookUp name = [.language name] ↔ ∀ d ∈ u.domains, d.name ≠ name := by
  rw [lookUp_of_free hfree, if_pos hname, ← topLevel_own_eq_nil_iff hroot]
  constructor
  · intro hfound
    by_contra htop
    by_cases himported : u.importedAs name = []
    · rw [himported, nearest_nil_cons, nearest_cons_of_ne_nil htop] at hfound
      exact not_language_of_mem_topLevel (hfound ▸ List.mem_singleton_self _) rfl
    · rw [nearest_cons_of_ne_nil himported] at hfound
      exact not_language_of_mem_importedAs (hfound ▸ List.mem_singleton_self _) rfl
  · intro htop
    rw [h.importedAs_eq_nil hsupport hproperty ((topLevel_own_eq_nil_iff hroot).1 htop), htop]
    rfl

theorem Coherent.reaches_language_iff (name : { name : String // name ∈ languageTypes }) :
    u.Reaches (.language name) ↔ u.Clear (.language name) := by
  obtain ⟨name, hname⟩ := name
  have hall : ∀ name ∈ languageTypes, '.' ∉ name.toList ∧ name ∈ languagePackage ∧
      name ∉ supportTypes ∧ name ≠ "JsonProperty" ∧ name ≠ rootInterface ∧
      dottedParts ("java.lang." ++ name) = ["java", "lang", name] := by decide +kernel
  obtain ⟨hdot, hlanguage, hsupport, hproperty, hroot, hparts⟩ := hall name hname
  by_cases hfree : u.Free name
  · have hclear : u.Clear (.language ⟨name, hname⟩) ↔ ∀ d ∈ u.domains, d.name ≠ name :=
      ⟨fun hclear => hclear.1 hfree, fun hclear => ⟨fun _ => hclear, absurd hfree⟩⟩
    rw [hclear, Reaches, Reference.spelling, reference_of_free hfree, resolve_simple hdot,
      ← h.lookUp_eq_language_iff hfree hlanguage hsupport hproperty hroot]
    constructor
    · rintro ⟨e, hfound, rfl⟩
      exact hfound
    · exact fun hfound => ⟨_, hfound, rfl⟩
  · have hclear : u.Clear (.language ⟨name, hname⟩) ↔ u.lookUp "java" = [] :=
      ⟨fun hclear => hclear.2 hfree, fun hclear => ⟨fun hf => absurd hf hfree, fun _ => hclear⟩⟩
    have hparts' : dottedParts ((Reference.language ⟨name, hname⟩).spelling u.scope) =
        ["java", "lang", name] := by
      rw [Reference.spelling, reference_of_language hfree hsupport, hparts]
    rw [hclear]
    refine h.reaches_iff_of_java hparts' (by simp [Reference.Means]) ?_ rfl
    rw [h.topLevel_of_java rfl, if_pos rfl, if_pos hlanguage]

omit h in
theorem importedAs_eq_singleton (hnodup : (u.importNames.map simpleName).Nodup)
    {e : Entity} (he : e ∈ u.imported) :
    u.importedAs (simpleName (u.canonicalName e)) = [e] := by
  rw [(importNames_perm.map simpleName).nodup_iff, List.map_map] at hnodup
  exact filter_eq_singleton_of_nodup_map hnodup he

theorem Coherent.reaches_support_iff (hnodup : (u.importNames.map simpleName).Nodup)
    (name : { name : String // name ∈ supportTypes }) :
    u.Reaches (.support name) ↔ u.Clear (.support name) := by
  obtain ⟨name, hname⟩ := name
  have hall : ∀ name ∈ supportTypes, '.' ∉ name.toList := by decide
  have hdot := hall name hname
  by_cases hfree : u.Free name
  · have himported : .support name ∈ u.imported := by
      refine List.mem_append_left _ (List.mem_append_right _ (List.mem_map_of_mem ?_))
      exact List.mem_filter.2 ⟨hname, decide_eq_true (reference_of_free hfree)⟩
    have hsingle := importedAs_eq_singleton hnodup himported
    have hsimple : simpleName (u.canonicalName (.support name)) = name := simpleName_append hdot
    rw [hsimple] at hsingle
    refine iff_of_true ⟨.support name, ?_, rfl⟩ (.inl hfree)
    rw [Reference.spelling, reference_of_free hfree, resolve_simple hdot, lookUp_of_free hfree,
      hsingle]
    rfl
  · obtain ⟨first, rest, hpackage⟩ := List.exists_cons_of_ne_nil u.packageParts_ne_nil
    have hdotSupport : '.' ∉ supportPackage.toList := by decide
    have hparts : dottedParts ((Reference.support ⟨name, hname⟩).spelling u.scope) =
        first :: (rest ++ [supportPackage, name]) := by
      rw [Reference.spelling, reference_of_support hfree hname, dottedParts_append,
        dottedParts_append, dottedParts_of_not_mem hdot, dottedParts_of_not_mem hdotSupport,
        ← packageParts, hpackage]
      simp
    rw [reaches_iff_of_parts hparts (by simp) (by simp [Reference.Means]),
      h.walk_package (List.cons_ne_nil _ _) hpackage.symm, Clear, or_iff_right hfree, hpackage]
    refine and_congr_right fun _ => ?_
    rw [← hpackage, ← topLevel_own_eq_nil_iff (by decide)]
    by_cases htop : u.topLevel u.packageParts supportPackage = []
    · refine iff_of_true ⟨_, ?_, rfl⟩ htop
      rw [walk_of_package htop, walk_singleton, topLevel, if_neg (by simp), if_pos rfl,
        if_pos hname]
    · refine iff_of_false ?_ htop
      rintro ⟨e, hfound, hmeans⟩
      rw [walk_of_type htop] at hfound
      obtain ⟨t, rfl⟩ := u.exists_dataType_of_mem_descend (List.cons_ne_nil _ _)
        (hfound ▸ List.mem_singleton_self e)
      cases hmeans

theorem Coherent.filter_name_eq {d : Binding.Domain} (hd : d ∈ u.domains) :
    (u.domains.filter fun d' => d'.name = d.name) = [d] :=
  filter_eq_singleton_of_nodup_map h.distinct hd

theorem Coherent.eq_of_name_eq {d d' : Binding.Domain} (hd : d ∈ u.domains)
    (hd' : d' ∈ u.domains) (hname : d.name = d'.name) : d = d' :=
  List.inj_on_of_nodup_map h.distinct hd hd' hname

omit h in
/-- A rendered name leads to exactly one type of a domain if it is rendered once. -/
theorem exists_nestedIn_iff {n : TypeName} {d : Binding.Domain} {t : DataType} (ht : t ∈ d.types)
    (hdomain : d.name = n.domain) (htn : t.typeName = n) :
    (∃ e, nestedIn d (typeName n.domain n.name) = [e] ∧ (Reference.dataType n).Means e) ↔
      (nestedNames d).count (typeName n.domain n.name) = 1 := by
  subst htn
  constructor
  · rintro ⟨e, hfound, -⟩
    rw [← length_nestedIn, hfound, List.length_singleton]
  · intro hcount
    rw [← hdomain] at hcount ⊢
    exact ⟨_, nestedIn_eq_singleton ht hcount, t, rfl, rfl⟩

/-- The name of another domain leads to its interface unless a nested type has it. -/
theorem Coherent.resolve_foreign (hnodup : (u.importNames.map simpleName).Nodup)
    {d : Binding.Domain} (hd : d ∈ u.domains) (hexternal : d.name ∈ u.own.externals) {name : String}
    (hdot : '.' ∉ name.toList) :
    u.resolve (d.name ++ "." ++ name) =
      if d.name ∈ nestedNames u.own then [] else nestedIn d name := by
  have hdotless := h.dotless d hd
  have hparts : dottedParts (d.name ++ "." ++ name) = [d.name, name] := by
    rw [dottedParts_append, dottedParts_of_not_mem hdotless, dottedParts_of_not_mem hdot]
    rfl
  split
  · next hnested =>
      have hfound := lookUp_of_nested hnested
      have hne : u.lookUp d.name ≠ [] := hfound ▸ mt nestedIn_eq_nil_iff.1 (not_not_intro hnested)
      rw [resolve_of_type hparts hne, hfound, descend, List.foldl_cons, List.foldl_nil,
        List.flatMap_eq_nil_iff]
      intro e he
      obtain ⟨t, rfl⟩ := exists_dataType_of_mem_nestedIn he
      rfl
  · next hnested =>
      have himported : .interface d.name ∈ u.imported :=
        List.mem_append_left _ (List.mem_append_left _ (List.mem_map_of_mem hexternal))
      have hsingle := importedAs_eq_singleton hnodup himported
      have hsimple : simpleName (u.canonicalName (.interface d.name)) = d.name :=
        simpleName_append hdotless
      rw [hsimple] at hsingle
      have hfound : u.lookUp d.name = [.interface d.name] := by
        rw [lookUp_of_free ⟨hnested, (h.known _ hexternal).1⟩, hsingle]
        rfl
      have hne : u.lookUp d.name ≠ [] := hfound ▸ List.cons_ne_nil _ _
      rw [resolve_of_type hparts hne, hfound, descend, List.foldl_cons, List.foldl_nil,
        List.flatMap_singleton, members, h.filter_name_eq hd, List.flatMap_singleton]

theorem Coherent.reaches_dataType_iff (hnodup : (u.importNames.map simpleName).Nodup)
    {n : TypeName} (hn : .dataType n ∈ unitReferences u.plan) :
    u.Reaches (.dataType n) ↔ u.Clear (.dataType n) := by
  obtain ⟨hdot, d, hd, hdomain, t, ht, htn⟩ := h.declared n hn
  have hdotName : '.' ∉ (typeName n.domain n.name).toList := dot_not_mem_typeName hdot
  have hcount : (∀ d' ∈ u.domains, d'.name = n.domain →
      (nestedNames d').count (typeName n.domain n.name) = 1) ↔
        (nestedNames d).count (typeName n.domain n.name) = 1 := by
    refine ⟨fun hall => hall d hd hdomain, fun hone d' hd' hname => ?_⟩
    rwa [h.eq_of_name_eq hd' hd (hname.trans hdomain.symm)]
  have hscope : u.scope.domain = u.own.name := rfl
  rw [Clear, hcount, ← exists_nestedIn_iff ht hdomain htn, Reaches, Reference.spelling, hscope]
  by_cases hown : n.domain = u.own.name
  · obtain rfl := h.eq_of_name_eq hd h.own_mem (hdomain.trans hown)
    have hnested : typeName n.domain n.name ∈ nestedNames u.own := by
      subst htn
      rw [← hdomain]
      exact List.mem_map_of_mem ht
    rw [if_pos hown, resolve_simple hdotName, lookUp_of_nested hnested]
    exact (and_iff_right (absurd hown)).symm
  · have hexternal := h.external n hn hown
    rw [if_neg hown, ← hdomain]
    rw [← hdomain] at hexternal hdotName hown
    rw [h.resolve_foreign hnodup hd hexternal hdotName]
    by_cases hnested : d.name ∈ nestedNames u.own
    · rw [if_pos hnested]
      refine iff_of_false ?_ fun hclear => hclear.1 hown hnested
      rintro ⟨e, hfound, -⟩
      cases hfound
    · rw [if_neg hnested]
      exact (and_iff_right fun _ => hnested).symm

/-- Every name in a unit reaches its type and no two imports are named alike, exactly when no other
type takes a name that the unit uses. -/
theorem Coherent.unambiguous_iff : u.Unambiguous ↔ u.Unobscured := by
  have hreaches (hnodup : (u.importNames.map simpleName).Nodup) :
      ∀ r ∈ unitReferences u.plan, u.Reaches r ↔ u.Clear r := by
    intro r hr
    cases r with
    | dataType n => exact h.reaches_dataType_iff hnodup hr
    | support name => exact h.reaches_support_iff hnodup name
    | language name => exact h.reaches_language_iff name
    | library name => exact h.reaches_library_iff name
  constructor
  · rintro ⟨hall, hnodup⟩
    obtain ⟨hsupport, hwire⟩ := h.nodup_imports_iff.1 hnodup
    exact ⟨hsupport, hwire, fun r hr => (hreaches hnodup r hr).1 (hall r hr)⟩
  · rintro ⟨hsupport, hwire, hall⟩
    have hnodup := h.nodup_imports_iff.2 ⟨hsupport, hwire⟩
    exact ⟨fun r hr => (hreaches hnodup r hr).2 (hall r hr), hnodup⟩

end

end CompilationUnit

end WireBindings.Target.Java
