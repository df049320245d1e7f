import WireBindings.Proofs.Compilation.Stages
import WireBindings.Proofs.Identifier.Snake

/-!
# A unit for each domain

The files of a compilation hold every domain and every support file exactly when no two of them are
put at one path. Which names of domains keep them apart depends on the target: interfaces are
named after their domains, modules after the snake case of theirs.
-/

namespace WireBindings.Compilation

open Target (File)
open Schema (Document)

/-! ## One file for each path -/

theorem setFile_of_not_mem {file : File} {files : List File}
    (h : file.path ∉ files.map File.path) : setFile file files = files ++ [file] := by
  induction files with
  | nil => rfl
  | cons f files ih =>
      rw [List.map_cons, List.mem_cons, not_or] at h
      rw [setFile, if_neg (Ne.symm h.1), ih h.2, List.cons_append]

theorem map_path_setFile_of_mem {file : File} {files : List File}
    (h : file.path ∈ files.map File.path) :
    (setFile file files).map File.path = files.map File.path := by
  induction files with
  | nil => cases h
  | cons f files ih =>
      rw [setFile]
      by_cases hpath : f.path = file.path
      · rw [if_pos hpath, List.map_cons, List.map_cons, hpath]
      · have hmem : file.path ∈ files.map File.path :=
          (List.mem_cons.1 h).resolve_left (Ne.symm hpath)
        rw [if_neg hpath, List.map_cons, List.map_cons, ih hmem]

/-- Files set after others with distinct paths are listed, or some path is met again. -/
theorem foldl_setFile (files acc : List File) (hacc : (acc.map File.path).Nodup) :
    ((acc ++ files).map File.path).Nodup ∧
        files.foldl (fun acc file => setFile file acc) acc = acc ++ files ∨
      ¬ ((acc ++ files).map File.path).Nodup ∧
        (files.foldl (fun acc file => setFile file acc) acc).length <
          acc.length + files.length := by
  induction files generalizing acc with
  | nil => exact .inl ⟨by simpa using hacc, by simp⟩
  | cons file files ih =>
      rw [List.foldl_cons]
      -- a path met again takes the place of the earlier one, so one file is lost for good
      by_cases hmem : file.path ∈ acc.map File.path
      · have hpaths := map_path_setFile_of_mem hmem
        have hlength := congrArg List.length hpaths
        simp only [List.length_map] at hlength
        refine .inr ⟨?_, ?_⟩
        · rw [List.map_append, List.map_cons, List.nodup_append']
          exact fun h => h.2.2 hmem List.mem_cons_self
        · rcases ih (setFile file acc) (hpaths ▸ hacc) with ⟨-, heq⟩ | ⟨-, hlt⟩
          · rw [heq, List.length_append, List.length_cons]
            omega
          · rw [List.length_cons]
            omega
      · rw [setFile_of_not_mem hmem]
        have hacc' : ((acc ++ [file]).map File.path).Nodup := by
          rw [List.map_append, List.nodup_append']
          refine ⟨hacc, List.nodup_singleton _, ?_⟩
          intro path hpath hfile
          exact hmem (List.mem_singleton.1 hfile ▸ hpath)
        have hrest := ih (acc ++ [file]) hacc'
        rw [List.append_assoc, List.singleton_append, List.length_append, List.length_singleton,
          Nat.add_assoc, Nat.add_comm 1] at hrest
        exact hrest

/-- Files are merely listed when their paths are distinct, and fewer otherwise. -/
theorem collect_eq_self_or (files : List File) :
    ((files.map File.path).Nodup ∧ collect files = files) ∨
      ¬ (files.map File.path).Nodup ∧ (collect files).length < files.length := by
  simpa [collect] using foldl_setFile files [] List.nodup_nil

/-! ## What a compilation consists of -/

theorem emitDomains_eq_ok {emit : Plan.Domain → Except Failure File} {stop : Cancellation}
    {asked : Nat} {domains : List Plan.Domain} {units : List File}
    (h : emitDomains emit stop asked domains = .ok units) :
    List.Forall₂ (fun d file => emit d = .ok file) domains units := by
  induction domains generalizing asked units with
  | nil =>
      obtain rfl := Except.ok.inj h
      exact .nil
  | cons d domains ih =>
      rw [emitDomains] at h
      split at h
      · cases h
      · obtain ⟨file, hfile, h⟩ := Outcome.bind_eq_ok.1 h
        obtain ⟨rest, hrest, h⟩ := Outcome.bind_eq_ok.1 h
        obtain rfl := Outcome.pure_eq_ok.1 h
        exact .cons hfile (ih hrest)

theorem compile_eq_ok {o : Options} {stop : Cancellation} {doc : Document} {files : List File}
    (h : compile o stop doc = .ok files) :
    ∃ language policy p units, o.choice = .ok (language, policy) ∧
      plan policy.name doc = .ok p ∧
      List.Forall₂ (fun d file => domainFile language o doc.versionText d = .ok file)
        p.domains units ∧
      files = collect (units ++ supportFiles language o doc.versionText p) := by
  obtain ⟨⟨language, policy⟩, hchoice, h⟩ := Outcome.bind_eq_ok.1 h
  obtain ⟨p, hp, h⟩ := Outcome.bind_eq_ok.1 h
  obtain ⟨units, hunits, h⟩ := Outcome.bind_eq_ok.1 h
  exact ⟨language, policy, p, units, hchoice, hp, emitDomains_eq_ok hunits,
    (Outcome.pure_eq_ok.1 h).symm⟩

/-! ## Where the files of a target are put -/

def fixedNames : Language → List String
  | .java => Target.Java.rootInterface ::
    Target.Java.supportTypes.map fun name => Target.Java.supportPackage ++ "/" ++ name
  | .python => ["__init__", "_support"]

def unitName : Language → String → String
  | .java, name => name
  | .python, name => Target.Python.moduleName name

def sourcePath (language : Language) (package name : String) : String :=
  match language with
  | .java => Target.Java.sourceRoot package ++ "/" ++ name ++ ".java"
  | .python => Target.Python.sourceRoot package ++ "/" ++ name ++ ".py"

def buildPath : Language → String
  | .java => "pom.xml"
  | .python => "pyproject.toml"

theorem path_of_domainFile {language : Language} {o : Options} {version : String}
    {d : Plan.Domain} {file : File} (h : domainFile language o version d = .ok file) :
    file.path = sourcePath language o.package (unitName language d.domain.name) := by
  cases language with
  | java =>
      obtain ⟨types, -, h⟩ := Outcome.bind_eq_ok.1 h
      obtain ⟨methods, -, h⟩ := Outcome.bind_eq_ok.1 h
      obtain ⟨subscriptions, -, h⟩ := Outcome.bind_eq_ok.1 h
      rw [← Outcome.pure_eq_ok.1 h]
      rfl
  | python =>
      obtain ⟨types, -, h⟩ := Outcome.bind_eq_ok.1 h
      obtain ⟨methods, -, h⟩ := Outcome.bind_eq_ok.1 h
      obtain ⟨subscriptions, -, h⟩ := Outcome.bind_eq_ok.1 h
      rw [← Outcome.pure_eq_ok.1 h]
      rfl

theorem map_path_supportFiles (language : Language) (o : Options) (version : String)
    (p : Plan.Protocol) :
    (supportFiles language o version p).map File.path =
      (fixedNames language).map (sourcePath language o.package) ++ [buildPath language] := by
  cases language with
  | java =>
      have htypes : Target.Java.supportTypes = Target.Java.supportDeclarations.map (·.1) := rfl
      have hdeclared (declared : String × List String) :
          (Target.Java.supportFile o.package declared.1 declared.2).path =
            sourcePath .java o.package (Target.Java.supportPackage ++ "/" ++ declared.1) := by
        simp only [Target.Java.supportFile, sourcePath, String.append_assoc]
      simp only [supportFiles, Target.Java.supportFiles, fixedNames, htypes, List.map_append,
        List.map_cons, List.map_nil, List.map_map, Function.comp_def, hdeclared]
      rfl
  | python =>
      have hroot : "/__init__.py" = "/" ++ ("__init__" ++ ".py") := rfl
      have hsupport : "/_support.py" = "/" ++ ("_support" ++ ".py") := rfl
      simp only [supportFiles, Target.Python.supportFiles, Target.Python.rootFile,
        Target.Python.supportFile, Target.Python.buildFile, fixedNames, sourcePath, buildPath,
        List.map_cons, List.map_nil, List.cons_append, List.nil_append, String.append_assoc, hroot,
        hsupport]

theorem sourcePath_injective (language : Language) (package : String) :
    Function.Injective (sourcePath language package) := by
  intro a b h
  cases language <;> simpa [sourcePath, String.append_assoc] using h

theorem head?_sourcePath (language : Language) (package name : String) :
    (sourcePath language package name).toList.head? = some 's' := by
  have hfirst (root rest : String) (h : root.toList.head? = some 's') :
      (root ++ rest).toList.head? = some 's' := by
    rw [String.toList_append, List.head?_append, h, Option.some_or]
  cases language with
  | java => exact hfirst _ _ (hfirst _ _ (hfirst _ _ (hfirst "src/main/java/" _ rfl)))
  | python => exact hfirst _ _ (hfirst _ _ (hfirst _ _ (hfirst "src/" _ rfl)))

theorem sourcePath_ne_buildPath (language : Language) (package name : String) :
    sourcePath language package name ≠ buildPath language := by
  have hbuild : (buildPath language).toList.head? = some 'p' := by cases language <;> rfl
  intro h
  have hhead := head?_sourcePath language package name
  rw [h, hbuild] at hhead
  exact absurd (Option.some.inj hhead) (by decide)

/-- The paths of all files are distinct exactly when the names in the package are. -/
theorem nodup_paths_iff {language : Language} {package : String} {names : List String} :
    (names.map (sourcePath language package) ++
        ((fixedNames language).map (sourcePath language package) ++
          [buildPath language])).Nodup ↔
      (names ++ fixedNames language).Nodup := by
  rw [← List.append_assoc, ← List.map_append, List.nodup_append']
  have hbuild : List.Disjoint ((names ++ fixedNames language).map (sourcePath language package))
      [buildPath language] := by
    intro path hpath hbuild
    obtain ⟨name, -, rfl⟩ := List.mem_map.1 hpath
    exact sourcePath_ne_buildPath language package name (List.mem_singleton.1 hbuild)
  rw [List.nodup_map_iff (sourcePath_injective language package)]
  exact ⟨fun h => h.1, fun h => ⟨h, List.nodup_singleton _, hbuild⟩⟩

/-! ## Which names get in each other's way -/

open Target.Python (moduleName isReserved reservedWords)

theorem moduleName_eq (domain : String) :
    moduleName domain =
      if isReserved (Identifier.snake domain) then Identifier.snake domain ++ "_"
      else Identifier.snake domain := by
  simp [moduleName, Target.Python.safeName]

theorem exists_wordChar_of_isReserved {word : String} (h : isReserved word = true) :
    ∃ c ∈ word.toList, Identifier.isWordChar c = true := by
  have hall : ∀ word ∈ reservedWords, word.toList.any Identifier.isWordChar = true := by decide
  exact List.any_eq_true.1 (hall word (by simpa [isReserved] using h))

/-- A snake case never looks like a reserved word that was set apart. -/
theorem snake_ne_append_underscore {domain word : String} (h : isReserved word = true) :
    Identifier.snake domain ≠ word ++ "_" := by
  intro heq
  have htext : (Identifier.snake domain).toList = word.toList ++ '_' :: [] := by simp [heq]
  obtain ⟨c, hc, hword⟩ := exists_wordChar_of_isReserved h
  refine Identifier.nil_not_mem_splitOn_snake (s := domain) ⟨c, by simp [htext, hc], hword⟩ ?_
  rw [htext, List.splitOn_append_cons_self]
  exact List.mem_append_right _ (by simp)

theorem moduleName_eq_iff {a b : String} :
    moduleName a = moduleName b ↔ a = b ∨ Identifier.SameWords a b := by
  rw [← Identifier.snake_eq_snake_iff, moduleName_eq, moduleName_eq]
  -- only a reserved name gets an underscore at its end, and no snake case of words has one
  by_cases ha : isReserved (Identifier.snake a) = true
  · rw [if_pos ha]
    by_cases hb : isReserved (Identifier.snake b) = true
    · rw [if_pos hb]
      simp
    · rw [if_neg hb]
      exact iff_of_false (Ne.symm (snake_ne_append_underscore ha)) (fun h => hb (h ▸ ha))
  · rw [if_neg ha]
    by_cases hb : isReserved (Identifier.snake b) = true
    · rw [if_pos hb]
      exact iff_of_false (snake_ne_append_underscore hb) (fun h => ha (h ▸ hb))
    · rw [if_neg hb]

/-- The module of a domain never takes the place of a support module. -/
theorem moduleName_not_mem_fixedNames (domain : String) :
    moduleName domain ∉ fixedNames .python := by
  intro h
  have hfixed : ∀ name ∈ fixedNames .python,
      name.toList.any Identifier.isWordChar = true ∧ [] ∈ name.toList.splitOn '_' ∧
        ∀ word ∈ reservedWords, word ++ "_" ≠ name := by decide
  obtain ⟨hword, hnil, hreserved⟩ := hfixed _ h
  rw [moduleName_eq] at hword hnil hreserved
  split at hword
  · rename_i hres
    rw [if_pos hres] at hreserved
    exact hreserved _ (by simpa [isReserved] using hres) rfl
  · rename_i hres
    rw [if_neg hres] at hnil
    exact Identifier.nil_not_mem_splitOn_snake (List.any_eq_true.1 hword) hnil

/-- The names of domains that keep their units apart: an interface must not take the place of the
entry point or of a support type, and no two modules may have the same words up to case. -/
def NamesApart : Language → List String → Prop
  | .java, names => ∀ name ∈ names, name ∉ fixedNames .java
  | .python, names => names.Pairwise fun a b => ¬ Identifier.SameWords a b

instance (language : Language) (names : List String) : Decidable (NamesApart language names) := by
  cases language <;> unfold NamesApart <;> infer_instance

theorem nodup_names_iff {language : Language} {names : List String} (h : names.Nodup) :
    (names.map (unitName language) ++ fixedNames language).Nodup ↔ NamesApart language names := by
  have hfixed : (fixedNames language).Nodup := by cases language <;> decide
  rw [List.nodup_append']
  cases language with
  | java =>
      have hunits : names.map (unitName .java) = names := List.map_id' names
      rw [hunits]
      constructor
      · exact fun hsplit name hname => hsplit.2.2 hname
      · exact fun hapart => ⟨h, hfixed, fun name hname => hapart name hname⟩
  | python =>
      have hdisjoint : List.Disjoint (names.map (unitName .python)) (fixedNames .python) := by
        intro name hname hfixed
        obtain ⟨domain, -, rfl⟩ := List.mem_map.1 hname
        exact moduleName_not_mem_fixedNames domain hfixed
      have hpairwise : (names.map (unitName .python)).Nodup ↔ NamesApart .python names := by
        rw [List.Nodup, List.pairwise_map]
        constructor
        · intro hmodules
          exact hmodules.imp fun hne hwords => hne (moduleName_eq_iff.2 (.inr hwords))
        · intro hapart
          refine hapart.imp₂ (fun {a b} hne hwords hmodules => ?_) h
          exact (moduleName_eq_iff.1 hmodules).elim hwords hne
      exact ⟨fun hsplit => hpairwise.1 hsplit.1, fun hapart =>
        ⟨hpairwise.2 hapart, hfixed, hdisjoint⟩⟩

/-! ## One unit for each domain -/

/-- The files hold the unit of each domain and each support file, all at paths of their own, and
nothing else. -/
structure UnitForEach (language : Language) (o : Options) (version : String) (p : Plan.Protocol)
    (files : List File) : Prop where
  units : ∀ d ∈ p.domains, ∃ file ∈ files, domainFile language o version d = .ok file
  support : supportFiles language o version p ⊆ files
  paths : (files.map File.path).Nodup
  count : files.length = p.domains.length + (supportFiles language o version p).length

theorem unitForEach_iff {language : Language} {o : Options} {version : String} {p : Plan.Protocol}
    {units : List File}
    (hunits : List.Forall₂ (fun d file => domainFile language o version d = .ok file)
      p.domains units) :
    UnitForEach language o version p (collect (units ++ supportFiles language o version p)) ↔
      ((units ++ supportFiles language o version p).map File.path).Nodup := by
  have hlength := hunits.length_eq
  rcases collect_eq_self_or (units ++ supportFiles language o version p) with
    ⟨hnodup, heq⟩ | ⟨hnot, hlt⟩
  · refine ⟨fun _ => hnodup, fun _ => ?_⟩
    rw [heq]
    refine ⟨?_, List.subset_append_right _ _, hnodup, by rw [List.length_append, hlength]⟩
    intro d hd
    obtain ⟨file, hfile, hemit⟩ := Outcome.exists_right_of_forall₂ hunits hd
    exact ⟨file, List.mem_append_left _ hfile, hemit⟩
  · refine ⟨fun heach => ?_, fun hnodup => absurd hnodup hnot⟩
    rw [heach.count, List.length_append, hlength] at hlt
    exact absurd hlt (Nat.lt_irrefl _)

/-- Every domain keeps a unit of its own, next to every support file, exactly when the names of the
domains are apart. -/
theorem one_unit_per_domain_iff {o : Options} {stop : Cancellation} {doc : Document}
    {files : List File} (h : compile o stop doc = .ok files) :
    ∃ language policy p, o.choice = .ok (language, policy) ∧ plan policy.name doc = .ok p ∧
      p.domains.map (fun d => d.domain.name) = doc.domains.map Schema.Domain.name ∧
      (UnitForEach language o doc.versionText p files ↔
        NamesApart language (doc.domains.map Schema.Domain.name)) := by
  obtain ⟨language, policy, p, units, hchoice, hplan, hunits, rfl⟩ := compile_eq_ok h
  obtain ⟨hnames, hdistinct⟩ := names_of_plan hplan
  refine ⟨language, policy, p, hchoice, hplan, hnames, ?_⟩
  have hpaths : units.map File.path =
      ((doc.domains.map Schema.Domain.name).map (unitName language)).map
        (sourcePath language o.package) := by
    rw [← hnames, List.map_map, List.map_map]
    exact (Outcome.map_eq_map_of_forall₂ hunits fun d _ file hfile =>
      (path_of_domainFile hfile).symm).symm
  rw [unitForEach_iff hunits, List.map_append, map_path_supportFiles, hpaths, nodup_paths_iff,
    nodup_names_iff hdistinct]

def twoDomains (a b : String) : Document where
  domains := [{ name := a }, { name := b }]

/-- Names that share some of their words only. -/
theorem one_unit_per_domain_storage :
    ∃ files p, compile { target := "python" } .never (twoDomains "DOMStorage" "DOM") = .ok files ∧
      UnitForEach .python { target := "python" } "" p files := by
  have hok : (compile { target := "python" } .never
      (twoDomains "DOMStorage" "DOM")).isOk = true := by decide +kernel
  obtain ⟨files, hfiles⟩ := Outcome.exists_eq_ok_of_isOk hok
  obtain ⟨language, policy, p, hchoice, -, -, hiff⟩ := one_unit_per_domain_iff hfiles
  obtain rfl : language = .python := by
    have := Except.ok.inj hchoice
    exact (congrArg Prod.fst this).symm
  exact ⟨files, p, hfiles, hiff.2 (by decide +kernel)⟩

theorem not_unitForEach {language : Language} {o : Options} {version policy : String}
    {doc : Document} {p : Plan.Protocol} {files : List File} (hp : plan policy doc = .ok p)
    (hlt : files.length < doc.domains.length + ((fixedNames language).length + 1)) :
    ¬ UnitForEach language o version p files := by
  intro heach
  have hdomains := congrArg List.length (names_of_plan hp).1
  have hsupport := congrArg List.length (map_path_supportFiles language o version p)
  simp only [List.length_map, List.length_append, List.length_singleton] at hdomains hsupport
  have hcount := heach.count
  omega

/-- Of two modules with the same words only the later is left, and of an interface that is named
like the entry point nothing. -/
theorem unit_overwritten :
    (∃ files p, compile { target := "python" } .never (twoDomains "DOM" "Dom") = .ok files ∧
      plan "full" (twoDomains "DOM" "Dom") = .ok p ∧
      files.map File.path =
        ["src/protocol/dom.py", "src/protocol/__init__.py", "src/protocol/_support.py",
          "pyproject.toml"] ∧
      ¬ UnitForEach .python { target := "python" } "" p files) ∧
    ∃ files p, compile {} .never (twoDomains "DOM" "ChromeDevTools") = .ok files ∧
      plan "tiered" (twoDomains "DOM" "ChromeDevTools") = .ok p ∧ files.length = 9 ∧
      ¬ UnitForEach .java {} "" p files := by
  constructor
  · have hpaths : (compile { target := "python" } .never (twoDomains "DOM" "Dom")).toOption.map
        (List.map File.path) =
        some ["src/protocol/dom.py", "src/protocol/__init__.py", "src/protocol/_support.py",
          "pyproject.toml"] := by decide +kernel
    obtain ⟨files, hfiles, hpaths⟩ := Option.map_eq_some_iff.1 hpaths
    have hok : (plan "full" (twoDomains "DOM" "Dom")).isOk = true := by decide +kernel
    obtain ⟨p, hp⟩ := Outcome.exists_eq_ok_of_isOk hok
    have hlength : files.length = 4 := by simpa using congrArg List.length hpaths
    exact ⟨files, p, Outcome.toOption_eq_some.1 hfiles, hp, hpaths,
      not_unitForEach hp (by rw [hlength]; decide)⟩
  · have hlength : (compile {} .never (twoDomains "DOM" "ChromeDevTools")).toOption.map
        List.length = some 9 := by decide +kernel
    obtain ⟨files, hfiles, hlength⟩ := Option.map_eq_some_iff.1 hlength
    have hok : (plan "tiered" (twoDomains "DOM" "ChromeDevTools")).isOk = true := by
      decide +kernel
    obtain ⟨p, hp⟩ := Outcome.exists_eq_ok_of_isOk hok
    exact ⟨files, p, Outcome.toOption_eq_some.1 hfiles, hp, hlength,
      not_unitForEach hp (by rw [hlength]; decide)⟩

end WireBindings.Compilation
