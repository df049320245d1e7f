import WireBindings.Proofs.Compilation.Units
import WireBindings.Proofs.Identifier.Pascal
import WireBindings.Proofs.Output.Containment

/-!
# Output below the output directory

The directories of a package lead down only, and the name of a domain is put behind them. So files
leave the output directory exactly if such a name leads up further than the package leads down.
Modules are named after the words of a domain, which lead nowhere, unless there are no words.
-/

namespace WireBindings

namespace Compilation

open FileTree Output
open Target (File)
open Schema (Document)

/-! ## Where units are put -/

def unitRoot : Language → String → String
  | .java => Target.Java.sourceRoot
  | .python => Target.Python.sourceRoot

def extension : Language → String
  | .java => ".java"
  | .python => ".py"

theorem sourcePath_eq (language : Language) (package name : String) :
    sourcePath language package name =
      unitRoot language package ++ "/" ++ name ++ extension language := by
  cases language <;> rfl

theorem slash_not_mem_extension (language : Language) : '/' ∉ (extension language).toList := by
  cases language <;> decide

theorem extension_ne_empty (language : Language) : extension language ≠ "" := by
  cases language <;> decide

theorem isName_append_extension (language : Language) (name : String) :
    IsName (name ++ extension language) := by
  have hlength : 2 < (name ++ extension language).length := by
    rw [String.length_append]
    have hextension : 2 < (extension language).length := by cases language <;> decide
    omega
  refine ⟨?_, ?_, ?_⟩ <;> intro heq <;> rw [heq] at hlength <;> exact absurd hlength (by decide)

theorem dot_not_mem_unitRoot (language : Language) (package : String) :
    '.' ∉ (unitRoot language package).toList := by
  have hpath : '.' ∉ (Target.dottedPath package).toList := by
    rw [Target.dottedPath, String.toList_ofList, List.mem_map]
    rintro ⟨c, -, hc⟩
    split at hc
    · exact absurd hc (by decide)
    · next hne => exact hne hc
  have happend (root : String) (hroot : '.' ∉ root.toList) :
      '.' ∉ (root ++ Target.dottedPath package).toList := by
    rw [String.toList_append, List.mem_append, not_or]
    exact ⟨hroot, hpath⟩
  cases language with
  | java => exact happend "src/main/java/" (by decide)
  | python => exact happend "src/" (by decide)

/-- Whether a name put behind the directory of a package stays in the output directory. -/
def StaysInside (language : Language) (package name : String) : Prop :=
  staysBelow (parts (unitRoot language package)).length (parts (Path.parent name)) = true

instance (language : Language) (package name : String) :
    Decidable (StaysInside language package name) :=
  inferInstanceAs (Decidable (_ = true))

theorem confined_sourcePath_iff {language : Language} {package name : String} :
    Confined (sourcePath language package name) ↔ StaysInside language package name := by
  have hrelative : IsRelative (sourcePath language package name) := by
    rw [IsRelative, head?_sourcePath]
    decide
  have hparts := parts_append_name (unitRoot language package) name
    (slash_not_mem_extension language) (extension_ne_empty language)
  rw [← sourcePath_eq] at hparts
  have hroot : ∀ part ∈ parts (unitRoot language package), IsName part := fun _ =>
    isName_of_mem_parts (dot_not_mem_unitRoot language package)
  rw [confined_iff hrelative hparts (isName_append_extension language _), staysBelow_names hroot,
    Nat.zero_add, StaysInside]

/-- The domains whose units stay in the output directory: a module is named after words, if there
are any, and other names lead where they say. -/
def UnitInside : Language → String → String → Prop
  | .java, package, domain => StaysInside .java package domain
  | .python, package, domain =>
    (∃ c ∈ domain.toList, Identifier.isWordChar c = true) ∨ StaysInside .python package domain

instance (language : Language) (package domain : String) :
    Decidable (UnitInside language package domain) :=
  match language with
  | .java => inferInstanceAs (Decidable (StaysInside .java package domain))
  | .python => @instDecidableOr _ _ (List.decidableBEx _ domain.toList)
      (inferInstanceAs (Decidable (StaysInside .python package domain)))

theorem slash_not_mem_moduleName {domain : String} (h : Identifier.foldedWords domain ≠ []) :
    '/' ∉ (unitName .python domain).toList := by
  have hsnake : '/' ∉ (Identifier.snake domain).toList := fun hslash =>
    absurd (Identifier.isWordText_snake h '/' hslash) (by decide)
  rw [unitName, moduleName_eq]
  split
  · rw [String.toList_append, List.mem_append, not_or]
    exact ⟨hsnake, by decide⟩
  · exact hsnake

theorem confined_unit_iff {language : Language} {package domain : String} :
    Confined (sourcePath language package (unitName language domain)) ↔
      UnitInside language package domain := by
  rw [confined_sourcePath_iff]
  cases language with
  | java => exact Iff.rfl
  | python =>
      by_cases hwords : Identifier.foldedWords domain = []
      · have hnone := Identifier.foldedWords_eq_nil_iff.1 hwords
        have hnot : ¬ ∃ c ∈ domain.toList, Identifier.isWordChar c = true := by
          rintro ⟨c, hc, hword⟩
          rw [hnone c hc] at hword
          cases hword
        have hmodule : unitName .python domain = domain := by
          rw [unitName, moduleName_eq, Identifier.snake_of_foldedWords_eq_nil hwords, if_neg]
          exact fun hreserved => hnot (exists_wordChar_of_isReserved hreserved)
        rw [hmodule]
        exact (or_iff_right hnot).symm
      · have hsome : ∃ c ∈ domain.toList, Identifier.isWordChar c = true := by
          by_contra hnone
          refine hwords (Identifier.foldedWords_eq_nil_iff.2 fun c hc => ?_)
          exact Bool.eq_false_iff.2 fun hword => hnone ⟨c, hc, hword⟩
        refine iff_of_true ?_ (.inl hsome)
        rw [StaysInside, parts_parent_of_notMem (slash_not_mem_moduleName hwords)]
        rfl

theorem confined_support {language : Language} {o : Options} {version : String}
    {p : Plan.Protocol} {file : File} (h : file ∈ supportFiles language o version p) :
    Confined file.path := by
  have hpath : file.path ∈ (supportFiles language o version p).map File.path :=
    List.mem_map_of_mem h
  rw [map_path_supportFiles, List.mem_append, List.mem_singleton] at hpath
  rcases hpath with hpath | hpath
  · obtain ⟨name, hname, heq⟩ := List.mem_map.1 hpath
    have hdown : ∀ name ∈ fixedNames language, ".." ∉ parts (Path.parent name) := by
      cases language <;> decide +kernel
    rw [← heq, confined_sourcePath_iff]
    exact staysBelow_of_not_mem (hdown name hname) _
  · have hparts : parts (buildPath language) = [] ++ [buildPath language] := by
      cases language <;> decide +kernel
    have hplain : IsPlain (buildPath language) := by cases language <;> decide +kernel
    have hname := hplain.isName (hparts ▸ List.mem_append_right [] List.mem_cons_self)
    rw [hpath, confined_iff hplain.isRelative hparts hname]
    rfl

theorem mem_map_path_collect {path : String} {files : List File} :
    path ∈ (collect files).map File.path ↔ path ∈ files.map File.path := by
  have hset (file : File) (acc : List File) :
      path ∈ (setFile file acc).map File.path ↔ path = file.path ∨ path ∈ acc.map File.path := by
    by_cases hmem : file.path ∈ acc.map File.path
    · rw [map_path_setFile_of_mem hmem]
      exact ⟨.inr, fun h => h.elim (fun heq => heq ▸ hmem) id⟩
    · rw [setFile_of_not_mem hmem, List.map_append, List.mem_append, List.map_singleton,
        List.mem_singleton, or_comm]
  have hfold : ∀ acc : List File,
      path ∈ (files.foldl (fun acc file => setFile file acc) acc).map File.path ↔
        path ∈ acc.map File.path ∨ path ∈ files.map File.path := by
    induction files with
    | nil => simp
    | cons file files ih =>
        intro acc
        rw [List.foldl_cons, ih, hset, List.map_cons, List.mem_cons]
        tauto
  rw [collect, hfold]
  simp

theorem map_path_units {language : Language} {o : Options} {version policy : String}
    {doc : Document} {p : Plan.Protocol} {units : List File} (hplan : plan policy doc = .ok p)
    (hunits : List.Forall₂ (fun d file => domainFile language o version d = .ok file)
      p.domains units) :
    units.map File.path =
      doc.domains.map fun d => sourcePath language o.package (unitName language d.name) := by
  have hnames := congrArg (List.map fun name => sourcePath language o.package
    (unitName language name)) (names_of_plan hplan).1
  rw [List.map_map, List.map_map] at hnames
  have hpaths : p.domains.map (fun d => sourcePath language o.package
      (unitName language d.domain.name)) = units.map File.path :=
    Outcome.map_eq_map_of_forall₂ hunits fun d _ file hfile => (path_of_domainFile hfile).symm
  exact hpaths.symm.trans hnames

/-- The files of a document are put below every output directory exactly if the names of its domains
do not lead out of it, and writing them then changes no file outside. -/
theorem output_stays_below_iff {o : Options} {stop : Cancellation} {doc : Document}
    {files : List File} (h : compile o stop doc = .ok files) :
    ∃ language policy, o.choice = .ok (language, policy) ∧
      ((∀ file ∈ files, ∀ out, StrictlyBelow (place out) (place (Path.join out file.path))) ↔
        ∀ d ∈ doc.domains, UnitInside language o.package d.name) ∧
      ((∀ d ∈ doc.domains, UnitInside language o.package d.name) →
        ∀ out t q, ¬ Below (place out) q → (writeAll out files t).2.file? q = t.file? q) := by
  obtain ⟨language, policy, p, units, hchoice, hplan, hunits, rfl⟩ := compile_eq_ok h
  have hiff : (∀ file ∈ collect (units ++ supportFiles language o doc.versionText p),
      Confined file.path) ↔ ∀ d ∈ doc.domains, UnitInside language o.package d.name := by
    rw [← List.forall_mem_map (P := Confined)]
    simp only [mem_map_path_collect]
    rw [List.forall_mem_map, List.forall_mem_append,
      and_iff_left fun file hfile => confined_support hfile, ← List.forall_mem_map (P := Confined),
      map_path_units hplan hunits, List.forall_mem_map]
    simp only [confined_unit_iff]
  refine ⟨language, policy, hchoice, hiff, fun hinside out t q hq => ?_⟩
  exact spares_writeAll (hiff.2 hinside) t q hq

def domainNamed (name : String) : Document where
  domains := [{ name }]

/-- A name that leads up, but not out of the package's directories. -/
theorem output_stays_below_sibling :
    ∃ files, compile {} .never (domainNamed "../x") = .ok files ∧
      (∀ file ∈ files, ∀ out, StrictlyBelow (place out) (place (Path.join out file.path))) ∧
      ∀ t q, ¬ Below (place "o") q → (writeAll "o" files t).2.file? q = t.file? q := by
  have hok : (compile {} .never (domainNamed "../x")).isOk = true := by decide +kernel
  obtain ⟨files, hfiles⟩ := Outcome.exists_eq_ok_of_isOk hok
  obtain ⟨language, policy, hchoice, hiff, hwrite⟩ := output_stays_below_iff hfiles
  obtain rfl : language = .java := (congrArg Prod.fst (Except.ok.inj hchoice)).symm
  have hinside : ∀ d ∈ (domainNamed "../x").domains, UnitInside .java "protocol" d.name :=
    List.forall_mem_singleton.2 (by decide +kernel)
  exact ⟨files, hfiles, hiff.2 hinside, hwrite hinside "o"⟩

/-- A name that leads up five directories from the four of the package puts its unit beside the
output directory, and a name without words does the same to its module. -/
theorem output_leaves_directory :
    (∃ files, compile {} .never (domainNamed "../../../../../x") = .ok files ∧
      ∃ file ∈ files, ¬ StrictlyBelow (place "o") (place (Path.join "o" file.path))) ∧
    ∃ files, compile { target := "python" } .never (domainNamed "../../../") = .ok files ∧
      ∃ file ∈ files, ¬ StrictlyBelow (place "o") (place (Path.join "o" file.path)) ∧
        ¬ Below (place "o") [".py"] ∧ ((writeAll "o" [file] {}).2.file? [".py"]).isSome = true := by
  constructor
  · have hpath : (compile {} .never (domainNamed "../../../../../x")).toOption.map
        (fun files => files.head?.map File.path) =
        some (some "src/main/java/protocol/../../../../../x.java") := by decide +kernel
    obtain ⟨files, hfiles, hpath⟩ := Option.map_eq_some_iff.1 hpath
    obtain ⟨file, hfile, hpath⟩ := Option.map_eq_some_iff.1 hpath
    refine ⟨files, Outcome.toOption_eq_some.1 hfiles, file, List.mem_of_head? hfile, ?_⟩
    rw [hpath]
    decide +kernel
  · have hrun : (compile { target := "python" } .never (domainNamed "../../../")).toOption.map
        (fun files => files.head?.map fun file =>
          (file.path, ((writeAll "o" [file] {}).2.file? [".py"]).isSome)) =
        some (some ("src/protocol/../../../.py", true)) := by decide +kernel
    obtain ⟨files, hfiles, hrun⟩ := Option.map_eq_some_iff.1 hrun
    obtain ⟨file, hfile, hrun⟩ := Option.map_eq_some_iff.1 hrun
    obtain ⟨hpath, hthere⟩ := Prod.mk.inj hrun
    refine ⟨files, Outcome.toOption_eq_some.1 hfiles, file, List.mem_of_head? hfile, ?_,
      by decide +kernel, hthere⟩
    rw [hpath]
    decide +kernel

end Compilation

end WireBindings
