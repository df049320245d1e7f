import Mathlib.Data.List.Nodup
import WireBindings.Proofs.Target.JavaReferences
import WireBindings.Target.JavaProject

/-!
# What names mean in Java units

A simple name in the interface of a domain means the first of these that has it: a type nested in
the interface, the interface, a type imported by the unit, another type of its package, a type of
`java.lang`. A qualified name is followed from its first part, which is a package only if no type
has its name.
-/

namespace WireBindings.Target.Java

open Binding (DataType TypeName)

/-- The types of `java.lang` in the release that the build file asks for. -/
def languagePackage : List String :=
  ["AbstractMethodError", "Appendable", "ArithmeticException", "ArrayIndexOutOfBoundsException",
    "ArrayStoreException", "AssertionError", "AutoCloseable", "Boolean", "BootstrapMethodError",
    "Byte", "CharSequence", "Character", "Class", "ClassCastException", "ClassCircularityError",
    "ClassFormatError", "ClassLoader", "ClassNotFoundException", "ClassValue",
    "CloneNotSupportedException", "Cloneable", "Comparable", "Compiler", "Deprecated", "Double",
    "Enum", "EnumConstantNotPresentException", "Error", "Exception",
    "ExceptionInInitializerError", "Float", "FunctionalInterface", "IllegalAccessError",
    "IllegalAccessException", "IllegalArgumentException", "IllegalCallerException",
    "IllegalMonitorStateException", "IllegalStateException", "IllegalThreadStateException",
    "IncompatibleClassChangeError", "IndexOutOfBoundsException", "InheritableThreadLocal",
    "InstantiationError", "InstantiationException", "Integer", "InternalError",
    "InterruptedException", "Iterable", "LayerInstantiationException", "LinkageError", "Long",
    "Math", "Module", "ModuleLayer", "NegativeArraySizeException",
    "NoClassDefFoundError", "NoSuchFieldError", "NoSuchFieldException", "NoSuchMethodError",
    "NoSuchMethodException", "NullPointerException", "Number", "NumberFormatException", "Object",
    "OutOfMemoryError", "Override", "Package", "Process", "ProcessBuilder", "ProcessHandle",
    "Readable", "Record", "ReflectiveOperationException", "Runnable", "Runtime",
    "RuntimeException", "RuntimePermission", "SafeVarargs", "SecurityException",
    "SecurityManager", "Short", "StackOverflowError", "StackTraceElement", "StackWalker",
    "StrictMath", "String", "StringBuffer", "StringBuilder", "StringIndexOutOfBoundsException",
    "SuppressWarnings", "System", "Thread", "ThreadDeath", "ThreadGroup", "ThreadLocal",
    "Throwable", "TypeNotPresentException", "UnknownError", "UnsatisfiedLinkError",
    "UnsupportedClassVersionError", "UnsupportedOperationException", "VerifyError",
    "VirtualMachineError", "Void"]

/-! ## Names with dots -/

theorem dottedParts_of_not_mem {text : String} (h : '.' ∉ text.toList) :
    dottedParts text = [text] := by
  have hsplit : text.toList.splitOnP (· == '.') = [text.toList] := by
    refine List.splitOnP_eq_singleton fun c hc => ?_
    rw [beq_eq_false_iff_ne]
    rintro rfl
    exact h hc
  rw [dottedParts, hsplit, List.map_singleton, String.ofList_toList]

theorem dottedParts_append (a b : String) :
    dottedParts (a ++ "." ++ b) = dottedParts a ++ dottedParts b := by
  have htext : (a ++ "." ++ b).toList = a.toList ++ '.' :: b.toList := by simp
  simp only [dottedParts, htext]
  rw [List.splitOnP_append_cons _ _ (by decide), List.map_append]

theorem dottedParts_ne_nil (text : String) : dottedParts text ≠ [] := by
  rw [dottedParts, ne_eq, List.map_eq_nil_iff]
  exact List.splitOnP_ne_nil _ _

def simpleName (text : String) : String := (dottedParts text).getLastD ""

theorem simpleName_append {a b : String} (h : '.' ∉ b.toList) : simpleName (a ++ "." ++ b) = b := by
  rw [simpleName, dottedParts_append, dottedParts_of_not_mem h, List.getLastD_concat]

theorem dot_not_mem_typeName {domain name : String} (h : '.' ∉ name.toList) :
    '.' ∉ (typeName domain name).toList := by
  unfold typeName safeIdentifier
  split
  · simpa using h
  split
  · simpa using h
  · exact h

/-! ## Levels of scopes -/

def nearest {α : Type} : List (List α) → List α
  | [] => []
  | [] :: levels => nearest levels
  | found :: _ => found

section

variable {α : Type} {level : List α} {levels : List (List α)}

theorem nearest_cons_of_ne_nil (h : level ≠ []) : nearest (level :: levels) = level := by
  cases level with
  | nil => exact absurd rfl h
  | cons a level => rfl

@[simp]
theorem nearest_nil_cons : nearest ([] :: levels) = nearest levels := rfl

end

/-! ## Compilation units -/

inductive Entity
  | interface (domain : String)
  | dataType (type : DataType)
  | entryPoint
  | support (name : String)
  | language (name : String)
  | library (name : String)
  | wireName
  deriving DecidableEq

def Reference.Means : Reference → Entity → Prop
  | .dataType n, e => ∃ t, e = .dataType t ∧ t.typeName = n
  | .support name, e => e = .support name
  | .language name, e => e = .language name
  | .library name, e => e = .library name

/-- The unit of a domain among the interfaces of all domains. -/
structure CompilationUnit where
  options : Options
  domains : List Binding.Domain
  plan : Plan.Domain

namespace CompilationUnit

variable (u : CompilationUnit)

def own : Binding.Domain := u.plan.domain

def scope : Scope := scopeOf u.options u.own

def packageParts : List String := dottedParts u.options.package

theorem packageParts_ne_nil : u.packageParts ≠ [] := dottedParts_ne_nil _

def nestedIn (d : Binding.Domain) (name : String) : List Entity :=
  (d.types.filter fun t => typeName d.name t.name = name).map .dataType

def members : Entity → String → List Entity
  | .interface domain, name => (u.domains.filter fun d => d.name = domain).flatMap (nestedIn · name)
  | _, _ => []

def topLevel (package : List String) (name : String) : List Entity :=
  if package = u.packageParts then
    (u.domains.filter fun d => d.name = name).map (.interface ·.name) ++
      if name = rootInterface then [.entryPoint] else []
  else if package = u.packageParts ++ [supportPackage] then
    if name ∈ supportTypes then [.support name] else []
  else if package = ["java", "lang"] then
    if name ∈ languagePackage then [.language name] else []
  else if package = ["java", "util"] then
    if name ∈ libraryTypes then [.library name] else []
  else []

/-- A support type or a type of `java.lang` of this name is written as a simple name. -/
def Free (name : String) : Prop := name ∉ nestedNames u.own ∧ name ≠ u.own.name

instance (name : String) : Decidable (u.Free name) := by unfold Free; infer_instance

def imported : List Entity :=
  u.own.externals.map .interface ++
    (supportTypes.filter fun name => u.scope.reference name = name).map .support ++
    if u.options.jackson && u.scope.wireName == "JsonProperty" then [.wireName] else []

def canonicalName : Entity → String
  | .interface domain => u.options.package ++ "." ++ domain
  | .dataType t => u.options.package ++ "." ++ t.domain ++ "." ++ typeName t.domain t.name
  | .entryPoint => u.options.package ++ "." ++ rootInterface
  | .support name => u.options.package ++ "." ++ supportPackage ++ "." ++ name
  | .language name => "java.lang." ++ name
  | .library name => "java.util." ++ name
  | .wireName => jacksonProperty

def importNames : List String := imports u.options u.scope u.own.externals

def importedAs (name : String) : List Entity :=
  u.imported.filter fun e => simpleName (u.canonicalName e) = name

def lookUp (name : String) : List Entity :=
  nearest [
    nestedIn u.own name,
    if name = u.own.name then [.interface name] else [],
    u.importedAs name,
    u.topLevel u.packageParts name,
    if name ∈ languagePackage then [.language name] else []]

def descend (found : List Entity) (names : List String) : List Entity :=
  names.foldl (fun found name => found.flatMap (u.members · name)) found

def walk (package : List String) : List String → List Entity
  | [] => []
  | name :: names =>
    match u.topLevel package name with
    | [] => walk (package ++ [name]) names
    | found => u.descend found names

/-- The types that a printed name means in the interface. -/
def resolve (text : String) : List Entity :=
  match dottedParts text with
  | [] => []
  | name :: names =>
    match u.lookUp name with
    | [] => u.walk [name] names
    | found => u.descend found names

/-- The name by which the unit refers to something means that and nothing else. -/
def Reaches (r : Reference) : Prop := ∃ e, u.resolve (r.spelling u.scope) = [e] ∧ r.Means e

/-- Every name of the unit reaches what it is meant for, and no two imports have one simple name. -/
structure Unambiguous : Prop where
  reaches : ∀ r ∈ unitReferences u.plan, u.Reaches r
  imports : (u.importNames.map simpleName).Nodup

/-! ## What keeps names apart -/

/-- No other type takes the name by which the unit refers to something. -/
def Clear : Reference → Prop
  | .dataType n =>
    (n.domain ≠ u.own.name → n.domain ∉ nestedNames u.own) ∧
      ∀ d ∈ u.domains, d.name = n.domain →
        (nestedNames d).count (typeName n.domain n.name) = 1
  | .support name =>
    u.Free name ∨
      u.lookUp (u.packageParts.headD "") = [] ∧ ∀ d ∈ u.domains, d.name ≠ supportPackage
  | .language name =>
    (u.Free name → ∀ d ∈ u.domains, d.name ≠ name) ∧ (¬ u.Free name → u.lookUp "java" = [])
  | .library _ => u.lookUp "java" = []

instance (r : Reference) : Decidable (u.Clear r) := by
  cases r <;> unfold Clear <;> infer_instance

/-- No other type takes a name that the unit uses: neither one that it refers to something by, nor,
with the interface of another domain, one that it imports. -/
structure Unobscured : Prop where
  support : ∀ e ∈ u.own.externals, e ∈ supportTypes → e ∈ nestedNames u.own
  wireName : u.options.jackson = true → "JsonProperty" ∈ u.own.externals →
    "JsonProperty" ∈ nestedNames u.own
  references : ∀ r ∈ unitReferences u.plan, u.Clear r

instance : Decidable u.Unobscured :=
  decidable_of_iff
    ((∀ e ∈ u.own.externals, e ∈ supportTypes → e ∈ nestedNames u.own) ∧
      (u.options.jackson = true → "JsonProperty" ∈ u.own.externals →
        "JsonProperty" ∈ nestedNames u.own) ∧ ∀ r ∈ unitReferences u.plan, u.Clear r)
    ⟨fun h => ⟨h.1, h.2.1, h.2.2⟩, fun h => ⟨h.support, h.wireName, h.references⟩⟩

/-- What the units of a document have in common: domains with names of their own, references to
declared types only, and imports of the other domains that are referred to. -/
structure Coherent : Prop where
  distinct : (u.domains.map Binding.Domain.name).Nodup
  own_mem : u.own ∈ u.domains
  dotless : ∀ d ∈ u.domains, '.' ∉ d.name.toList
  package : u.packageParts.head? ≠ some "java"
  nodup : u.own.externals.Nodup
  known : ∀ e ∈ u.own.externals, e ≠ u.own.name ∧ ∃ d ∈ u.domains, d.name = e
  external : ∀ n, .dataType n ∈ unitReferences u.plan → n.domain ≠ u.own.name →
    n.domain ∈ u.own.externals
  declared : ∀ n, .dataType n ∈ unitReferences u.plan →
    '.' ∉ n.name.toList ∧ ∃ d ∈ u.domains, d.name = n.domain ∧ ∃ t ∈ d.types, t.typeName = n

/-! ## Looking names up -/

theorem length_nestedIn (d : Binding.Domain) (name : String) :
    (nestedIn d name).length = (nestedNames d).count name := by
  rw [nestedIn, List.length_map, nestedNames, List.count, List.countP_map,
    List.countP_eq_length_filter]
  rfl

theorem nestedIn_eq_nil_iff {d : Binding.Domain} {name : String} :
    nestedIn d name = [] ↔ name ∉ nestedNames d := by
  rw [← List.length_eq_zero_iff, length_nestedIn, List.count_eq_zero]

theorem exists_dataType_of_mem_nestedIn {d : Binding.Domain} {name : String} {e : Entity}
    (h : e ∈ nestedIn d name) : ∃ t, e = .dataType t := by
  obtain ⟨t, -, rfl⟩ := List.mem_map.1 h
  exact ⟨t, rfl⟩

theorem mem_nestedIn {d : Binding.Domain} {t : DataType} (ht : t ∈ d.types) :
    .dataType t ∈ nestedIn d (typeName d.name t.name) :=
  List.mem_map_of_mem (List.mem_filter.2 ⟨ht, decide_eq_true rfl⟩)

/-- Exactly one nested type has a rendered name, if one has it whose name is not rendered twice. -/
theorem nestedIn_eq_singleton {d : Binding.Domain} {t : DataType} (ht : t ∈ d.types)
    (h : (nestedNames d).count (typeName d.name t.name) = 1) :
    nestedIn d (typeName d.name t.name) = [.dataType t] := by
  rw [← length_nestedIn] at h
  obtain ⟨e, he⟩ := List.length_eq_one_iff.1 h
  have hmem := mem_nestedIn ht
  rw [he] at hmem ⊢
  rw [List.mem_singleton.1 hmem]

theorem exists_dataType_of_mem_descend {found : List Entity} {names : List String}
    (hne : names ≠ []) {e : Entity} (h : e ∈ u.descend found names) : ∃ t, e = .dataType t := by
  rw [← List.dropLast_append_getLast hne, descend, List.foldl_append, List.foldl_cons,
    List.foldl_nil] at h
  obtain ⟨type, -, h⟩ := List.mem_flatMap.1 h
  cases type with
  | interface domain =>
      obtain ⟨d, -, h⟩ := List.mem_flatMap.1 h
      exact exists_dataType_of_mem_nestedIn h
  | _ => cases h

variable {u}

section

variable {package names : List String} {name : String}

theorem walk_of_package (h : u.topLevel package name = []) :
    u.walk package (name :: names) = u.walk (package ++ [name]) names := by
  simp only [walk, h]

theorem walk_of_type (h : u.topLevel package name ≠ []) :
    u.walk package (name :: names) = u.descend (u.topLevel package name) names := by
  simp only [walk]

theorem walk_singleton : u.walk package [name] = u.topLevel package name := by
  by_cases h : u.topLevel package name = []
  · rw [walk_of_package h, walk, h]
  · rw [walk_of_type h, descend, List.foldl_nil]

end

theorem resolve_simple {name : String} (h : '.' ∉ name.toList) :
    u.resolve name = u.lookUp name := by
  rw [resolve, dottedParts_of_not_mem h]
  cases hfound : u.lookUp name with
  | nil => simp only [hfound, walk]
  | cons e found => simp only [hfound, descend, List.foldl_nil]

section

variable {text name : String} {names : List String} (hparts : dottedParts text = name :: names)

include hparts

theorem resolve_of_package (h : u.lookUp name = []) : u.resolve text = u.walk [name] names := by
  simp only [resolve, hparts, h]

theorem resolve_of_type (h : u.lookUp name ≠ []) :
    u.resolve text = u.descend (u.lookUp name) names := by
  simp only [resolve, hparts]

end

theorem lookUp_of_nested {name : String} (h : name ∈ nestedNames u.own) :
    u.lookUp name = nestedIn u.own name :=
  nearest_cons_of_ne_nil (mt nestedIn_eq_nil_iff.1 (not_not_intro h))

theorem lookUp_of_free {name : String} (h : u.Free name) :
    u.lookUp name = nearest [u.importedAs name, u.topLevel u.packageParts name,
      if name ∈ languagePackage then [.language name] else []] := by
  rw [lookUp, nestedIn_eq_nil_iff.2 h.1, if_neg h.2]
  rfl

/-- A name of several parts that leads to no nested type starts with a package. -/
theorem reaches_iff_of_parts {r : Reference} {name : String} {names : List String}
    (hparts : dottedParts (r.spelling u.scope) = name :: names) (hne : names ≠ [])
    (hr : ∀ t, ¬ r.Means (.dataType t)) :
    u.Reaches r ↔ u.lookUp name = [] ∧ ∃ e, u.walk [name] names = [e] ∧ r.Means e := by
  by_cases h : u.lookUp name = []
  · rw [Reaches, resolve_of_package hparts h]
    exact (and_iff_right h).symm
  · refine iff_of_false ?_ fun hreaches => h hreaches.1
    rintro ⟨e, hresolve, hmeans⟩
    rw [resolve_of_type hparts h] at hresolve
    obtain ⟨t, rfl⟩ := u.exists_dataType_of_mem_descend hne (hresolve ▸ List.mem_singleton_self e)
    exact hr t hmeans

end CompilationUnit

end WireBindings.Target.Java
