import WireBindings.Proofs.Binding.DotFree
import WireBindings.Proofs.Compilation.Agreement
import WireBindings.Proofs.Compilation.Externals
import WireBindings.Proofs.Compilation.Units
import WireBindings.Proofs.Target.JavaResolution

/-!
# Names in compiled interfaces

The references of a compiled unit are to data types that are nested in some interface, and the
interfaces of other domains among them are imported. So its names reach their types exactly when
no other type takes one of them.
-/

namespace WireBindings

namespace Target.Java

open Binding (DataType Descriptor TypeName)

theorem namedType?_itemOf (type : Descriptor) :
    (itemOf type).namedType? = type.namedType? := by
  cases type <;> rfl

theorem exists_descriptor_of_mem_typeReferences {n : TypeName} {t : DataType}
    (h : .dataType n ∈ typeReferences t) :
    ∃ type ∈ t.descriptors, type.namedType? = some n := by
  rcases List.mem_append.1 h with h | h
  · exact absurd h dataType_not_mem_advisoryReferences
  have halias : .dataType n ∈ referencesOf (itemOf (t.target.getD .absent)) →
      ∃ type ∈ t.descriptors, type.namedType? = some n := by
    intro h
    have hnamed := dataType_mem_referencesOf h
    rw [namedType?_itemOf] at hnamed
    cases htarget : t.target with
    | none =>
        rw [htarget] at hnamed
        cases hnamed
    | some type =>
        rw [htarget] at hnamed
        exact ⟨type, List.mem_append_right _ (by rw [htarget]; exact List.mem_singleton_self _),
          hnamed⟩
  unfold bodyReferences at h
  split at h
  -- an enumeration, a record and the two kinds that are printed like an alias
  · simp [Reference.string] at h
  · obtain ⟨f, hf, h⟩ := List.mem_flatMap.1 h
    rcases List.mem_append.1 h with h | h
    · exact absurd h dataType_not_mem_advisoryReferences
    · exact ⟨f.type, List.mem_append_left _ (List.mem_map_of_mem hf), dataType_mem_referencesOf h⟩
  · exact halias h
  · exact halias h

theorem exists_descriptor_of_mem_methodReferences {n : TypeName} {m : Plan.Signature}
    (h : .dataType n ∈ methodReferences m) :
    ∃ type ∈ m.parameters.map Member.type ++ m.returns.toList, type.namedType? = some n := by
  rcases List.mem_append.1 h with h | h
  · rcases List.mem_append.1 h with h | h
    · exact absurd h dataType_not_mem_advisoryReferences
    · obtain ⟨p, hp, h⟩ := List.mem_flatMap.1 h
      rcases List.mem_append.1 h with h | h
      · rcases List.mem_append.1 h with h | h
        · exact absurd h dataType_not_mem_advisoryReferences
        · simp at h
      · exact ⟨p.type, List.mem_append_left _ (List.mem_map_of_mem hp),
          dataType_mem_referencesOf h⟩
  · obtain ⟨type, htype, h⟩ := List.mem_flatMap.1 h
    exact ⟨type, List.mem_append_right _ htype, dataType_mem_referencesOf h⟩

/-- The data types that a unit refers to are among the named types that it prints. -/
theorem mem_printedNames_of_mem_unitReferences {d : Plan.Domain} {n : TypeName}
    (h : .dataType n ∈ unitReferences d) : n ∈ d.printedNames := by
  suffices hprinted : ∃ type ∈ d.printed, type.namedType? = some n from
    List.mem_filterMap.2 hprinted
  simp only [unitReferences, List.mem_append, List.mem_flatMap] at h
  simp only [Plan.Domain.printed, List.mem_append, List.mem_flatMap]
  rcases h with ((h | ⟨t, ht, h⟩) | ⟨m, hm, h⟩) | ⟨s, hs, h⟩
  · exact absurd h dataType_not_mem_advisoryReferences
  · obtain ⟨type, htype, hn⟩ := exists_descriptor_of_mem_typeReferences h
    exact ⟨type, .inl (.inl ⟨t, ht, htype⟩), hn⟩
  · obtain ⟨type, htype, hn⟩ := exists_descriptor_of_mem_methodReferences h
    exact ⟨type, .inl (.inr ⟨m, hm, List.mem_append.1 htype⟩), hn⟩
  · rcases List.mem_append.1 h with h | h
    · exact absurd h dataType_not_mem_advisoryReferences
    · obtain rfl : n = s.payload := by simpa using h
      exact ⟨.named s.payload, .inr (List.mem_map_of_mem hs), rfl⟩

end Target.Java

namespace Compilation

open Schema (Document)
open Target.Java (CompilationUnit)

def unitOf (o : Options) (p : Plan.Protocol) (d : Plan.Domain) : CompilationUnit where
  options := { package := o.package, jackson := o.jackson }
  domains := p.protocol.domains
  plan := d

theorem coherent_unitOf {o : Options} {policy : String} {doc : Document} {p : Plan.Protocol}
    (h : plan policy doc = .ok p) (hdotless : ∀ d ∈ doc.domains, '.' ∉ d.name.toList)
    (hpackage : (Target.dottedParts o.package).head? ≠ some "java") {d : Plan.Domain}
    (hd : d ∈ p.domains) : (unitOf o p d).Coherent := by
  obtain ⟨hnames, hdistinct⟩ := names_of_plan h
  obtain ⟨overloads, bound, rfl, hbind, rfl⟩ := exists_bound_of_plan h
  obtain ⟨r, c, hr, hc, hbound⟩ := exists_bound_of_bind hbind
  obtain ⟨b, hb, rfl⟩ := List.mem_map.1 hd
  obtain ⟨declared, hdeclared, hbindsTo⟩ := Outcome.exists_left_of_forall₂ hbound hb
  have hexact := Plan.importsExactly_planOf overloads hr hc hbound hdeclared hb hbindsTo
  have hboundNames : bound.domains.map Binding.Domain.name =
      doc.domains.map Schema.Domain.name := by
    rw [← hnames, Plan.Protocol.planOf, List.map_map]
    rfl
  have hmentioned : ∀ n, .dataType n ∈ Target.Java.unitReferences (.planOf overloads b) →
      n ∈ b.mentioned := fun n hn =>
    Plan.printedNames_subset_mentioned overloads b
      (Target.Java.mem_printedNames_of_mem_unitReferences hn)
  refine
    { distinct := hboundNames ▸ hdistinct
      own_mem := hb
      dotless := ?_
      package := hpackage
      nodup := hexact.nodup
      known := ?_
      external := ?_
      declared := ?_ }
  · intro d hd
    have hname : d.name ∈ doc.domains.map Schema.Domain.name :=
      hboundNames ▸ List.mem_map_of_mem hd
    obtain ⟨d', hd', hname⟩ := List.mem_map.1 hname
    exact hname ▸ hdotless d' hd'
  · intro e he
    have hmem := hexact.ordered.subset he
    rw [← hboundNames] at hmem
    exact ⟨((hexact.mem_iff e).1 he).1, List.mem_map.1 hmem⟩
  · intro n hn hne
    exact (hexact.mem_iff n.domain).2
      ⟨hne, n, Target.Java.mem_printedNames_of_mem_unitReferences hn, rfl⟩
  · intro n hn
    have hn := hmentioned n hn
    exact ⟨hbindsTo.dot_not_mem_of_mem_mentioned hr hc hdeclared hn,
      Binding.Context.exists_type_of_mem_mentioned hr hc hbound hb hn⟩

/-- In every interface of a document that is compiled, types and annotations are references as they
are spelled there. These names reach the types that they are meant for and the imports have names of
their own, exactly when no other type takes a name that the interface uses. -/
theorem java_names_unambiguous_iff {o : Options} {stop : Cancellation} {doc : Document}
    {files : List Target.File} (h : compile o stop doc = .ok files) (htarget : o.target = "java")
    (hdotless : ∀ d ∈ doc.domains, '.' ∉ d.name.toList)
    (hpackage : (Target.dottedParts o.package).head? ≠ some "java") :
    ∃ policy p, o.choice = .ok (.java, policy) ∧ plan policy.name doc = .ok p ∧
      p.domains.map (fun d => d.domain.name) = doc.domains.map Schema.Domain.name ∧
      ∀ d ∈ p.domains, Target.Java.Spelled (unitOf o p d).scope d ∧
        ((unitOf o p d).Unambiguous ↔ (unitOf o p d).Unobscured) := by
  obtain ⟨language, policy, p, units, hchoice, hplan, -, -⟩ := compile_eq_ok h
  obtain rfl : language = .java := by
    rw [Options.choice, htarget] at hchoice
    obtain ⟨found, hfound, hchoice⟩ := Outcome.bind_eq_ok.1 hchoice
    obtain ⟨_, -, hchoice⟩ := Outcome.bind_eq_ok.1 hchoice
    obtain rfl : Language.java = found := Except.ok.inj hfound
    exact (Prod.mk.inj (Outcome.pure_eq_ok.1 hchoice)).1.symm
  exact ⟨policy, p, hchoice, hplan, (names_of_plan hplan).1, fun d hd =>
    ⟨Target.Java.spelled_of_complete _ (complete_of_plan hplan d hd),
      (coherent_unitOf hplan hdotless hpackage hd).unambiguous_iff⟩⟩

/-- A type named like an annotation of its unit, one named like its domain, and a type of another
domain. -/
def guarded : Document where
  domains := [
    { name := "Page"
      dependencies := ["Frame"]
      types := [
        { id := "Optional"
          shape := .record [
            { name := "frame", type := .reference "Frame.Node", optional := true }] },
        { id := "Page", shape := .enumeration ["front", "back"] }]
      commands := [
        { name := "open"
          parameters := [
            { name := "side", type := .reference "Page" },
            { name := "options", type := .reference "Optional", optional := true }] }] },
    { name := "Frame"
      types := [{ id := "Node", shape := .record [{ name := "id", type := .scalar .string }] }] }]

theorem java_names_unambiguous_guarded :
    ∃ files p, compile {} .never guarded = .ok files ∧ plan "tiered" guarded = .ok p ∧
      ∀ d ∈ p.domains, (unitOf {} p d).Unambiguous := by
  have hok : (compile {} .never guarded).isOk = true := by decide +kernel
  obtain ⟨files, hfiles⟩ := Outcome.exists_eq_ok_of_isOk hok
  obtain ⟨policy, p, hchoice, hp, -, hiff⟩ :=
    java_names_unambiguous_iff hfiles rfl (by decide) (by decide)
  obtain rfl : Plan.Overloads.tiered = policy := congrArg Prod.snd (Except.ok.inj hchoice)
  have hall : (plan "tiered" guarded).toOption.map
      (fun p => decide (∀ d ∈ p.domains, (unitOf {} p d).Unobscured)) = some true := by
    decide +kernel
  have hp : plan "tiered" guarded = .ok p := hp
  rw [hp] at hall
  have hunobscured := of_decide_eq_true (Option.some.inj hall)
  exact ⟨files, p, hfiles, hp, fun d hd => (hiff d hd).2.2 (hunobscured d hd)⟩

/-- A type named like an imported domain, a domain named like a type of the language, and one named
like an imported annotation. -/
def shadowed : Document where
  domains := [
    { name := "Debugger"
      dependencies := ["Runtime"]
      types := [{ id := "Runtime", shape := .enumeration ["v8"] }]
      commands := [
        { name := "inspect"
          parameters := [{ name := "object", type := .reference "Runtime.RemoteObject" }] }] },
    { name := "Runtime"
      types := [
        { id := "RemoteObject", shape := .record [{ name := "value", type := .scalar .any }] }] },
    { name := "Object" },
    { name := "Page"
      dependencies := ["Optional"]
      events := [
        { name := "shown"
          parameters := [{ name := "value", type := .reference "Optional.Value" }] }] },
    { name := "Optional", types := [{ id := "Value", shape := .record [] }] }]

/-- The type of the other domain is not found, the name of the language leads to the domain, and two
imports have one simple name. -/
theorem java_names_shadowed :
    ∃ files p, compile {} .never shadowed = .ok files ∧ plan "tiered" shadowed = .ok p ∧
      (∃ d ∈ p.domains, ∃ r ∈ Target.Java.unitReferences d,
        r.spelling (unitOf {} p d).scope = "Runtime.RemoteObject" ∧
          (unitOf {} p d).resolve "Runtime.RemoteObject" = []) ∧
      (∃ d ∈ p.domains, .object ∈ Target.Java.unitReferences d ∧
        (unitOf {} p d).resolve (Target.Java.Reference.object.spelling (unitOf {} p d).scope) =
          [.interface "Object"]) ∧
      (∃ d ∈ p.domains, ["protocol.Optional", "protocol.support.Optional"] ⊆
        (unitOf {} p d).importNames) ∧
      ¬ ∀ d ∈ p.domains, (unitOf {} p d).Unambiguous := by
  have hok : (compile {} .never shadowed).isOk = true := by decide +kernel
  obtain ⟨files, hfiles⟩ := Outcome.exists_eq_ok_of_isOk hok
  -- the imports are looked at before they are sorted
  have hall : (plan "tiered" shadowed).toOption.map (fun p => decide (
      (∃ d ∈ p.domains, ∃ r ∈ Target.Java.unitReferences d,
        r.spelling (unitOf {} p d).scope = "Runtime.RemoteObject" ∧
          (unitOf {} p d).resolve "Runtime.RemoteObject" = []) ∧
      (∃ d ∈ p.domains, .object ∈ Target.Java.unitReferences d ∧
        (unitOf {} p d).resolve (Target.Java.Reference.object.spelling (unitOf {} p d).scope) =
          [.interface "Object"]) ∧
      (∃ d ∈ p.domains, ∀ name ∈ ["protocol.Optional", "protocol.support.Optional"],
        name ∈ (unitOf {} p d).imported.map (unitOf {} p d).canonicalName))) = some true := by
    decide +kernel
  obtain ⟨p, hp, hall⟩ := Option.map_eq_some_iff.1 hall
  obtain ⟨hnested, hlanguage, d, hd, himports⟩ := of_decide_eq_true hall
  have himports : ["protocol.Optional", "protocol.support.Optional"] ⊆
      (unitOf {} p d).importNames := fun name hname =>
    CompilationUnit.importNames_perm.mem_iff.2 (himports name hname)
  have hp := Outcome.toOption_eq_some.1 hp
  refine ⟨files, p, hfiles, hp, hnested, hlanguage, ⟨d, hd, himports⟩, ?_⟩
  intro hunambiguous
  obtain ⟨d, hd, r, hr, hspelling, hresolve⟩ := hnested
  obtain ⟨e, hreaches, -⟩ := (hunambiguous d hd).reaches r hr
  rw [hspelling, hresolve] at hreaches
  cases hreaches

end Compilation

end WireBindings
