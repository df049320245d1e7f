import WireBindings.Compilation
import WireBindings.Proofs.Outcome

/-!
# What can be printed

A descriptor is printed by either target exactly when it has no gap and names no kind of value that
is not listed. A planned domain without such descriptors is printed whole.
-/

namespace WireBindings

namespace Binding

/-- No gap, and only kinds of value that are listed. -/
def Descriptor.Complete : Descriptor → Prop
  | .primitive kind => ∀ name, kind ≠ .unlisted name
  | .opaqueValue | .named _ => True
  | .collection item => item.Complete
  | .absent => False

/-- The fields of a type are complete, and an alias has a target that is. -/
structure DataType.Complete (t : DataType) : Prop where
  fields : ∀ f ∈ t.fields, f.type.Complete
  kind : t.kind = .enumeration ∨ t.kind = .record ∨
    t.kind = .alias ∧ ∃ d, t.target = some d ∧ d.Complete

end Binding

namespace Plan

open Binding (Descriptor)

structure Signature.Complete (s : Signature) : Prop where
  parameters : ∀ p ∈ s.parameters, p.type.Complete
  returns : ∀ d, s.returns = some d → d.Complete

structure Domain.Complete (d : Domain) : Prop where
  types : ∀ t ∈ d.domain.types, t.Complete
  methods : ∀ m ∈ d.methods, m.Complete

end Plan

open Binding (Descriptor DataType Field Primitive)

/-! ## Java -/

namespace Target.Java

theorem exists_primitiveClass_iff {scope : Scope} {kind : Primitive} :
    (∃ text, primitiveClass scope kind = .ok text) ↔ ∀ name, kind ≠ .unlisted name := by
  cases kind <;> simp [primitiveClass]

theorem exists_typeText_iff (scope : Scope) {d : Descriptor} :
    (∃ text, typeText scope d = .ok text) ↔ d.Complete := by
  induction d with
  | primitive kind => exact exists_primitiveClass_iff
  | opaqueValue => exact iff_of_true ⟨_, rfl⟩ trivial
  | named type => exact iff_of_true ⟨_, rfl⟩ trivial
  | absent =>
      refine iff_of_false ?_ id
      rintro ⟨text, h⟩
      cases h
  | collection item ih =>
      rw [Descriptor.Complete, ← ih]
      constructor
      · rintro ⟨text, h⟩
        obtain ⟨text, htext, -⟩ := Outcome.bind_eq_ok.1 h
        exact ⟨text, htext⟩
      · rintro ⟨text, htext⟩
        exact ⟨_, by rw [typeText, htext]; rfl⟩

theorem itemOf_complete {d : Descriptor} (h : d.Complete) : (itemOf d).Complete := by
  cases d with
  | collection item => exact h
  | primitive kind => exact h
  | opaqueValue => exact h
  | named type => exact h
  | absent => exact h

theorem exists_fieldText (o : Options) (scope : Scope) {f : Field} (h : f.type.Complete) :
    ∃ text, fieldText o scope f = .ok text := by
  obtain ⟨text, htext⟩ := (exists_typeText_iff scope).2 h
  exact ⟨_, by rw [fieldText, htext]; rfl⟩

theorem exists_typeBody (o : Options) (scope : Scope) {t : DataType} (h : t.Complete) :
    ∃ body, typeBody o scope t = .ok body := by
  obtain ⟨fields, hfields⟩ := Outcome.exists_mapM fun f hf =>
    exists_fieldText o scope (h.fields f hf)
  unfold typeBody
  rcases h.kind with hkind | hkind | ⟨hkind, target, htarget, hcomplete⟩
  · simp only [hkind]
    exact ⟨_, rfl⟩
  · simp only [hkind, hfields]
    exact ⟨_, rfl⟩
  · obtain ⟨text, htext⟩ := (exists_typeText_iff scope).2 (itemOf_complete hcomplete)
    simp only [hkind, htarget, Option.getD_some, htext]
    exact ⟨_, rfl⟩

theorem exists_dataTypeText (o : Options) (scope : Scope) {t : DataType} (h : t.Complete) :
    ∃ text, dataTypeText o scope t = .ok text := by
  obtain ⟨body, hbody⟩ := exists_typeBody o scope h
  exact ⟨_, by rw [dataTypeText, hbody]; rfl⟩

theorem exists_methodText (scope : Scope) {m : Plan.Signature} (h : m.Complete) :
    ∃ text, methodText scope m = .ok text := by
  have hparameter : ∀ p ∈ m.parameters, ∃ text, parameterText scope p = .ok text := by
    intro p hp
    obtain ⟨text, htext⟩ := (exists_typeText_iff scope).2 (h.parameters p hp)
    exact ⟨_, by rw [parameterText, htext]; rfl⟩
  obtain ⟨parameters, hparameters⟩ := Outcome.exists_mapM hparameter
  rw [methodText, hparameters, Outcome.ok_bind]
  cases hreturns : m.returns with
  | none => exact ⟨_, rfl⟩
  | some d =>
      obtain ⟨text, htext⟩ := (exists_typeText_iff scope).2 (h.returns d hreturns)
      simp only [htext]
      exact ⟨_, rfl⟩

theorem exists_domainFile {o : Options} {version : String} {d : Plan.Domain} (h : d.Complete) :
    ∃ file, domainFile o version d = .ok file := by
  obtain ⟨types, htypes⟩ := Outcome.exists_mapM fun t ht =>
    exists_dataTypeText o (scopeOf o d.domain) (h.types t ht)
  obtain ⟨methods, hmethods⟩ := Outcome.exists_mapM fun m hm =>
    exists_methodText (scopeOf o d.domain) (h.methods m hm)
  have hsubscription : ∀ s ∈ d.subscriptions, ∃ text,
      subscriptionText (scopeOf o d.domain) s = .ok text := fun s _ => ⟨_, rfl⟩
  obtain ⟨subscriptions, hsubscriptions⟩ := Outcome.exists_mapM hsubscription
  rw [domainFile, htypes, Outcome.ok_bind, hmethods, Outcome.ok_bind, hsubscriptions]
  exact ⟨_, rfl⟩

end Target.Java

/-! ## Python -/

namespace Target.Python

theorem exists_primitiveType_iff {kind : Primitive} :
    (∃ text, primitiveType kind = .ok text) ↔ ∀ name, kind ≠ .unlisted name := by
  cases kind <;> simp [primitiveType]

theorem exists_typeText_iff (domain : String) (quoted : Bool) {d : Descriptor} :
    (∃ text, typeText domain quoted d = .ok text) ↔ d.Complete := by
  induction d with
  | primitive kind => exact exists_primitiveType_iff
  | opaqueValue => exact iff_of_true ⟨_, rfl⟩ trivial
  | named type => exact iff_of_true ⟨_, rfl⟩ trivial
  | absent =>
      refine iff_of_false ?_ id
      rintro ⟨text, h⟩
      cases h
  | collection item ih =>
      rw [Descriptor.Complete, ← ih]
      constructor
      · rintro ⟨text, h⟩
        obtain ⟨text, htext, -⟩ := Outcome.bind_eq_ok.1 h
        exact ⟨text, htext⟩
      · rintro ⟨text, htext⟩
        exact ⟨_, by rw [typeText, htext]; rfl⟩

theorem exists_fieldText (domain : String) {f : Field} (h : f.type.Complete) :
    ∃ text, fieldText domain f = .ok text := by
  obtain ⟨text, htext⟩ := (exists_typeText_iff domain _).2 h
  exact ⟨_, by rw [fieldText, htext]; rfl⟩

theorem exists_typeBody {t : DataType} (h : t.Complete) : ∃ body, typeBody t = .ok body := by
  obtain ⟨fields, hfields⟩ := Outcome.exists_mapM fun f hf =>
    exists_fieldText t.domain (h.fields f hf)
  unfold typeBody
  rcases h.kind with hkind | hkind | ⟨hkind, target, htarget, hcomplete⟩
  · simp only [hkind]
    exact ⟨_, rfl⟩
  · simp only [hkind, hfields]
    exact ⟨_, rfl⟩
  · obtain ⟨text, htext⟩ := (exists_typeText_iff t.domain true).2 hcomplete
    simp only [hkind, htarget, Option.getD_some, htext]
    exact ⟨_, rfl⟩

theorem exists_dataTypeText {t : DataType} (h : t.Complete) :
    ∃ text, dataTypeText t = .ok text := by
  obtain ⟨body, hbody⟩ := exists_typeBody h
  exact ⟨_, by rw [dataTypeText, hbody]; rfl⟩

theorem exists_parameterTexts (domain : String) (starred : Bool) {parameters : List Field}
    (h : ∀ p ∈ parameters, p.type.Complete) :
    ∃ texts, parameterTexts domain starred parameters = .ok texts := by
  induction parameters generalizing starred with
  | nil => exact ⟨[], rfl⟩
  | cons p parameters ih =>
      obtain ⟨type, htype⟩ :=
        (exists_typeText_iff domain false).2 (h p (by simp))
      obtain ⟨rest, hrest⟩ := ih (starred || p.optional) fun q hq => h q (by simp [hq])
      rw [parameterTexts, parameterText, htype, Outcome.ok_bind, pure_bind, hrest]
      exact ⟨_, rfl⟩

theorem exists_methodText (domain : String) {m : Plan.Signature} (h : m.Complete) :
    ∃ text, methodText domain m = .ok text := by
  obtain ⟨parameters, hparameters⟩ :=
    exists_parameterTexts domain false h.parameters
  rw [methodText, hparameters, Outcome.ok_bind]
  cases hreturns : m.returns with
  | none => exact ⟨_, rfl⟩
  | some d =>
      obtain ⟨text, htext⟩ :=
        (exists_typeText_iff domain false).2 (h.returns d hreturns)
      simp only [htext]
      exact ⟨_, rfl⟩

theorem exists_domainFile {package version : String} {d : Plan.Domain} (h : d.Complete) :
    ∃ file, domainFile package version d = .ok file := by
  obtain ⟨types, htypes⟩ := Outcome.exists_mapM fun t ht => exists_dataTypeText (h.types t ht)
  obtain ⟨methods, hmethods⟩ := Outcome.exists_mapM fun m hm =>
    exists_methodText d.domain.name (h.methods m hm)
  have hsubscription : ∀ s ∈ d.subscriptions, ∃ text,
      subscriptionText d.domain.name s = .ok text := fun s _ => ⟨_, rfl⟩
  obtain ⟨subscriptions, hsubscriptions⟩ := Outcome.exists_mapM hsubscription
  rw [domainFile, htypes, Outcome.ok_bind, hmethods, Outcome.ok_bind, hsubscriptions]
  exact ⟨_, rfl⟩

end Target.Python

namespace Compilation

theorem exists_domainFile (language : Language) (o : Options) (version : String)
    {d : Plan.Domain} (h : d.Complete) : ∃ file, domainFile language o version d = .ok file := by
  cases language with
  | java => exact Target.Java.exists_domainFile h
  | python => exact Target.Python.exists_domainFile h

theorem exists_emitDomains {emit : Plan.Domain → Except Failure Target.File} (asked : Nat)
    {domains : List Plan.Domain} (h : ∀ d ∈ domains, ∃ file, emit d = .ok file) :
    ∃ files, emitDomains emit .never asked domains = .ok files := by
  induction domains generalizing asked with
  | nil => exact ⟨[], rfl⟩
  | cons d domains ih =>
      obtain ⟨file, hfile⟩ := h d (by simp)
      obtain ⟨files, hfiles⟩ := ih (asked + 1) fun d hd => h d (by simp [hd])
      rw [emitDomains, hfile, hfiles]
      exact ⟨_, rfl⟩

end Compilation

end WireBindings
