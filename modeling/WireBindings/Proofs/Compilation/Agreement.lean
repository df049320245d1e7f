import WireBindings.Proofs.Binding.Completeness
import WireBindings.Proofs.Compilation.Stages
import WireBindings.Proofs.Identifier.Constant
import WireBindings.Proofs.Target.Printable

/-!
# What is planned is printed

Binding leaves no gap in a descriptor, so nothing that is planned fails to be printed. A check with
one policy therefore tells whether a compilation with any other succeeds.
-/

namespace WireBindings

namespace Binding.Context

variable {c : Context} {domain : String}

theorem Unfolds.complete {path : ShapePath} {shape : Schema.Shape} {type : Descriptor}
    (h : c.Unfolds domain path shape type) : type.Complete := by
  induction h with
  | scalar domain path kind => cases kind <;> simp [describeScalar, Descriptor.Complete]
  | enumeration literals hname => trivial
  | record properties hname => trivial
  | array h ih => exact ih
  | toEnumeration htarget ht hshape => trivial
  | toRecord htarget ht hshape => trivial
  | toRecursive htarget ht halias hloop => trivial
  | toBody htarget ht halias hloop h ih => exact ih

theorem FieldsOf.complete {path : ShapePath} {properties : List Schema.Property}
    {fields : List Field} (h : c.FieldsOf domain path properties fields) :
    ∀ f ∈ fields, f.type.Complete := by
  intro f hf
  obtain ⟨p, -, hp⟩ := Outcome.exists_left_of_forall₂ h hf
  exact hp.type.complete

theorem Realizes.complete {s : Subject} {t : DataType} (h : c.Realizes domain s t) :
    t.Complete := by
  have hnone : ∀ f ∈ ([] : List Field), f.type.Complete := by simp
  cases h with
  | enumeration hshape => exact ⟨hnone, .inl rfl⟩
  | record hshape hfields => exact ⟨hfields.complete, .inr (.inl rfl)⟩
  | recursive htarget => exact ⟨hnone, .inr (.inr ⟨rfl, _, rfl, htarget.complete⟩)⟩
  | writtenEnumeration hname => exact ⟨hnone, .inl rfl⟩
  | writtenRecord hname hfields => exact ⟨hfields.complete, .inr (.inl rfl)⟩
  | result hname hfields => exact ⟨hfields.complete, .inr (.inl rfl)⟩
  | payload hname hfields => exact ⟨hfields.complete, .inr (.inl rfl)⟩

theorem Bound.complete_of_mem_types {d : Schema.Domain} {bound : Domain} (h : c.Bound d bound)
    {t : DataType} (ht : t ∈ bound.types) : t.Complete := by
  obtain ⟨found, htypes, hrealize⟩ := h.types
  rw [htypes, (orderTypes_perm found d.name).mem_iff] at ht
  obtain ⟨s, -, hst⟩ := Outcome.exists_left_of_forall₂ hrealize ht
  exact hst.complete

theorem CommandOf.complete {command : Schema.Command} {bound : Command}
    (h : c.CommandOf domain command bound) : (Plan.fullSignature bound).Complete where
  parameters := h.parameters.complete
  returns := by
    rintro type htype
    rcases h.result with ⟨hnone, -⟩ | ⟨t, -, hsome, -⟩
    · cases hnone.symm.trans htype
    · obtain rfl := Option.some.inj (hsome.symm.trans htype)
      trivial

end Binding.Context

namespace Plan

open Binding (Context)

theorem Signature.Complete.short {s : Signature} (h : s.Complete) : s.short.Complete where
  parameters := fun p hp => h.parameters p (List.mem_of_mem_filter hp)
  returns := h.returns

theorem complete_of_mem_signaturesOf {policy : Overloads} {c : Binding.Command} {s : Signature}
    (h : (fullSignature c).Complete) (hs : s ∈ signaturesOf policy c) : s.Complete := by
  unfold signaturesOf at hs
  split at hs
  · rcases List.mem_cons.1 hs with rfl | hs
    · exact h.short
    · obtain rfl := List.mem_singleton.1 hs
      exact h
  · obtain rfl := List.mem_singleton.1 hs
    exact h

theorem complete_planOf {c : Context} {d : Schema.Domain} {bound : Binding.Domain}
    (policy : Overloads) (h : c.Bound d bound) : (Domain.planOf policy bound).Complete where
  types := fun t ht => h.complete_of_mem_types ht
  methods := by
    intro m hm
    obtain ⟨b, hb, hm⟩ := List.mem_flatMap.1 hm
    obtain ⟨command, -, hcommand⟩ := Outcome.exists_left_of_forall₂ h.commands hb
    exact complete_of_mem_signaturesOf hcommand.complete hm

end Plan

namespace Compilation

open Schema (Document)
open Plan (Overloads)

inductive Options.Expressible (o : Options) : Prop
  | java (policy : Overloads) (htarget : o.target = "java")
      (h : o.overloads = .ofTarget ∨ o.overloads = .named policy.name)
  | python (htarget : o.target = "python")
      (h : o.overloads = .ofTarget ∨ o.overloads = .named Overloads.full.name)

theorem Options.Expressible.exists_choice {o : Options} (h : o.Expressible) :
    ∃ language policy, o.choice = .ok (language, policy) := by
  obtain ⟨policy, htarget, hpolicy⟩ | ⟨htarget, hpolicy⟩ := h
  · have hlanguage : Language.ofName "java" = .ok .java := rfl
    rw [Options.choice, htarget, hlanguage, Outcome.ok_bind]
    rcases hpolicy with hpolicy | hpolicy
    · rw [hpolicy]
      exact ⟨_, _, rfl⟩
    · rw [hpolicy, Language.overloads]
      simp only [ofName_name]
      exact ⟨_, _, rfl⟩
  · have hlanguage : Language.ofName "python" = .ok .python := rfl
    rw [Options.choice, htarget, hlanguage, Outcome.ok_bind]
    rcases hpolicy with hpolicy | hpolicy
    · rw [hpolicy]
      exact ⟨_, _, rfl⟩
    · rw [hpolicy]
      exact ⟨_, _, rfl⟩

section

variable {doc : Document}

theorem complete_of_plan {policy : Overloads} {p : Plan.Protocol}
    (h : plan policy.name doc = .ok p) : ∀ d ∈ p.domains, d.Complete := by
  obtain ⟨bound, hbind, -⟩ := Outcome.bind_eq_ok.1 h
  obtain ⟨-, rfl⟩ := (plan_eq_ok_iff hbind).1 h
  obtain ⟨r, c, -, -, hbound⟩ := exists_bound_of_bind hbind
  intro d hd
  obtain ⟨b, hb, rfl⟩ := List.mem_map.1 hd
  obtain ⟨_, -, hb⟩ := Outcome.exists_left_of_forall₂ hbound hb
  exact Plan.complete_planOf policy hb

variable {o : Options} {language : Language} {policy : Overloads}
  (hchoice : o.choice = .ok (language, policy))

include hchoice

theorem compile_of_plan_error {stop : Cancellation} {f : Failure}
    (h : plan policy.name doc = .error f) : compile o stop doc = .error f := by
  rw [compile, hchoice, Outcome.ok_bind]
  simp only [h]
  rfl

theorem exists_compile {p : Plan.Protocol} (h : plan policy.name doc = .ok p) :
    ∃ files, compile o .never doc = .ok files := by
  obtain ⟨units, hunits⟩ := exists_emitDomains 0 fun d hd =>
    exists_domainFile language o doc.versionText (complete_of_plan h d hd)
  rw [compile, hchoice, Outcome.ok_bind]
  simp only [h, Outcome.ok_bind, hunits]
  exact ⟨_, rfl⟩

end

/-- Planning with one policy refuses what planning with another refuses, and for the same reason. -/
theorem plan_eq_error_of_policy {doc : Document} {policy : Overloads} {f : Failure}
    (h : plan policy.name doc = .error f) (policy' : Overloads) :
    plan policy'.name doc = .error f ∧ ∃ e, f = .compilation e := by
  cases hbind : bind doc with
  | error f' =>
      obtain rfl := Except.error.inj ((plan_of_bind_error hbind).symm.trans h)
      exact ⟨plan_of_bind_error hbind, bind_eq_error hbind⟩
  | ok bound =>
      rw [plan_of_bind hbind, Outcome.liftM_eq_error] at h
      obtain ⟨e, he, rfl⟩ := h
      rw [plan_of_bind hbind, Outcome.liftM_eq_error]
      exact ⟨⟨e, Plan.Protocol.ofBinding_eq_error_iff.2
        (Plan.Protocol.ofBinding_eq_error_iff.1 he), rfl⟩, e, rfl⟩

/-- Either a check of a document succeeds, everything that it plans can be printed by each target,
and every compilation succeeds; or all fail with the same compile error. -/
theorem check_agrees_with_compile (doc : Document) :
    (∃ p, plan Overloads.tiered.name doc = .ok p ∧
      (∀ d ∈ p.domains,
        (∀ t ∈ d.domain.types, ∀ pair ∈ Identifier.constants t.values, pair.1 ≠ "") ∧
        ∀ language o version, ∃ file, domainFile language o version d = .ok file) ∧
      ∀ o : Options, o.Expressible → ∃ files, compile o .never doc = .ok files) ∨
    ∃ e, plan Overloads.tiered.name doc = .error (.compilation e) ∧
      ∀ o : Options, o.Expressible → compile o .never doc = .error (.compilation e) := by
  cases hplan : plan Overloads.tiered.name doc with
  | ok p =>
      refine .inl ⟨p, rfl, ?_, ?_⟩
      · intro d hd
        exact ⟨fun _ _ _ hpair => Identifier.constants_ne_empty hpair,
          fun language o version =>
            exists_domainFile language o version (complete_of_plan hplan d hd)⟩
      · intro o ho
        obtain ⟨language, policy, hchoice⟩ := ho.exists_choice
        cases hplan' : plan policy.name doc with
        | ok p' => exact exists_compile hchoice hplan'
        | error f => cases hplan.symm.trans (plan_eq_error_of_policy hplan' .tiered).1
  | error f =>
      obtain ⟨-, e, rfl⟩ := plan_eq_error_of_policy hplan .tiered
      refine .inr ⟨e, rfl, ?_⟩
      intro o ho
      obtain ⟨language, policy, hchoice⟩ := ho.exists_choice
      exact compile_of_plan_error hchoice (plan_eq_error_of_policy hplan policy).1

theorem check_agrees_with_compile_forest :
    ∃ p files files', plan "tiered" Binding.forest = .ok p ∧
      compile { jackson := true } .never Binding.forest = .ok files ∧
      compile { target := "python" } .never Binding.forest = .ok files' := by
  have hplanned : (plan "tiered" Binding.forest).isOk = true := by decide +kernel
  obtain ⟨p, hp, -, hall⟩ | ⟨e, he, -⟩ := check_agrees_with_compile Binding.forest
  · obtain ⟨files, hfiles⟩ := hall { jackson := true } (.java .tiered rfl (.inl rfl))
    obtain ⟨files', hfiles'⟩ := hall { target := "python" } (.python rfl (.inl rfl))
    exact ⟨p, files, files', hp, hfiles, hfiles'⟩
  · obtain ⟨p, hp⟩ := Outcome.exists_eq_ok_of_isOk hplanned
    cases hp.symm.trans he

end Compilation

end WireBindings
