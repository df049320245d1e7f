import WireBindings.Proofs.Compilation.Units
import WireBindings.Proofs.Target.Escaping
import WireBindings.Proofs.Target.PythonWireNames

/-!
# Methods of Python classes

A class keeps the last method of each name only. The method of a command has the name of the
command, with an underscore behind a reserved word, and the method of an event has the words of its
name behind `on`. So methods of different commands and events can get one name.
-/

namespace WireBindings

namespace Target.Python

open Identifier (pascal)

/-! ## Methods of a class -/

def subscriptionName (event : String) : String := "on" ++ pascal event

/-- The names of the methods of a domain: those of its commands, then those of its events. -/
def methodNames (d : Schema.Domain) : List String :=
  d.commands.map (fun c => safeName c.name "") ++
    d.events.map fun e => safeName (subscriptionName e.name) ""

/-- No two methods of a domain get one name. -/
def MethodsApart (d : Schema.Domain) : Prop :=
  (∀ c ∈ d.commands, isReserved c.name = true → ∀ c' ∈ d.commands, c'.name ≠ c.name ++ "_") ∧
    (d.events.map fun e => pascal e.name).Nodup ∧
    ∀ c ∈ d.commands, ∀ e ∈ d.events, c.name ≠ subscriptionName e.name

instance (d : Schema.Domain) : Decidable (MethodsApart d) :=
  inferInstanceAs (Decidable (_ ∧ _ ∧ _))

theorem not_isReserved_subscriptionName (event : String) :
    ¬ isReserved (subscriptionName event) = true := by
  have hall : ∀ word ∈ reservedWords, word.toList.take 2 ≠ "on".toList := by decide
  intro h
  refine hall _ (isReserved_iff.1 h) ?_
  rw [subscriptionName, String.toList_append]
  rfl

theorem safeName_eq_subscriptionName_iff {name event : String} :
    safeName name "" = safeName (subscriptionName event) "" ↔ name = subscriptionName event := by
  have hsubscription := not_isReserved_subscriptionName event
  have hunderscore {word : String} (h : isReserved word = true) :
      subscriptionName event ≠ word ++ "_" := by
    have hall : ∀ word ∈ reservedWords, (word ++ "_").toList.take 2 ≠ "on".toList := by decide
    intro heq
    refine hall _ (isReserved_iff.1 h) ?_
    rw [← heq, subscriptionName, String.toList_append]
    rfl
  rw [safeName_eq_escape, safeName_eq_escape, escaping.escape_eq_escape_iff]
  constructor
  · rintro (h | ⟨hname, h⟩ | ⟨hevent, -⟩)
    · exact h
    · exact absurd h (hunderscore hname)
    · exact absurd hevent hsubscription
  · exact .inl

theorem nodup_methodNames_iff {d : Schema.Domain}
    (h : (d.commands.map Schema.Command.name).Nodup) :
    (methodNames d).Nodup ↔ MethodsApart d := by
  have hcommands := escaping.nodup_map_iff
    (fun c : Schema.Command => safeName_eq_escape c.name) h
  have hevents : (d.events.map fun e => safeName (subscriptionName e.name) "") =
      (d.events.map fun e => pascal e.name).map ("on" ++ ·) := by
    rw [List.map_map]
    refine List.map_congr_left fun e _ => ?_
    rw [safeName_eq_escape]
    exact escaping.escape_of_not_reserved (not_isReserved_subscriptionName e.name)
  have hinjective : Function.Injective ("on" ++ · : String → String) := fun _ _ =>
    (String.append_right_inj "on").1
  have hdisjoint : List.Disjoint (d.commands.map fun c => safeName c.name "")
      (d.events.map fun e => safeName (subscriptionName e.name) "") ↔
        ∀ c ∈ d.commands, ∀ e ∈ d.events, c.name ≠ subscriptionName e.name := by
    constructor
    · intro hnames c hc e he heq
      refine hnames (List.mem_map_of_mem hc) ?_
      rw [safeName_eq_subscriptionName_iff.2 heq]
      exact List.mem_map.2 ⟨e, he, rfl⟩
    · intro hapart name hcommand hevent
      obtain ⟨c, hc, rfl⟩ := List.mem_map.1 hcommand
      obtain ⟨e, he, heq⟩ := List.mem_map.1 hevent
      exact hapart c hc e he (safeName_eq_subscriptionName_iff.1 heq.symm)
  -- names of one kind are apart by themselves, and a name of both kinds belongs to a command that
  -- is named like a subscription
  rw [methodNames, List.nodup_append', hdisjoint, hcommands, hevents,
    List.nodup_map_iff hinjective, MethodsApart]
  exact Iff.rfl

/-! ## Printed methods -/

def definition (name : String) : String := "    def " ++ name ++ "("

theorem carries_methodText {domain : String} {m : Plan.Signature} {text : MethodText}
    (h : methodText domain m = .ok text) :
    Carries (render (methodLines text)) [definition (safeName m.name "")] := by
  obtain ⟨parameters, -, h⟩ := Outcome.bind_eq_ok.1 h
  have hname : text.name = safeName m.name "" := by
    dsimp only at h
    split at h
    all_goals
      obtain ⟨returns, -, h⟩ := Outcome.bind_eq_ok.1 h
      rw [← Outcome.pure_eq_ok.1 h]
  have hline : Carries
      ("    def " ++ text.name ++ "(" ++ text.parameters ++ ") -> " ++ text.returns ++ ":")
      [definition (safeName m.name "")] := by
    rw [hname]
    exact (((Carries.self.followed _).followed _).followed _).followed _
  exact hline.render_line [""] _

theorem carries_subscriptionMethod {domain : String} {s : Plan.Subscription}
    {text : SubscriptionText} (h : subscriptionText domain s = .ok text) :
    Carries (render (subscriptionLines text)) [definition (safeName s.name "")] := by
  obtain ⟨payload, -, h⟩ := Outcome.bind_eq_ok.1 h
  have hname : text.name = safeName s.name "" := by rw [← Outcome.pure_eq_ok.1 h]
  have hline : Carries ("    def " ++ text.name ++ "(self, handler: _support.EventHandler[" ++
      text.payload ++ "]) -> _support.EventListener:") [definition (safeName s.name "")] := by
    have hsplit : "(self, handler: _support.EventHandler[" =
      "(" ++ "self, handler: _support.EventHandler[" := rfl
    rw [hname, hsplit, ← String.append_assoc]
    exact ((Carries.self.followed _).followed _).followed _
  exact hline.render_line ["", "    @_support.event_name(" ++ text.eventName ++ ")"]
    (docstringLines 8 text.docstring ++ ["        ..."])

/-- A module defines the methods of its plan, in their order. -/
theorem carries_definitions {package version : String} {d : Plan.Domain} {file : File}
    (h : domainFile package version d = .ok file) :
    Carries file.text ((d.methods.map (fun m => safeName m.name "") ++
      d.subscriptions.map fun s => safeName s.name "").map definition) := by
  have hparts := carries_domainFile (fun _ => []) (fun m => [definition (safeName m.name "")])
    (fun s => [definition (safeName s.name "")]) (fun _ => .nil) carries_methodText
    carries_subscriptionMethod h
  rw [List.flatMap_eq_nil_iff.2 fun _ _ => rfl, List.nil_append, ← List.map_eq_flatMap,
    ← List.map_eq_flatMap] at hparts
  rwa [List.map_append, List.map_map, List.map_map]

end Target.Python

namespace Compilation

open Schema (Document)
open Target (Carries)
open Target.Python (MethodsApart definition methodNames safeName subscriptionName)

theorem choice_of_python {o : Options} {language : Language} {policy : Plan.Overloads}
    (htarget : o.target = "python") (h : o.choice = .ok (language, policy)) :
    language = .python ∧ policy = .full := by
  rw [Options.choice, htarget] at h
  obtain ⟨found, hfound, h⟩ := Outcome.bind_eq_ok.1 h
  obtain ⟨chosen, hpolicy, h⟩ := Outcome.bind_eq_ok.1 h
  obtain rfl : Language.python = found := Except.ok.inj hfound
  obtain ⟨rfl, rfl⟩ := Prod.mk.inj (Outcome.pure_eq_ok.1 h)
  refine ⟨rfl, ?_⟩
  cases hrequest : o.overloads with
  | ofTarget =>
      rw [hrequest] at hpolicy
      exact (Except.ok.inj hpolicy).symm
  | named name =>
      rw [hrequest] at hpolicy
      obtain ⟨asked, -, hpolicy⟩ := Outcome.bind_eq_ok.1 hpolicy
      cases asked with
      | full => exact (Except.ok.inj hpolicy).symm
      | tiered => cases hpolicy
  | unnamed =>
      rw [hrequest] at hpolicy
      cases hpolicy

/-- The planned methods of a domain have the names that its commands and events give them. -/
theorem methodNames_of_bound {c : Binding.Context} {declared : Schema.Domain}
    {bound : Binding.Domain} (h : c.Bound declared bound) :
    methodNames declared =
      ((Plan.Domain.planOf .full bound).methods.map fun m => safeName m.name "") ++
        (Plan.Domain.planOf .full bound).subscriptions.map fun s => safeName s.name "" := by
  have hmethods : (Plan.Domain.planOf .full bound).methods =
      bound.commands.map Plan.fullSignature := List.map_eq_flatMap.symm
  have hcommands : declared.commands.map (fun c => safeName c.name "") =
      bound.commands.map fun c => safeName c.name "" :=
    Outcome.map_eq_map_of_forall₂ h.commands fun _ _ _ hc => by rw [hc.name]
  have hevents : declared.events.map (fun e => safeName (subscriptionName e.name) "") =
      bound.events.map fun e => safeName (subscriptionName e.name) "" :=
    Outcome.map_eq_map_of_forall₂ h.events fun _ _ _ he => by rw [he.name]
  rw [methodNames, hcommands, hevents, hmethods, Plan.Domain.planOf, List.map_map, List.map_map]
  rfl

/-- What becomes of the commands and events of a domain in its module: it defines their methods, and
the names of these are distinct exactly if nothing in the domain puts two of them together. -/
structure DefinesMethods (o : Options) (version : String) (declared : Schema.Domain)
    (d : Plan.Domain) : Prop where
  name : d.domain.name = declared.name
  defined : ∃ file, Target.Python.domainFile o.package version d = .ok file ∧
    Carries file.text ((methodNames declared).map definition)
  nodup_iff : (methodNames declared).Nodup ↔ MethodsApart declared

/-- The module of every domain defines a method for each command and each event of the domain, and
no method takes the place of another exactly if nothing in the domain puts two of their names
together. -/
theorem python_methods_kept_iff {o : Options} {stop : Cancellation} {doc : Document}
    {files : List Target.File} (h : compile o stop doc = .ok files)
    (htarget : o.target = "python")
    (hcommands : ∀ d ∈ doc.domains, (d.commands.map Schema.Command.name).Nodup) :
    ∃ p, plan "full" doc = .ok p ∧
      List.Forall₂ (DefinesMethods o doc.versionText) doc.domains p.domains := by
  obtain ⟨language, policy, p, units, hchoice, hplan, hunits, -⟩ := compile_eq_ok h
  obtain ⟨rfl, rfl⟩ := choice_of_python htarget hchoice
  obtain ⟨bound, hbind, -⟩ := Outcome.bind_eq_ok.1 hplan
  obtain ⟨-, rfl⟩ := (plan_eq_ok_iff hbind).1 hplan
  obtain ⟨r, c, -, -, hbound⟩ := exists_bound_of_bind hbind
  refine ⟨_, hplan, List.forall₂_map_right_iff.2 ?_⟩
  apply Outcome.forall₂_imp_of_mem (Outcome.forall₂_and_mem hbound)
  rintro declared hdeclared b ⟨hb, hmem⟩
  have hplanned : Plan.Domain.planOf .full b ∈ (Plan.Protocol.planOf .full bound).domains :=
    List.mem_map_of_mem hmem
  obtain ⟨file, -, hfile⟩ := Outcome.exists_right_of_forall₂ hunits hplanned
  refine ⟨hb.name, ⟨file, hfile, ?_⟩, ?_⟩
  · rw [methodNames_of_bound hb]
    exact Target.Python.carries_definitions hfile
  · exact Target.Python.nodup_methodNames_iff (hcommands declared hdeclared)

/-- A reserved word, a command and an event of one name, and events with a word in common. -/
def distinguished : Document where
  domains := [
    { name := "Page"
      commands := [{ name := "class" }, { name := "on" }, { name := "frameMoved" }]
      events := [{ name := "frameMoved" }, { name := "frame_attached" }] }]

theorem python_methods_kept_distinguished :
    ∃ files p, compile { target := "python" } .never distinguished = .ok files ∧
      plan "full" distinguished = .ok p ∧
      List.Forall₂ (DefinesMethods { target := "python" } "") distinguished.domains p.domains ∧
      distinguished.domains.map methodNames =
        [["class_", "on", "frameMoved", "onFrameMoved", "onFrameAttached"]] ∧
      ∀ d ∈ distinguished.domains, (methodNames d).Nodup := by
  have hok : (compile { target := "python" } .never distinguished).isOk = true := by
    decide +kernel
  obtain ⟨files, hfiles⟩ := Outcome.exists_eq_ok_of_isOk hok
  obtain ⟨p, hp, hdefines⟩ := python_methods_kept_iff hfiles rfl (by decide)
  have hapart : ∀ d ∈ distinguished.domains, MethodsApart d := by decide +kernel
  refine ⟨files, p, hfiles, hp, hdefines, by decide +kernel, fun d hd => ?_⟩
  obtain ⟨planned, -, hplanned⟩ := Outcome.exists_right_of_forall₂ hdefines hd
  exact hplanned.nodup_iff.2 (hapart d hd)

/-- A reserved word and its escaped form, events with the same words, and a command that is named
like the subscription to an event. -/
def clashing : Document where
  domains := [
    { name := "A", commands := [{ name := "class" }, { name := "class_" }] },
    { name := "B", events := [{ name := "foo_bar" }, { name := "fooBar" }] },
    { name := "C", commands := [{ name := "onShown" }], events := [{ name := "shown" }] }]

/-- Two methods of each module have one name. -/
theorem python_methods_overwritten :
    (∀ d ∈ clashing.domains, (d.commands.map Schema.Command.name).Nodup ∧
      (d.events.map Schema.Event.name).Nodup) ∧
    ∃ files p, compile { target := "python" } .never clashing = .ok files ∧
      plan "full" clashing = .ok p ∧
      List.Forall₂
        (fun names d => ∃ file, Target.Python.domainFile "protocol" "" d = .ok file ∧
          Carries file.text (names.map definition))
        [["class_", "class_"], ["onFooBar", "onFooBar"], ["onShown", "onShown"]] p.domains := by
  refine ⟨by decide, ?_⟩
  have hok : (compile { target := "python" } .never clashing).isOk = true := by decide +kernel
  obtain ⟨files, hfiles⟩ := Outcome.exists_eq_ok_of_isOk hok
  obtain ⟨language, policy, p, units, hchoice, hp, hunits, -⟩ := compile_eq_ok hfiles
  obtain ⟨rfl, rfl⟩ := choice_of_python rfl hchoice
  have hnames : (plan "full" clashing).toOption.map (fun p => p.domains.map fun d =>
      d.methods.map (fun m => safeName m.name "") ++
        d.subscriptions.map fun s => safeName s.name "") =
      some [["class_", "class_"], ["onFooBar", "onFooBar"], ["onShown", "onShown"]] := by
    decide +kernel
  have hplan : plan "full" clashing = .ok p := hp
  rw [hplan] at hnames
  refine ⟨files, p, hfiles, hplan, ?_⟩
  rw [← Option.some.inj hnames, List.forall₂_map_left_iff, List.forall₂_same]
  intro d hd
  obtain ⟨file, -, hfile⟩ := Outcome.exists_right_of_forall₂ hunits hd
  exact ⟨file, hfile, Target.Python.carries_definitions hfile⟩

end Compilation

end WireBindings
