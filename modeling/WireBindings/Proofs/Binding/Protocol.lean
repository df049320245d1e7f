import WireBindings.Proofs.Binding.Census

/-!
# Binding a document

Once its names are found, a resolved document is bound without further refusal.  `Bound` says all
there is to say about a bound domain; what holds of bound protocols is derived from it.
-/

namespace WireBindings.Binding.Context

open Schema (Shape Property TypeKey TypeDeclaration Resolution Document)

/-- A bound command: its parameters, and a reference to the record of its result if it returns
something. -/
structure CommandOf (c : Context) (domain : String) (command : Schema.Command)
    (bound : Command) : Prop where
  name : bound.name = command.name
  parameters : c.FieldsOf domain (.commandParameters command.name) command.parameters
    bound.parameters
  result : bound.result = none ∧ command.returns = [] ∨ ∃ t, c.Realizes domain (.result command) t ∧
    bound.result = some (.named t.typeName) ∧ command.returns ≠ []
  advisory : bound.advisory = command.advisory

/-- A bound event: its parameters, which are the fields of its payload. -/
structure EventOf (c : Context) (domain : String) (event : Schema.Event) (bound : Event) :
    Prop where
  name : bound.name = event.name
  parameters : c.FieldsOf domain (.eventParameters event.name) event.parameters bound.parameters
  payload : ∃ t, c.Realizes domain (.payload event) t ∧ bound.payload = t.typeName
  advisory : bound.advisory = event.advisory

/-! ## Subjects in the order in which they are found -/

/-- The subject of a declared type, unless it is an alias that is expanded. -/
def declaredSubjects (r : Resolution) (d : Schema.Domain) (t : TypeDeclaration) : List Subject :=
  if t.shape.IsAlias then if r.isRecursive ⟨d.name, t.id⟩ then [.alias t] else []
  else [.declared t]

def commandSubjects (command : Schema.Command) : List Subject :=
  (writtenInCommand command).map .written ++
    if command.returns.isEmpty then [] else [.result command]

def eventSubjects (event : Schema.Event) : List Subject :=
  (writtenInEvent event).map .written ++ [.payload event]

def foundSubjects (r : Resolution) (d : Schema.Domain) : List Subject :=
  d.types.flatMap (declaredSubjects r d) ++
    d.types.flatMap (fun t => (writtenInType t).map .written) ++
    d.commands.flatMap commandSubjects ++ d.events.flatMap eventSubjects

/-- A bound domain: the ordered data types of its subjects, and everything else one for one. -/
structure Bound (c : Context) (d : Schema.Domain) (bound : Domain) : Prop where
  name : bound.name = d.name
  types : ∃ found, bound.types = orderTypes found d.name ∧
    c.RealizeAll d.name (foundSubjects c.resolution d) found
  commands : List.Forall₂ (c.CommandOf d.name) d.commands bound.commands
  events : List.Forall₂ (c.EventOf d.name) d.events bound.events
  externals : bound.externals = c.externals d.name bound.types bound.commands
  advisory : bound.advisory = d.advisory

theorem declaredType?_of_alias {c : Context} {domain : String} {t : TypeDeclaration}
    (h : t.shape.IsAlias) :
    c.declaredType? domain t =
      if c.recursive.contains ⟨domain, t.id⟩ then do
        return some { domain, name := t.id, kind := .alias,
                      target := some (← c.describe domain (.ofType t.id) t.shape),
                      advisory := t.advisory }
      else return none := by
  unfold declaredType?
  cases hshape : t.shape with
  | enumeration literals => exact absurd (hshape ▸ h) (Shape.not_isAlias_enumeration literals)
  | record properties => exact absurd (hshape ▸ h) (Shape.not_isAlias_record properties)
  | reference target => rfl
  | scalar kind => rfl
  | array item => rfl

theorem typeInlines_of_alias {c : Context} {domain : String} {t : TypeDeclaration}
    (h : t.shape.IsAlias) :
    c.typeInlines domain t =
      c.inlineTypes domain t.advisory.description (.ofType t.id) t.shape := by
  unfold typeInlines
  cases hshape : t.shape with
  | enumeration literals => exact absurd (hshape ▸ h) (Shape.not_isAlias_enumeration literals)
  | record properties => exact absurd (hshape ▸ h) (Shape.not_isAlias_record properties)
  | reference target => rfl
  | scalar kind => rfl
  | array item => rfl

theorem commandSubjects_perm (commands : List Schema.Command) :
    (commands.flatMap commandSubjects).Perm
      ((commands.flatMap writtenInCommand).map .written ++
        (commands.filter fun c => !c.returns.isEmpty).map .result) := by
  rw [Outcome.map_filter_eq_flatMap, List.map_flatMap]
  refine List.Perm.trans ?_ (List.flatMap_append_perm _ _ _).symm
  rw [List.flatMap_congr]
  intro command _
  unfold commandSubjects
  cases command.returns.isEmpty with
  | true => simp
  | false => simp

theorem eventSubjects_perm (events : List Schema.Event) :
    (events.flatMap eventSubjects).Perm
      ((events.flatMap writtenInEvent).map .written ++ events.map .payload) := by
  have hpayloads : events.map Subject.payload = events.flatMap fun e => [.payload e] :=
    List.map_eq_flatMap
  rw [List.map_flatMap, hpayloads]
  exact (List.flatMap_append_perm _ _ _).symm

section

variable {doc : Document} {r : Resolution} {c : Context} (hr : Resolution.ofDocument doc = .ok r)
  (hc : ofResolution r = .ok c) {d : Schema.Domain} (hd : d ∈ doc.domains)

include hr hc hd

theorem exists_declaredType {t : TypeDeclaration} (ht : t ∈ d.types) :
    ∃ type, c.declaredType? d.name t = .ok type ∧
      c.RealizeAll d.name (declaredSubjects c.resolution d t) type.toList := by
  unfold declaredSubjects
  rcases t.shape.enumeration_or_record_or_alias with ⟨l, hshape⟩ | ⟨l, hshape⟩ | halias
  · rw [if_neg (hshape ▸ Shape.not_isAlias_enumeration l)]
    refine ⟨some _, ?_, .cons (.enumeration hshape) .nil⟩
    simp only [declaredType?, hshape]
    rfl
  · rw [if_neg (hshape ▸ Shape.not_isAlias_record l)]
    obtain ⟨fields, hfields, hfieldsOf⟩ :=
      exists_fields_of_memberList hr hc hd (.type ht hshape)
    refine ⟨some _, ?_, .cons (.record hshape hfieldsOf) .nil⟩
    simp only [declaredType?, hshape, hfields, Outcome.ok_bind]
    rfl
  · rw [if_pos halias, declaredType?_of_alias halias, recursive_contains_eq hr hc]
    by_cases hrec : c.resolution.isRecursive ⟨d.name, t.id⟩ = true
    · obtain ⟨target, htarget, hunfolds⟩ := exists_describe_unfolds hr hc hd (.body ht halias)
      rw [if_pos hrec, if_pos hrec, htarget]
      exact ⟨_, rfl, .cons (.recursive hunfolds) .nil⟩
    · rw [if_neg hrec, if_neg hrec]
      exact ⟨none, rfl, .nil⟩

theorem exists_typeInlines {t : TypeDeclaration} (ht : t ∈ d.types) :
    ∃ types, c.typeInlines d.name t = .ok types ∧
      c.RealizeAll d.name ((writtenInType t).map .written) types := by
  rcases t.shape.enumeration_or_record_or_alias with ⟨l, hshape⟩ | ⟨l, hshape⟩ | halias
  · simp only [typeInlines, writtenInType, hshape]
    exact ⟨[], rfl, .nil⟩
  · simp only [typeInlines, writtenInType, hshape]
    exact exists_inlineMembers hr hc hd (.type ht hshape)
  · rw [typeInlines_of_alias halias, writtenInType_of_alias halias]
    exact exists_inlineTypes hr hc hd (.body ht halias)

theorem exists_resultType? {command : Schema.Command} (hcommand : command ∈ d.commands) :
    ∃ type?, c.resultType? d.name command = .ok type? ∧
      (type? = none ∧ command.returns = [] ∨ ∃ type, type? = some type ∧
        c.Realizes d.name (.result command) type ∧ command.returns ≠ []) := by
  cases hempty : command.returns.isEmpty with
  | true =>
      refine ⟨none, ?_, .inl ⟨rfl, List.isEmpty_iff.1 hempty⟩⟩
      simp only [resultType?, hempty, if_true]
      rfl
  | false =>
      have hmem : command ∈ returning d := List.mem_filter.2 ⟨hcommand, by simp [hempty]⟩
      have hpath : ShapePath.commandResult command.name ∈ synthesizedPaths d :=
        List.mem_append_left _ (List.mem_append_right _ (List.mem_map.2 ⟨command, hmem, rfl⟩))
      obtain ⟨name, hname⟩ := exists_nameAt hr hc hd hpath
      obtain ⟨fields, hfields, hfieldsOf⟩ :=
        exists_fields_of_memberList hr hc hd (.returns hcommand)
      refine ⟨some _, ?_, .inr ⟨_, rfl, .result hname hfieldsOf,
        List.isEmpty_eq_false_iff.1 hempty⟩⟩
      simp only [resultType?, hempty, hname, hfields, Outcome.ok_bind]
      rfl

theorem exists_payloadType {event : Schema.Event} (hevent : event ∈ d.events) :
    ∃ type, c.payloadType d.name event = .ok type ∧
      c.Realizes d.name (.payload event) type := by
  have hpath : ShapePath.eventPayload event.name ∈ synthesizedPaths d :=
    List.mem_append_right _ (List.mem_map.2 ⟨event, hevent, rfl⟩)
  obtain ⟨name, hname⟩ := exists_nameAt hr hc hd hpath
  obtain ⟨fields, hfields, hfieldsOf⟩ := exists_fields_of_memberList hr hc hd (.event hevent)
  refine ⟨_, ?_, .payload hname hfieldsOf⟩
  simp only [payloadType, hname, hfields, Outcome.ok_bind]
  rfl

theorem exists_commandInlines {command : Schema.Command} (hcommand : command ∈ d.commands) :
    ∃ types, c.commandInlines d.name command = .ok types ∧
      c.RealizeAll d.name (commandSubjects command) types := by
  obtain ⟨parameters, hparameters, hrealizeP⟩ :=
    exists_inlineMembers hr hc hd (.parameters hcommand)
  obtain ⟨returns, hreturns, hrealizeR⟩ := exists_inlineMembers hr hc hd (.returns hcommand)
  obtain ⟨type?, hresult, htype⟩ := exists_resultType? hr hc hd hcommand
  unfold commandSubjects writtenInCommand
  rw [List.map_append]
  refine ⟨parameters ++ returns ++ type?.toList, ?_,
    Outcome.forall₂_append (Outcome.forall₂_append hrealizeP hrealizeR) ?_⟩
  · rw [commandInlines, hparameters, Outcome.ok_bind, hreturns, Outcome.ok_bind, hresult]
    rfl
  · rcases htype with ⟨rfl, hnil⟩ | ⟨type, rfl, htype, hne⟩
    · rw [hnil]
      exact .nil
    · rw [List.isEmpty_eq_false_iff.2 hne]
      exact .cons htype .nil

theorem exists_eventInlines {event : Schema.Event} (hevent : event ∈ d.events) :
    ∃ types, c.eventInlines d.name event = .ok types ∧
      c.RealizeAll d.name (eventSubjects event) types := by
  obtain ⟨parameters, hparameters, hrealize⟩ := exists_inlineMembers hr hc hd (.event hevent)
  obtain ⟨type, hpayload, htype⟩ := exists_payloadType hr hc hd hevent
  refine ⟨_, ?_, Outcome.forall₂_append hrealize (.cons htype .nil)⟩
  rw [eventInlines, hparameters, Outcome.ok_bind, hpayload]
  rfl

theorem exists_foundTypes :
    ∃ types, c.foundTypes d = .ok types ∧
      c.RealizeAll d.name (foundSubjects c.resolution d) types := by
  obtain ⟨declared, hdeclared, hrealizeD⟩ :=
    Outcome.exists_mapM_of_forall fun t ht => exists_declaredType hr hc hd ht
  obtain ⟨ofTypes, hofTypes, hrealizeT⟩ :=
    Outcome.exists_mapM_of_forall fun t ht => exists_typeInlines hr hc hd ht
  obtain ⟨ofCommands, hofCommands, hrealizeC⟩ :=
    Outcome.exists_mapM_of_forall fun command hcommand =>
      exists_commandInlines hr hc hd hcommand
  obtain ⟨ofEvents, hofEvents, hrealizeE⟩ :=
    Outcome.exists_mapM_of_forall fun event hevent => exists_eventInlines hr hc hd hevent
  refine ⟨declared.filterMap id ++ ofTypes.flatten ++ ofCommands.flatten ++ ofEvents.flatten,
    ?_, ?_⟩
  · rw [foundTypes, hdeclared, Outcome.ok_bind, hofTypes, Outcome.ok_bind, hofCommands,
      Outcome.ok_bind, hofEvents]
    rfl
  · have hflatten : declared.filterMap id = (declared.map Option.toList).flatten :=
      List.filterMap_eq_flatMap_toList id declared
    have hrealizeD' := Outcome.forall₂_flatMap_flatten (List.forall₂_map_right_iff.2 hrealizeD)
    rw [hflatten]
    exact Outcome.forall₂_append (Outcome.forall₂_append (Outcome.forall₂_append hrealizeD'
      (Outcome.forall₂_flatMap_flatten hrealizeT)) (Outcome.forall₂_flatMap_flatten hrealizeC))
      (Outcome.forall₂_flatMap_flatten hrealizeE)

theorem isAlias_of_isRecursive {t : TypeDeclaration} (ht : t ∈ d.types)
    (hrec : c.resolution.isRecursive ⟨d.name, t.id⟩ = true) : t.shape.IsAlias := by
  obtain ⟨rfl, -, -⟩ := ofResolution_eq_ok hc
  obtain ⟨t', hfind', halias⟩ := Resolution.isAlias_eq_true.1 (Bool.and_eq_true_iff.1 hrec).1
  have hfind : c.resolution.table.find? ⟨d.name, t.id⟩ = some t :=
    (Resolution.find?_eq_some_iff hr).2 ⟨d, hd, rfl, ht, rfl⟩
  obtain rfl : t = t' := Option.some.inj (hfind.symm.trans hfind')
  exact halias

theorem declaredSubjects_perm :
    (d.types.flatMap (declaredSubjects c.resolution d)).Perm
      ((namedTypes d).map .declared ++ (recursiveTypes c.resolution d).map .alias) := by
  unfold namedTypes recursiveTypes
  rw [Outcome.map_filter_eq_flatMap, Outcome.map_filter_eq_flatMap]
  refine List.Perm.trans ?_ (List.flatMap_append_perm _ _ _).symm
  rw [List.flatMap_congr]
  intro t ht
  have halias := isAlias_of_isRecursive hr hc hd ht
  unfold declaredSubjects
  by_cases hshape : t.shape.IsAlias
  · simp [hshape]
  · have hrec : ¬ c.resolution.isRecursive ⟨d.name, t.id⟩ = true := fun h => hshape (halias h)
    simp [hshape, hrec]

theorem foundSubjects_perm :
    (foundSubjects c.resolution d).Perm (subjects c.resolution d) := by
  have hdeclared := declaredSubjects_perm hr hc hd
  have hcommands := commandSubjects_perm d.commands
  have hevents := eventSubjects_perm d.events
  unfold foundSubjects subjects
  refine ((((hdeclared.append_right _).append hcommands).append hevents)).trans ?_
  simp only [writtenInDomain, returning, List.map_append, List.map_flatMap, List.append_assoc]
  refine List.Perm.append_left _ (List.Perm.append_left _ (List.Perm.append_left _
    (List.Perm.append_left _ ?_)))
  rw [← List.append_assoc, ← List.append_assoc]
  exact List.perm_append_comm.append_right _

/-! ## Bound domains and protocols -/

theorem exists_command {command : Schema.Command} (hcommand : command ∈ d.commands) :
    ∃ bound, c.command d.name command = .ok bound ∧ c.CommandOf d.name command bound := by
  obtain ⟨parameters, hparameters, hfieldsOf⟩ :=
    exists_fields_of_memberList hr hc hd (.parameters hcommand)
  obtain ⟨type?, hresult, htype⟩ := exists_resultType? hr hc hd hcommand
  refine ⟨⟨command.name, parameters, type?.map fun t => .named t.typeName, command.advisory⟩, ?_,
    rfl, hfieldsOf, ?_, rfl⟩
  · rw [Context.command, hresult, Outcome.ok_bind, hparameters]
    rfl
  · rcases htype with ⟨rfl, hnil⟩ | ⟨type, rfl, htype, hne⟩
    · exact .inl ⟨rfl, hnil⟩
    · exact .inr ⟨type, htype, rfl, hne⟩

theorem exists_event {event : Schema.Event} (hevent : event ∈ d.events) :
    ∃ bound, c.event d.name event = .ok bound ∧ c.EventOf d.name event bound := by
  obtain ⟨type, hpayload, htype⟩ := exists_payloadType hr hc hd hevent
  refine ⟨⟨event.name, type.fields, type.typeName, event.advisory⟩, ?_, rfl, ?_,
    ⟨type, htype, rfl⟩, rfl⟩
  · rw [Context.event, hpayload]
    rfl
  · cases htype with
    | payload hname hfields => exact hfields

theorem exists_domain : ∃ bound, c.domain d = .ok bound ∧ c.Bound d bound := by
  obtain ⟨types, htypes, hrealize⟩ := exists_foundTypes hr hc hd
  obtain ⟨commands, hcommands, hcommandsOf⟩ :=
    Outcome.exists_mapM_of_forall fun command hcommand => exists_command hr hc hd hcommand
  obtain ⟨events, hevents, heventsOf⟩ :=
    Outcome.exists_mapM_of_forall fun event hevent => exists_event hr hc hd hevent
  let ordered := orderTypes types d.name
  refine ⟨{ name := d.name, types := ordered, commands, events,
            externals := c.externals d.name ordered commands, advisory := d.advisory }, ?_, rfl,
    ⟨types, rfl, hrealize⟩, hcommandsOf, heventsOf, rfl, rfl⟩
  rw [Context.domain, htypes, Outcome.ok_bind, hcommands, Outcome.ok_bind, hevents]
  rfl

/-- The data types of a bound domain are, up to their order, those of its subjects. -/
theorem Bound.exists_perm {bound : Domain} (h : c.Bound d bound) :
    ∃ types, bound.types.Perm types ∧ c.RealizeAll d.name (subjects c.resolution d) types := by
  obtain ⟨found, htypes, hrealize⟩ := h.types
  obtain ⟨types, hrealize', hperm⟩ :=
    Outcome.exists_perm_of_forall₂ (foundSubjects_perm hr hc hd) hrealize
  rw [htypes]
  exact ⟨types, (orderTypes_perm found d.name).trans hperm, hrealize'⟩

theorem Bound.exists_subject {bound : Domain} (h : c.Bound d bound) {t : DataType}
    (ht : t ∈ bound.types) : ∃ s ∈ subjects c.resolution d, c.Realizes d.name s t := by
  obtain ⟨types, hperm, hrealize⟩ := h.exists_perm hr hc hd
  exact Outcome.exists_left_of_forall₂ hrealize (hperm.mem_iff.1 ht)

theorem Bound.exists_type {bound : Domain} (h : c.Bound d bound) {s : Subject}
    (hs : s ∈ subjects c.resolution d) : ∃ t ∈ bound.types, c.Realizes d.name s t := by
  obtain ⟨types, hperm, hrealize⟩ := h.exists_perm hr hc hd
  obtain ⟨t, ht, hst⟩ := Outcome.exists_right_of_forall₂ hrealize hs
  exact ⟨t, hperm.mem_iff.2 ht, hst⟩

omit hd in
theorem exists_protocol :
    ∃ p, c.protocol = .ok p ∧ List.Forall₂ c.Bound doc.domains p.domains := by
  obtain ⟨domains, hdomains, hbound⟩ :=
    Outcome.exists_mapM_of_forall fun d hd => exists_domain hr hc hd
  have hres := (ofResolution_eq_ok hc).1
  refine ⟨{ domains, version := c.resolution.document.version }, ?_, hbound⟩
  rw [protocol, hres, Resolution.document_eq hr, hdomains]
  rfl

end

end WireBindings.Binding.Context

namespace WireBindings.Binding

open Schema (Resolution Document)

section

variable {doc : Document} {r : Resolution} (hr : Resolution.ofDocument doc = .ok r)

include hr

/-- Finding names is the only step of binding that can fail, and only for want of a free name. -/
theorem exists_protocol_or_nameCollision :
    (∃ p, Protocol.ofResolution r = .ok p) ∨
      ∃ domain base,
        Protocol.ofResolution r = .error (.compilation (.nameCollision domain base)) := by
  unfold Protocol.ofResolution
  cases hc : Context.ofResolution r with
  | ok c =>
      obtain ⟨p, hp, -⟩ := Context.exists_protocol hr hc
      exact .inl ⟨p, hp⟩
  | error e =>
      obtain ⟨domain, base, rfl⟩ := Context.ofResolution_eq_error hc
      exact .inr ⟨domain, base, rfl⟩

theorem exists_bound {p : Protocol} (hp : Protocol.ofResolution r = .ok p) :
    ∃ c, Context.ofResolution r = .ok c ∧ List.Forall₂ c.Bound doc.domains p.domains := by
  obtain ⟨c, hc, hp⟩ := Outcome.bind_eq_ok.1 hp
  rw [Outcome.liftM_eq_ok] at hc
  obtain ⟨p', hp', hbound⟩ := Context.exists_protocol hr hc
  obtain rfl := Except.ok.inj (hp.symm.trans hp')
  exact ⟨c, hc, hbound⟩

end

end WireBindings.Binding
