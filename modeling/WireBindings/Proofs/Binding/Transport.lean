import WireBindings.Proofs.Binding.Advisory
import WireBindings.Proofs.Binding.Embedding
import WireBindings.Proofs.Binding.Uniqueness

/-!
# Binding a domain in another document

Binding a domain looks up only what the domain refers to. In a larger document, and with other
descriptions and flags, it is bound to the same but for these, and for where its external domains
are listed.
-/

namespace WireBindings.Binding

open Schema (Shape Property TypeKey TypeDeclaration Resolution Document mapMembers mapProperty)

variable {f : Advisory → Advisory}

namespace Context

/-- A context finds whatever another finds, with what accompanies declarations changed. -/
structure Extends (f : Advisory → Advisory) (c c' : Context) : Prop where
  find : ∀ {key t}, c.resolution.table.find? key = some t →
    c'.resolution.table.find? key = some (t.mapAdvisory f)
  target : ∀ {owner reference key}, c.resolution.target? owner reference = some key →
    c'.resolution.target? owner reference = some key
  loops : ∀ {key t}, c.resolution.table.find? key = some t →
    (Relation.TransGen c'.resolution.LeadsTo key key ↔
      Relation.TransGen c.resolution.LeadsTo key key)
  nameAt : ∀ {domain path name}, c.nameAt domain path = .ok name →
    c'.nameAt domain path = .ok name

section

variable {doc doc' : Document} {r r' : Resolution} {c c' : Context}
  (hr : Resolution.ofDocument doc = .ok r) (hc : ofResolution r = .ok c)
  (hr' : Resolution.ofDocument doc' = .ok r') (hc' : ofResolution r' = .ok c')

include hr hc

theorem exists_domain_of_nameAt {domain name : String} {path : ShapePath}
    (h : c.nameAt domain path = .ok name) : ∃ d ∈ doc.domains, d.name = domain := by
  obtain ⟨-, -, hnamings⟩ := ofResolution_eq_ok hc
  rw [Resolution.document_eq hr] at hnamings
  rw [Context.nameAt] at h
  cases hlookup : c.namings.lookup domain with
  | none => simp [hlookup] at h
  | some n =>
      obtain ⟨before, after, hsplit, -⟩ := List.lookup_eq_some_iff.1 hlookup
      have hmem : (domain, n) ∈ c.namings := by simp [hsplit]
      obtain ⟨d, hd, hname, -⟩ := Outcome.exists_left_of_forall₂ hnamings hmem
      exact ⟨d, hd, hname.symm⟩

theorem find?_of_mem_types {d : Schema.Domain} (hd : d ∈ doc.domains) :
    ∀ t ∈ d.types, c.resolution.table.find? ⟨d.name, t.id⟩ = some t := by
  intro t ht
  rw [(ofResolution_eq_ok hc).1]
  exact (Resolution.find?_eq_some_iff hr).2 ⟨d, hd, rfl, ht, rfl⟩

include hr' hc'

theorem extends_of_embeds (h : doc.Embeds f doc') : c.Extends f c' := by
  have hres := (ofResolution_eq_ok hc).1
  have hres' := (ofResolution_eq_ok hc').1
  subst hres hres'
  refine ⟨Resolution.find?_of_embeds h hr hr', Resolution.target?_of_embeds h hr hr',
    Resolution.loops_iff_of_embeds h hr hr', ?_⟩
  intro domain path name hname
  obtain ⟨d, hd, rfl⟩ := exists_domain_of_nameAt hr hc hname
  obtain ⟨n, hn, hnameAt⟩ := exists_naming hr hc hd
  obtain ⟨n', hn', hnameAt'⟩ := exists_naming hr' hc' (h d hd)
  rw [Naming.ofDomain_mapAdvisory] at hn'
  obtain rfl := Except.ok.inj (hn.symm.trans hn')
  exact (hnameAt' path name).2 ((hnameAt path name).1 hname)

end

section

variable {c c' : Context} (hext : c.Extends f c') {domain : String}

include hext

theorem Unfolds.transport {path : ShapePath} {shape : Shape} {type : Descriptor}
    (h : c.Unfolds domain path shape type) :
    c'.Unfolds domain path (shape.mapAdvisory f) type := by
  induction h with
  | scalar domain path kind => exact .scalar domain path kind
  | enumeration literals hname => exact .enumeration literals (hext.nameAt hname)
  | record properties hname => exact .record _ (hext.nameAt hname)
  | array h ih => exact .array ih
  | toEnumeration htarget ht hshape =>
      exact .toEnumeration (hext.target htarget) (hext.find ht)
        (congrArg (Shape.mapAdvisory f) hshape)
  | toRecord htarget ht hshape =>
      exact .toRecord (hext.target htarget) (hext.find ht) (congrArg (Shape.mapAdvisory f) hshape)
  | toRecursive htarget ht halias hloop =>
      exact .toRecursive (hext.target htarget) (hext.find ht)
        (Shape.isAlias_mapAdvisory_iff.2 halias) ((hext.loops ht).2 hloop)
  | toBody htarget ht halias hloop h ih =>
      exact .toBody (hext.target htarget) (hext.find ht)
        (Shape.isAlias_mapAdvisory_iff.2 halias) (fun h => hloop ((hext.loops ht).1 h)) ih

theorem FieldsOf.transport {path : ShapePath} {properties : List Property} {fields : List Field}
    (h : c.FieldsOf domain path properties fields) :
    c'.FieldsOf domain path (mapMembers f properties) (fields.map (mapField f)) := by
  rw [Schema.mapMembers_eq_map]
  refine List.forall₂_map_left_iff.2 (List.forall₂_map_right_iff.2 (h.imp ?_))
  intro p x hx
  exact ⟨hx.name, hx.type.transport hext, hx.optional, congrArg f hx.advisory⟩

theorem FieldsOf.map_mapField_eq (hf : Advisory.Reduces f) {path : ShapePath}
    {properties : List Property} {fields fields' : List Field}
    (h : c.FieldsOf domain path properties fields)
    (h' : c'.FieldsOf domain path (mapMembers f properties) fields') :
    fields.map (mapField f) = fields'.map (mapField f) := by
  rw [← (h.transport hext).unique h', map_mapField_idem hf]

end

end Context

/-! ## Subjects -/

inductive Written.Revised (f : Advisory → Advisory) : Written → Written → Prop
  | mk {path : ShapePath} {shape : Shape} {description description' : String}
      (h : f { description := description' } = f { description }) :
      Revised f ⟨path, shape, description⟩ ⟨path, shape.mapAdvisory f, description'⟩

inductive Subject.Revised (f : Advisory → Advisory) : Subject → Subject → Prop
  | declared (t : TypeDeclaration) : Revised f (.declared t) (.declared (t.mapAdvisory f))
  | recursive (t : TypeDeclaration) : Revised f (.alias t) (.alias (t.mapAdvisory f))
  | written {w w' : Written} (h : w.Revised f w') : Revised f (.written w) (.written w')
  | result (command : Schema.Command) :
      Revised f (.result command) (.result (command.mapAdvisory f))
  | payload (event : Schema.Event) : Revised f (.payload event) (.payload (event.mapAdvisory f))

theorem Context.Realizes.transport (hf : Advisory.Reduces f) {c c' : Context}
    (hext : c.Extends f c') {domain : String} {s s' : Subject} {t : DataType}
    (hs : s.Revised f s') (h : c.Realizes domain s t) :
    ∃ t', c'.Realizes domain s' t' ∧ t'.mapAdvisory f = t.mapAdvisory f := by
  cases hs with
  | declared declaration =>
      cases h with
      | enumeration hshape =>
          refine ⟨_, .enumeration (congrArg (Shape.mapAdvisory f) hshape), ?_⟩
          simp only [DataType.mapAdvisory, TypeDeclaration.mapAdvisory, hf.idem]
      | record hshape hfields =>
          refine ⟨_, .record (congrArg (Shape.mapAdvisory f) hshape) (hfields.transport hext), ?_⟩
          simp only [DataType.mapAdvisory, TypeDeclaration.mapAdvisory, map_mapField_idem hf,
            hf.idem]
  | recursive declaration =>
      cases h with
      | recursive htarget =>
          refine ⟨_, .recursive (htarget.transport hext), ?_⟩
          simp only [DataType.mapAdvisory, TypeDeclaration.mapAdvisory, hf.idem]
  | written hw =>
      obtain ⟨hdescription⟩ := hw
      cases h with
      | writtenEnumeration hname =>
          refine ⟨_, .writtenEnumeration (hext.nameAt hname), ?_⟩
          simp only [DataType.mapAdvisory, hdescription]
      | writtenRecord hname hfields =>
          refine ⟨_, .writtenRecord (hext.nameAt hname) (hfields.transport hext), ?_⟩
          simp only [DataType.mapAdvisory, map_mapField_idem hf, hdescription]
  | result command =>
      cases h with
      | result hname hfields =>
          refine ⟨_, .result (hext.nameAt hname) (hfields.transport hext), ?_⟩
          simp only [DataType.mapAdvisory, Schema.Command.mapAdvisory, map_mapField_idem hf]
  | payload event =>
      cases h with
      | payload hname hfields =>
          refine ⟨_, .payload (hext.nameAt hname) (hfields.transport hext), ?_⟩
          simp only [DataType.mapAdvisory, Schema.Event.mapAdvisory, map_mapField_idem hf, hf.idem]

/-- A subject with what accompanies it changed has the same data type but for that. -/
theorem Context.Realizes.mapAdvisory_eq (hf : Advisory.Reduces f) {c c' : Context}
    (hext : c.Extends f c') {domain : String} {s s' : Subject} {t t' : DataType}
    (hs : s.Revised f s') (h : c.Realizes domain s t) (h' : c'.Realizes domain s' t') :
    t.mapAdvisory f = t'.mapAdvisory f := by
  obtain ⟨t'', ht'', heq⟩ := h.transport hf hext hs
  rw [h'.unique ht'', heq]

/-! ## Subjects of a domain -/

section

variable (hf : Advisory.Reduces f)

include hf

theorem writtenMembers_revised_of_types {properties : List Property}
    (htypes : ∀ p ∈ properties, ∀ description description' path,
      f { description := description' } = f { description } →
        List.Forall₂ (Written.Revised f) (writtenTypes description path p.type)
          (writtenTypes description' path (p.type.mapAdvisory f)))
    (path : ShapePath) :
    List.Forall₂ (Written.Revised f) (writtenMembers path properties)
      (writtenMembers path (mapMembers f properties)) := by
  induction properties with
  | nil => exact .nil
  | cons p properties ih =>
      obtain ⟨name, type, optional, advisory⟩ := p
      have hrest := ih fun p hp => htypes p (by simp [hp])
      exact Outcome.forall₂_append
        (htypes ⟨name, type, optional, advisory⟩ (by simp) _ _ _ (hf.description advisory)) hrest

theorem writtenTypes_revised {description description' : String} (path : ShapePath) (shape : Shape)
    (h : f { description := description' } = f { description }) :
    List.Forall₂ (Written.Revised f) (writtenTypes description path shape)
      (writtenTypes description' path (shape.mapAdvisory f)) := by
  induction shape generalizing description description' path with
  | reference target => exact .nil
  | scalar kind => exact .nil
  | enumeration literals => exact .cons (.mk h) .nil
  | record properties ih =>
      have hmembers := writtenMembers_revised_of_types hf
        (fun p hp description description' path h => ih p hp path h) (path ++ ["properties"])
      exact .cons (.mk h) hmembers
  | array item ih => exact ih _ h

theorem writtenMembers_revised (path : ShapePath) (properties : List Property) :
    List.Forall₂ (Written.Revised f) (writtenMembers path properties)
      (writtenMembers path (mapMembers f properties)) :=
  writtenMembers_revised_of_types hf
    (fun p _ _ _ path h => writtenTypes_revised hf path p.type h) path

theorem writtenInType_revised (t : TypeDeclaration) :
    List.Forall₂ (Written.Revised f) (writtenInType t) (writtenInType (t.mapAdvisory f)) := by
  rcases t.shape.enumeration_or_record_or_alias with ⟨l, hshape⟩ | ⟨l, hshape⟩ | halias
  · have hshape' : (t.mapAdvisory f).shape = .enumeration l :=
      congrArg (Shape.mapAdvisory f) hshape
    simp only [writtenInType, hshape, hshape']
    exact .nil
  · have hshape' : (t.mapAdvisory f).shape = .record (mapMembers f l) :=
      congrArg (Shape.mapAdvisory f) hshape
    rw [writtenInType_of_record hshape, writtenInType_of_record hshape']
    exact writtenMembers_revised hf (.ofType t.id) l
  · have halias' : (t.mapAdvisory f).shape.IsAlias := Shape.isAlias_mapAdvisory_iff.2 halias
    rw [writtenInType_of_alias halias, writtenInType_of_alias halias']
    exact writtenTypes_revised hf (.ofType t.id) t.shape (hf.description t.advisory)

theorem writtenInCommand_revised (command : Schema.Command) :
    List.Forall₂ (Written.Revised f) (writtenInCommand command)
      (writtenInCommand (command.mapAdvisory f)) :=
  Outcome.forall₂_append (writtenMembers_revised hf _ command.parameters)
    (writtenMembers_revised hf _ command.returns)

theorem writtenInEvent_revised (event : Schema.Event) :
    List.Forall₂ (Written.Revised f) (writtenInEvent event)
      (writtenInEvent (event.mapAdvisory f)) :=
  writtenMembers_revised hf _ event.parameters

omit hf in
theorem map_written_revised {l l' : List Written} (h : List.Forall₂ (Written.Revised f) l l') :
    List.Forall₂ (Subject.Revised f) (l.map .written) (l'.map .written) :=
  List.forall₂_map_left_iff.2 (List.forall₂_map_right_iff.2 (h.imp fun _ _ hw => .written hw))

theorem commandSubjects_revised (command : Schema.Command) :
    List.Forall₂ (Subject.Revised f) (Context.commandSubjects command)
      (Context.commandSubjects (command.mapAdvisory f)) := by
  have hempty : (command.mapAdvisory f).returns.isEmpty = command.returns.isEmpty :=
    Schema.isEmpty_mapMembers command.returns
  have hwritten := map_written_revised (writtenInCommand_revised hf command)
  rw [Context.commandSubjects, Context.commandSubjects, hempty]
  refine Outcome.forall₂_append hwritten ?_
  split
  · exact .nil
  · exact .cons (.result command) .nil

theorem eventSubjects_revised (event : Schema.Event) :
    List.Forall₂ (Subject.Revised f) (Context.eventSubjects event)
      (Context.eventSubjects (event.mapAdvisory f)) :=
  Outcome.forall₂_append (map_written_revised (writtenInEvent_revised hf event))
    (.cons (.payload event) .nil)

end

namespace Context

section

variable {c c' : Context} (hext : c.Extends f c') {d : Schema.Domain}
  (hfound : ∀ t ∈ d.types, c.resolution.table.find? ⟨d.name, t.id⟩ = some t)

include hext hfound

theorem declaredSubjects_revised {t : TypeDeclaration} (ht : t ∈ d.types) :
    List.Forall₂ (Subject.Revised f) (declaredSubjects c.resolution d t)
      (declaredSubjects c'.resolution (d.mapAdvisory f) (t.mapAdvisory f)) := by
  have hrecursive : c'.resolution.isRecursive ⟨d.name, t.id⟩ =
      c.resolution.isRecursive ⟨d.name, t.id⟩ := by
    rw [Bool.eq_iff_iff, Resolution.isRecursive_iff, Resolution.isRecursive_iff]
    exact hext.loops (hfound t ht)
  have hkey : (⟨(d.mapAdvisory f).name, (t.mapAdvisory f).id⟩ : TypeKey) = ⟨d.name, t.id⟩ := rfl
  have halias : (t.mapAdvisory f).shape.IsAlias ↔ t.shape.IsAlias := Shape.isAlias_mapAdvisory_iff
  unfold declaredSubjects
  rw [hkey, hrecursive]
  by_cases h : t.shape.IsAlias
  · rw [if_pos h, if_pos (halias.2 h)]
    split
    · exact .cons (.recursive t) .nil
    · exact .nil
  · rw [if_neg h, if_neg (mt halias.1 h)]
    exact .cons (.declared t) .nil

theorem foundSubjects_revised (hf : Advisory.Reduces f) :
    List.Forall₂ (Subject.Revised f) (foundSubjects c.resolution d)
      (foundSubjects c'.resolution (d.mapAdvisory f)) := by
  unfold foundSubjects
  refine Outcome.forall₂_append (Outcome.forall₂_append (Outcome.forall₂_append
    (Outcome.forall₂_flatMap_map ?_) (Outcome.forall₂_flatMap_map ?_))
    (Outcome.forall₂_flatMap_map ?_)) (Outcome.forall₂_flatMap_map ?_)
  · exact fun t ht => declaredSubjects_revised hext hfound ht
  · exact fun t _ => map_written_revised (writtenInType_revised hf t)
  · exact fun command _ => commandSubjects_revised hf command
  · exact fun event _ => eventSubjects_revised hf event

end

/-! ## Bound domains -/

section

variable (hf : Advisory.Reduces f) {c c' : Context} (hext : c.Extends f c') {domain : String}

include hf hext

theorem CommandOf.mapAdvisory_eq {command : Schema.Command} {bound bound' : Command}
    (h : c.CommandOf domain command bound)
    (h' : c'.CommandOf domain (command.mapAdvisory f) bound') :
    bound.mapAdvisory f = bound'.mapAdvisory f := by
  have hname : bound.name = bound'.name := h.name.trans h'.name.symm
  have hparameters := h.parameters.map_mapField_eq hext hf h'.parameters
  have hresult : bound.result = bound'.result := by
    have hreturns : (command.mapAdvisory f).returns = [] ↔ command.returns = [] := by
      rw [← List.isEmpty_iff, ← List.isEmpty_iff, Schema.Command.mapAdvisory,
        Schema.isEmpty_mapMembers]
    rcases h.result with ⟨hnone, hnil⟩ | ⟨t, ht, hsome, hne⟩
    · rcases h'.result with ⟨hnone', -⟩ | ⟨_, -, -, hne'⟩
      · rw [hnone, hnone']
      · exact absurd (hreturns.2 hnil) hne'
    · rcases h'.result with ⟨-, hnil'⟩ | ⟨t', ht', hsome', -⟩
      · exact absurd (hreturns.1 hnil') hne
      · have heq := ht.mapAdvisory_eq hf hext (.result command) ht'
        rw [hsome, hsome', DataType.typeName_eq_of_mapAdvisory_eq heq]
  have hadvisory : f bound.advisory = f bound'.advisory := by
    rw [h.advisory, h'.advisory]
    exact (hf.idem command.advisory).symm
  rw [Command.mapAdvisory, Command.mapAdvisory, hname, hparameters, hresult, hadvisory]

theorem EventOf.mapAdvisory_eq {event : Schema.Event} {bound bound' : Event}
    (h : c.EventOf domain event bound) (h' : c'.EventOf domain (event.mapAdvisory f) bound') :
    bound.mapAdvisory f = bound'.mapAdvisory f := by
  have hname : bound.name = bound'.name := h.name.trans h'.name.symm
  have hparameters := h.parameters.map_mapField_eq hext hf h'.parameters
  have hpayload : bound.payload = bound'.payload := by
    obtain ⟨t, ht, hpoints⟩ := h.payload
    obtain ⟨t', ht', hpoints'⟩ := h'.payload
    have heq := ht.mapAdvisory_eq hf hext (.payload event) ht'
    rw [hpoints, hpoints', DataType.typeName_eq_of_mapAdvisory_eq heq]
  have hadvisory : f bound.advisory = f bound'.advisory := by
    rw [h.advisory, h'.advisory]
    exact (hf.idem event.advisory).symm
  rw [Event.mapAdvisory, Event.mapAdvisory, hname, hparameters, hpayload, hadvisory]

/-- A domain is bound in a larger document to what it is bound to in a smaller one, but for what
accompanies declarations and for the list of external domains. -/
theorem Bound.mapAdvisory_eq {d : Schema.Domain}
    (hfound : ∀ t ∈ d.types, c.resolution.table.find? ⟨d.name, t.id⟩ = some t)
    {bound bound' : Domain} (h : c.Bound d bound) (h' : c'.Bound (d.mapAdvisory f) bound') :
    bound'.mapAdvisory f = { bound.mapAdvisory f with externals := bound'.externals } := by
  have hname : bound'.name = bound.name := h'.name.trans h.name.symm
  have htypes : bound.types.map (DataType.mapAdvisory f) =
      bound'.types.map (DataType.mapAdvisory f) := by
    obtain ⟨found, hfoundTypes, hrealize⟩ := h.types
    obtain ⟨found', hfoundTypes', hrealize'⟩ := h'.types
    have hsubjects := foundSubjects_revised hext hfound hf
    have heq := Outcome.map_eq_map_of_related hsubjects hrealize hrealize'
      fun _ _ _ _ _ hs ht ht' => ht.mapAdvisory_eq hf hext hs ht'
    rw [hfoundTypes, hfoundTypes', ← orderTypes_mapAdvisory, ← orderTypes_mapAdvisory, heq]
    rfl
  have hcommands : bound.commands.map (Command.mapAdvisory f) =
      bound'.commands.map (Command.mapAdvisory f) :=
    Outcome.map_eq_map_of_forall₂_map h.commands h'.commands fun _ _ _ _ hb hb' =>
      hb.mapAdvisory_eq hf hext hb'
  have hevents : bound.events.map (Event.mapAdvisory f) =
      bound'.events.map (Event.mapAdvisory f) :=
    Outcome.map_eq_map_of_forall₂_map h.events h'.events fun _ _ _ _ hb hb' =>
      hb.mapAdvisory_eq hf hext hb'
  have hadvisory : f bound.advisory = f bound'.advisory := by
    rw [h.advisory, h'.advisory]
    exact (hf.idem d.advisory).symm
  rw [Domain.mapAdvisory, Domain.mapAdvisory, hname, htypes, hcommands, hevents, hadvisory]

theorem Bound.uses_eq {d : Schema.Domain}
    (hfound : ∀ t ∈ d.types, c.resolution.table.find? ⟨d.name, t.id⟩ = some t)
    {bound bound' : Domain} (h : c.Bound d bound) (h' : c'.Bound (d.mapAdvisory f) bound') :
    bound'.uses = bound.uses := by
  have heq := congrArg Domain.uses (h.mapAdvisory_eq hf hext hfound h')
  rw [Domain.uses_mapAdvisory] at heq
  exact heq.trans bound.uses_mapAdvisory

end

end Context

end WireBindings.Binding
