import WireBindings.Proofs.Binding.Expansion
import WireBindings.Proofs.Binding.Ordering

/-!
# What a domain has data types for

The subjects of a domain are what gets a data type in it: declared enumerations and records,
recursive aliases, types written in place, results and payloads. Binding a domain always succeeds
once its names are found, and gives one data type for each subject.
-/

namespace WireBindings.Binding

open Schema (Shape Property TypeKey TypeDeclaration Resolution Document)

/-- Something that a domain has a data type for. -/
inductive Subject
  | declared (t : TypeDeclaration)
  | alias (t : TypeDeclaration)
  | written (w : Written)
  | result (c : Schema.Command)
  | payload (e : Schema.Event)

def namedTypes (d : Schema.Domain) : List TypeDeclaration :=
  d.types.filter fun t => ¬ t.shape.IsAlias

def recursiveTypes (r : Resolution) (d : Schema.Domain) : List TypeDeclaration :=
  d.types.filter fun t => r.isRecursive ⟨d.name, t.id⟩

def subjects (r : Resolution) (d : Schema.Domain) : List Subject :=
  (namedTypes d).map .declared ++ (recursiveTypes r d).map .alias ++
    (writtenInDomain d).map .written ++ (returning d).map .result ++ d.events.map .payload

section

variable {r : Resolution} {d : Schema.Domain}

@[simp] theorem declared_mem_subjects {t : TypeDeclaration} :
    .declared t ∈ subjects r d ↔ t ∈ d.types ∧ ¬ t.shape.IsAlias := by
  simp [subjects, namedTypes]

@[simp] theorem alias_mem_subjects {t : TypeDeclaration} :
    .alias t ∈ subjects r d ↔ t ∈ d.types ∧ r.isRecursive ⟨d.name, t.id⟩ = true := by
  simp [subjects, recursiveTypes]

@[simp] theorem written_mem_subjects {w : Written} :
    .written w ∈ subjects r d ↔ w ∈ writtenInDomain d := by
  simp [subjects]

@[simp] theorem result_mem_subjects {c : Schema.Command} :
    .result c ∈ subjects r d ↔ c ∈ returning d := by
  simp [subjects]

@[simp] theorem payload_mem_subjects {e : Schema.Event} :
    .payload e ∈ subjects r d ↔ e ∈ d.events := by
  simp [subjects]

end

namespace Context

/-- The field of a property below a path: everything is kept, and its type is the unfolding. -/
structure FieldOf (c : Context) (domain : String) (path : ShapePath) (p : Property) (f : Field) :
    Prop where
  name : f.name = p.name
  type : c.Unfolds domain (path ++ [p.name]) p.type f.type
  optional : f.optional = p.optional
  advisory : f.advisory = p.advisory

def FieldsOf (c : Context) (domain : String) (path : ShapePath) :
    List Property → List Field → Prop := List.Forall₂ (c.FieldOf domain path)

inductive Realizes (c : Context) (domain : String) : Subject → DataType → Prop
  | enumeration {t : TypeDeclaration} {literals : List String}
      (hshape : t.shape = .enumeration literals) :
      Realizes c domain (.declared t)
        { domain, name := t.id, kind := .enumeration, values := literals, advisory := t.advisory }
  | record {t : TypeDeclaration} {properties : List Property} {fields : List Field}
      (hshape : t.shape = .record properties)
      (hfields : c.FieldsOf domain (.ofType t.id) properties fields) :
      Realizes c domain (.declared t)
        { domain, name := t.id, kind := .record, fields, advisory := t.advisory }
  | recursive {t : TypeDeclaration} {target : Descriptor}
      (htarget : c.Unfolds domain (.ofType t.id) t.shape target) :
      Realizes c domain (.alias t)
        { domain, name := t.id, kind := .alias, target := some target, advisory := t.advisory }
  | writtenEnumeration {path : ShapePath} {literals : List String} {description name : String}
      (hname : c.nameAt domain path = .ok name) :
      Realizes c domain (.written ⟨path, .enumeration literals, description⟩)
        { domain, name, kind := .enumeration, origin := .inline, values := literals,
          advisory := { description } }
  | writtenRecord {path : ShapePath} {properties : List Property} {description name : String}
      {fields : List Field} (hname : c.nameAt domain path = .ok name)
      (hfields : c.FieldsOf domain (path ++ ["properties"]) properties fields) :
      Realizes c domain (.written ⟨path, .record properties, description⟩)
        { domain, name, kind := .record, origin := .inline, fields, advisory := { description } }
  | result {command : Schema.Command} {name : String} {fields : List Field}
      (hname : c.nameAt domain (.commandResult command.name) = .ok name)
      (hfields : c.FieldsOf domain (.commandReturns command.name) command.returns fields) :
      Realizes c domain (.result command)
        { domain, name, kind := .record, origin := .result, fields,
          advisory := { description := resultDescription domain command.name } }
  | payload {event : Schema.Event} {name : String} {fields : List Field}
      (hname : c.nameAt domain (.eventPayload event.name) = .ok name)
      (hfields : c.FieldsOf domain (.eventParameters event.name) event.parameters fields) :
      Realizes c domain (.payload event)
        { domain, name, kind := .record, origin := .event, fields, advisory := event.advisory }

def RealizeAll (c : Context) (domain : String) : List Subject → List DataType → Prop :=
  List.Forall₂ (c.Realizes domain)

theorem exists_inlineMembers_of_types {c : Context} {d : Schema.Domain}
    {properties : List Property} {path : ShapePath}
    (htypes : ∀ p ∈ properties, ∃ types,
      c.inlineTypes d.name p.advisory.description (path ++ [p.name]) p.type = .ok types ∧
        c.RealizeAll d.name
          ((writtenTypes p.advisory.description (path ++ [p.name]) p.type).map .written) types) :
    ∃ types, c.inlineMembers d.name path properties = .ok types ∧
      c.RealizeAll d.name ((writtenMembers path properties).map .written) types := by
  induction properties with
  | nil => exact ⟨[], rfl, .nil⟩
  | cons p properties ih =>
      obtain ⟨first, hfirst, hrealize⟩ := htypes p (by simp)
      obtain ⟨rest, hrest, hrealizes⟩ := ih fun p hp => htypes p (by simp [hp])
      obtain ⟨name, type, optional, advisory⟩ := p
      refine ⟨first ++ rest, ?_, ?_⟩
      · rw [inlineMembers, hfirst, Outcome.ok_bind, hrest]
        rfl
      · rw [writtenMembers, List.map_append]
        exact Outcome.forall₂_append hrealize hrealizes

section

variable {doc : Document} {r : Resolution} {c : Context} (hr : Resolution.ofDocument doc = .ok r)
  (hc : ofResolution r = .ok c) {d : Schema.Domain} (hd : d ∈ doc.domains)

include hr hc hd

theorem exists_fields {path : ShapePath} {properties : List Property}
    (hstands : ∀ p ∈ properties, Stands d (path ++ [p.name]) p.type) :
    ∃ fields, c.fields d.name path properties = .ok fields ∧
      c.FieldsOf d.name path properties fields := by
  apply Outcome.exists_mapM_of_forall
  intro p hp
  obtain ⟨type, htype, hunfolds⟩ := exists_describe_unfolds hr hc hd (hstands p hp)
  refine ⟨{ name := p.name, type, optional := p.optional, advisory := p.advisory }, ?_,
    ⟨rfl, hunfolds, rfl, rfl⟩⟩
  rw [field, htype]
  rfl

theorem exists_fields_of_memberList {path : ShapePath} {properties : List Property}
    (h : MemberList d path properties) :
    ∃ fields, c.fields d.name path properties = .ok fields ∧
      c.FieldsOf d.name path properties fields :=
  exists_fields hr hc hd fun _ hp => .member h hp

theorem exists_inlineTypes {description : String} {path : ShapePath} {shape : Shape}
    (hstands : Stands d path shape) :
    ∃ types, c.inlineTypes d.name description path shape = .ok types ∧
      c.RealizeAll d.name ((writtenTypes description path shape).map .written) types := by
  induction shape generalizing description path with
  | reference target => exact ⟨[], rfl, .nil⟩
  | scalar kind => exact ⟨[], rfl, .nil⟩
  | enumeration literals =>
      have hpath : path ∈ synthesizedPaths d := hstands.path_mem (by simp [writtenTypes])
      obtain ⟨name, hname⟩ := exists_nameAt hr hc hd hpath
      refine ⟨_, ?_, .cons (.writtenEnumeration hname) .nil⟩
      rw [inlineTypes, hname]
      rfl
  | record properties ih =>
      have hpath : path ∈ synthesizedPaths d := hstands.path_mem (by simp [writtenTypes])
      obtain ⟨name, hname⟩ := exists_nameAt hr hc hd hpath
      obtain ⟨fields, hfields, hfieldsOf⟩ :=
        exists_fields hr hc hd fun _ hp => hstands.property hp
      obtain ⟨types, htypes, hrealize⟩ :=
        exists_inlineMembers_of_types fun p hp =>
          ih p hp (hstands.property hp)
      refine ⟨_, ?_, .cons (.writtenRecord hname hfieldsOf) hrealize⟩
      rw [inlineTypes, hname, Outcome.ok_bind, hfields, Outcome.ok_bind, htypes]
      rfl
  | array item ih => exact ih hstands.item

theorem exists_inlineMembers {path : ShapePath} {properties : List Property}
    (h : MemberList d path properties) :
    ∃ types, c.inlineMembers d.name path properties = .ok types ∧
      c.RealizeAll d.name ((writtenMembers path properties).map .written) types :=
  exists_inlineMembers_of_types fun _ hp =>
    exists_inlineTypes hr hc hd (.member h hp)

end

end Context

end WireBindings.Binding
