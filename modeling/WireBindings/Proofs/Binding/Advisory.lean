import WireBindings.Proofs.Binding.Protocol
import WireBindings.Proofs.Schema.Advisory

/-!
# Bound protocols with changed descriptions and flags

Changing what accompanies declarations changes no synthesized name, and neither the order of data
types nor what they refer to.
-/

namespace WireBindings.Binding

variable {f : Advisory → Advisory}

def mapField (f : Advisory → Advisory) (x : Field) : Field := { x with advisory := f x.advisory }

def DataType.mapAdvisory (f : Advisory → Advisory) (t : DataType) : DataType :=
  { t with fields := t.fields.map (mapField f), advisory := f t.advisory }

def Command.mapAdvisory (f : Advisory → Advisory) (c : Command) : Command :=
  { c with parameters := c.parameters.map (mapField f), advisory := f c.advisory }

def Event.mapAdvisory (f : Advisory → Advisory) (e : Event) : Event :=
  { e with parameters := e.parameters.map (mapField f), advisory := f e.advisory }

def Domain.mapAdvisory (f : Advisory → Advisory) (d : Domain) : Domain :=
  { d with
    types := d.types.map (DataType.mapAdvisory f)
    commands := d.commands.map (Command.mapAdvisory f)
    events := d.events.map (Event.mapAdvisory f)
    advisory := f d.advisory }

def Protocol.mapAdvisory (f : Advisory → Advisory) (p : Protocol) : Protocol :=
  { p with domains := p.domains.map (Domain.mapAdvisory f) }

/-! ## Changing twice, and changing nothing -/

theorem map_mapField_idem (hf : Advisory.Reduces f) (fields : List Field) :
    (fields.map (mapField f)).map (mapField f) = fields.map (mapField f) := by
  rw [List.map_map]
  refine List.map_congr_left fun x _ => ?_
  rw [Function.comp_apply, mapField, mapField, hf.idem]

theorem mapField_id : mapField id = id := rfl

theorem DataType.mapAdvisory_id (t : DataType) : t.mapAdvisory id = t := by
  rw [mapAdvisory, mapField_id, List.map_id]
  rfl

theorem Command.mapAdvisory_id (c : Command) : c.mapAdvisory id = c := by
  rw [mapAdvisory, mapField_id, List.map_id]
  rfl

theorem Event.mapAdvisory_id (e : Event) : e.mapAdvisory id = e := by
  rw [mapAdvisory, mapField_id, List.map_id]
  rfl

theorem Domain.mapAdvisory_id (d : Domain) : d.mapAdvisory id = d := by
  have htypes : DataType.mapAdvisory id = id := funext DataType.mapAdvisory_id
  have hcommands : Command.mapAdvisory id = id := funext Command.mapAdvisory_id
  have hevents : Event.mapAdvisory id = id := funext Event.mapAdvisory_id
  rw [mapAdvisory, htypes, hcommands, hevents, List.map_id, List.map_id, List.map_id]
  rfl

/-! ## Names -/

namespace Naming

open Schema (Shape Property TypeDeclaration mapMembers)

theorem nameMembers_mapMembers_of_types {properties : List Property}
    (htypes : ∀ p ∈ properties, ∀ owner member path n,
      nameShape owner member path n (p.type.mapAdvisory f) = nameShape owner member path n p.type)
    (owner : String) (path : ShapePath) (n : Naming) :
    nameMembers owner path n (mapMembers f properties) = nameMembers owner path n properties := by
  induction properties generalizing n with
  | nil => rfl
  | cons p properties ih =>
      obtain ⟨name, type, optional, advisory⟩ := p
      have htype := htypes ⟨name, type, optional, advisory⟩ (by simp) owner name (path ++ [name]) n
      have hrest := ih fun p hp => htypes p (by simp [hp])
      simp only [mapMembers, nameMembers, htype, hrest]

theorem nameShape_mapAdvisory (owner member : String) (path : ShapePath) (n : Naming)
    (shape : Shape) :
    nameShape owner member path n (shape.mapAdvisory f) = nameShape owner member path n shape := by
  induction shape generalizing owner member path n with
  | reference target => rfl
  | scalar kind => rfl
  | enumeration literals => rfl
  | record properties ih =>
      rw [Shape.mapAdvisory, nameShape, nameShape]
      simp only [nameMembers_mapMembers_of_types ih]
  | array item ih => exact ih owner member (path ++ ["items"]) n

theorem nameMembers_mapMembers (owner : String) (path : ShapePath) (n : Naming)
    (properties : List Property) :
    nameMembers owner path n (mapMembers f properties) = nameMembers owner path n properties :=
  nameMembers_mapMembers_of_types (fun p _ owner member path n =>
    nameShape_mapAdvisory owner member path n p.type) owner path n

theorem nameResults_map (n : Naming) (commands : List Schema.Command) :
    n.nameResults (commands.map (Schema.Command.mapAdvisory f)) = n.nameResults commands := by
  induction commands generalizing n with
  | nil => rfl
  | cons c commands ih =>
      simp only [List.map_cons, nameResults, Schema.Command.mapAdvisory, Schema.isEmpty_mapMembers,
        ih]

theorem namePayloads_map (n : Naming) (events : List Schema.Event) :
    n.namePayloads (events.map (Schema.Event.mapAdvisory f)) = n.namePayloads events := by
  induction events generalizing n with
  | nil => rfl
  | cons e events ih => simp only [List.map_cons, namePayloads, Schema.Event.mapAdvisory, ih]

theorem nameTypes_map (n : Naming) (types : List TypeDeclaration) :
    n.nameTypes (types.map (TypeDeclaration.mapAdvisory f)) = n.nameTypes types := by
  induction types generalizing n with
  | nil => rfl
  | cons t types ih =>
      rw [List.map_cons, nameTypes, nameTypes, TypeDeclaration.mapAdvisory]
      cases t.shape with
      | reference target => simp only [Shape.mapAdvisory, ih]
      | scalar kind => simp only [Shape.mapAdvisory, ih]
      | enumeration literals => simp only [Shape.mapAdvisory, ih]
      | record properties => simp only [Shape.mapAdvisory, nameMembers_mapMembers, ih]
      | array item =>
          have hitem := nameShape_mapAdvisory (f := f) t.id "Item" (.ofType t.id) n (.array item)
          rw [Shape.mapAdvisory] at hitem ⊢
          simp only [hitem, ih]

theorem nameCommands_map (n : Naming) (commands : List Schema.Command) :
    n.nameCommands (commands.map (Schema.Command.mapAdvisory f)) = n.nameCommands commands := by
  induction commands generalizing n with
  | nil => rfl
  | cons c commands ih =>
      simp only [List.map_cons, nameCommands, Schema.Command.mapAdvisory, nameMembers_mapMembers,
        ih]

theorem nameEvents_map (n : Naming) (events : List Schema.Event) :
    n.nameEvents (events.map (Schema.Event.mapAdvisory f)) = n.nameEvents events := by
  induction events generalizing n with
  | nil => rfl
  | cons e events ih =>
      simp only [List.map_cons, nameEvents, Schema.Event.mapAdvisory, nameMembers_mapMembers, ih]

theorem ofDomain_mapAdvisory (d : Schema.Domain) : ofDomain (d.mapAdvisory f) = ofDomain d := by
  have hregistry : ∀ r : NameRegistry,
      (d.types.map (TypeDeclaration.mapAdvisory f)).foldl (fun r t => r.reserve t.id) r =
        d.types.foldl (fun r t => r.reserve t.id) r := by
    intro r
    rw [List.foldl_map]
    rfl
  simp only [ofDomain, Schema.Domain.mapAdvisory, hregistry, nameResults_map, namePayloads_map,
    nameTypes_map, nameCommands_map, nameEvents_map]

end Naming

/-! ## Data types -/

theorem DataType.typeName_eq_of_mapAdvisory_eq {t t' : DataType}
    (h : t.mapAdvisory f = t'.mapAdvisory f) : t.typeName = t'.typeName := by
  have hnames := congrArg DataType.typeName h
  exact hnames

theorem DataType.descriptors_mapAdvisory (t : DataType) :
    (t.mapAdvisory f).descriptors = t.descriptors := by
  rw [descriptors, mapAdvisory, List.map_map]
  rfl

theorem DataType.dependencies_mapAdvisory (t : DataType) (domain : String) :
    (t.mapAdvisory f).dependencies domain = t.dependencies domain := by
  rw [dependencies, namedTypes, descriptors_mapAdvisory]
  rfl

theorem orderTypes_mapAdvisory (types : List DataType) (domain : String) :
    orderTypes (types.map (DataType.mapAdvisory f)) domain =
      (orderTypes types domain).map (DataType.mapAdvisory f) := by
  have hname : ∀ t : DataType, (t.mapAdvisory f).name = t.name := fun _ => rfl
  exact orderTypes_map hname DataType.dependencies_mapAdvisory types domain

/-! ## Other domains -/

def Domain.uses (d : Domain) (name : String) : Bool :=
  let descriptors := d.types.flatMap DataType.descriptors ++
    d.commands.flatMap fun command => command.parameters.map Member.type
  name ≠ d.name && ((descriptors.filterMap Descriptor.namedType?).map TypeName.domain).contains name

theorem Domain.uses_mapAdvisory (d : Domain) : (d.mapAdvisory f).uses = d.uses := by
  funext name
  simp only [uses, mapAdvisory, List.flatMap_map, DataType.descriptors_mapAdvisory,
    Command.mapAdvisory, List.map_map]
  rfl

theorem Context.Bound.externals_eq {c : Context} {d : Schema.Domain} {bound : Domain}
    (h : c.Bound d bound) :
    bound.externals = (c.resolution.document.domains.map Schema.Domain.name).filter bound.uses := by
  rw [h.externals, Context.externals, ← h.name]
  rfl

end WireBindings.Binding
