import WireBindings.Proofs.Schema.Resolution

/-!
# Changing what accompanies declarations

Descriptions and flags can be changed throughout a document. That moves no shape and no reference,
and the document resolves as before.
-/

namespace WireBindings

namespace Advisory

/-- A change that is made once and for all, and looks for a description at the description alone. -/
structure Reduces (f : Advisory → Advisory) : Prop where
  idem : ∀ a, f (f a) = f a
  description : ∀ a, f { description := (f a).description } = f { description := a.description }

def erase : Advisory → Advisory := fun _ => {}

theorem reduces_id : Reduces id := ⟨fun _ => rfl, fun _ => rfl⟩

theorem reduces_erase : Reduces erase := ⟨fun _ => rfl, fun _ => rfl⟩

end Advisory

namespace Schema

variable {f : Advisory → Advisory}

mutual

def Shape.mapAdvisory (f : Advisory → Advisory) : Shape → Shape
  | .reference target => .reference target
  | .scalar kind => .scalar kind
  | .enumeration literals => .enumeration literals
  | .record properties => .record (mapMembers f properties)
  | .array item => .array (item.mapAdvisory f)

def mapMembers (f : Advisory → Advisory) : List Property → List Property
  | [] => []
  | ⟨name, type, optional, advisory⟩ :: properties =>
    ⟨name, type.mapAdvisory f, optional, f advisory⟩ :: mapMembers f properties

end

def TypeDeclaration.mapAdvisory (f : Advisory → Advisory) (t : TypeDeclaration) :
    TypeDeclaration :=
  { t with shape := t.shape.mapAdvisory f, advisory := f t.advisory }

def Command.mapAdvisory (f : Advisory → Advisory) (c : Command) : Command :=
  { c with
    parameters := mapMembers f c.parameters
    returns := mapMembers f c.returns
    advisory := f c.advisory }

def Event.mapAdvisory (f : Advisory → Advisory) (e : Event) : Event :=
  { e with parameters := mapMembers f e.parameters, advisory := f e.advisory }

def Domain.mapAdvisory (f : Advisory → Advisory) (d : Domain) : Domain :=
  { d with
    types := d.types.map (TypeDeclaration.mapAdvisory f)
    commands := d.commands.map (Command.mapAdvisory f)
    events := d.events.map (Event.mapAdvisory f)
    advisory := f d.advisory }

def Document.mapAdvisory (f : Advisory → Advisory) (doc : Document) : Document :=
  { doc with domains := doc.domains.map (Domain.mapAdvisory f) }

def Document.bare (doc : Document) : Document := doc.mapAdvisory Advisory.erase

def mapProperty (f : Advisory → Advisory) (p : Property) : Property :=
  ⟨p.name, p.type.mapAdvisory f, p.optional, f p.advisory⟩

theorem mapMembers_eq_map (properties : List Property) :
    mapMembers f properties = properties.map (mapProperty f) := by
  induction properties with
  | nil => rfl
  | cons p properties ih =>
      obtain ⟨name, type, optional, advisory⟩ := p
      rw [mapMembers, ih]
      rfl

theorem isEmpty_mapMembers (properties : List Property) :
    (mapMembers f properties).isEmpty = properties.isEmpty := by
  rw [mapMembers_eq_map, List.isEmpty_map]

/-! ## Nothing moves -/

@[simp] theorem Shape.role_mapAdvisory (shape : Shape) :
    (shape.mapAdvisory f).role = shape.role := by
  cases shape <;> rfl

@[simp] theorem Shape.isAlias_mapAdvisory_iff {shape : Shape} :
    (shape.mapAdvisory f).IsAlias ↔ shape.IsAlias := by
  rw [IsAlias, IsAlias, role_mapAdvisory]

theorem memberReferences_mapMembers_of_types {properties : List Property}
    (htypes : ∀ p ∈ properties, ∀ path,
      (p.type.mapAdvisory f).references path = p.type.references path) (path : String) :
    memberReferences path (mapMembers f properties) = memberReferences path properties := by
  rw [memberReferences_eq_flatMap, memberReferences_eq_flatMap, mapMembers_eq_map,
    List.flatMap_map]
  exact List.flatMap_congr fun p hp => htypes p hp _

@[simp] theorem Shape.references_mapAdvisory (path : String) (shape : Shape) :
    (shape.mapAdvisory f).references path = shape.references path := by
  induction shape generalizing path with
  | reference target => rfl
  | scalar kind => rfl
  | enumeration literals => rfl
  | record properties ih => exact memberReferences_mapMembers_of_types ih path
  | array item ih => exact ih _

@[simp] theorem memberReferences_mapMembers (path : String) (properties : List Property) :
    memberReferences path (mapMembers f properties) = memberReferences path properties :=
  memberReferences_mapMembers_of_types (fun p _ path => p.type.references_mapAdvisory path) path

@[simp] theorem Domain.references_mapAdvisory (d : Domain) :
    (d.mapAdvisory f).references = d.references := by
  simp [references, mapAdvisory, TypeDeclaration.mapAdvisory, Command.mapAdvisory,
    Event.mapAdvisory, List.flatMap_map]

@[simp] theorem Document.map_name_mapAdvisory (doc : Document) :
    (doc.mapAdvisory f).domains.map Domain.name = doc.domains.map Domain.name := by
  rw [mapAdvisory, List.map_map]
  rfl

/-! ## Changing nothing -/

theorem mapMembers_id_of_types {properties : List Property}
    (htypes : ∀ p ∈ properties, p.type.mapAdvisory id = p.type) :
    mapMembers id properties = properties := by
  rw [mapMembers_eq_map]
  refine (List.map_congr_left fun p hp => ?_).trans (List.map_id properties)
  rw [mapProperty, htypes p hp]
  rfl

@[simp] theorem Shape.mapAdvisory_id (shape : Shape) : shape.mapAdvisory id = shape := by
  induction shape with
  | reference target => rfl
  | scalar kind => rfl
  | enumeration literals => rfl
  | record properties ih => rw [mapAdvisory, mapMembers_id_of_types ih]
  | array item ih => rw [mapAdvisory, ih]

@[simp] theorem mapMembers_id (properties : List Property) :
    mapMembers id properties = properties :=
  mapMembers_id_of_types fun p _ => p.type.mapAdvisory_id

theorem typeDeclaration_mapAdvisory_id (t : TypeDeclaration) : t.mapAdvisory id = t := by
  rw [TypeDeclaration.mapAdvisory, Shape.mapAdvisory_id]
  rfl

theorem Command.mapAdvisory_id (c : Command) : c.mapAdvisory id = c := by
  rw [mapAdvisory, mapMembers_id, mapMembers_id]
  rfl

theorem Event.mapAdvisory_id (e : Event) : e.mapAdvisory id = e := by
  rw [mapAdvisory, mapMembers_id]
  rfl

theorem Domain.mapAdvisory_id (d : Domain) : d.mapAdvisory id = d := by
  have htypes : TypeDeclaration.mapAdvisory id = id := funext typeDeclaration_mapAdvisory_id
  have hcommands : Command.mapAdvisory id = id := funext Command.mapAdvisory_id
  have hevents : Event.mapAdvisory id = id := funext Event.mapAdvisory_id
  rw [mapAdvisory, htypes, hcommands, hevents, List.map_id, List.map_id, List.map_id]
  rfl

/-! ## Documents resolve as before -/

namespace TypeTable

def mapAdvisory (f : Advisory → Advisory) (table : TypeTable) : TypeTable :=
  { table with types := table.types.map fun entry => (entry.1, entry.2.mapAdvisory f) }

theorem find?_mapAdvisory (table : TypeTable) (key : TypeKey) :
    (table.mapAdvisory f).find? key = (table.find? key).map (TypeDeclaration.mapAdvisory f) := by
  rw [find?, find?, mapAdvisory]
  induction table.types with
  | nil => rfl
  | cons entry types ih =>
      rw [List.map_cons, List.lookup_cons, List.lookup_cons, ih]
      cases key == entry.1 with
      | true => rfl
      | false => rfl

theorem checkTypes_map (index : Nat) (domain : String) (seen : List String)
    (types : List TypeDeclaration) (i : Nat) :
    checkTypes index domain seen (types.map (TypeDeclaration.mapAdvisory f)) i =
      checkTypes index domain seen types i := by
  induction types generalizing seen i with
  | nil => rfl
  | cons t types ih =>
      rw [List.map_cons, checkTypes, checkTypes, ih]
      rfl

theorem checkDomains_map (seen : List String) (domains : List Domain) (i : Nat) :
    checkDomains seen (domains.map (Domain.mapAdvisory f)) i = checkDomains seen domains i := by
  induction domains generalizing seen i with
  | nil => rfl
  | cons d domains ih =>
      rw [List.map_cons, checkDomains, checkDomains, ih]
      simp only [Domain.mapAdvisory, checkTypes_map]

theorem ofDocument_mapAdvisory (doc : Document) :
    ofDocument (doc.mapAdvisory f) = (ofDocument doc).map (mapAdvisory f) := by
  have hcheck := checkDomains_map (f := f) [] doc.domains 0
  have htypes : (doc.mapAdvisory f).declarations =
      doc.declarations.map fun entry => (entry.1, entry.2.mapAdvisory f) := by
    simp only [Document.declarations, Document.mapAdvisory, List.flatMap_map, List.map_flatMap,
      List.map_map, Domain.mapAdvisory]
    rfl
  unfold ofDocument
  rw [Document.map_name_mapAdvisory, ← Document.declarations, ← Document.declarations, htypes,
    Document.mapAdvisory, hcheck]
  cases checkDomains [] doc.domains 0 with
  | error e => rfl
  | ok u => rfl

theorem resolve_mapAdvisory (table : TypeTable) (d : Domain) (o : Occurrence) :
    (table.mapAdvisory f).resolve (d.mapAdvisory f) o = table.resolve d o := by
  simp only [resolve, find?_mapAdvisory, Option.isNone_map, Domain.mapAdvisory]

theorem resolveAll_mapAdvisory (table : TypeTable) (d : Domain) (handles : List Handle)
    (occurrences : List Occurrence) :
    (table.mapAdvisory f).resolveAll (d.mapAdvisory f) handles occurrences =
      table.resolveAll d handles occurrences := by
  have hname : (d.mapAdvisory f).name = d.name := rfl
  induction occurrences generalizing handles with
  | nil => rfl
  | cons o occurrences ih =>
      rw [resolveAll, resolveAll, resolve_mapAdvisory, hname]
      simp only [ih]

end TypeTable

namespace Resolution

def mapAdvisory (f : Advisory → Advisory) (r : Resolution) : Resolution where
  document := r.document.mapAdvisory f
  table := r.table.mapAdvisory f
  handles := r.handles

theorem resolveDomains_mapAdvisory (table : TypeTable) (domains : List Domain)
    (handles : List Handle) :
    resolveDomains (table.mapAdvisory f) (domains.map (Domain.mapAdvisory f)) handles =
      resolveDomains table domains handles := by
  induction domains generalizing handles with
  | nil => rfl
  | cons d domains ih =>
      rw [List.map_cons, resolveDomains, resolveDomains, Domain.references_mapAdvisory,
        TypeTable.resolveAll_mapAdvisory]
      simp only [ih]

/-- Changing what accompanies declarations changes neither the handles of a document nor why it is
refused. -/
theorem ofDocument_mapAdvisory (doc : Document) :
    ofDocument (doc.mapAdvisory f) = (ofDocument doc).map (mapAdvisory f) := by
  rw [ofDocument, ofDocument, TypeTable.ofDocument_mapAdvisory]
  cases TypeTable.ofDocument doc with
  | error e => rfl
  | ok table =>
      have hhandles := resolveDomains_mapAdvisory (f := f) table doc.domains []
      simp only [Except.map, Outcome.ok_bind]
      rw [Document.mapAdvisory, hhandles]
      cases resolveDomains table doc.domains [] with
      | error e => rfl
      | ok handles => rfl

end Resolution

end Schema

end WireBindings
