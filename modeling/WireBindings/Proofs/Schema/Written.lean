import WireBindings.Proofs.Json.Tokens
import WireBindings.Proofs.Schema.Entries
import WireBindings.Proofs.Schema.Shapes

/-!
# The values of documents

The value of a document is read back as that document, provided that no declared type is a
reference. The documents that come from reading are of this kind.
-/

namespace WireBindings.Schema

open Json (Value)

/-! ## Shapes by kind -/

theorem ofName?_name (kind : Scalar) : Scalar.ofName? kind.name = some kind := by
  cases kind <;> decide

theorem readShape_reference {node : Entries} {target : String} {loc : Location}
    (href : Value.field? "$ref" node = some (.text target)) :
    readShape node loc = .ok (.reference target) := by
  rw [readShape, href]

theorem readShape_scalar {node : Entries} {kind : Scalar} {loc : Location}
    (href : Value.field? "$ref" node = none)
    (htype : Value.field? "type" node = some (.text kind.name))
    (henum : Value.field? "enum" node = none)
    (hproperties : Value.field? "properties" node = none) :
    readShape node loc = .ok (.scalar kind) := by
  have hkind := ofName?_name kind
  rw [readShape]
  cases kind with
  | string =>
      rw [Scalar.name] at htype hkind
      simp [href, htype, hkind, henum]
  | object =>
      rw [Scalar.name] at htype hkind
      simp only [href, htype, String.reduceEq, imp_self, hkind, bind_pure_comp]
      split <;> simp_all
  | integer | number | boolean | any | binary =>
      rw [Scalar.name] at htype hkind
      simp [href, htype, hkind]

theorem readShape_enumeration {node : Entries} {literals : List String} {loc : Location}
    (href : Value.field? "$ref" node = none)
    (htype : Value.field? "type" node = some (.text "string"))
    (henum : Value.field? "enum" node = some (.array (literals.map Value.text))) :
    readShape node loc = .ok (.enumeration literals) := by
  have hkind : Scalar.ofName? "string" = some .string := ofName?_name .string
  rw [readShape]
  simp [href, htype, hkind, henum, readTexts_map]

theorem readShape_record {node : Entries} {items : List Value} {loc : Location}
    (href : Value.field? "$ref" node = none)
    (htype : Value.field? "type" node = some (.text "object"))
    (hproperties : Value.field? "properties" node = some (.array items)) :
    readShape node loc = Shape.record <$> readProperties items (loc.key "properties") 0 := by
  have hkind : Scalar.ofName? "object" = some .object := ofName?_name .object
  rw [readShape]
  simp only [href, htype, String.reduceEq, imp_self, hkind, bind_pure_comp]
  split <;> simp_all

theorem readShape_array {node entries : Entries} {loc : Location}
    (href : Value.field? "$ref" node = none)
    (htype : Value.field? "type" node = some (.text "array"))
    (hitems : Value.field? "items" node = some (.object entries)) :
    readShape node loc = Shape.array <$> readShape entries (loc.key "items") := by
  rw [readShape]
  simp only [href, htype]
  split <;> simp_all

/-! ## Properties and shapes -/

def propertyValue (p : Property) : Value :=
  .object (("name", .text p.name) :: advisoryEntries p.advisory ++
    entryIf p.optional "optional" (.bool true) ++ shapeEntries p.type)

theorem propertyValues_eq_map (properties : List Property) :
    propertyValues properties = properties.map propertyValue := by
  induction properties with
  | nil => rfl
  | cons p properties ih =>
      obtain ⟨name, type, optional, advisory⟩ := p
      rw [propertyValues, ih]
      rfl

theorem readProperties_eq_readItems (items : List Value) (loc : Location) (i : Nat) :
    readProperties items loc i = readItems readProperty loc items i := by
  induction items generalizing i with
  | nil => rw [readProperties, readItems]
  | cons v items ih =>
      rw [readProperties, readItems]
      simp only [ih]

/-- A shape that every node with its entries, and no others that count, is read as. -/
def Shape.IsReadBack (shape : Shape) : Prop :=
  ∀ {node : Entries} {loc : Location}, AgreeOn shapeKeys node (shapeEntries shape) →
    readShape node loc = .ok shape

theorem readProperty_propertyValue {p : Property} (h : p.type.IsReadBack) (loc : Location) :
    readProperty (propertyValue p) loc = .ok p := by
  have hadvisory := keysIn_advisoryEntries p.advisory
  have hhead := hadvisory.cons "name" (.text p.name)
  have hoptional := keysIn_entryIf p.optional "optional" (.bool true)
  have hshape := keysIn_shapeEntries p.type
  unfold propertyValue
  rw [readProperty, requiredText_eq_ok rfl, Outcome.ok_bind,
    h (AgreeOn.after _ (hhead.append hoptional) (by decide)), Outcome.ok_bind,
    flagField_eq_ok ((AgreeOn.after _ hhead (by decide)).before hshape (by decide)),
    Outcome.ok_bind,
    readAdvisory_eq_ok (((AgreeOn.cons _ _ (by decide)).before hoptional (by decide)).before
      hshape (by decide)), Outcome.ok_bind]
  rfl

theorem readProperties_propertyValues {properties : List Property}
    (h : ∀ p ∈ properties, p.type.IsReadBack) (loc : Location) (i : Nat) :
    readProperties (propertyValues properties) loc i = .ok properties := by
  have hread := readItems_map (g := id)
    (fun p hp loc => readProperty_propertyValue (h p hp) loc) loc i
  rw [readProperties_eq_readItems, propertyValues_eq_map, hread, List.map_id]

theorem Shape.isReadBack (shape : Shape) : shape.IsReadBack := by
  -- a property holds further entries beside those of its shape, hence agreement and not equality
  induction shape with
  | reference target =>
      intro node loc h
      exact readShape_reference (h "$ref" (by decide))
  | scalar kind =>
      intro node loc h
      exact readShape_scalar (h "$ref" (by decide)) (h "type" (by decide)) (h "enum" (by decide))
        (h "properties" (by decide))
  | enumeration literals =>
      intro node loc h
      exact readShape_enumeration (h "$ref" (by decide)) (h "type" (by decide))
        (h "enum" (by decide))
  | record properties ih =>
      intro node loc h
      rw [readShape_record (h "$ref" (by decide)) (h "type" (by decide))
        (h "properties" (by decide)), readProperties_propertyValues ih]
      rfl
  | array item ih =>
      intro node loc h
      rw [readShape_array (h "$ref" (by decide)) (h "type" (by decide)) (h "items" (by decide)),
        ih (AgreeOn.refl _ _)]
      rfl

theorem readMembers_eq_ok {node : Entries} {key : String} {properties : List Property}
    {loc : Location} (h : AgreeOn [key] node (listEntry key (propertyValues properties))) :
    readMembers node key loc = .ok properties := by
  unfold readMembers
  rw [listField_eq_ok h, Outcome.ok_bind,
    readProperties_propertyValues fun p _ => p.type.isReadBack]

/-! ## Declarations -/

theorem readCommand_toValue (c : Command) (loc : Location) :
    readCommand c.toValue loc = .ok c := by
  have hhead := (keysIn_advisoryEntries c.advisory).cons "name" (.text c.name)
  have hparameters := keysIn_listEntry "parameters" (propertyValues c.parameters)
  have hreturns := keysIn_listEntry "returns" (propertyValues c.returns)
  unfold readCommand Command.toValue expectObject
  rw [Outcome.ok_bind, requiredText_eq_ok rfl, Outcome.ok_bind,
    readMembers_eq_ok ((AgreeOn.after _ hhead (by decide)).before hreturns (by decide)),
    Outcome.ok_bind,
    readMembers_eq_ok (AgreeOn.after _ (hhead.append hparameters) (by decide)), Outcome.ok_bind,
    readAdvisory_eq_ok (((AgreeOn.cons _ _ (by decide)).before hparameters (by decide)).before
      hreturns (by decide)), Outcome.ok_bind]
  rfl

theorem readEvent_toValue (e : Event) (loc : Location) : readEvent e.toValue loc = .ok e := by
  have hhead := (keysIn_advisoryEntries e.advisory).cons "name" (.text e.name)
  have hparameters := keysIn_listEntry "parameters" (propertyValues e.parameters)
  unfold readEvent Event.toValue expectObject
  rw [Outcome.ok_bind, requiredText_eq_ok rfl, Outcome.ok_bind,
    readMembers_eq_ok (AgreeOn.after _ hhead (by decide)), Outcome.ok_bind,
    readAdvisory_eq_ok ((AgreeOn.cons _ _ (by decide)).before hparameters (by decide)),
    Outcome.ok_bind]
  rfl

/-- A declared type that is no reference to another one. -/
def TypeDeclaration.IsDirect (t : TypeDeclaration) : Prop := ∀ target, t.shape ≠ .reference target

theorem TypeDeclaration.IsDirect.field?_ref {t : TypeDeclaration} (h : t.IsDirect) :
    Value.field? "$ref" (shapeEntries t.shape) = none := by
  obtain ⟨id, shape, advisory⟩ := t
  cases shape with
  | reference target => exact absurd rfl (h target)
  | scalar | enumeration | record | array => rfl

theorem TypeDeclaration.IsDirect.field?_type {t : TypeDeclaration} (h : t.IsDirect) :
    (Value.field? "type" (shapeEntries t.shape)).isNone = false := by
  obtain ⟨id, shape, advisory⟩ := t
  cases shape with
  | reference target => exact absurd rfl (h target)
  | scalar | enumeration | record | array => rfl

theorem readType_toValue {t : TypeDeclaration} (h : t.IsDirect) (loc : Location) :
    readType t.toValue loc = .ok t := by
  have hhead := (keysIn_advisoryEntries t.advisory).cons "id" (.text t.id)
  have hshape := keysIn_shapeEntries t.shape
  have hafter : AgreeOn shapeKeys (("id", .text t.id) :: advisoryEntries t.advisory ++
      shapeEntries t.shape) (shapeEntries t.shape) :=
    .after (shapeEntries t.shape) hhead (by decide)
  have htype := hafter "type" (by decide)
  -- the body of a declared type is read without its reference key, and so it must not have one
  have hfiltered : AgreeOn shapeKeys
      (List.filter (fun entry => entry.1 ≠ "$ref") (("id", .text t.id) ::
        advisoryEntries t.advisory ++ shapeEntries t.shape)) (shapeEntries t.shape) := by
    intro key hkey
    rw [field?_filter_ne]
    split
    · rename_i href
      rw [href, h.field?_ref]
    · exact hafter key hkey
  unfold readType TypeDeclaration.toValue expectObject
  rw [Outcome.ok_bind, requiredText_eq_ok rfl, Outcome.ok_bind, htype, h.field?_type,
    if_neg Bool.false_ne_true, t.shape.isReadBack hfiltered]
  simp only [Outcome.ok_bind]
  rw [readAdvisory_eq_ok ((AgreeOn.cons _ _ (by decide)).before hshape (by decide))]
  rfl

theorem readShape_ne_reference {node : Entries} {loc : Location}
    (href : Value.field? "$ref" node = none) (target : String) :
    readShape node loc ≠ .ok (.reference target) := by
  intro h
  have hbind {α : Type} {x : Read α} {f : α → Shape} (hf : ∀ a, f a ≠ .reference target) :
      (do return f (← x)) ≠ Except.ok (.reference target) := by
    intro hx
    obtain ⟨a, -, ha⟩ := Outcome.bind_eq_ok.1 hx
    exact hf a (Outcome.pure_eq_ok.1 ha)
  rw [readShape, href] at h
  simp only at h
  repeat' split at h
  all_goals first
    | exact hbind (fun _ => Shape.noConfusion) h
    | cases h

/-- A domain in which no declared type is a reference. -/
def Domain.IsDirect (d : Domain) : Prop := ∀ t ∈ d.types, t.IsDirect

theorem readDomain_toValue {d : Domain} (h : d.IsDirect) (loc : Location) :
    readDomain d.toValue loc = .ok d := by
  have hhead := (keysIn_advisoryEntries d.advisory).cons "domain" (.text d.name)
  have hdependencies := keysIn_listEntry "dependencies" (d.dependencies.map Value.text)
  have htypes := keysIn_listEntry "types" (d.types.map TypeDeclaration.toValue)
  have hcommands := keysIn_listEntry "commands" (d.commands.map Command.toValue)
  have hevents := keysIn_listEntry "events" (d.events.map Event.toValue)
  have hreadTypes := readItems_map (g := id) (fun t ht loc => readType_toValue (h t ht) loc)
    (loc.key "types") 0
  have hreadCommands := readItems_map (g := id)
    (fun c (_ : c ∈ d.commands) loc => readCommand_toValue c loc) (loc.key "commands") 0
  have hreadEvents := readItems_map (g := id)
    (fun e (_ : e ∈ d.events) loc => readEvent_toValue e loc) (loc.key "events") 0
  rw [List.map_id] at hreadTypes hreadCommands hreadEvents
  unfold readDomain Domain.toValue expectObject
  rw [Outcome.ok_bind,
    listField_eq_ok ((((AgreeOn.after _ hhead (by decide)).before htypes (by decide)).before
      hcommands (by decide)).before hevents (by decide)), Outcome.ok_bind, readTexts_map,
    Outcome.ok_bind, requiredText_eq_ok rfl, Outcome.ok_bind,
    readAdvisory_eq_ok (((((AgreeOn.cons _ _ (by decide)).before hdependencies
      (by decide)).before htypes (by decide)).before hcommands (by decide)).before hevents
      (by decide)), Outcome.ok_bind,
    listField_eq_ok (((AgreeOn.after _ (hhead.append hdependencies) (by decide)).before hcommands
      (by decide)).before hevents (by decide)), Outcome.ok_bind, hreadTypes, Outcome.ok_bind,
    listField_eq_ok ((AgreeOn.after _ ((hhead.append hdependencies).append htypes)
      (by decide)).before hevents (by decide)), Outcome.ok_bind, hreadCommands, Outcome.ok_bind,
    listField_eq_ok (AgreeOn.after _ (((hhead.append hdependencies).append htypes).append
      hcommands) (by decide)), Outcome.ok_bind, hreadEvents, Outcome.ok_bind]
  rfl

/-! ## Documents -/

/-- A document in which no declared type is a reference. -/
def Document.IsDirect (m : Document) : Prop := ∀ d ∈ m.domains, d.IsDirect

/-- A document is read back from its value. -/
theorem Document.IsDirect.ofValue_toValue {m : Document} (h : m.IsDirect) (root : String) :
    Document.ofValue m.toValue root = .ok m := by
  obtain ⟨domains, version⟩ := m
  have hread := readItems_map (g := id) (fun d hd loc => readDomain_toValue (h d hd) loc)
    (Location.key { root } "domains") 0
  rw [List.map_id] at hread
  unfold Document.ofValue Document.toValue expectObject
  cases version with
  | none =>
      simp [listField?, optionalField, Value.items?, Value.field?, hread, bind, Except.bind, pure,
        Except.pure]
  | some version =>
      have hversion (loc : Location) : readVersion version.toValue loc = .ok version := rfl
      simp [listField?, optionalField, Value.items?, Value.field?, hread, hversion, bind,
        Except.bind, pure, Except.pure]

theorem exists_of_readItems {α : Type} {read : Value → Location → Read α} {loc : Location}
    {items : List Value} {i : Nat} {l : List α} (h : readItems read loc items i = .ok l) :
    ∀ x ∈ l, ∃ v here, read v here = .ok x := by
  induction items generalizing i l with
  | nil =>
      obtain rfl := Except.ok.inj h
      exact fun x hx => absurd hx List.not_mem_nil
  | cons v items ih =>
      obtain ⟨first, hfirst, h⟩ := Outcome.bind_eq_ok.1 h
      obtain ⟨rest, hrest, h⟩ := Outcome.bind_eq_ok.1 h
      obtain rfl := Outcome.pure_eq_ok.1 h
      exact List.forall_mem_cons.2 ⟨⟨v, _, hfirst⟩, ih hrest⟩

theorem isDirect_of_readType {v : Value} {loc : Location} {t : TypeDeclaration}
    (h : readType v loc = .ok t) : t.IsDirect := by
  intro target htarget
  unfold readType at h
  obtain ⟨node, -, h⟩ := Outcome.bind_eq_ok.1 h
  obtain ⟨id, -, h⟩ := Outcome.bind_eq_ok.1 h
  split at h
  · cases h
  · obtain ⟨shape, hshape, h⟩ := Outcome.bind_eq_ok.1 h
    obtain ⟨advisory, -, h⟩ := Outcome.bind_eq_ok.1 h
    obtain rfl := Outcome.pure_eq_ok.1 h
    refine readShape_ne_reference ?_ target (hshape.trans (congrArg Except.ok htarget))
    rw [field?_filter_ne, if_pos rfl]

theorem isDirect_of_readDomain {v : Value} {loc : Location} {d : Domain}
    (h : readDomain v loc = .ok d) : d.IsDirect := by
  unfold readDomain at h
  obtain ⟨node, -, h⟩ := Outcome.bind_eq_ok.1 h
  obtain ⟨_, -, h⟩ := Outcome.bind_eq_ok.1 h
  obtain ⟨_, -, h⟩ := Outcome.bind_eq_ok.1 h
  obtain ⟨_, -, h⟩ := Outcome.bind_eq_ok.1 h
  obtain ⟨_, -, h⟩ := Outcome.bind_eq_ok.1 h
  obtain ⟨_, -, h⟩ := Outcome.bind_eq_ok.1 h
  obtain ⟨types, htypes, h⟩ := Outcome.bind_eq_ok.1 h
  obtain ⟨_, -, h⟩ := Outcome.bind_eq_ok.1 h
  obtain ⟨_, -, h⟩ := Outcome.bind_eq_ok.1 h
  obtain ⟨_, -, h⟩ := Outcome.bind_eq_ok.1 h
  obtain ⟨_, -, h⟩ := Outcome.bind_eq_ok.1 h
  obtain rfl := Outcome.pure_eq_ok.1 h
  intro t ht
  obtain ⟨w, here, hread⟩ := exists_of_readItems htypes t ht
  exact isDirect_of_readType hread

theorem Document.isDirect_of_ofValue {v : Value} {root : String} {m : Document}
    (h : Document.ofValue v root = .ok m) : m.IsDirect := by
  have hdomains : ∃ items, readItems readDomain (Location.key { root } "domains") items 0 =
      .ok m.domains := by
    unfold Document.ofValue at h
    obtain ⟨node, -, h⟩ := Outcome.bind_eq_ok.1 h
    obtain ⟨found, -, h⟩ := Outcome.bind_eq_ok.1 h
    cases found with
    | none => cases h
    | some items =>
        obtain ⟨items, -, h⟩ := Outcome.bind_eq_ok.1 h
        refine ⟨items, ?_⟩
        have hversion : ∃ version : Option Version,
            (readItems readDomain (Location.key { root } "domains") items 0 >>= fun domains =>
              pure ({ domains, version } : Document)) = .ok m := by
          split at h
          · obtain ⟨version, -, h⟩ := Outcome.bind_eq_ok.1 h
            exact ⟨version, h⟩
          · exact ⟨none, h⟩
        obtain ⟨version, hversion⟩ := hversion
        obtain ⟨domains, hread, h⟩ := Outcome.bind_eq_ok.1 hversion
        obtain rfl := Outcome.pure_eq_ok.1 h
        exact hread
  obtain ⟨items, hread⟩ := hdomains
  intro d hd
  obtain ⟨w, here, hdomain⟩ := exists_of_readItems hread d hd
  exact isDirect_of_readDomain hdomain

end WireBindings.Schema
