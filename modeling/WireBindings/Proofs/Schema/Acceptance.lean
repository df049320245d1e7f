import WireBindings.Proofs.Schema.Grammar
import WireBindings.Proofs.Schema.Written

/-!
# Reading accepts the grammar

Reading a value has a result exactly if the grammar gives the value one, and the result is the
document of the grammar. Every other value is reported as malformed, whatever its nodes hold.
-/

namespace WireBindings.Schema

open Json (Value)

/-- A read that has the results of a relation, and a complaint if there are none. -/
structure Decides {α : Type} (x : Read α) (R : α → Prop) : Prop where
  ok_iff : ∀ a, x = .ok a ↔ R a
  complains : ∀ e, x = .error e → ∃ loc complaint, e = .malformed loc complaint

namespace Decides

variable {α β : Type} {x : Read α} {R : α → Prop}

theorem ok (a : α) : Decides (.ok a) (a = ·) where
  ok_iff b := by rw [Except.ok.injEq]
  complains _ h := nomatch h

theorem complain {loc : Location} {complaint : Complaint} (h : ∀ a, ¬ R a) :
    Decides (complain loc complaint) R where
  ok_iff a := ⟨fun h => (nomatch h), fun ha => absurd ha (h a)⟩
  complains _ h := ⟨loc, complaint, (Except.error.inj h).symm⟩

theorem congr {S : α → Prop} (hx : Decides x R) (h : ∀ a, R a ↔ S a) : Decides x S where
  ok_iff a := (hx.ok_iff a).trans (h a)
  complains := hx.complains

theorem bind {f : α → Read β} {S : α → β → Prop} (hx : Decides x R)
    (hf : ∀ a, R a → Decides (f a) (S a)) : Decides (x >>= f) fun b => ∃ a, R a ∧ S a b where
  ok_iff b := by
    rw [Outcome.bind_eq_ok]
    constructor
    · rintro ⟨a, ha, hb⟩
      have hR := (hx.ok_iff a).1 ha
      exact ⟨a, hR, ((hf a hR).ok_iff b).1 hb⟩
    · rintro ⟨a, hR, hS⟩
      exact ⟨a, (hx.ok_iff a).2 hR, ((hf a hR).ok_iff b).2 hS⟩
  complains e h := by
    cases hcase : x with
    | error e' =>
        rw [hcase] at h
        obtain rfl := Except.error.inj h
        exact hx.complains _ hcase
    | ok a =>
        rw [hcase] at h
        exact (hf a ((hx.ok_iff a).1 hcase)).complains e h

theorem map (hx : Decides x R) (f : α → β) :
    Decides (do return f (← x)) fun b => ∃ a, R a ∧ f a = b :=
  hx.bind fun a _ => ok (f a)

/-- A read has no result exactly if it complains. -/
theorem not_exists_iff (hx : Decides x R) :
    (¬ ∃ a, R a) ↔ ∃ loc complaint, x = .error (.malformed loc complaint) := by
  cases hcase : x with
  | error e =>
      obtain ⟨loc, complaint, rfl⟩ := hx.complains e hcase
      refine iff_of_true ?_ ⟨loc, complaint, rfl⟩
      rintro ⟨a, ha⟩
      cases hcase.symm.trans ((hx.ok_iff a).2 ha)
  | ok a =>
      refine iff_of_false (fun h => h ⟨a, (hx.ok_iff a).1 hcase⟩) ?_
      rintro ⟨loc, complaint, h⟩
      cases h

end Decides

/-! ## Keys of a node -/

theorem orDefault_iff {α : Type} {form : α → Value} {default a : α} {node : Entries}
    {key : String} : OrDefault form default node key a ↔
      ∃ found : Option α, Value.field? key node = found.map form ∧ found.getD default = a := by
  constructor
  · rintro (h | h)
    · exact ⟨some a, h, rfl⟩
    · exact ⟨none, h, rfl⟩
  · rintro ⟨_ | found, h, rfl⟩
    · exact .absent h
    · exact .found h

theorem decides_expectObject (v : Value) (loc : Location) :
    Decides (expectObject loc v) fun node => v = .object node := by
  cases v with
  | object node => exact (Decides.ok node).congr fun a => by rw [Value.object.injEq]
  | _ => exact .complain fun _ => Value.noConfusion

theorem decides_optionalField {α : Type} {wanted : Wanted} {ofValue? : Value → Option α}
    {form : α → Value} (hform : ∀ {v a}, ofValue? v = some a ↔ v = form a) (node : Entries)
    (key : String) (loc : Location) :
    Decides (optionalField wanted ofValue? node key loc) fun found =>
      Value.field? key node = found.map form := by
  unfold optionalField
  split
  · next h => exact (Decides.ok none).congr fun found => by cases found <;> simp [h]
  · next v h =>
    split
    · next a ha =>
      obtain rfl := hform.1 ha
      have hinjective (b : α) : form a = form b ↔ a = b := by
        rw [← hform, ha, Option.some.injEq]
      exact (Decides.ok (some a)).congr fun found => by cases found <;> simp [h, hinjective]
    · next hnone =>
      refine .complain fun found hfound => ?_
      obtain ⟨a, -, ha⟩ := Option.map_eq_some_iff.1 (hfound.symm.trans h)
      rw [hform.2 ha.symm] at hnone
      cases hnone

theorem decides_textField? (node : Entries) (key : String) (loc : Location) :
    Decides (textField? node key loc) fun found =>
      Value.field? key node = found.map Value.text :=
  decides_optionalField Value.text?_eq_some node key loc

theorem decides_listField? (node : Entries) (key : String) (loc : Location) :
    Decides (listField? node key loc) fun found =>
      Value.field? key node = found.map Value.array :=
  decides_optionalField Value.items?_eq_some node key loc

theorem decides_flagField (node : Entries) (key : String) (loc : Location) :
    Decides (flagField node key loc) (OrDefault Value.bool false node key) :=
  ((decides_optionalField Value.bool?_eq_some node key loc).map _).congr fun _ =>
    orDefault_iff.symm

theorem decides_requiredText (node : Entries) (key : String) (loc : Location) :
    Decides (requiredText node key loc) fun s => Value.field? key node = some (.text s) := by
  have hread : Decides (requiredText node key loc) _ :=
    (decides_textField? node key loc).bind
      (S := fun found s => found = some s) fun found _ => by
        cases found with
        | none => exact .complain fun _ h => (nomatch h)
        | some s => exact (Decides.ok s).congr fun a => by rw [Option.some.injEq]
  exact hread.congr fun s => by simp

theorem decides_listField (node : Entries) (key : String) (loc : Location) :
    Decides (listField node key loc) (OrDefault Value.array [] node key) :=
  ((decides_listField? node key loc).map _).congr fun _ => orDefault_iff.symm

theorem decides_readAdvisory (node : Entries) (loc : Location) :
    Decides (readAdvisory node loc) (AdvisoryNode node) := by
  have hread := (decides_textField? node "description" loc).bind fun found _ =>
    (decides_flagField node "experimental" loc).bind fun experimental _ =>
      (decides_flagField node "deprecated" loc).map fun deprecated =>
        (⟨found.getD "", experimental, deprecated⟩ : Advisory)
  refine hread.congr fun a => ?_
  constructor
  · rintro ⟨found, hfound, experimental, hexperimental, deprecated, hdeprecated, rfl⟩
    exact ⟨orDefault_iff.2 ⟨found, hfound, rfl⟩, hexperimental, hdeprecated⟩
  · rintro ⟨hdescription, hexperimental, hdeprecated⟩
    obtain ⟨found, hfound, hvalue⟩ := orDefault_iff.1 hdescription
    exact ⟨found, hfound, _, hexperimental, _, hdeprecated, by rw [hvalue]⟩

/-! ## Lists -/

theorem decides_readItems {α : Type} {read : Value → Location → Read α} {item : Value → α → Prop}
    {items : List Value} (h : ∀ v ∈ items, ∀ loc, Decides (read v loc) (item v)) (loc : Location)
    (i : Nat) : Decides (readItems read loc items i) (List.Forall₂ item items) := by
  induction items generalizing i with
  | nil => exact (Decides.ok []).congr fun l => by rw [List.forall₂_nil_left_iff, eq_comm]
  | cons v items ih =>
      obtain ⟨hv, hitems⟩ := List.forall_mem_cons.1 h
      have hread := (hv (loc.index i)).bind fun first _ =>
        (ih hitems (i + 1)).map fun rest => first :: rest
      refine hread.congr fun l => ?_
      rw [List.forall₂_cons_left_iff]
      constructor
      · rintro ⟨first, hfirst, rest, hrest, rfl⟩
        exact ⟨first, rest, hfirst, hrest, rfl⟩
      · rintro ⟨first, rest, hfirst, hrest, rfl⟩
        exact ⟨first, hfirst, rest, hrest, rfl⟩

theorem decides_readTexts (complaint : Complaint) (loc : Location) (items : List Value) :
    Decides (readTexts complaint loc items) fun texts => items = texts.map Value.text := by
  let item (v : Value) (s : String) : Prop := v = .text s
  have hread : Decides (readTexts complaint loc items) (List.Forall₂ item items) := by
    refine decides_readItems (fun v _ here => ?_) loc 0
    cases v with
    | text s =>
        refine (Decides.ok s).congr fun a => ?_
        show s = a ↔ Value.text s = .text a
        rw [Value.text.injEq]
    | _ => exact .complain fun _ => Value.noConfusion
  refine hread.congr fun texts => ?_
  rw [← List.forall₂_eq_eq_eq, List.forall₂_map_right_iff]

/-! ## Bodies by kind -/

theorem Scalar.name_ne_array (kind : Scalar) : kind.name ≠ "array" := by
  cases kind <;> decide

theorem Scalar.name_injective {kind kind' : Scalar} (h : kind.name = kind'.name) :
    kind = kind' := by
  have hkind := ofName?_name kind
  rw [h, ofName?_name] at hkind
  exact (Option.some.inj hkind).symm

theorem name_of_ofName? {s : String} {kind : Scalar} (h : Scalar.ofName? s = some kind) :
    s = kind.name := by
  have hfound := List.find?_some h
  exact (of_decide_eq_true hfound).symm

theorem BodyNode.exists_kind {node : Entries} {shape : Shape} (h : BodyNode node shape) :
    ∃ s, Value.field? "type" node = some (.text s) ∧
      (s = "array" ∨ ∃ kind : Scalar, s = kind.name) := by
  cases h with
  | scalar htype => exact ⟨_, htype, .inr ⟨_, rfl⟩⟩
  | enumeration htype => exact ⟨_, htype, .inr ⟨.string, rfl⟩⟩
  | record htype => exact ⟨_, htype, .inr ⟨.object, rfl⟩⟩
  | array htype => exact ⟨_, htype, .inl rfl⟩

theorem text_inj_of_field? {node : Entries} {key s s' : String}
    (h : Value.field? key node = some (.text s)) (h' : Value.field? key node = some (.text s')) :
    s = s' :=
  Value.text.inj (Option.some.inj (h.symm.trans h'))

section

variable {node : Entries} {shape : Shape}

theorem bodyNode_array (htype : Value.field? "type" node = some (.text "array")) :
    BodyNode node shape ↔ ∃ entries, Value.field? "items" node = some (.object entries) ∧
      ∃ item, ShapeNode entries item ∧ .array item = shape := by
  constructor
  · intro h
    cases h with
    | scalar h => exact absurd (text_inj_of_field? h htype) (Scalar.name_ne_array _)
    | enumeration h | record h => exact absurd (text_inj_of_field? h htype) (by decide)
    | array _ hitems h => exact ⟨_, hitems, _, h, rfl⟩
  · rintro ⟨entries, hitems, item, h, rfl⟩
    exact .array htype hitems h

/-- A body of a scalar kind is that scalar, or it lists the literals or properties that the kind
allows. -/
theorem bodyNode_scalar {kind : Scalar}
    (htype : Value.field? "type" node = some (.text kind.name)) :
    BodyNode node shape ↔
      ((kind = .string → Value.field? "enum" node = none) ∧
        (kind = .object → Value.field? "properties" node = none) ∧ .scalar kind = shape) ∨
      (kind = .string ∧ ∃ items, Value.field? "enum" node = some (.array items) ∧
        ∃ literals, items = literals.map Value.text ∧ .enumeration literals = shape) ∨
      (kind = .object ∧ ∃ items, Value.field? "properties" node = some (.array items) ∧
        ∃ properties, List.Forall₂ PropertyNode items properties ∧
          .record properties = shape) := by
  constructor
  · intro h
    cases h with
    | scalar h henum hproperties =>
        obtain rfl := Scalar.name_injective (text_inj_of_field? htype h)
        exact .inl ⟨henum, hproperties, rfl⟩
    | enumeration h henum =>
        obtain rfl : kind = .string := Scalar.name_injective (text_inj_of_field? htype h)
        exact .inr (.inl ⟨rfl, _, henum, _, rfl, rfl⟩)
    | record h hproperties hitems =>
        obtain rfl : kind = .object := Scalar.name_injective (text_inj_of_field? htype h)
        exact .inr (.inr ⟨rfl, _, hproperties, _, hitems, rfl⟩)
    | array h => exact absurd (text_inj_of_field? htype h) kind.name_ne_array
  · rintro (⟨henum, hproperties, rfl⟩ | ⟨rfl, items, henum, literals, rfl, rfl⟩ |
      ⟨rfl, items, hproperties, properties, h, rfl⟩)
    · exact .scalar htype henum hproperties
    · exact .enumeration htype henum
    · exact .record htype hproperties h

theorem shapeNode_of_reference {v : Value} (href : Value.field? "$ref" node = some v) :
    ShapeNode node shape ↔ ∃ target, v = .text target ∧ .reference target = shape := by
  constructor
  · rintro (h | ⟨h, -⟩)
    · exact ⟨_, Option.some.inj (href.symm.trans h), rfl⟩
    · cases href.symm.trans h
  · rintro ⟨target, rfl, rfl⟩
    exact .reference href

theorem shapeNode_of_none (href : Value.field? "$ref" node = none) :
    ShapeNode node shape ↔ BodyNode node shape := by
  constructor
  · rintro (h | ⟨-, h⟩)
    · cases href.symm.trans h
    · exact h
  · exact .body href

end

/-! ## Shapes and properties -/

theorem sizeOf_lt_of_object {key : String} {node entries : Entries}
    (h : Value.field? key node = some (.object entries)) : sizeOf entries < sizeOf node := by
  have hlt := Value.sizeOf_lt_of_field? h
  rw [Value.object.sizeOf_spec] at hlt
  omega

theorem sizeOf_lt_of_array {key : String} {node : Entries} {items : List Value}
    (h : Value.field? key node = some (.array items)) : sizeOf items < sizeOf node := by
  have hlt := Value.sizeOf_lt_of_field? h
  rw [Value.array.sizeOf_spec] at hlt
  omega

mutual

theorem decides_readShape (node : Entries) (loc : Location) :
    Decides (readShape node loc) (ShapeNode node) := by
  rw [readShape]
  split
  case h_1 target href =>
    exact (Decides.ok _).congr fun shape => by simp [shapeNode_of_reference href]
  case h_2 v hv href =>
    exact .complain fun shape h => by
      obtain ⟨target, rfl, -⟩ := (shapeNode_of_reference href).1 h
      exact hv target rfl
  case h_3 href =>
    refine Decides.congr (R := BodyNode node) ?_ fun shape => (shapeNode_of_none href).symm
    split
    case h_1 htype => exact .complain fun shape h => by simpa [htype] using h.exists_kind
    case h_2 htype =>
      split
      case h_1 hitems => exact .complain fun shape => by simp [bodyNode_array htype, hitems]
      case h_2 entries hitems =>
        have hlt := sizeOf_lt_of_object hitems
        exact ((decides_readShape entries _).map Shape.array).congr fun shape => by
          simp [bodyNode_array htype, hitems]
      case h_3 v hv hitems =>
        exact .complain fun shape h => by
          obtain ⟨entries, hentries, -⟩ := (bodyNode_array htype).1 h
          exact hv entries (Option.some.inj (hitems.symm.trans hentries))
    case h_3 s hs htype =>
      split
      case h_1 hname =>
        exact .complain fun shape h => by
          obtain ⟨s', hs', rfl | ⟨kind, rfl⟩⟩ := h.exists_kind
          · exact hs (text_inj_of_field? htype hs')
          · obtain rfl := text_inj_of_field? htype hs'
            simp [ofName?_name] at hname
      case h_2 hname =>
        obtain rfl := name_of_ofName? hname
        split
        case h_1 henum =>
          exact (Decides.ok _).congr fun shape => by simp [bodyNode_scalar htype, henum]
        case h_2 items henum =>
          exact ((decides_readTexts _ _ items).map Shape.enumeration).congr fun shape => by
            simp [bodyNode_scalar htype, henum]
        case h_3 v hv henum =>
          exact .complain fun shape => by simp_all [bodyNode_scalar htype]
      case h_3 hname =>
        obtain rfl := name_of_ofName? hname
        split
        case h_1 hproperties =>
          exact (Decides.ok _).congr fun shape => by simp [bodyNode_scalar htype, hproperties]
        case h_2 items hproperties =>
          have hlt := sizeOf_lt_of_array hproperties
          exact ((decides_readProperties items _ _).map Shape.record).congr fun shape => by
            simp [bodyNode_scalar htype, hproperties]
        case h_3 v hv hproperties =>
          exact .complain fun shape => by simp_all [bodyNode_scalar htype]
      case h_4 kind hstring hobject hname =>
        obtain rfl := name_of_ofName? hname
        exact (Decides.ok _).congr fun shape => by
          simp [bodyNode_scalar htype, mt hstring not_false, mt hobject not_false]
    case h_4 v hv htype =>
      exact .complain fun shape h => by
        obtain ⟨s, hs, -⟩ := h.exists_kind
        exact hv s (Option.some.inj (htype.symm.trans hs))
termination_by sizeOf node

theorem decides_readProperty (v : Value) (loc : Location) :
    Decides (readProperty v loc) (PropertyNode v) := by
  cases v with
  | object node => 
    rw [readProperty]
    have hread := (decides_requiredText node "name" loc).bind fun name _ =>
      (decides_readShape node loc).bind fun type _ =>
        (decides_flagField node "optional" loc).bind fun optional _ =>
          (decides_readAdvisory node loc).map fun advisory =>
            (⟨name, type, optional, advisory⟩ : Property)
    refine hread.congr fun p => ?_
    constructor
    · rintro ⟨name, hname, type, htype, optional, hoptional, advisory, hadvisory, rfl⟩
      exact .object hname htype hoptional hadvisory
    · rintro ⟨hname, htype, hoptional, hadvisory⟩
      exact ⟨_, hname, _, htype, _, hoptional, _, hadvisory, rfl⟩
  | _ => 
    rw [readProperty]
    · exact .complain nofun
    · nofun
termination_by sizeOf v

theorem decides_readProperties (items : List Value) (loc : Location) (i : Nat) :
    Decides (readProperties items loc i) (List.Forall₂ PropertyNode items) := by
  rw [readProperties_eq_readItems]
  refine decides_readItems (fun v hv here => ?_) loc i
  have hlt := List.sizeOf_lt_of_mem hv
  exact decides_readProperty v here
termination_by sizeOf items

end

/-! ## Declarations -/

def bodyKeys : List String := ["type", "items", "enum", "properties"]

theorem BodyNode.of_agreeOn {node node' : Entries} {shape : Shape}
    (hagree : AgreeOn bodyKeys node node') (h : BodyNode node' shape) : BodyNode node shape := by
  have htype := hagree "type" (by decide)
  have hitems := hagree "items" (by decide)
  have henum := hagree "enum" (by decide)
  have hproperties := hagree "properties" (by decide)
  cases h with
  | scalar h henum' hproperties' =>
      exact .scalar (htype.trans h) (fun hkind => henum.trans (henum' hkind))
        fun hkind => hproperties.trans (hproperties' hkind)
  | enumeration h henum' => exact .enumeration (htype.trans h) (henum.trans henum')
  | record h hproperties' hitem =>
      exact .record (htype.trans h) (hproperties.trans hproperties') hitem
  | array h hitems' hitem => exact .array (htype.trans h) (hitems.trans hitems') hitem

theorem agreeOn_filter (node : Entries) :
    AgreeOn bodyKeys (node.filter fun entry => entry.1 ≠ "$ref") node := by
  intro key hkey
  have hne : ∀ key ∈ bodyKeys, key ≠ "$ref" := by decide
  rw [field?_filter_ne, if_neg (hne key hkey)]

theorem shapeNode_filter {node : Entries} {shape : Shape} :
    ShapeNode (node.filter fun entry => entry.1 ≠ "$ref") shape ↔ BodyNode node shape := by
  have hagree := agreeOn_filter node
  rw [shapeNode_of_none (by rw [field?_filter_ne, if_pos rfl])]
  exact ⟨.of_agreeOn fun key hkey => (hagree key hkey).symm, .of_agreeOn hagree⟩

theorem decides_readType (v : Value) (loc : Location) :
    Decides (readType v loc) (TypeNode v) := by
  have hbody (node : Entries) (id : String) : Decides (do
      if (Value.field? "type" node).isNone then complain loc (.missingKey "type")
      let shape ← readShape (node.filter fun entry => entry.1 ≠ "$ref") loc
      let advisory ← readAdvisory node loc
      return (⟨id, shape, advisory⟩ : TypeDeclaration)) fun t =>
        ∃ shape, BodyNode node shape ∧ ∃ advisory, AdvisoryNode node advisory ∧
          ⟨id, shape, advisory⟩ = t := by
    cases htype : Value.field? "type" node with
    | none =>
        refine .complain ?_
        rintro t ⟨shape, hshape, -⟩
        obtain ⟨s, hs, -⟩ := hshape.exists_kind
        cases htype.symm.trans hs
    | some kind =>
        refine Decides.congr ((decides_readShape _ loc).bind fun shape _ =>
          (decides_readAdvisory node loc).map fun advisory =>
            (⟨id, shape, advisory⟩ : TypeDeclaration)) fun t => ?_
        simp only [shapeNode_filter]
  have hread := (decides_expectObject v loc).bind fun node _ =>
    (decides_requiredText node "id" loc).bind fun id _ => hbody node id
  refine hread.congr fun t => ?_
  constructor
  · rintro ⟨node, rfl, id, hid, shape, hshape, advisory, hadvisory, rfl⟩
    exact .object hid hshape hadvisory
  · rintro ⟨hid, hshape, hadvisory⟩
    exact ⟨_, rfl, _, hid, _, hshape, _, hadvisory, rfl⟩

theorem decides_readMembers (node : Entries) (key : String) (loc : Location) :
    Decides (readMembers node key loc) (ItemsNode PropertyNode node key) := by
  unfold readMembers
  simp only [readProperties_eq_readItems]
  exact (decides_listField node key loc).bind fun items _ =>
    decides_readItems (fun v _ => decides_readProperty v) (loc.key key) 0

theorem decides_readCommand (v : Value) (loc : Location) :
    Decides (readCommand v loc) (CommandNode v) := by
  have hread := (decides_expectObject v loc).bind fun node _ =>
    (decides_requiredText node "name" loc).bind fun name _ =>
      (decides_readMembers node "parameters" loc).bind fun parameters _ =>
        (decides_readMembers node "returns" loc).bind fun returns _ =>
          (decides_readAdvisory node loc).map fun advisory =>
            (⟨name, parameters, returns, advisory⟩ : Command)
  refine hread.congr fun c => ?_
  constructor
  · rintro ⟨node, rfl, name, hname, parameters, hparameters, returns, hreturns, advisory,
      hadvisory, rfl⟩
    exact .object hname hparameters hreturns hadvisory
  · rintro ⟨hname, hparameters, hreturns, hadvisory⟩
    exact ⟨_, rfl, _, hname, _, hparameters, _, hreturns, _, hadvisory, rfl⟩

theorem decides_readEvent (v : Value) (loc : Location) :
    Decides (readEvent v loc) (EventNode v) := by
  have hread := (decides_expectObject v loc).bind fun node _ =>
    (decides_requiredText node "name" loc).bind fun name _ =>
      (decides_readMembers node "parameters" loc).bind fun parameters _ =>
        (decides_readAdvisory node loc).map fun advisory =>
          (⟨name, parameters, advisory⟩ : Event)
  refine hread.congr fun e => ?_
  constructor
  · rintro ⟨node, rfl, name, hname, parameters, hparameters, advisory, hadvisory, rfl⟩
    exact .object hname hparameters hadvisory
  · rintro ⟨hname, hparameters, hadvisory⟩
    exact ⟨_, rfl, _, hname, _, hparameters, _, hadvisory, rfl⟩

theorem decides_readDomain (v : Value) (loc : Location) :
    Decides (readDomain v loc) (DomainNode v) := by
  have hread := (decides_expectObject v loc).bind fun node _ =>
    (decides_listField node "dependencies" loc).bind fun items _ =>
    (decides_readTexts .dependencyNotText (loc.key "dependencies") items).bind
      fun dependencies _ =>
    (decides_requiredText node "domain" loc).bind fun name _ =>
    (decides_readAdvisory node loc).bind fun advisory _ =>
    (decides_listField node "types" loc).bind fun items _ =>
    (decides_readItems (fun v (_ : v ∈ items) => decides_readType v) (loc.key "types") 0).bind
      fun types _ =>
    (decides_listField node "commands" loc).bind fun items _ =>
    (decides_readItems (fun v (_ : v ∈ items) => decides_readCommand v) (loc.key "commands")
      0).bind fun commands _ =>
    (decides_listField node "events" loc).bind fun items _ =>
    (decides_readItems (fun v (_ : v ∈ items) => decides_readEvent v) (loc.key "events") 0).map
      fun events => (⟨name, advisory, dependencies, types, commands, events⟩ : Domain)
  refine hread.congr fun d => ?_
  constructor
  · rintro ⟨node, rfl, _, hlist, dependencies, rfl, name, hname, advisory, hadvisory,
      _, htypes, types, hall, _, hcommands, commands, hall', _, hevents, events, hall'', rfl⟩
    exact .object hname hlist ⟨_, htypes, hall⟩ ⟨_, hcommands, hall'⟩ ⟨_, hevents, hall''⟩
      hadvisory
  · rintro ⟨hname, hlist, ⟨_, htypes, hall⟩, ⟨_, hcommands, hall'⟩, ⟨_, hevents, hall''⟩,
      hadvisory⟩
    exact ⟨_, rfl, _, hlist, _, rfl, _, hname, _, hadvisory, _, htypes, _, hall, _, hcommands, _,
      hall', _, hevents, _, hall'', rfl⟩

/-! ## Documents -/

theorem decides_readVersion (v : Value) (loc : Location) :
    Decides (readVersion v loc) (VersionNode v) := by
  have hread := (decides_expectObject v loc).map fun node =>
    (⟨versionPart node "major", versionPart node "minor"⟩ : Version)
  refine hread.congr fun version => ?_
  constructor
  · rintro ⟨node, rfl, rfl⟩
    exact .object
  · rintro ⟨⟩
    exact ⟨_, rfl, rfl⟩

/-- The version of a document and its domains, which are read last. -/
theorem decides_versioned (node : Entries) (items : List Value) (loc : Location) :
    Decides (match Value.field? "version" node with
      | some v => do
        let version ← some <$> readVersion v (loc.key "version")
        return { domains := ← readItems readDomain (loc.key "domains") items 0, version }
      | none => do
        let version ← pure none
        return { domains := ← readItems readDomain (loc.key "domains") items 0, version })
      fun m : Document => List.Forall₂ DomainNode items m.domains ∧
        Option.Rel VersionNode (Value.field? "version" node) m.version := by
  have hdomains (version : Option Version) :=
    (decides_readItems (fun v (_ : v ∈ items) => decides_readDomain v) (loc.key "domains") 0).map
      fun domains => (⟨domains, version⟩ : Document)
  cases Value.field? "version" node with
  | none =>
      refine (hdomains none).congr fun m => ?_
      constructor
      · rintro ⟨domains, h, rfl⟩
        exact ⟨h, .none⟩
      · obtain ⟨domains, version⟩ := m
        rintro ⟨h, ⟨⟩⟩
        exact ⟨domains, h, rfl⟩
  | some v =>
      simp only [map_eq_pure_bind]
      refine (((decides_readVersion v _).map some).bind fun version _ =>
        hdomains version).congr fun m => ?_
      constructor
      · rintro ⟨_, ⟨version, hversion, rfl⟩, domains, h, rfl⟩
        exact ⟨h, .some hversion⟩
      · obtain ⟨domains, version⟩ := m
        rintro ⟨h, ⟨hversion⟩⟩
        exact ⟨_, ⟨_, hversion, rfl⟩, domains, h, rfl⟩

theorem decides_ofValue (v : Value) (root : String) :
    Decides (Document.ofValue v root) (DocumentNode v) := by
  have hread : Decides (Document.ofValue v root) _ :=
    (decides_expectObject v { root }).bind fun node _ =>
    (decides_listField? node "domains" { root }).bind
      (S := fun found (m : Document) => ∃ items, found = some items ∧
        List.Forall₂ DomainNode items m.domains ∧
          Option.Rel VersionNode (Value.field? "version" node) m.version) fun found _ => by
      cases found with
      | none => exact .complain nofun
      | some items => exact (decides_versioned node items { root }).congr fun m => by simp
  refine hread.congr fun m => ?_
  constructor
  · rintro ⟨node, rfl, _, hlist, items, rfl, hdomains, hversion⟩
    exact .object hlist hdomains hversion
  · rintro ⟨hlist, hdomains, hversion⟩
    exact ⟨_, rfl, some _, hlist, _, rfl, hdomains, hversion⟩

/-- A value is read as the document that the grammar gives it; a value without one is reported as
malformed, and there is no other outcome. -/
theorem grammar_exact (v : Value) (root : String) :
    (∀ m, Document.ofValue v root = .ok m ↔ DocumentNode v m) ∧
      ((¬ ∃ m, DocumentNode v m) ↔
        ∃ loc complaint, Document.ofValue v root = .error (.malformed loc complaint)) :=
  ⟨(decides_ofValue v root).ok_iff, (decides_ofValue v root).not_exists_iff⟩

end WireBindings.Schema
