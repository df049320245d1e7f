import WireBindings.Proofs.Schema.Acceptance

/-!
# Complaints are true of the node they name

What stands at a node decides what its value has to be, which of its keys count and what stands under
them. A value that is not read as a document is reported with a node that is there, at the place
where its location says, and with a complaint that this node deserves.
-/

namespace WireBindings

open Json (Value)

def Wanted.Admits (v : Value) : Wanted → Prop
  | .object => ∃ entries, v = .object entries
  | .list => ∃ items, v = .array items
  | .text => ∃ s, v = .text s
  | .bool => ∃ b, v = .bool b

def Step.below? : Step → Value → Option Value
  | .key name, .object entries => Value.field? name entries
  | .index i, .array items => items[i]?
  | _, _ => none

def Json.Value.at? : Value → List Step → Option Value
  | v, [] => some v
  | v, step :: steps => (step.below? v).bind fun node => node.at? steps

theorem Json.Value.at?_append {v node : Value} {steps : List Step} (h : v.at? steps = some node)
    (more : List Step) : v.at? (steps ++ more) = node.at? more := by
  induction steps generalizing v with
  | nil => rw [List.nil_append, Option.some.inj h]
  | cons step steps ih =>
      obtain ⟨below, hbelow, hrest⟩ := Option.bind_eq_some_iff.1 h
      rw [List.cons_append, at?, hbelow, Option.bind_some, ih hrest]

namespace Schema

/-! ## Forms -/

inductive Form
  | document
  | version
  | domain
  | type
  | command
  | event
  | property
  /-- The items of an array. -/
  | item
  | list (part : Form)
  | kind
  | literal
  | dependency
  | text
  | flag
  deriving DecidableEq

namespace Form

/-- What the node has to be. Literals and dependencies are refused in words of their own. -/
def wanted? : Form → Option Wanted
  | .document | .version | .domain | .type | .command | .event | .property | .item => some .object
  | .list _ => some .list
  | .kind | .text => some .text
  | .flag => some .bool
  | .literal | .dependency => none

def required : Form → List String
  | .document => ["domains"]
  | .domain => ["domain"]
  | .type => ["id", "type"]
  | .command | .event | .property => ["name"]
  | _ => []

def advisoryParts : List (String × Form) :=
  [("description", .text), ("experimental", .flag), ("deprecated", .flag)]

/-- The keys that count whatever else the node holds, and what stands under them. -/
def parts : Form → List (String × Form)
  | .document => [("domains", .list .domain), ("version", .version)]
  | .domain => [("domain", .text), ("dependencies", .list .dependency), ("types", .list .type),
      ("commands", .list .command), ("events", .list .event)] ++ advisoryParts
  | .type => ("id", .text) :: advisoryParts
  | .command => [("name", .text), ("parameters", .list .property), ("returns", .list .property)] ++
      advisoryParts
  | .event => [("name", .text), ("parameters", .list .property)] ++ advisoryParts
  | .property => [("name", .text), ("optional", .flag)] ++ advisoryParts
  | _ => []

def MayRefer (form : Form) : Prop := form = .property ∨ form = .item

/-- The node says by its kind what type it is. -/
def HasBody (form : Form) (node : Entries) : Prop :=
  form = .type ∨ (form.MayRefer ∧ Value.field? "$ref" node = none)

def kindParts : List (String × String × Form) :=
  [("array", "items", .item), ("string", "enum", .list .literal),
    ("object", "properties", .list .property)]

/-- A key counts in a node, and what stands under it is a `part`. -/
inductive Holds (form : Form) (node : Entries) (key : String) (part : Form) : Prop
  | always (h : (key, part) ∈ form.parts)
  | reference (h : form.MayRefer) (hkey : key = "$ref") (hpart : part = .text)
  | kind (h : form.HasBody node) (hkey : key = "type") (hpart : part = .kind)
  | ofKind {kind : String} (h : form.HasBody node)
      (htype : Value.field? "type" node = some (.text kind)) (hkey : (kind, key, part) ∈ kindParts)

end Form

/-- The nodes of a document with their locations and with what they stand for. -/
inductive Placed (v : Value) (root : String) : Location → Form → Value → Prop
  | root : Placed v root { root } .document v
  | key {loc : Location} {form part : Form} {node : Entries} {key : String} {w : Value}
      (h : Placed v root loc form (.object node)) (hkey : form.Holds node key part)
      (hvalue : Value.field? key node = some w) : Placed v root (loc.key key) part w
  | index {loc : Location} {part : Form} {items : List Value} {i : Nat} {w : Value}
      (h : Placed v root loc (.list part) (.array items)) (hitem : items[i]? = some w) :
      Placed v root (loc.index i) part w

/-- The complaints that are true of a node. -/
inductive Faulty : Form → Value → Complaint → Prop
  | mismatch {form : Form} {wanted : Wanted} {v : Value} (hform : form.wanted? = some wanted)
      (h : ¬ wanted.Admits v) : Faulty form v (.mismatch wanted v.kindName)
  | missingKey {form : Form} {node : Entries} {key : String} (hkey : key ∈ form.required)
      (h : Value.field? key node = none) : Faulty form (.object node) (.missingKey key)
  | noShape {form : Form} {node : Entries} (hform : form.MayRefer)
      (href : Value.field? "$ref" node = none) (htype : Value.field? "type" node = none) :
      Faulty form (.object node) .noShape
  | noItems {form : Form} {node : Entries} (hform : form.HasBody node)
      (htype : Value.field? "type" node = some (.text "array"))
      (hitems : Value.field? "items" node = none) : Faulty form (.object node) .noItems
  | unknownKind {kind : String} (harray : kind ≠ "array")
      (hscalar : ∀ scalar : Scalar, kind ≠ scalar.name) :
      Faulty .kind (.text kind) (.unknownKind kind)
  | literalNotText {v : Value} (h : ¬ Wanted.text.Admits v) : Faulty .literal v .literalNotText
  | dependencyNotText {v : Value} (h : ¬ Wanted.text.Admits v) :
      Faulty .dependency v .dependencyNotText

/-- The location of a node leads to it from the root. -/
theorem Placed.leads {v w : Value} {root : String} {loc : Location} {form : Form}
    (h : Placed v root loc form w) : loc.root = root ∧ v.at? loc.steps = some w := by
  induction h with
  | root => exact ⟨rfl, rfl⟩
  | key _ _ hvalue ih =>
      refine ⟨ih.1, (Value.at?_append ih.2 _).trans ?_⟩
      rw [Value.at?, Step.below?, hvalue]
      rfl
  | index _ hitem ih =>
      refine ⟨ih.1, (Value.at?_append ih.2 _).trans ?_⟩
      rw [Value.at?, Step.below?, hitem]
      rfl

/-! ## Reads that report a faulty node -/

/-- A read that fails only with a complaint that is true of a node of the document. -/
def Blames {α : Type} (v : Value) (root : String) (x : Read α) : Prop :=
  ∀ e, x = .error e → ∃ loc form node complaint, e = .malformed loc complaint ∧
    Placed v root loc form node ∧ Faulty form node complaint

section

variable {α β : Type} {v w : Value} {root : String} {loc : Location} {form part : Form}
  {node entries : Entries} {key : String} {complaint : Complaint}

namespace Blames

theorem ok (a : α) : Blames v root (.ok a : Read α) := nofun

theorem complain (h : Placed v root loc form w) (hfaulty : Faulty form w complaint) :
    Blames v root (complain loc complaint : Read α) := by
  intro e he
  exact ⟨loc, form, w, complaint, (Except.error.inj he).symm, h, hfaulty⟩

theorem bind {x : Read α} {f : α → Read β} (hx : Blames v root x)
    (hf : ∀ a, x = .ok a → Blames v root (f a)) : Blames v root (x >>= f) := by
  cases hcase : x with
  | error e =>
      intro e' he
      obtain rfl := Except.error.inj he
      exact hx e hcase
  | ok a => exact hf a hcase

theorem map {x : Read α} (hx : Blames v root x) (f : α → β) :
    Blames v root (do return f (← x)) :=
  hx.bind fun _ _ => ok _

end Blames

/-! ## Keys of a node -/

theorem blames_complainKind {wanted : Wanted} (h : Placed v root loc form w)
    (hform : form.wanted? = some wanted) (hwrong : ¬ wanted.Admits w) :
    Blames v root (complainKind loc wanted w : Read α) :=
  .complain h (.mismatch hform hwrong)

theorem blames_expectObject (h : Placed v root loc form w) (hform : form.wanted? = some .object) :
    Blames v root (expectObject loc w) := by
  cases w with
  | object node => exact .ok node
  | _ => exact blames_complainKind h hform nofun

theorem blames_optionalField {wanted : Wanted} {ofValue? : Value → Option α}
    (hform : ∀ w, wanted.Admits w → ∃ a, ofValue? w = some a)
    (h : Placed v root loc form (.object node)) (hkey : form.Holds node key part)
    (hpart : part.wanted? = some wanted) :
    Blames v root (optionalField wanted ofValue? node key loc) := by
  unfold optionalField
  split
  · exact .ok _
  · next w hvalue =>
    split
    · exact .ok _
    · next hnone =>
      refine blames_complainKind (h.key hkey hvalue) hpart fun hadmits => ?_
      obtain ⟨a, ha⟩ := hform w hadmits
      cases hnone.symm.trans ha

theorem blames_textField? (h : Placed v root loc form (.object node))
    (hkey : form.Holds node key part) (hpart : part.wanted? = some .text) :
    Blames v root (textField? node key loc) :=
  blames_optionalField (fun _ ⟨s, hs⟩ => ⟨s, Value.text?_eq_some.2 hs⟩) h hkey hpart

theorem blames_requiredText (h : Placed v root loc form (.object node))
    (hkey : form.Holds node key .text) (hrequired : key ∈ form.required) :
    Blames v root (requiredText node key loc) := by
  refine (blames_textField? h hkey rfl).bind fun found hfound => ?_
  cases found with
  | some s => exact .ok s
  | none =>
      have hnone := ((decides_textField? node key loc).ok_iff none).1 hfound
      exact .complain h (.missingKey hrequired hnone)

theorem blames_listField? (h : Placed v root loc form (.object node))
    (hkey : form.Holds node key (.list part)) : Blames v root (listField? node key loc) :=
  blames_optionalField (fun _ ⟨items, hitems⟩ => ⟨items, Value.items?_eq_some.2 hitems⟩) h hkey rfl

theorem blames_listField (h : Placed v root loc form (.object node))
    (hkey : form.Holds node key (.list part)) : Blames v root (listField node key loc) :=
  (blames_listField? h hkey).map _

theorem blames_flagField (h : Placed v root loc form (.object node))
    (hkey : form.Holds node key .flag) : Blames v root (flagField node key loc) := by
  have hread : Blames v root (optionalField .bool Value.bool? node key loc) :=
    blames_optionalField (fun _ ⟨b, hb⟩ => ⟨b, Value.bool?_eq_some.2 hb⟩) h hkey rfl
  exact hread.map _

theorem blames_readAdvisory (h : Placed v root loc form (.object node))
    (hform : Form.advisoryParts ⊆ form.parts) : Blames v root (readAdvisory node loc) := by
  have hkey {key : String} {part : Form} (hmem : (key, part) ∈ Form.advisoryParts) :
      form.Holds node key part := .always (hform hmem)
  refine (blames_textField? h (hkey (.head _)) rfl).bind fun _ _ => ?_
  refine (blames_flagField h (hkey (.tail _ (.head _)))).bind fun _ _ => ?_
  exact (blames_flagField h (hkey (.tail _ (.tail _ (.head _))))).map _

/-! ## Lists -/

theorem Placed.item {items : List Value} (h : Placed v root loc form (.object node))
    (hkey : form.Holds node key (.list part)) (hitems : listField node key loc = .ok items) {i : Nat}
    (hw : items[i]? = some w) : Placed v root ((loc.key key).index i) part w := by
  cases ((decides_listField node key loc).ok_iff items).1 hitems with
  | found hvalue => exact (h.key hkey hvalue).index hw
  | absent => cases hw

theorem blames_readItems_from {read : Value → Location → Read α} {items : List Value} (i : Nat)
    (h : ∀ j w, items[j]? = some w → Blames v root (read w (loc.index (i + j)))) :
    Blames v root (readItems read loc items i) := by
  induction items generalizing i with
  | nil => exact .ok []
  | cons w items ih =>
      refine (h 0 w rfl).bind fun first _ => (ih (i + 1) fun j w hw => ?_).map _
      rw [Nat.add_assoc, Nat.add_comm 1 j]
      exact h (j + 1) w hw

theorem blames_readItems {read : Value → Location → Read α} {items : List Value}
    (h : ∀ i w, items[i]? = some w → Blames v root (read w (loc.index i))) :
    Blames v root (readItems read loc items 0) := by
  refine blames_readItems_from 0 fun i w hw => ?_
  rw [Nat.zero_add]
  exact h i w hw

theorem blames_readTexts {items : List Value}
    (h : ∀ i w, items[i]? = some w → Placed v root (loc.index i) part w)
    (hfaulty : ∀ w, ¬ Wanted.text.Admits w → Faulty part w complaint) :
    Blames v root (readTexts complaint loc items) := by
  refine blames_readItems fun i w hw => ?_
  cases w with
  | text s => exact .ok s
  | _ => exact .complain (h i _ hw) (hfaulty _ nofun)

end

/-! ## Shapes and properties -/

structure Shows (form : Form) (node entries : Entries) : Prop where
  reference : ∀ w, Value.field? "$ref" entries = some w →
    form.MayRefer ∧ Value.field? "$ref" node = some w
  body : Value.field? "$ref" entries = none → form.HasBody node
  kind : form = .type → Value.field? "type" node ≠ none
  agree : AgreeOn bodyKeys entries node

theorem shows_self {form : Form} (hform : form.MayRefer) (node : Entries) :
    Shows form node node where
  reference _ h := ⟨hform, h⟩
  body h := .inr ⟨hform, h⟩
  kind h := by
    subst h
    rcases hform with h | h <;> cases h
  agree := .refl _ _

theorem shows_type {node : Entries} (htype : Value.field? "type" node ≠ none) :
    Shows .type node (node.filter fun entry => entry.1 ≠ "$ref") where
  reference w h := by
    rw [field?_filter_ne, if_pos rfl] at h
    cases h
  body _ := .inl rfl
  kind _ := htype
  agree := agreeOn_filter node

section

variable {v : Value} {root : String}

mutual

theorem blames_readShape (entries : Entries) {loc : Location} {form : Form} {node : Entries}
    (h : Placed v root loc form (.object node)) (hshows : Shows form node entries) :
    Blames v root (readShape entries loc) := by
  rw [readShape]
  split
  case h_1 => exact .ok _
  case h_2 w hw href =>
    obtain ⟨hform, hvalue⟩ := hshows.reference w href
    exact blames_complainKind (h.key (.reference hform rfl rfl) hvalue) rfl (not_exists.2 hw)
  case h_3 href =>
    have hbody := hshows.body href
    have htype := hshows.agree "type" (by decide)
    split
    case h_1 hnone =>
      rw [hnone] at htype
      obtain rfl | ⟨hform, href⟩ := hbody
      · exact absurd htype.symm (hshows.kind rfl)
      · exact .complain h (.noShape hform href htype.symm)
    case h_2 harray =>
      rw [harray] at htype
      have hitems := hshows.agree "items" (by decide)
      have hkey : form.Holds node "items" .item := .ofKind hbody htype.symm (by decide)
      split
      case h_1 hnone => exact .complain h (.noItems hbody htype.symm (hitems.symm.trans hnone))
      case h_2 below hvalue =>
        have hlt := sizeOf_lt_of_object hvalue
        have hbelow := h.key hkey (hitems.symm.trans hvalue)
        exact (blames_readShape below hbelow (shows_self (.inr rfl) below)).map _
      case h_3 w hw hvalue =>
        exact blames_complainKind (h.key hkey (hitems.symm.trans hvalue)) rfl (not_exists.2 hw)
    case h_3 s hs htext =>
      rw [htext] at htype
      split
      case h_1 hname =>
        refine .complain (h.key (.kind hbody rfl rfl) htype.symm) (.unknownKind hs fun scalar => ?_)
        rintro rfl
        rw [ofName?_name] at hname
        cases hname
      case h_2 hname =>
        obtain rfl := name_of_ofName? hname
        have henum := hshows.agree "enum" (by decide)
        have hkey : form.Holds node "enum" (.list .literal) :=
          .ofKind hbody htype.symm (by decide)
        split
        case h_1 => exact .ok _
        case h_2 items hvalue =>
          have hlist := h.key hkey (henum.symm.trans hvalue)
          exact (blames_readTexts (fun i w hw => hlist.index hw) fun _ => .literalNotText).map _
        case h_3 w hw hvalue =>
          exact blames_complainKind (h.key hkey (henum.symm.trans hvalue)) rfl (not_exists.2 hw)
      case h_3 hname =>
        obtain rfl := name_of_ofName? hname
        have hproperties := hshows.agree "properties" (by decide)
        have hkey : form.Holds node "properties" (.list .property) :=
          .ofKind hbody htype.symm (by decide)
        split
        case h_1 => exact .ok _
        case h_2 items hvalue =>
          have hlt := sizeOf_lt_of_array hvalue
          have hlist := h.key hkey (hproperties.symm.trans hvalue)
          exact (blames_readProperties items fun i w hw => hlist.index hw).map _
        case h_3 w hw hvalue =>
          exact blames_complainKind (h.key hkey (hproperties.symm.trans hvalue)) rfl
            (not_exists.2 hw)
      case h_4 => exact .ok _
    case h_4 w _ hw hvalue =>
      exact blames_complainKind (h.key (.kind hbody rfl rfl) (htype.symm.trans hvalue)) rfl
        (not_exists.2 hw)
termination_by sizeOf entries

theorem blames_readProperty (w : Value) {loc : Location} (h : Placed v root loc .property w) :
    Blames v root (readProperty w loc) := by
  cases w with
  | object node =>
    rw [readProperty]
    refine (blames_requiredText h (.always (by decide)) (by decide)).bind fun _ _ => ?_
    refine (blames_readShape node h (shows_self (.inl rfl) node)).bind fun _ _ => ?_
    refine (blames_flagField h (.always (by decide))).bind fun _ _ => ?_
    exact (blames_readAdvisory h (by decide)).map _
  | _ =>
    rw [readProperty]
    · exact blames_complainKind h rfl nofun
    · nofun
termination_by sizeOf w

theorem blames_readProperties (items : List Value) {loc : Location}
    (h : ∀ i w, items[i]? = some w → Placed v root (loc.index i) .property w) :
    Blames v root (readProperties items loc 0) := by
  rw [readProperties_eq_readItems]
  refine blames_readItems fun i w hw => ?_
  have hlt := List.sizeOf_lt_of_mem (List.mem_of_getElem? hw)
  exact blames_readProperty w (h i w hw)
termination_by sizeOf items

end

/-! ## Declarations -/

variable {loc : Location} {form part : Form} {w : Value} {node : Entries} {key : String}

/-- What is built from an object is read from its entries. -/
theorem blames_expectObject_bind {α : Type} {f : Entries → Read α} (h : Placed v root loc form w)
    (hform : form.wanted? = some .object)
    (hf : ∀ node, Placed v root loc form (.object node) → Blames v root (f node)) :
    Blames v root (expectObject loc w >>= f) := by
  refine (blames_expectObject h hform).bind fun node hnode => hf node ?_
  obtain rfl := ((decides_expectObject w loc).ok_iff node).1 hnode
  exact h

theorem blames_readMembers (h : Placed v root loc form (.object node))
    (hkey : form.Holds node key (.list .property)) : Blames v root (readMembers node key loc) :=
  (blames_listField h hkey).bind fun items hitems =>
    blames_readProperties items fun _ _ hw => h.item hkey hitems hw

theorem blames_readType (h : Placed v root loc .type w) : Blames v root (readType w loc) := by
  refine blames_expectObject_bind h rfl fun node h => ?_
  refine (blames_requiredText h (.always (by decide)) (by decide)).bind fun _ _ => ?_
  cases htype : Value.field? "type" node with
  | none => exact .complain h (.missingKey (by decide) htype)
  | some kind =>
      refine (blames_readShape _ h (shows_type ?_)).bind fun _ _ => ?_
      · rw [htype]
        exact Option.some_ne_none kind
      · exact (blames_readAdvisory h (by decide)).map _

theorem blames_readCommand (h : Placed v root loc .command w) :
    Blames v root (readCommand w loc) := by
  refine blames_expectObject_bind h rfl fun node h => ?_
  refine (blames_requiredText h (.always (by decide)) (by decide)).bind fun _ _ => ?_
  refine (blames_readMembers h (.always (by decide))).bind fun _ _ => ?_
  refine (blames_readMembers h (.always (by decide))).bind fun _ _ => ?_
  exact (blames_readAdvisory h (by decide)).map _

theorem blames_readEvent (h : Placed v root loc .event w) : Blames v root (readEvent w loc) := by
  refine blames_expectObject_bind h rfl fun node h => ?_
  refine (blames_requiredText h (.always (by decide)) (by decide)).bind fun _ _ => ?_
  refine (blames_readMembers h (.always (by decide))).bind fun _ _ => ?_
  exact (blames_readAdvisory h (by decide)).map _

theorem blames_readDomain (h : Placed v root loc .domain w) : Blames v root (readDomain w loc) := by
  refine blames_expectObject_bind h rfl fun node h => ?_
  have hdependencies : Form.domain.Holds node "dependencies" (.list .dependency) :=
    .always (by decide)
  have htypes : Form.domain.Holds node "types" (.list .type) := .always (by decide)
  have hcommands : Form.domain.Holds node "commands" (.list .command) := .always (by decide)
  have hevents : Form.domain.Holds node "events" (.list .event) := .always (by decide)
  refine (blames_listField h hdependencies).bind fun _ hlist => ?_
  refine (blames_readTexts (fun _ _ hw => h.item hdependencies hlist hw)
    fun _ => .dependencyNotText).bind fun _ _ => ?_
  refine (blames_requiredText h (.always (by decide)) (by decide)).bind fun _ _ => ?_
  refine (blames_readAdvisory h (by decide)).bind fun _ _ => ?_
  refine (blames_listField h htypes).bind fun _ hlist => ?_
  refine (blames_readItems fun _ _ hw =>
    blames_readType (h.item htypes hlist hw)).bind fun _ _ => ?_
  refine (blames_listField h hcommands).bind fun _ hlist => ?_
  refine (blames_readItems fun _ _ hw =>
    blames_readCommand (h.item hcommands hlist hw)).bind fun _ _ => ?_
  refine (blames_listField h hevents).bind fun _ hlist => ?_
  exact (blames_readItems fun _ _ hw => blames_readEvent (h.item hevents hlist hw)).map _

/-! ## Documents -/

theorem blames_readVersion (h : Placed v root loc .version w) :
    Blames v root (readVersion w loc) :=
  blames_expectObject_bind h rfl fun _ _ => .ok _

theorem blames_ofValue (v : Value) (root : String) : Blames v root (Document.ofValue v root) := by
  refine blames_expectObject_bind .root rfl fun node h => ?_
  have hkey : Form.document.Holds node "domains" (.list .domain) := .always (by decide)
  refine (blames_listField? h hkey).bind fun found hfound => ?_
  have hlist := ((decides_listField? node "domains" { root }).ok_iff found).1 hfound
  cases found with
  | none => exact .complain h (.missingKey (by decide) hlist)
  | some items =>
      have hdomains (version : Option Version) := (blames_readItems fun _ _ hw =>
        blames_readDomain ((h.key hkey hlist).index hw)).map
          fun domains => (⟨domains, version⟩ : Document)
      cases hversion : Value.field? "version" node with
      | none => exact hdomains none
      | some w =>
          simp only [map_eq_pure_bind]
          refine ((blames_readVersion
            (h.key (.always (by decide)) hversion)).map some).bind fun version _ => ?_
          exact hdomains version

/-- A value that is not read as a document is reported with a complaint that is true of a node of
the value. The location consists of the root and of the steps that lead to this node, and what the
complaint asks of the node is what has to stand at that place. -/
theorem complaints_true {v : Value} {root : String} {e : CompileError}
    (h : Document.ofValue v root = .error e) :
    ∃ steps form node complaint, e = .malformed { root, steps } complaint ∧
      e.context = some (root ++ String.join (steps.map Step.text)) ∧
      v.at? steps = some node ∧ Placed v root { root, steps } form node ∧
      Faulty form node complaint := by
  obtain ⟨loc, form, node, complaint, rfl, hplaced, hfaulty⟩ := blames_ofValue v root e h
  obtain ⟨rfl, hleads⟩ := hplaced.leads
  exact ⟨loc.steps, form, node, complaint, rfl, rfl, hleads, hplaced, hfaulty⟩

/-- The unknown kind is named where it stands, although the declared type is read without its
reference key. -/
theorem complaints_true_nested :
    let v : Value := .object [("domains", .array [.object [("domain", .text "Grid"),
      ("types", .array [.object [("$ref", .null), ("id", .text "Sheet"), ("type", .text "object"),
        ("properties", .array [.object [("name", .text "title"), ("type", .text "string")],
          .object [("name", .text "cells"), ("type", .text "array"),
            ("items", .object [("type", .text "array"),
              ("items", .object [("type", .text "cell")])])]])]])]])]
    let loc : Location := {
      root := "$"
      steps := [.key "domains", .index 0, .key "types", .index 0, .key "properties", .index 1,
        .key "items", .key "items", .key "type"] }
    Document.ofValue v "$" = .error (.malformed loc (.unknownKind "cell")) ∧
      loc.text = "$.domains[0].types[0].properties[1].items.items.type" ∧
      Placed v "$" loc .kind (.text "cell") := by
  intro v loc
  have h : Document.ofValue v "$" = .error (.malformed loc (.unknownKind "cell")) := by
    with_unfolding_all rfl
  refine ⟨h, by decide, ?_⟩
  obtain ⟨steps, form, node, complaint, heq, -, -, hplaced, hfaulty⟩ := complaints_true h
  obtain ⟨hloc, rfl⟩ := CompileError.malformed.inj heq
  rw [← hloc] at hplaced
  cases hfaulty
  exact hplaced

end

end Schema

end WireBindings
