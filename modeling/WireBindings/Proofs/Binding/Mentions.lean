import WireBindings.Compilation
import WireBindings.Proofs.Binding.Protocol

/-!
# What a bound protocol points at

Every descriptor of a bound domain is the unfolding of a shape that stands in the domain, or the
name of one of its data types. An unfolding ends at a data type of the domain that it was read in.
-/

namespace WireBindings.Binding

open Schema (Shape Property TypeKey TypeDeclaration Resolution Document)

def Domain.descriptors (d : Domain) : List Descriptor :=
  d.types.flatMap DataType.descriptors ++
    d.commands.flatMap (fun c => c.parameters.map Member.type ++ c.result.toList) ++
    d.events.flatMap fun e => .named e.payload :: e.parameters.map Member.type

def Domain.mentioned (d : Domain) : List TypeName :=
  d.descriptors.filterMap Descriptor.namedType?

namespace Context

inductive Describes (c : Context) (d : Schema.Domain) : Descriptor → Prop
  | shape {path : ShapePath} {shape : Shape} {type : Descriptor} (hstands : Stands d path shape)
      (h : c.Unfolds d.name path shape type) : Describes c d type
  | subject {s : Subject} {t : DataType} (hs : s ∈ subjects c.resolution d)
      (h : c.Realizes d.name s t) (horigin : t.origin ≠ .declared) :
      Describes c d (.named t.typeName)

theorem FieldsOf.describes {c : Context} {d : Schema.Domain} {path : ShapePath}
    {properties : List Property} {fields : List Field}
    (h : c.FieldsOf d.name path properties fields)
    (hstands : ∀ p ∈ properties, Stands d (path ++ [p.name]) p.type) :
    ∀ type ∈ fields.map Member.type, c.Describes d type := by
  intro type htype
  obtain ⟨f, hf, rfl⟩ := List.mem_map.1 htype
  obtain ⟨p, hp, hfield⟩ := Outcome.exists_left_of_forall₂ h hf
  exact .shape (hstands p hp) hfield.type

theorem FieldsOf.describes_of_memberList {c : Context} {d : Schema.Domain} {path : ShapePath}
    {properties : List Property} {fields : List Field}
    (h : c.FieldsOf d.name path properties fields) (hlist : MemberList d path properties) :
    ∀ type ∈ fields.map Member.type, c.Describes d type :=
  h.describes fun _ hp => .member hlist hp

theorem Realizes.describes {c : Context} {d : Schema.Domain} {s : Subject} {t : DataType}
    (h : c.Realizes d.name s t) (hs : s ∈ subjects c.resolution d)
    (halias : ∀ t, .alias t ∈ subjects c.resolution d → t.shape.IsAlias) :
    ∀ type ∈ t.descriptors, c.Describes d type := by
  intro type htype
  cases h with
  | enumeration hshape => cases htype
  | record hshape hfields =>
      rw [DataType.descriptors, Option.toList_none, List.append_nil] at htype
      have ht := (declared_mem_subjects.1 hs).1
      exact hfields.describes_of_memberList (.type ht hshape) type htype
  | recursive htarget =>
      obtain rfl := List.mem_singleton.1 htype
      exact .shape (.body (alias_mem_subjects.1 hs).1 (halias _ hs)) htarget
  | writtenEnumeration hname => cases htype
  | writtenRecord hname hfields =>
      rw [DataType.descriptors, Option.toList_none, List.append_nil] at htype
      have hstands := stands_of_mem_writtenInDomain (written_mem_subjects.1 hs)
      exact hfields.describes (fun _ hp => hstands.property hp) type htype
  | result hname hfields =>
      rw [DataType.descriptors, Option.toList_none, List.append_nil] at htype
      have hcommand := List.mem_of_mem_filter (result_mem_subjects.1 hs)
      exact hfields.describes_of_memberList (.returns hcommand) type htype
  | payload hname hfields =>
      rw [DataType.descriptors, Option.toList_none, List.append_nil] at htype
      have hevent := payload_mem_subjects.1 hs
      exact hfields.describes_of_memberList (.event hevent) type htype

theorem CommandOf.describes {c : Context} {d : Schema.Domain} {command : Schema.Command}
    {bound : Command} (h : c.CommandOf d.name command bound) (hcommand : command ∈ d.commands) :
    ∀ type ∈ bound.parameters.map Member.type ++ bound.result.toList, c.Describes d type := by
  intro type htype
  rcases List.mem_append.1 htype with htype | htype
  · exact h.parameters.describes_of_memberList (.parameters hcommand) type htype
  rcases h.result with ⟨hnone, -⟩ | ⟨t, ht, hsome, hreturns⟩
  · simp [hnone] at htype
  · rw [hsome] at htype
    obtain rfl := List.mem_singleton.1 htype
    have hmem : command ∈ returning d := List.mem_filter.2 ⟨hcommand, by simpa using hreturns⟩
    exact .subject (result_mem_subjects.2 hmem) ht (by cases ht; simp)

theorem EventOf.describes {c : Context} {d : Schema.Domain} {event : Schema.Event}
    {bound : Event} (h : c.EventOf d.name event bound) (hevent : event ∈ d.events) :
    ∀ type ∈ .named bound.payload :: bound.parameters.map Member.type, c.Describes d type := by
  intro type htype
  rcases List.mem_cons.1 htype with rfl | htype
  · obtain ⟨t, ht, hpayload⟩ := h.payload
    rw [hpayload]
    exact .subject (payload_mem_subjects.2 hevent) ht (by cases ht; simp)
  · exact h.parameters.describes_of_memberList (.event hevent) type htype

theorem Realizes.typeName_eq {c : Context} {domain : String} {s : Subject} {t t' : DataType}
    (h : c.Realizes domain s t) (h' : c.Realizes domain s t') : t.typeName = t'.typeName := by
  cases h with
  | enumeration hshape =>
      cases h' with
      | enumeration hshape' => rfl
      | record hshape' hfields' => cases hshape.symm.trans hshape'
  | record hshape hfields =>
      cases h' with
      | enumeration hshape' => cases hshape.symm.trans hshape'
      | record hshape' hfields' => rfl
  | recursive htarget =>
      cases h'
      rfl
  | writtenEnumeration hname =>
      cases h' with
      | writtenEnumeration hname' => rw [Except.ok.inj (hname.symm.trans hname')]
  | writtenRecord hname hfields =>
      cases h' with
      | writtenRecord hname' hfields' =>
          rw [DataType.typeName, DataType.typeName, Except.ok.inj (hname.symm.trans hname')]
  | result hname hfields =>
      cases h' with
      | result hname' hfields' =>
          rw [DataType.typeName, DataType.typeName, Except.ok.inj (hname.symm.trans hname')]
  | payload hname hfields =>
      cases h' with
      | payload hname' hfields' =>
          rw [DataType.typeName, DataType.typeName, Except.ok.inj (hname.symm.trans hname')]

theorem Realizes.domain_eq {c : Context} {domain : String} {s : Subject} {t : DataType}
    (h : c.Realizes domain s t) : t.domain = domain := by
  cases h <;> rfl

/-- The name of a data type that no declaration gives was synthesized for a path. -/
theorem Realizes.exists_nameAt {c : Context} {domain : String} {s : Subject} {t : DataType}
    (h : c.Realizes domain s t) (horigin : t.origin ≠ .declared) :
    ∃ path, c.nameAt domain path = .ok t.name := by
  cases h with
  | enumeration hshape => exact absurd rfl horigin
  | record hshape hfields => exact absurd rfl horigin
  | recursive htarget => exact absurd rfl horigin
  | writtenEnumeration hname => exact ⟨_, hname⟩
  | writtenRecord hname hfields => exact ⟨_, hname⟩
  | result hname hfields => exact ⟨_, hname⟩
  | payload hname hfields => exact ⟨_, hname⟩

theorem exists_written_of_stands {r : Resolution} {d : Schema.Domain} {path : ShapePath}
    {shape : Shape} (hstands : Stands d path shape)
    (hwritten : ∀ description, ⟨path, shape, description⟩ ∈ writtenTypes description path shape) :
    ∃ description, .written ⟨path, shape, description⟩ ∈ subjects r d := by
  obtain ⟨description, hsub⟩ := hstands.writtenTypes_subset
  exact ⟨description, written_mem_subjects.2 (hsub (hwritten description))⟩

section

variable {doc : Document} {r : Resolution} {c : Context} (hr : Resolution.ofDocument doc = .ok r)
  (hc : ofResolution r = .ok c)

include hr hc

/-- Binding a domain gives no descriptor but those of its shapes and its data types. -/
theorem Bound.describes {d : Schema.Domain} (hd : d ∈ doc.domains) {bound : Domain}
    (h : c.Bound d bound) : ∀ type ∈ bound.descriptors, c.Describes d type := by
  have halias : ∀ t, .alias t ∈ subjects c.resolution d → t.shape.IsAlias := by
    intro t ht
    obtain ⟨hmem, hrec⟩ := alias_mem_subjects.1 ht
    exact isAlias_of_isRecursive hr hc hd hmem hrec
  intro type htype
  simp only [Domain.descriptors, List.mem_append, List.mem_flatMap] at htype
  rcases htype with (⟨t, ht, htype⟩ | ⟨command, hcommand, htype⟩) | ⟨event, hevent, htype⟩
  · obtain ⟨s, hs, hst⟩ := h.exists_subject hr hc hd ht
    exact hst.describes hs halias type htype
  · obtain ⟨command', hcommand', hof⟩ := Outcome.exists_left_of_forall₂ h.commands hcommand
    exact hof.describes hcommand' type (List.mem_append.2 htype)
  · obtain ⟨event', hevent', hof⟩ := Outcome.exists_left_of_forall₂ h.events hevent
    exact hof.describes hevent' type htype

theorem Unfolds.exists_subject {d : Schema.Domain} (hd : d ∈ doc.domains) {path : ShapePath}
    {shape : Shape} {type : Descriptor} (hstands : Stands d path shape)
    (h : c.Unfolds d.name path shape type) {n : TypeName} (hn : type.namedType? = some n) :
    ∃ owner ∈ doc.domains, owner.name = n.domain ∧ ∃ s ∈ subjects c.resolution owner,
      ∀ t, c.Realizes owner.name s t → t.typeName = n := by
  obtain ⟨rfl, -, -⟩ := ofResolution_eq_ok hc
  have hfind : ∀ {key t}, c.resolution.table.find? key = some t →
      ∃ owner ∈ doc.domains, owner.name = key.domain ∧ t ∈ owner.types ∧ t.id = key.id :=
    fun ht => (Resolution.find?_eq_some_iff hr).1 ht
  generalize hdomain : d.name = domain at h
  induction h generalizing d with
  | scalar domain path kind => cases kind <;> cases hn
  | enumeration literals hname =>
      obtain ⟨description, hs⟩ :=
        exists_written_of_stands hstands (by simp [writtenTypes])
      obtain rfl := Option.some.inj hn
      refine ⟨d, hd, hdomain, _, hs, ?_⟩
      intro t ht
      cases ht with
      | writtenEnumeration hname' =>
          rw [hdomain] at hname' ⊢
          rw [Except.ok.inj (hname.symm.trans hname')]
          rfl
  | record properties hname =>
      obtain ⟨description, hs⟩ :=
        exists_written_of_stands hstands (by simp [writtenTypes])
      obtain rfl := Option.some.inj hn
      refine ⟨d, hd, hdomain, _, hs, ?_⟩
      intro t ht
      cases ht with
      | writtenRecord hname' hfields =>
          rw [hdomain] at hname' ⊢
          rw [Except.ok.inj (hname.symm.trans hname')]
          rfl
  | array h ih => exact ih hd hstands.item hn hdomain
  | toEnumeration htarget ht hshape =>
      obtain ⟨owner, howner, hname, hmem, hid⟩ := hfind ht
      obtain rfl := Option.some.inj hn
      have hs := declared_mem_subjects (r := c.resolution).2
        ⟨hmem, hshape ▸ Shape.not_isAlias_enumeration _⟩
      refine ⟨owner, howner, hname, _, hs, ?_⟩
      intro t ht
      cases ht with
      | enumeration hshape' => rw [DataType.typeName, hname, hid]
      | record hshape' hfields => cases hshape.symm.trans hshape'
  | toRecord htarget ht hshape =>
      obtain ⟨owner, howner, hname, hmem, hid⟩ := hfind ht
      obtain rfl := Option.some.inj hn
      have hs := declared_mem_subjects (r := c.resolution).2
        ⟨hmem, hshape ▸ Shape.not_isAlias_record _⟩
      refine ⟨owner, howner, hname, _, hs, ?_⟩
      intro t ht
      cases ht with
      | enumeration hshape' => cases hshape.symm.trans hshape'
      | record hshape' hfields => rw [DataType.typeName, hname, hid]
  | @toRecursive domain target path key t htarget ht halias hloop =>
      obtain ⟨owner, howner, hname, hmem, hid⟩ := hfind ht
      obtain rfl := Option.some.inj hn
      have hkey : (⟨owner.name, t.id⟩ : TypeKey) = key := by rw [hname, hid]
      have hs := alias_mem_subjects.2 ⟨hmem, Resolution.isRecursive_iff.2 (hkey ▸ hloop)⟩
      refine ⟨owner, howner, hname, _, hs, ?_⟩
      intro t ht
      cases ht with
      | recursive htarget' => rw [DataType.typeName, hname, hid]
  | toBody htarget ht halias hloop h ih =>
      obtain ⟨owner, howner, hname, hmem, hid⟩ := hfind ht
      exact ih howner (hid ▸ .body hmem halias) hn hname

/-- What a bound domain points at is a data type of a bound domain. -/
theorem exists_type_of_mem_mentioned {p : Protocol}
    (hbound : List.Forall₂ c.Bound doc.domains p.domains) {bound : Domain}
    (hmem : bound ∈ p.domains) {n : TypeName} (hn : n ∈ bound.mentioned) :
    ∃ owner ∈ p.domains, owner.name = n.domain ∧ ∃ t ∈ owner.types, t.typeName = n := by
  obtain ⟨d, hd, h⟩ := Outcome.exists_left_of_forall₂ hbound hmem
  obtain ⟨type, htype, hn⟩ := List.mem_filterMap.1 hn
  cases h.describes hr hc hd type htype with
  | shape hstands hunfolds =>
      obtain ⟨d', hd', hname, s, hs, hpoints⟩ :=
        hunfolds.exists_subject hr hc hd hstands hn
      obtain ⟨owner, howner, h'⟩ := Outcome.exists_right_of_forall₂ hbound hd'
      obtain ⟨t, ht, hst⟩ := h'.exists_type hr hc hd' hs
      exact ⟨owner, howner, h'.name.trans hname, t, ht, hpoints t hst⟩
  | subject hs hst _ =>
      obtain rfl := Option.some.inj hn
      obtain ⟨t, ht, hst'⟩ := h.exists_type hr hc hd hs
      exact ⟨bound, hmem, h.name.trans hst.domain_eq.symm, t, ht, hst'.typeName_eq hst⟩

theorem Bound.not_mem_ids {d : Schema.Domain} (hd : d ∈ doc.domains) {bound : Domain}
    (h : c.Bound d bound) {t : DataType} (ht : t ∈ bound.types) (horigin : t.origin ≠ .declared) :
    t.name ∉ d.types.map TypeDeclaration.id := by
  obtain ⟨s, -, hst⟩ := h.exists_subject hr hc hd ht
  obtain ⟨path, hname⟩ := hst.exists_nameAt horigin
  exact not_mem_ids_of_nameAt hr hc hd hname

end

end Context

/-- A resolved document is bound unless a name has no free candidate left. Then every named type
that occurs in it is a data type of the domain it names, and no synthesized name is declared. -/
theorem no_dangling_names {doc : Document} {r : Resolution}
    (hr : Resolution.ofDocument doc = .ok r) :
    ((∃ p, Protocol.ofResolution r = .ok p) ∨
      ∃ domain base,
        Protocol.ofResolution r = .error (.compilation (.nameCollision domain base))) ∧
    ∀ p, Protocol.ofResolution r = .ok p →
      (∀ bound ∈ p.domains, ∀ n ∈ bound.mentioned, ∃ owner ∈ p.domains,
        owner.name = n.domain ∧ ∃ t ∈ owner.types, t.typeName = n) ∧
      List.Forall₂ (fun d bound => bound.name = d.name ∧ ∀ t ∈ bound.types,
        t.origin ≠ .declared → t.name ∉ d.types.map TypeDeclaration.id) doc.domains p.domains := by
  refine ⟨exists_protocol_or_nameCollision hr, ?_⟩
  intro p hp
  obtain ⟨c, hc, hbound⟩ := exists_bound hr hp
  refine ⟨fun bound hmem n hn => Context.exists_type_of_mem_mentioned hr hc hbound hmem hn, ?_⟩
  refine Outcome.forall₂_imp_of_mem hbound ?_
  intro d hd bound h
  exact ⟨h.name, fun t ht horigin => h.not_mem_ids hr hc hd ht horigin⟩

/-- Aliases of two domains that lead to one another, an alias that leads to them, and a type written
in an alias that the other domain uses. -/
def crossed : Document where
  domains := [
    { name := "A"
      dependencies := ["B"]
      types := [
        { id := "Ring", shape := .array (.reference "B.Ring") },
        { id := "Rings", shape := .array (.reference "Ring") },
        { id := "Pace", shape := .reference "B.Paces" }]
      commands := [
        { name := "go"
          parameters := [
            { name := "pace", type := .reference "Pace" },
            { name := "rings", type := .reference "Rings" }] }] },
    { name := "B"
      dependencies := ["A"]
      types := [
        { id := "Ring", shape := .reference "A.Ring" },
        { id := "Paces", shape := .array (.enumeration ["fast", "slow"]) }] }]

theorem no_dangling_names_crossed :
    ∃ p, Compilation.bind crossed = .ok p ∧
      p.domains.map Domain.mentioned =
        [[⟨"B", "Ring", .alias⟩, ⟨"B", "PacesItem", .enumeration⟩, ⟨"A", "Ring", .alias⟩],
          [⟨"A", "Ring", .alias⟩]] ∧
      ∀ bound ∈ p.domains, ∀ n ∈ bound.mentioned, ∃ owner ∈ p.domains,
        owner.name = n.domain ∧ ∃ t ∈ owner.types, t.typeName = n := by
  have hmentioned : (Compilation.bind crossed).toOption.map
      (fun p => p.domains.map Domain.mentioned) = some
        [[⟨"B", "Ring", .alias⟩, ⟨"B", "PacesItem", .enumeration⟩, ⟨"A", "Ring", .alias⟩],
          [⟨"A", "Ring", .alias⟩]] := by
    decide +kernel
  obtain ⟨p, hp, hmentioned⟩ := Option.map_eq_some_iff.1 hmentioned
  have hp : Compilation.bind crossed = .ok p := Outcome.toOption_eq_some.1 hp
  obtain ⟨r, hr, hp'⟩ := Outcome.bind_eq_ok.1 hp
  obtain ⟨-, hbound⟩ := no_dangling_names (Outcome.liftM_eq_ok.1 hr)
  exact ⟨p, hp, hmentioned, (hbound p hp').1⟩

end WireBindings.Binding
