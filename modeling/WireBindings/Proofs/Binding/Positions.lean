import WireBindings.Proofs.Binding.Naming

/-!
# Positions in a domain

A position is told by the steps that lead to it, where siblings are told apart by their place among
each other. On the way the names of the siblings are met and the path grows. The naming of a domain
gives every position that needs a name one entry, under the path of the position.
-/

namespace WireBindings.Binding

open Schema (Shape Property TypeDeclaration)

namespace Position

inductive Step (α : Type)
  | type (sibling : α)
  | command (sibling : α)
  | event (sibling : α)
  | parameters
  | returns
  | result
  | payload
  | member (sibling : α)
  | item
  deriving DecidableEq, Repr

/-- The steps to a position, with the places of siblings in their lists. -/
abbrev Address := List (Step Nat)

inductive Spot
  | domain (d : Schema.Domain)
  | command (c : Schema.Command)
  | event (e : Schema.Event)
  | members (properties : List Property)
  | shape (shape : Shape)
  | result
  | payload

inductive Spot.IsNamed : Spot → Prop
  | result : IsNamed .result
  | payload : IsNamed .payload
  | enumeration (literals : List String) : IsNamed (.shape (.enumeration literals))
  | record (properties : List Property) : IsNamed (.shape (.record properties))

/-- Where the body of a declared type leads. A declared enumeration has its own name and nothing in
it. -/
inductive Inside (t : TypeDeclaration) : Spot → Prop
  | record {properties : List Property} (hshape : t.shape = .record properties) :
      Inside t (.members properties)
  | body (halias : t.shape.IsAlias) : Inside t (.shape t.shape)

theorem Inside.unique {t : TypeDeclaration} {s s' : Spot} (h : Inside t s) (h' : Inside t s') :
    s = s' := by
  cases h with
  | record hshape =>
      cases h' with
      | record hshape' => rw [Shape.record.inj (hshape.symm.trans hshape')]
      | body halias => exact absurd (hshape ▸ halias) (Shape.not_isAlias_record _)
  | body halias =>
      cases h' with
      | record hshape => exact absurd (hshape ▸ halias) (Shape.not_isAlias_record _)
      | body => rfl

/-- A step from one spot to the next, with the name of the sibling that it goes to and what it adds
to the path. -/
inductive Next : Spot → Step Nat → Step String → ShapePath → Spot → Prop
  | type {d : Schema.Domain} {i : Nat} {t : TypeDeclaration} {s : Spot}
      (ht : d.types[i]? = some t) (hinside : Inside t s) :
      Next (.domain d) (.type i) (.type t.id) ["type", t.id] s
  | command {d : Schema.Domain} {i : Nat} {c : Schema.Command} (hc : d.commands[i]? = some c) :
      Next (.domain d) (.command i) (.command c.name) ["command", c.name] (.command c)
  | event {d : Schema.Domain} {i : Nat} {e : Schema.Event} (he : d.events[i]? = some e) :
      Next (.domain d) (.event i) (.event e.name) ["event", e.name] (.event e)
  | parameters (c : Schema.Command) :
      Next (.command c) .parameters .parameters ["parameters"] (.members c.parameters)
  | returns (c : Schema.Command) :
      Next (.command c) .returns .returns ["returns"] (.members c.returns)
  | result {c : Schema.Command} (hreturns : c.returns.isEmpty = false) :
      Next (.command c) .result .result ["result"] .result
  | eventParameters (e : Schema.Event) :
      Next (.event e) .parameters .parameters ["parameters"] (.members e.parameters)
  | payload (e : Schema.Event) : Next (.event e) .payload .payload ["payload"] .payload
  | member {properties : List Property} {i : Nat} {p : Property} (hp : properties[i]? = some p) :
      Next (.members properties) (.member i) (.member p.name) [p.name] (.shape p.type)
  | property {properties : List Property} {i : Nat} {p : Property} (hp : properties[i]? = some p) :
      Next (.shape (.record properties)) (.member i) (.member p.name) ["properties", p.name]
        (.shape p.type)
  | item (item : Shape) : Next (.shape (.array item)) .item .item ["items"] (.shape item)

/-- The steps from one spot to another, with the names met on the way and the path. -/
inductive Leads : Spot → Address → List (Step String) → ShapePath → Spot → Prop
  | here (s : Spot) : Leads s [] [] [] s
  | step {s t u : Spot} {x : Step Nat} {name : Step String} {piece : ShapePath} {address : Address}
      {names : List (Step String)} {path : ShapePath} (hnext : Next s x name piece t)
      (hrest : Leads t address names path u) :
      Leads s (x :: address) (name :: names) (piece ++ path) u

def Locates (s : Spot) (address : Address) (names : List (Step String)) (path : ShapePath) : Prop :=
  ∃ t, Leads s address names path t ∧ t.IsNamed

/-! ## All positions -/

def numbered {α : Type} (step : Nat → Step Nat) (below : α → List Address) (siblings : List α) :
    List Address :=
  siblings.zipIdx.flatMap fun (a, i) => (below a).map (step i :: ·)

mutual

def inShape : Shape → List Address
  | .reference _ | .scalar _ => []
  | .enumeration _ => [[]]
  | .record properties => [] :: inProperties 0 properties
  | .array item => (inShape item).map (.item :: ·)

def inProperties (i : Nat) : List Property → List Address
  | [] => []
  | ⟨_, type, _, _⟩ :: properties =>
    (inShape type).map (.member i :: ·) ++ inProperties (i + 1) properties

end

def inMembers : List Property → List Address := numbered .member fun p => inShape p.type

def inType (t : TypeDeclaration) : List Address :=
  match t.shape with
  | .enumeration _ => []
  | .record properties => inMembers properties
  | shape => inShape shape

def inCommand (c : Schema.Command) : List Address :=
  (inMembers c.parameters).map (.parameters :: ·) ++ (inMembers c.returns).map (.returns :: ·) ++
    if !c.returns.isEmpty then [[.result]] else []

def inEvent (e : Schema.Event) : List Address :=
  (inMembers e.parameters).map (.parameters :: ·) ++ [[.payload]]

def inDomain (d : Schema.Domain) : List Address :=
  numbered .type inType d.types ++ numbered .command inCommand d.commands ++
    numbered .event inEvent d.events

theorem inType_of_alias {t : TypeDeclaration} (h : t.shape.IsAlias) :
    inType t = inShape t.shape := by
  unfold inType
  cases hshape : t.shape with
  | enumeration literals => exact absurd (hshape ▸ h) (Shape.not_isAlias_enumeration literals)
  | record properties => exact absurd (hshape ▸ h) (Shape.not_isAlias_record properties)
  | reference target => rfl
  | scalar kind => rfl
  | array item => rfl

theorem inProperties_eq (i : Nat) (properties : List Property) :
    inProperties i properties =
      (properties.zipIdx i).flatMap fun (p, i) => (inShape p.type).map (.member i :: ·) := by
  induction properties generalizing i with
  | nil => rfl
  | cons p properties ih =>
      obtain ⟨name, type, optional, advisory⟩ := p
      rw [inProperties, ih, List.zipIdx_cons, List.flatMap_cons]

theorem inShape_record (properties : List Property) :
    inShape (.record properties) = [] :: inMembers properties := by
  rw [inShape, inProperties_eq]
  rfl

section

variable {α : Type} {step : Nat → Step Nat} {below : α → List Address} {siblings : List α}

theorem mem_numbered {address : Address} :
    address ∈ numbered step below siblings ↔
      ∃ i a rest, siblings[i]? = some a ∧ rest ∈ below a ∧ address = step i :: rest := by
  simp only [numbered, List.mem_flatMap, List.mem_map, Prod.exists, List.mem_zipIdx_iff_getElem?]
  constructor
  · rintro ⟨a, i, ha, rest, hrest, rfl⟩
    exact ⟨i, a, rest, ha, hrest, rfl⟩
  · rintro ⟨i, a, rest, ha, hrest, rfl⟩
    exact ⟨a, i, ha, rest, hrest, rfl⟩

theorem nodup_numbered (hstep : Function.Injective step) (h : ∀ a ∈ siblings, (below a).Nodup) :
    (numbered step below siblings).Nodup := by
  refine List.nodup_flatMap.2 ⟨?_, ?_⟩
  · rintro ⟨a, i⟩ ha
    have hmem : a ∈ siblings := List.mem_of_getElem? (List.mem_zipIdx_iff_getElem?.1 ha)
    exact (h a hmem).map List.cons_injective
  · have hplaces : (siblings.zipIdx.map Prod.snd).Nodup := by
      rw [List.zipIdx_map_snd]
      exact List.nodup_range'
    refine (List.pairwise_map.1 hplaces).imp ?_
    rintro ⟨a, i⟩ ⟨b, j⟩ hne address haddress haddress'
    obtain ⟨rest, -, rfl⟩ := List.mem_map.1 haddress
    obtain ⟨rest', -, heq⟩ := List.mem_map.1 haddress'
    exact hne (hstep (List.cons.inj heq).1.symm)

theorem forall₂_numbered {β : Type} {R : Address → β → Prop} {g : α → List β}
    (h : ∀ i a, siblings[i]? = some a →
      List.Forall₂ (fun rest b => R (step i :: rest) b) (below a) (g a)) :
    List.Forall₂ R (numbered step below siblings) (siblings.flatMap g) := by
  have hzipped : List.Forall₂ R (numbered step below siblings)
      ((siblings.zipIdx.map Prod.fst).flatMap g) := by
    apply Outcome.forall₂_flatMap_map
    rintro ⟨a, i⟩ ha
    rw [List.forall₂_map_left_iff]
    exact h i a (List.mem_zipIdx_iff_getElem?.1 ha)
  rwa [List.zipIdx_map_fst] at hzipped

end

/-! ## Each position once -/

theorem nodup_inMembers_of_shapes {properties : List Property}
    (h : ∀ p ∈ properties, (inShape p.type).Nodup) : (inMembers properties).Nodup :=
  nodup_numbered (fun _ _ => Step.member.inj) h

theorem nodup_inShape (shape : Shape) : (inShape shape).Nodup := by
  induction shape with
  | reference target => exact List.nodup_nil
  | scalar kind => exact List.nodup_nil
  | enumeration literals => exact List.nodup_singleton []
  | record properties ih =>
      rw [inShape_record, List.nodup_cons]
      refine ⟨fun hnil => ?_, nodup_inMembers_of_shapes ih⟩
      obtain ⟨i, p, rest, -, -, heq⟩ := mem_numbered.1 hnil
      cases heq
  | array item ih => exact ih.map List.cons_injective

theorem nodup_inMembers (properties : List Property) : (inMembers properties).Nodup :=
  nodup_inMembers_of_shapes fun p _ => nodup_inShape p.type

theorem nodup_inType (t : TypeDeclaration) : (inType t).Nodup := by
  unfold inType
  split
  · exact List.nodup_nil
  · exact nodup_inMembers _
  · exact nodup_inShape _

theorem nodup_inCommand (c : Schema.Command) : (inCommand c).Nodup := by
  have hparameters :=
    (nodup_inMembers c.parameters).map (List.cons_injective (a := Step.parameters))
  have hreturns := (nodup_inMembers c.returns).map (List.cons_injective (a := Step.returns))
  have hresult : (if !c.returns.isEmpty then [[Step.result]] else [] : List Address).Nodup := by
    split
    · exact List.nodup_singleton _
    · exact List.nodup_nil
  refine (hparameters.append hreturns ?_).append hresult ?_
  · simp [List.disjoint_left]
  · split <;> simp

theorem nodup_inEvent (e : Schema.Event) : (inEvent e).Nodup := by
  have hparameters :=
    (nodup_inMembers e.parameters).map (List.cons_injective (a := Step.parameters))
  refine hparameters.append (List.nodup_singleton _) ?_
  simp

theorem nodup_inDomain (d : Schema.Domain) : (inDomain d).Nodup := by
  have htypes := nodup_numbered (fun _ _ => Step.type.inj) fun t (_ : t ∈ d.types) => nodup_inType t
  have hcommands :=
    nodup_numbered (fun _ _ => Step.command.inj) fun c (_ : c ∈ d.commands) => nodup_inCommand c
  have hevents :=
    nodup_numbered (fun _ _ => Step.event.inj) fun e (_ : e ∈ d.events) => nodup_inEvent e
  refine (htypes.append hcommands ?_).append hevents ?_
  · simp only [List.disjoint_left, mem_numbered]
    rintro _ ⟨i, t, rest, -, -, rfl⟩ ⟨j, c, rest', -, -, heq⟩
    cases heq
  · simp only [List.disjoint_left, List.mem_append, mem_numbered]
    rintro _ (⟨i, t, rest, -, -, rfl⟩ | ⟨i, c, rest, -, -, rfl⟩) ⟨j, e, rest', -, -, heq⟩
    · cases heq
    · cases heq

/-! ## Each position under its path -/

def LocatesAt (s : Spot) (path : ShapePath) (address : Address) (path' : ShapePath) : Prop :=
  ∃ names rest, Locates s address names rest ∧ path' = path ++ rest

theorem LocatesAt.here {s : Spot} (h : s.IsNamed) (path : ShapePath) : LocatesAt s path [] path :=
  ⟨[], [], ⟨s, .here s, h⟩, (List.append_nil path).symm⟩

theorem LocatesAt.step {s t : Spot} {x : Step Nat} {name : Step String} {piece path : ShapePath}
    {address : Address} {path' : ShapePath} (hnext : Next s x name piece t)
    (h : LocatesAt t (path ++ piece) address path') : LocatesAt s path (x :: address) path' := by
  obtain ⟨names, rest, ⟨u, hleads, hnamed⟩, rfl⟩ := h
  exact ⟨name :: names, piece ++ rest, ⟨u, .step hnext hleads, hnamed⟩, List.append_assoc _ _ _⟩

theorem forall₂_step {s t : Spot} {x : Step Nat} {name : Step String} {piece path : ShapePath}
    (hnext : Next s x name piece t) {addresses : List Address} {paths : List ShapePath}
    (h : List.Forall₂ (LocatesAt t (path ++ piece)) addresses paths) :
    List.Forall₂ (LocatesAt s path) (addresses.map (x :: ·)) paths := by
  rw [List.forall₂_map_left_iff]
  exact h.imp fun _ _ => LocatesAt.step hnext

theorem forall₂_inMembers_of_shapes {s : Spot} (path piece : ShapePath)
    {properties : List Property} (hnext : ∀ i p, properties[i]? = some p →
      Next s (.member i) (.member p.name) (piece ++ [p.name]) (.shape p.type))
    (h : ∀ p ∈ properties, ∀ description path,
      List.Forall₂ (LocatesAt (.shape p.type) path) (inShape p.type)
        ((writtenTypes description path p.type).map Written.path)) :
    List.Forall₂ (LocatesAt s path) (inMembers properties)
      ((writtenMembers (path ++ piece) properties).map Written.path) := by
  rw [writtenMembers_eq_flatMap, List.map_flatMap]
  apply forall₂_numbered
  intro i p hp
  rw [List.append_assoc]
  refine (h p (List.mem_of_getElem? hp) _ _).imp fun _ _ => LocatesAt.step (hnext i p hp)

theorem forall₂_inShape (description : String) (path : ShapePath) (shape : Shape) :
    List.Forall₂ (LocatesAt (.shape shape) path) (inShape shape)
      ((writtenTypes description path shape).map Written.path) := by
  induction shape generalizing description path with
  | reference target => exact .nil
  | scalar kind => exact .nil
  | enumeration literals => exact .cons (.here (.enumeration literals) path) .nil
  | record properties ih =>
      rw [inShape_record, writtenTypes, List.map_cons]
      refine .cons (.here (.record properties) path) ?_
      exact forall₂_inMembers_of_shapes path ["properties"] (fun _ _ => Next.property) ih
  | array item ih => exact forall₂_step (.item item) (ih description (path ++ ["items"]))

theorem forall₂_inMembers (path : ShapePath) (properties : List Property) :
    List.Forall₂ (LocatesAt (.members properties) path) (inMembers properties)
      ((writtenMembers path properties).map Written.path) := by
  have h := forall₂_inMembers_of_shapes path [] (fun _ _ => Next.member)
    fun p (_ : p ∈ properties) description path => forall₂_inShape description path p.type
  rwa [List.append_nil] at h

theorem forall₂_inType {d : Schema.Domain} {i : Nat} {t : TypeDeclaration}
    (ht : d.types[i]? = some t) :
    List.Forall₂ (fun rest => LocatesAt (.domain d) [] (.type i :: rest)) (inType t)
      ((writtenInType t).map Written.path) := by
  rcases t.shape.enumeration_or_record_or_alias with ⟨l, hshape⟩ | ⟨l, hshape⟩ | halias
  · simp only [inType, writtenInType, hshape]
    exact .nil
  · rw [writtenInType_of_record hshape]
    simp only [inType, hshape]
    exact (forall₂_inMembers _ l).imp fun _ _ => LocatesAt.step (.type ht (.record hshape))
  · rw [writtenInType_of_alias halias, inType_of_alias halias]
    exact (forall₂_inShape _ _ _).imp fun _ _ => LocatesAt.step (.type ht (.body halias))

def commandPaths (c : Schema.Command) : List ShapePath :=
  (writtenInCommand c).map Written.path ++
    if !c.returns.isEmpty then [.commandResult c.name] else []

def eventPaths (e : Schema.Event) : List ShapePath :=
  (writtenInEvent e).map Written.path ++ [.eventPayload e.name]

theorem forall₂_inCommand (c : Schema.Command) :
    List.Forall₂ (LocatesAt (.command c) ["command", c.name]) (inCommand c) (commandPaths c) := by
  unfold inCommand commandPaths writtenInCommand
  rw [List.map_append]
  refine Outcome.forall₂_append (Outcome.forall₂_append ?_ ?_) ?_
  · exact forall₂_step (.parameters c) (forall₂_inMembers _ _)
  · exact forall₂_step (.returns c) (forall₂_inMembers _ _)
  · split
    · rename_i hreturns
      have hresult : c.returns.isEmpty = false := by simpa using hreturns
      exact .cons (.step (.result hresult) (.here .result _)) .nil
    · exact .nil

theorem forall₂_inEvent (e : Schema.Event) :
    List.Forall₂ (LocatesAt (.event e) ["event", e.name]) (inEvent e) (eventPaths e) := by
  unfold inEvent eventPaths writtenInEvent
  refine Outcome.forall₂_append ?_ ?_
  · exact forall₂_step (.eventParameters e) (forall₂_inMembers _ _)
  · exact .cons (.step (.payload e) (.here .payload _)) .nil

def domainPaths (d : Schema.Domain) : List ShapePath :=
  (d.types.flatMap fun t => (writtenInType t).map Written.path) ++
    d.commands.flatMap commandPaths ++ d.events.flatMap eventPaths

theorem forall₂_inDomain (d : Schema.Domain) :
    List.Forall₂ (LocatesAt (.domain d) []) (inDomain d) (domainPaths d) := by
  refine Outcome.forall₂_append (Outcome.forall₂_append ?_ ?_) ?_
  · exact forall₂_numbered fun _ _ => forall₂_inType
  · refine forall₂_numbered fun i c hc => ?_
    exact (forall₂_inCommand c).imp fun _ _ => LocatesAt.step (.command hc)
  · refine forall₂_numbered fun i e he => ?_
    exact (forall₂_inEvent e).imp fun _ _ => LocatesAt.step (.event he)

theorem domainPaths_perm (d : Schema.Domain) : (domainPaths d).Perm (synthesizedPaths d) := by
  have hcommands : (d.commands.flatMap commandPaths).Perm
      ((d.commands.flatMap writtenInCommand).map Written.path ++
        (returning d).map fun c => ShapePath.commandResult c.name) := by
    rw [returning, Outcome.map_filter_eq_flatMap, List.map_flatMap]
    exact (List.flatMap_append_perm d.commands _ _).symm
  have hevents : (d.events.flatMap eventPaths).Perm
      ((d.events.flatMap writtenInEvent).map Written.path ++
        d.events.map fun e => ShapePath.eventPayload e.name) := by
    rw [List.map_flatMap, List.map_eq_flatMap]
    exact (List.flatMap_append_perm d.events _ _).symm
  refine ((hcommands.append_left _).append hevents).trans ?_
  simp only [synthesizedPaths, writtenInDomain, List.map_append, List.map_flatMap,
    List.append_assoc]
  refine .append_left _ (.append_left _ ?_)
  exact List.perm_append_comm_assoc _ _ _

theorem perm_names {d : Schema.Domain} {n : Naming} (h : Naming.ofDomain d = .ok n) :
    (domainPaths d).Perm (n.names.map Prod.fst) := by
  have hdeclared : (Naming.declaredOnly d).names.map Prod.fst = [] := rfl
  rw [(Naming.ofDomain_adds h).paths, hdeclared, List.append_nil]
  refine (domainPaths_perm d).trans ?_
  exact (Naming.namingPaths_perm d).symm.trans (List.reverse_perm _).symm

/-! ## All positions are listed -/

theorem Locates.nil_or_step {s : Spot} {address : Address} {names : List (Step String)}
    {path : ShapePath} (h : Locates s address names path) :
    (address = [] ∧ s.IsNamed) ∨
      ∃ x name piece t rest names' path', address = x :: rest ∧ Next s x name piece t ∧
        Locates t rest names' path' := by
  obtain ⟨u, hleads, hnamed⟩ := h
  cases hleads with
  | here => exact .inl ⟨rfl, hnamed⟩
  | step hnext hrest => exact .inr ⟨_, _, _, _, _, _, _, rfl, hnext, u, hrest, hnamed⟩

section

variable {address : Address} {names : List (Step String)} {path : ShapePath}

theorem mem_inShape {shape : Shape} (h : Locates (.shape shape) address names path) :
    address ∈ inShape shape := by
  induction shape generalizing address names path with
  | reference target =>
      rcases h.nil_or_step with ⟨-, hnamed⟩ | ⟨x, name, piece, t, rest, -, -, -, hnext, -⟩
      · cases hnamed
      · cases hnext
  | scalar kind =>
      rcases h.nil_or_step with ⟨-, hnamed⟩ | ⟨x, name, piece, t, rest, -, -, -, hnext, -⟩
      · cases hnamed
      · cases hnext
  | enumeration literals =>
      rcases h.nil_or_step with ⟨rfl, -⟩ | ⟨x, name, piece, t, rest, -, -, -, hnext, -⟩
      · exact List.mem_cons_self
      · cases hnext
  | record properties ih =>
      rw [inShape_record]
      rcases h.nil_or_step with ⟨rfl, -⟩ | ⟨x, name, piece, t, rest, _, _, rfl, hnext, hrest⟩
      · exact List.mem_cons_self
      · cases hnext with
        | @property _ i p hp =>
            have hmem := ih p (List.mem_of_getElem? hp) hrest
            exact List.mem_cons_of_mem _ (mem_numbered.2 ⟨i, p, rest, hp, hmem, rfl⟩)
  | array item ih =>
      rcases h.nil_or_step with ⟨-, hnamed⟩ | ⟨x, name, piece, t, rest, _, _, rfl, hnext, hrest⟩
      · cases hnamed
      · cases hnext with
        | item => exact List.mem_map_of_mem (ih hrest)

theorem mem_inMembers {properties : List Property}
    (h : Locates (.members properties) address names path) : address ∈ inMembers properties := by
  rcases h.nil_or_step with ⟨-, hnamed⟩ | ⟨x, name, piece, t, rest, _, _, rfl, hnext, hrest⟩
  · cases hnamed
  · cases hnext with
    | @member _ i p hp => exact mem_numbered.2 ⟨i, p, rest, hp, mem_inShape hrest, rfl⟩

theorem mem_inType {t : TypeDeclaration} {s : Spot} (hinside : Inside t s)
    (h : Locates s address names path) : address ∈ inType t := by
  cases hinside with
  | record hshape => simpa only [inType, hshape] using mem_inMembers h
  | body halias => exact inType_of_alias halias ▸ mem_inShape h

theorem mem_inCommand {c : Schema.Command} (h : Locates (.command c) address names path) :
    address ∈ inCommand c := by
  unfold inCommand
  rcases h.nil_or_step with ⟨-, hnamed⟩ | ⟨x, name, piece, t, rest, _, _, rfl, hnext, hrest⟩
  · cases hnamed
  · cases hnext with
    | parameters =>
        have hmem := List.mem_map_of_mem (f := (Step.parameters :: ·)) (mem_inMembers hrest)
        exact List.mem_append_left _ (List.mem_append_left _ hmem)
    | returns =>
        have hmem := List.mem_map_of_mem (f := (Step.returns :: ·)) (mem_inMembers hrest)
        exact List.mem_append_left _ (List.mem_append_right _ hmem)
    | result hreturns =>
        rcases hrest.nil_or_step with ⟨rfl, -⟩ | ⟨x, name, piece, t, rest, -, -, -, hnext, -⟩
        · simp [hreturns]
        · cases hnext

theorem mem_inEvent {e : Schema.Event} (h : Locates (.event e) address names path) :
    address ∈ inEvent e := by
  unfold inEvent
  rcases h.nil_or_step with ⟨-, hnamed⟩ | ⟨x, name, piece, t, rest, _, _, rfl, hnext, hrest⟩
  · cases hnamed
  · cases hnext with
    | eventParameters =>
        exact List.mem_append_left _ (List.mem_map_of_mem (mem_inMembers hrest))
    | payload =>
        rcases hrest.nil_or_step with ⟨rfl, -⟩ | ⟨x, name, piece, t, rest, -, -, -, hnext, -⟩
        · exact List.mem_append_right _ List.mem_cons_self
        · cases hnext

theorem mem_inDomain {d : Schema.Domain} (h : Locates (.domain d) address names path) :
    address ∈ inDomain d := by
  unfold inDomain
  rw [List.mem_append, List.mem_append]
  rcases h.nil_or_step with ⟨-, hnamed⟩ | ⟨x, name, piece, t, rest, _, _, rfl, hnext, hrest⟩
  · cases hnamed
  · cases hnext with
    | @type _ i t _ ht hinside =>
        exact .inl (.inl (mem_numbered.2 ⟨i, t, rest, ht, mem_inType hinside hrest, rfl⟩))
    | @command _ i c hc =>
        exact .inl (.inr (mem_numbered.2 ⟨i, c, rest, hc, mem_inCommand hrest, rfl⟩))
    | @event _ i e he =>
        exact .inr (mem_numbered.2 ⟨i, e, rest, he, mem_inEvent hrest, rfl⟩)

end

/-- Exactly the addresses that lead to something with a synthesized name are listed. -/
theorem mem_inDomain_iff {d : Schema.Domain} {address : Address} :
    address ∈ inDomain d ↔ ∃ names path, Locates (.domain d) address names path := by
  constructor
  · intro h
    obtain ⟨_, -, names, path, hlocates, -⟩ :=
      Outcome.exists_right_of_forall₂ (forall₂_inDomain d) h
    exact ⟨names, path, hlocates⟩
  · rintro ⟨names, path, h⟩
    exact mem_inDomain h

end Position

end WireBindings.Binding
