import WireBindings.Binding.Names
import WireBindings.Proofs.Schema.References
import Mathlib.Data.List.Infix
import Mathlib.Data.List.Nodup

/-!
# Places of shapes in a domain

Where shapes stand in a domain, and which enumerations and records are written there without a name
of their own. Everything that walks over the members of a domain visits these places.
-/

namespace WireBindings.Binding

open Schema (Shape Property TypeDeclaration memberReferences)

structure Written where
  path : ShapePath
  shape : Shape
  description : String

mutual

def writtenTypes (description : String) (path : ShapePath) : Shape → List Written
  | .reference _ | .scalar _ => []
  | .enumeration literals => [⟨path, .enumeration literals, description⟩]
  | .record properties =>
    ⟨path, .record properties, description⟩ :: writtenMembers (path ++ ["properties"]) properties
  | .array item => writtenTypes description (path ++ ["items"]) item

def writtenMembers (path : ShapePath) : List Property → List Written
  | [] => []
  | ⟨name, type, _, advisory⟩ :: properties =>
    writtenTypes advisory.description (path ++ [name]) type ++ writtenMembers path properties

end

def writtenInType (t : TypeDeclaration) : List Written :=
  match t.shape with
  | .enumeration _ => []
  | .record properties => writtenMembers (.ofType t.id) properties
  | shape => writtenTypes t.advisory.description (.ofType t.id) shape

def writtenInCommand (c : Schema.Command) : List Written :=
  writtenMembers (.commandParameters c.name) c.parameters ++
    writtenMembers (.commandReturns c.name) c.returns

def writtenInEvent (e : Schema.Event) : List Written :=
  writtenMembers (.eventParameters e.name) e.parameters

def writtenInDomain (d : Schema.Domain) : List Written :=
  d.types.flatMap writtenInType ++ d.commands.flatMap writtenInCommand ++
    d.events.flatMap writtenInEvent

def returning (d : Schema.Domain) : List Schema.Command :=
  d.commands.filter fun c => !c.returns.isEmpty

def synthesizedPaths (d : Schema.Domain) : List ShapePath :=
  (writtenInDomain d).map Written.path ++
    (returning d).map (fun c => ShapePath.commandResult c.name) ++
    d.events.map fun e => ShapePath.eventPayload e.name

inductive MemberList (d : Schema.Domain) : ShapePath → List Property → Prop
  | type {t : TypeDeclaration} {properties : List Property} (ht : t ∈ d.types)
      (hshape : t.shape = .record properties) : MemberList d (.ofType t.id) properties
  | parameters {c : Schema.Command} (hc : c ∈ d.commands) :
      MemberList d (.commandParameters c.name) c.parameters
  | returns {c : Schema.Command} (hc : c ∈ d.commands) :
      MemberList d (.commandReturns c.name) c.returns
  | event {e : Schema.Event} (he : e ∈ d.events) :
      MemberList d (.eventParameters e.name) e.parameters

/-- A shape stands at a path of a domain: as the body of an alias, as the type of a member, or
nested in a shape that does. -/
inductive Stands (d : Schema.Domain) : ShapePath → Shape → Prop
  | body {t : TypeDeclaration} (ht : t ∈ d.types) (halias : t.shape.IsAlias) :
      Stands d (.ofType t.id) t.shape
  | member {path : ShapePath} {properties : List Property} {p : Property}
      (hlist : MemberList d path properties) (hp : p ∈ properties) :
      Stands d (path ++ [p.name]) p.type
  | property {path : ShapePath} {properties : List Property} {p : Property}
      (h : Stands d path (.record properties)) (hp : p ∈ properties) :
      Stands d (path ++ ["properties"] ++ [p.name]) p.type
  | item {path : ShapePath} {item : Shape} (h : Stands d path (.array item)) :
      Stands d (path ++ ["items"]) item

theorem writtenMembers_eq_flatMap (path : ShapePath) (properties : List Property) :
    writtenMembers path properties =
      properties.flatMap fun p =>
        writtenTypes p.advisory.description (path ++ [p.name]) p.type := by
  induction properties with
  | nil => rfl
  | cons p properties ih =>
      obtain ⟨name, type, optional, advisory⟩ := p
      rw [writtenMembers, ih]
      rfl

theorem writtenTypes_subset_writtenMembers {path : ShapePath} {properties : List Property}
    {p : Property} (hp : p ∈ properties) :
    writtenTypes p.advisory.description (path ++ [p.name]) p.type ⊆
      writtenMembers path properties := by
  intro w hw
  rw [writtenMembers_eq_flatMap]
  exact List.mem_flatMap.2 ⟨p, hp, hw⟩

theorem writtenInType_of_record {t : TypeDeclaration} {properties : List Property}
    (h : t.shape = .record properties) :
    writtenInType t = writtenMembers (.ofType t.id) properties := by
  simp only [writtenInType, h]

theorem writtenInType_of_alias {t : TypeDeclaration} (h : t.shape.IsAlias) :
    writtenInType t = writtenTypes t.advisory.description (.ofType t.id) t.shape := by
  unfold writtenInType
  cases hshape : t.shape with
  | enumeration literals => exact absurd (hshape ▸ h) (Shape.not_isAlias_enumeration literals)
  | record properties => exact absurd (hshape ▸ h) (Shape.not_isAlias_record properties)
  | reference target => rfl
  | scalar kind => rfl
  | array item => rfl

/-! ## What stands in a domain is written and refers in it -/

theorem MemberList.writtenMembers_subset {d : Schema.Domain} {path : ShapePath}
    {properties : List Property} (h : MemberList d path properties) :
    writtenMembers path properties ⊆ writtenInDomain d := by
  intro w hw
  simp only [writtenInDomain, List.mem_append, List.mem_flatMap]
  cases h with
  | type ht hshape => exact .inl (.inl ⟨_, ht, by rwa [writtenInType_of_record hshape]⟩)
  | parameters hc => exact .inl (.inr ⟨_, hc, List.mem_append_left _ hw⟩)
  | returns hc => exact .inl (.inr ⟨_, hc, List.mem_append_right _ hw⟩)
  | event he => exact .inr ⟨_, he, hw⟩

theorem MemberList.references_subset {d : Schema.Domain} {path : ShapePath}
    {properties : List Property} (h : MemberList d path properties) :
    ∃ place, memberReferences place properties ⊆ d.references := by
  cases h with
  | @type t _ ht hshape =>
      refine ⟨d.name ++ "." ++ t.id, ?_⟩
      intro o ho
      refine List.mem_append_left _ (List.mem_append_left _ (List.mem_flatMap.2 ⟨t, ht, ?_⟩))
      rw [hshape, Shape.references]
      exact ho
  | @parameters c hc =>
      refine ⟨d.name ++ "." ++ c.name, ?_⟩
      intro o ho
      exact List.mem_append_left _ (List.mem_append_right _
        (List.mem_flatMap.2 ⟨c, hc, List.mem_append_left _ ho⟩))
  | @returns c hc =>
      refine ⟨d.name ++ "." ++ c.name ++ ".returns", ?_⟩
      intro o ho
      exact List.mem_append_left _ (List.mem_append_right _
        (List.mem_flatMap.2 ⟨c, hc, List.mem_append_right _ ho⟩))
  | @event e he =>
      refine ⟨d.name ++ "." ++ e.name, ?_⟩
      intro o ho
      exact List.mem_append_right _ (List.mem_flatMap.2 ⟨e, he, ho⟩)

theorem Stands.writtenTypes_subset {d : Schema.Domain} {path : ShapePath} {shape : Shape}
    (h : Stands d path shape) :
    ∃ description, writtenTypes description path shape ⊆ writtenInDomain d := by
  induction h with
  | @body t ht halias =>
      refine ⟨t.advisory.description, ?_⟩
      intro w hw
      rw [← writtenInType_of_alias halias] at hw
      exact List.mem_append_left _ (List.mem_append_left _ (List.mem_flatMap.2 ⟨t, ht, hw⟩))
  | @member path properties p hlist hp =>
      refine ⟨p.advisory.description, ?_⟩
      exact List.Subset.trans (writtenTypes_subset_writtenMembers hp) hlist.writtenMembers_subset
  | @property path properties p h hp ih =>
      obtain ⟨description, hsub⟩ := ih
      refine ⟨p.advisory.description, ?_⟩
      intro w hw
      apply hsub
      rw [writtenTypes]
      exact List.mem_cons_of_mem _ (writtenTypes_subset_writtenMembers hp hw)
  | @item path item h ih =>
      obtain ⟨description, hsub⟩ := ih
      refine ⟨description, ?_⟩
      rwa [writtenTypes] at hsub

/-- A type that is written where a shape stands has a path among those that get a name. -/
theorem Stands.path_mem {d : Schema.Domain} {path path' : ShapePath} {shape : Shape}
    (h : Stands d path shape)
    (hwritten : ∀ description, ∃ w ∈ writtenTypes description path shape, w.path = path') :
    path' ∈ synthesizedPaths d := by
  obtain ⟨description, hsub⟩ := h.writtenTypes_subset
  obtain ⟨w, hw, rfl⟩ := hwritten description
  exact List.mem_append_left _ (List.mem_append_left _ (List.mem_map_of_mem (hsub hw)))

theorem Stands.references_subset {d : Schema.Domain} {path : ShapePath} {shape : Shape}
    (h : Stands d path shape) : ∃ place, shape.references place ⊆ d.references := by
  have hmember : ∀ {place : String} {properties : List Property} {p : Property},
      p ∈ properties → memberReferences place properties ⊆ d.references →
        p.type.references (place ++ "." ++ p.name) ⊆ d.references := by
    intro place properties p hp hsub o ho
    apply hsub
    rw [Schema.memberReferences_eq_flatMap]
    exact List.mem_flatMap.2 ⟨p, hp, ho⟩
  induction h with
  | @body t ht halias =>
      refine ⟨d.name ++ "." ++ t.id, ?_⟩
      intro o ho
      exact List.mem_append_left _ (List.mem_append_left _ (List.mem_flatMap.2 ⟨t, ht, ho⟩))
  | member hlist hp =>
      obtain ⟨place, hsub⟩ := hlist.references_subset
      exact ⟨_, hmember hp hsub⟩
  | property h hp ih =>
      obtain ⟨place, hsub⟩ := ih
      rw [Shape.references] at hsub
      exact ⟨_, hmember hp hsub⟩
  | item h ih =>
      obtain ⟨place, hsub⟩ := ih
      rw [Shape.references] at hsub
      exact ⟨_, hsub⟩

/-! ## What is written stands where its path says -/

theorem Stands.of_mem_writtenTypes {d : Schema.Domain} {description : String} {path : ShapePath}
    {shape : Shape} (h : Stands d path shape) {w : Written}
    (hw : w ∈ writtenTypes description path shape) : Stands d w.path w.shape := by
  induction shape generalizing description path with
  | reference target => simp [writtenTypes] at hw
  | scalar kind => simp [writtenTypes] at hw
  | enumeration literals =>
      obtain rfl := List.mem_singleton.1 hw
      exact h
  | record properties ih =>
      rcases List.mem_cons.1 hw with rfl | hw
      · exact h
      · rw [writtenMembers_eq_flatMap] at hw
        obtain ⟨p, hp, hw⟩ := List.mem_flatMap.1 hw
        exact ih p hp (h.property hp) hw
  | array item ih => exact ih h.item hw

theorem MemberList.stands_of_mem {d : Schema.Domain} {path : ShapePath}
    {properties : List Property} (h : MemberList d path properties) {w : Written}
    (hw : w ∈ writtenMembers path properties) : Stands d w.path w.shape := by
  rw [writtenMembers_eq_flatMap] at hw
  obtain ⟨p, hp, hw⟩ := List.mem_flatMap.1 hw
  exact (Stands.member h hp).of_mem_writtenTypes hw

theorem stands_of_mem_writtenInType {d : Schema.Domain} {t : TypeDeclaration} (ht : t ∈ d.types)
    {w : Written} (hw : w ∈ writtenInType t) : Stands d w.path w.shape := by
  rcases t.shape.enumeration_or_record_or_alias with ⟨l, hshape⟩ | ⟨l, hshape⟩ | halias
  · simp [writtenInType, hshape] at hw
  · rw [writtenInType_of_record hshape] at hw
    exact (MemberList.type ht hshape).stands_of_mem hw
  · rw [writtenInType_of_alias halias] at hw
    exact (Stands.body ht halias).of_mem_writtenTypes hw

theorem stands_of_mem_writtenInDomain {d : Schema.Domain} {w : Written}
    (hw : w ∈ writtenInDomain d) : Stands d w.path w.shape := by
  simp only [writtenInDomain, List.mem_append, List.mem_flatMap] at hw
  rcases hw with (⟨t, ht, hw⟩ | ⟨c, hc, hw⟩) | ⟨e, he, hw⟩
  · exact stands_of_mem_writtenInType ht hw
  · rcases List.mem_append.1 hw with hw | hw
    · exact (MemberList.parameters hc).stands_of_mem hw
    · exact (MemberList.returns hc).stands_of_mem hw
  · exact (MemberList.event he).stands_of_mem hw

end WireBindings.Binding
