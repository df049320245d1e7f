import WireBindings.Proofs.Binding.Places
import WireBindings.Proofs.Identifier.Pascal
import Mathlib.Data.List.Perm.Basic

/-!
# Synthesized names are fresh

Naming a domain gives every place that needs a name one that is neither declared nor given before,
and that holds no characters but those of words and underscores. Each naming function is described
once, by the paths it adds and by the only error it can meet.
-/

namespace WireBindings.Binding

open Schema (Shape Property TypeDeclaration)
open Identifier (IsWordText isWordText_pascal)

namespace NameRegistry

theorem isWordText_candidates {base name : String} (hbase : IsWordText base)
    (h : name ∈ candidates base) : IsWordText name := by
  have hnumbers : ∀ i ∈ List.range (maxNameNumber - 1), IsWordText (toString (i + 2)) := by
    decide +kernel
  rcases List.mem_cons.1 h with rfl | h
  · exact hbase
  · obtain ⟨i, hi, rfl⟩ := List.mem_map.1 h
    exact hbase.append (hnumbers i hi)

theorem synthesize_eq_ok {r r' : NameRegistry} {base name : String}
    (h : r.synthesize base = .ok (name, r')) :
    name ∉ r.taken ∧ name ∈ candidates base ∧ r' = r.reserve name := by
  unfold synthesize at h
  split at h
  · rename_i found hfound
    obtain ⟨rfl, rfl⟩ := Prod.mk.inj (Except.ok.inj h)
    have hfree := List.find?_some hfound
    exact ⟨by simpa using hfree, List.mem_of_find?_eq_some hfound, rfl⟩
  · cases h

theorem synthesize_eq_error {r : NameRegistry} {base : String} {e : CompileError}
    (h : r.synthesize base = .error e) : e = .nameCollision r.domain base := by
  unfold synthesize at h
  split at h
  · cases h
  · exact (Except.error.inj h).symm

end NameRegistry

namespace Naming

/-- The names taken are the declared ones and the ones given to paths, each once. -/
def Fresh (n : Naming) (declared : List String) : Prop :=
  n.registry.taken = n.names.map Prod.snd ++ declared ∧ n.registry.taken.Nodup

def Worded (n : Naming) : Prop := ∀ name ∈ n.names.map Prod.snd, IsWordText name

/-- One naming continues another: it names some more paths and keeps what is taken free of
repetition. -/
structure Adds (n n' : Naming) (paths : List ShapePath) : Prop where
  domain : n'.registry.domain = n.registry.domain
  paths : n'.names.map Prod.fst = paths.reverse ++ n.names.map Prod.fst
  fresh : ∀ declared, n.Fresh declared → n'.Fresh declared
  worded : n.Worded → n'.Worded

theorem Adds.refl (n : Naming) : n.Adds n [] := ⟨rfl, rfl, fun _ h => h, fun h => h⟩

theorem Adds.trans {n n' n'' : Naming} {paths paths' : List ShapePath} (h : n.Adds n' paths)
    (h' : n'.Adds n'' paths') : n.Adds n'' (paths ++ paths') where
  domain := h'.domain.trans h.domain
  paths := by rw [h'.paths, h.paths, List.reverse_append, List.append_assoc]
  fresh := fun declared hn => h'.fresh declared (h.fresh declared hn)
  worded := fun hn => h'.worded (h.worded hn)

/-- The outcome of naming paths: they are all named, or some name has no free candidate left. -/
def Names (n : Naming) (paths : List ShapePath) : Except CompileError Naming → Prop
  | .ok n' => n.Adds n' paths
  | .error e => ∃ base, e = .nameCollision n.registry.domain base

theorem Adds.names {n n' : Naming} {paths paths' : List ShapePath}
    {x : Except CompileError Naming} (h : n.Adds n' paths) (hx : n'.Names paths' x) :
    n.Names (paths ++ paths') x := by
  cases x with
  | ok n'' => exact h.trans hx
  | error e =>
      obtain ⟨base, rfl⟩ := hx
      exact ⟨base, by rw [h.domain]⟩

theorem Names.bind {n : Naming} {paths paths' : List ShapePath} {x : Except CompileError Naming}
    {f : Naming → Except CompileError Naming} (hx : n.Names paths x)
    (hf : ∀ n' : Naming, n'.Names paths' (f n')) : n.Names (paths ++ paths') (x >>= f) := by
  cases x with
  | error e => exact hx
  | ok n' => exact Adds.names hx (hf n')

theorem adds_reserve {n : Naming} {path : ShapePath} {name : String}
    (hfree : name ∉ n.registry.taken) (hname : IsWordText name) :
    n.Adds { registry := n.registry.reserve name, names := (path, name) :: n.names } [path] where
  domain := rfl
  paths := rfl
  fresh := by
    rintro declared ⟨htaken, hnodup⟩
    refine ⟨?_, List.nodup_cons.2 ⟨hfree, hnodup⟩⟩
    show name :: n.registry.taken = name :: n.names.map Prod.snd ++ declared
    rw [htaken, List.cons_append]
  worded := fun hn => List.forall_mem_cons.2 ⟨hname, hn⟩

theorem names_assign_bind {n : Naming} {path : ShapePath} {base : String}
    {paths : List ShapePath} {f : String × Naming → Except CompileError Naming}
    (hbase : IsWordText base) (hf : ∀ name (n' : Naming), n'.Names paths (f (name, n'))) :
    n.Names (path :: paths) (n.assign path base >>= f) := by
  unfold assign
  cases hs : n.registry.synthesize base with
  | error e => exact ⟨base, NameRegistry.synthesize_eq_error hs⟩
  | ok result =>
      obtain ⟨name, registry⟩ := result
      obtain ⟨hfree, hcandidate, rfl⟩ := NameRegistry.synthesize_eq_ok hs
      have hname := NameRegistry.isWordText_candidates hbase hcandidate
      exact (adds_reserve hfree hname).names (hf name _)

theorem names_pure (n : Naming) : n.Names [] (.ok n) := Adds.refl n

abbrev pathsOf (written : List Written) : List ShapePath := written.map Written.path

theorem nameMembers_names_of_types {properties : List Property}
    (htypes : ∀ p ∈ properties, ∀ owner member description path n,
      Names n (pathsOf (writtenTypes description path p.type))
        (nameShape owner member path n p.type))
    (owner : String) (path : ShapePath) (n : Naming) :
    n.Names (pathsOf (writtenMembers path properties)) (nameMembers owner path n properties) := by
  induction properties generalizing n with
  | nil => exact names_pure n
  | cons p properties ih =>
      obtain ⟨name, type, optional, advisory⟩ := p
      rw [nameMembers, writtenMembers, pathsOf, List.map_append]
      apply Names.bind
      · exact htypes ⟨name, type, optional, advisory⟩ (by simp) owner name _ _ n
      · exact ih fun p hp => htypes p (by simp [hp])

theorem nameShape_names (owner member description : String) (path : ShapePath) (n : Naming)
    (shape : Shape) :
    n.Names (pathsOf (writtenTypes description path shape))
      (nameShape owner member path n shape) := by
  induction shape generalizing owner member description path n with
  | reference target => exact names_pure n
  | scalar kind => exact names_pure n
  | enumeration literals =>
      rw [nameShape]
      exact names_assign_bind ((isWordText_pascal owner).append (isWordText_pascal member))
        fun _ n' => names_pure n'
  | record properties ih =>
      rw [nameShape]
      apply names_assign_bind ((isWordText_pascal owner).append (isWordText_pascal member))
      intro name n'
      exact nameMembers_names_of_types ih name _ n'
  | array item ih => exact ih owner member description (path ++ ["items"]) n

theorem nameMembers_names (owner : String) (path : ShapePath) (n : Naming)
    (properties : List Property) :
    n.Names (pathsOf (writtenMembers path properties)) (nameMembers owner path n properties) :=
  nameMembers_names_of_types (fun p _ owner member description path n =>
    nameShape_names owner member description path n p.type) owner path n

theorem nameResults_names (n : Naming) (commands : List Schema.Command) :
    n.Names ((commands.filter fun c => !c.returns.isEmpty).map
      fun c => ShapePath.commandResult c.name) (n.nameResults commands) := by
  induction commands generalizing n with
  | nil => exact names_pure n
  | cons c commands ih =>
      rw [nameResults, List.filter_cons]
      cases hempty : c.returns.isEmpty with
      | true => exact ih n
      | false =>
          have hsuffix : IsWordText "Result" := by decide +kernel
          exact names_assign_bind ((isWordText_pascal c.name).append hsuffix) fun _ n' => ih n'

theorem namePayloads_names (n : Naming) (events : List Schema.Event) :
    n.Names (events.map fun e => ShapePath.eventPayload e.name) (n.namePayloads events) := by
  induction events generalizing n with
  | nil => exact names_pure n
  | cons e events ih => exact names_assign_bind (isWordText_pascal e.name) fun _ n' => ih n'

theorem nameTypes_names (n : Naming) (types : List TypeDeclaration) :
    n.Names (pathsOf (types.flatMap writtenInType)) (n.nameTypes types) := by
  induction types generalizing n with
  | nil => exact names_pure n
  | cons t types ih =>
      rw [nameTypes, List.flatMap_cons, pathsOf, List.map_append]
      unfold writtenInType
      cases t.shape with
      | reference target => exact ih n
      | scalar kind => exact ih n
      | enumeration literals => exact ih n
      | record properties => exact Names.bind (nameMembers_names t.id _ n properties) ih
      | array item => exact Names.bind (nameShape_names t.id "Item" _ _ n (.array item)) ih

theorem nameCommands_names (n : Naming) (commands : List Schema.Command) :
    n.Names (pathsOf (commands.flatMap writtenInCommand)) (n.nameCommands commands) := by
  induction commands generalizing n with
  | nil => exact names_pure n
  | cons c commands ih =>
      rw [nameCommands, List.flatMap_cons, writtenInCommand, pathsOf, List.map_append,
        List.map_append, List.append_assoc]
      apply Names.bind (nameMembers_names _ _ _ _)
      exact fun n' => Names.bind (nameMembers_names _ _ _ _) ih

theorem nameEvents_names (n : Naming) (events : List Schema.Event) :
    n.Names (pathsOf (events.flatMap writtenInEvent)) (n.nameEvents events) := by
  induction events generalizing n with
  | nil => exact names_pure n
  | cons e events ih =>
      rw [nameEvents, List.flatMap_cons, writtenInEvent, pathsOf, List.map_append]
      exact Names.bind (nameMembers_names _ _ _ _) ih

def namingPaths (d : Schema.Domain) : List ShapePath :=
  (returning d).map (fun c => ShapePath.commandResult c.name) ++
    d.events.map (fun e => ShapePath.eventPayload e.name) ++ pathsOf (writtenInDomain d)

theorem namingPaths_perm (d : Schema.Domain) : (namingPaths d).Perm (synthesizedPaths d) := by
  unfold namingPaths synthesizedPaths
  rw [List.append_assoc (pathsOf (writtenInDomain d))]
  exact List.perm_append_comm

def declaredOnly (d : Schema.Domain) : Naming where
  registry := d.types.foldl (fun r t => r.reserve t.id) { domain := d.name }

theorem taken_foldl_reserve (types : List TypeDeclaration) (r : NameRegistry) :
    (types.foldl (fun r t => r.reserve t.id) r).taken =
      (types.map TypeDeclaration.id).reverse ++ r.taken := by
  induction types generalizing r with
  | nil => rfl
  | cons t types ih =>
      rw [List.foldl_cons, ih]
      simp [NameRegistry.reserve]

theorem fresh_declaredOnly {d : Schema.Domain} (h : (d.types.map TypeDeclaration.id).Nodup) :
    (declaredOnly d).Fresh (d.types.map TypeDeclaration.id).reverse := by
  have htaken : (declaredOnly d).registry.taken = (d.types.map TypeDeclaration.id).reverse := by
    rw [declaredOnly, taken_foldl_reserve, List.append_nil]
  exact ⟨htaken, htaken ▸ List.nodup_reverse.2 h⟩

theorem ofDomain_names (d : Schema.Domain) :
    (declaredOnly d).Names (namingPaths d) (ofDomain d) := by
  unfold namingPaths writtenInDomain ofDomain
  simp only [pathsOf, List.map_append, List.append_assoc]
  apply Names.bind (nameResults_names _ _)
  intro n
  apply Names.bind (namePayloads_names _ _)
  intro n
  apply Names.bind (nameTypes_names _ _)
  intro n
  exact Names.bind (nameCommands_names _ _) fun n => nameEvents_names n _

theorem ofDomain_eq_error {d : Schema.Domain} {e : CompileError} (h : ofDomain d = .error e) :
    ∃ domain base, e = .nameCollision domain base := by
  have hnames := ofDomain_names d
  rw [h] at hnames
  obtain ⟨base, rfl⟩ := hnames
  exact ⟨_, base, rfl⟩

theorem mem_names_of_find? {n : Naming} {path : ShapePath} {name : String}
    (hfind : n.find? path = some name) :
    (path, name) ∈ n.names := by
  obtain ⟨before, after, heq, -⟩ := List.lookup_eq_some_iff.1 hfind
  rw [heq]
  simp

section

variable {d : Schema.Domain} {n : Naming} (h : ofDomain d = .ok n)

include h

theorem ofDomain_adds : (declaredOnly d).Adds n (namingPaths d) := by
  have hnames := ofDomain_names d
  rwa [h] at hnames

theorem isWordText_of_find? {path : ShapePath} {name : String}
    (hfind : n.find? path = some name) : IsWordText name := by
  have hempty : (declaredOnly d).names = [] := rfl
  have hdeclared : (declaredOnly d).Worded := by
    rw [Worded, hempty]
    exact fun _ hname => absurd hname List.not_mem_nil
  exact (ofDomain_adds h).worded hdeclared name
    (List.mem_map.2 ⟨_, mem_names_of_find? hfind, rfl⟩)

theorem exists_find?_of_mem {path : ShapePath} (hpath : path ∈ synthesizedPaths d) :
    ∃ name, n.find? path = some name := by
  have hmem : path ∈ n.names.map Prod.fst := by
    rw [(ofDomain_adds h).paths]
    exact List.mem_append_left _ (List.mem_reverse.2 ((namingPaths_perm d).mem_iff.2 hpath))
  obtain ⟨entry, hentry, rfl⟩ := List.mem_map.1 hmem
  rw [← Option.isSome_iff_exists, find?, List.lookup_isSome_iff]
  exact ⟨entry, hentry, by simp⟩

variable (hids : (d.types.map TypeDeclaration.id).Nodup)

include hids

theorem ofDomain_fresh : n.Fresh (d.types.map TypeDeclaration.id).reverse :=
  (ofDomain_adds h).fresh _ (fresh_declaredOnly hids)

theorem not_mem_ids_of_find? {path : ShapePath} {name : String}
    (hfind : n.find? path = some name) : name ∉ d.types.map TypeDeclaration.id := by
  obtain ⟨htaken, hnodup⟩ := ofDomain_fresh h hids
  rw [htaken] at hnodup
  have hmem : name ∈ n.names.map Prod.snd := List.mem_map.2 ⟨_, mem_names_of_find? hfind, rfl⟩
  intro hid
  exact List.disjoint_of_nodup_append hnodup hmem (List.mem_reverse.2 hid)

theorem find?_inj {path path' : ShapePath} {name : String} (hfind : n.find? path = some name)
    (hfind' : n.find? path' = some name) : path = path' := by
  obtain ⟨htaken, hnodup⟩ := ofDomain_fresh h hids
  rw [htaken] at hnodup
  have heq := List.inj_on_of_nodup_map (List.Nodup.of_append_left hnodup)
    (mem_names_of_find? hfind) (mem_names_of_find? hfind') rfl
  exact (Prod.mk.inj heq).1

end

end Naming

end WireBindings.Binding
