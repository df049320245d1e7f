import WireBindings.Proofs.Binding.Completeness
import WireBindings.Proofs.Binding.DistinctPaths

/-!
# When type names are distinct

The data types of a domain have names of their own exactly when the paths of its synthesized names
are distinct: of two names that are given to one path, the later is used twice.
-/

namespace WireBindings.Binding

open Schema (TypeDeclaration Resolution Document)

/-- Where the name of a data type comes from: it is declared, or synthesized for a path. -/
inductive NameSource
  | declared (id : String)
  | synthesized (path : ShapePath)

def Subject.source : Subject → NameSource
  | .declared t | .alias t => .declared t.id
  | .written w => .synthesized w.path
  | .result c => .synthesized (.commandResult c.name)
  | .payload e => .synthesized (.eventPayload e.name)

theorem map_source_subjects (r : Resolution) (d : Schema.Domain) :
    (subjects r d).map Subject.source =
      ((namedTypes d ++ recursiveTypes r d).map TypeDeclaration.id).map .declared ++
        (synthesizedPaths d).map .synthesized := by
  simp only [subjects, synthesizedPaths, List.map_append, List.map_map, List.append_assoc]
  rfl

namespace Context

inductive Gives (c : Context) (d : Schema.Domain) : NameSource → String → Prop
  | declared {id : String} (hid : id ∈ d.types.map TypeDeclaration.id) :
      Gives c d (.declared id) id
  | synthesized {path : ShapePath} {name : String} (hname : c.nameAt d.name path = .ok name) :
      Gives c d (.synthesized path) name

theorem Realizes.gives {c : Context} {d : Schema.Domain} {s : Subject} {t : DataType}
    (h : c.Realizes d.name s t) (hs : s ∈ subjects c.resolution d) :
    c.Gives d s.source t.name := by
  cases h with
  | enumeration hshape =>
      exact .declared (List.mem_map_of_mem (declared_mem_subjects.1 hs).1)
  | record hshape hfields =>
      exact .declared (List.mem_map_of_mem (declared_mem_subjects.1 hs).1)
  | recursive htarget => exact .declared (List.mem_map_of_mem (alias_mem_subjects.1 hs).1)
  | writtenEnumeration hname => exact .synthesized hname
  | writtenRecord hname hfields => exact .synthesized hname
  | result hname hfields => exact .synthesized hname
  | payload hname hfields => exact .synthesized hname

section

variable {doc : Document} {r : Resolution} {c : Context} (hr : Resolution.ofDocument doc = .ok r)
  (hc : ofResolution r = .ok c) {d : Schema.Domain} (hd : d ∈ doc.domains)

include hr hc hd

/-- A name has one source and a source one name: a synthesized name is neither declared nor given to
two paths. -/
theorem gives_biUnique : Relator.BiUnique (c.Gives d) := by
  constructor
  · intro a b name ha hb
    cases ha with
    | declared hid =>
        cases hb with
        | declared hid' => rfl
        | synthesized hname => exact absurd hid (not_mem_ids_of_nameAt hr hc hd hname)
    | synthesized hname =>
        cases hb with
        | declared hid => exact absurd hid (not_mem_ids_of_nameAt hr hc hd hname)
        | synthesized hname' => rw [nameAt_inj hr hc hd hname hname']
  · intro source name name' h h'
    cases h with
    | declared hid =>
        cases h'
        rfl
    | synthesized hname =>
        cases h' with
        | synthesized hname' => exact Except.ok.inj (hname.symm.trans hname')

theorem nodup_ids_subjects :
    ((namedTypes d ++ recursiveTypes c.resolution d).map TypeDeclaration.id).Nodup := by
  have hids := (Resolution.distinct hr).types d hd
  have hnodup : ∀ p : TypeDeclaration → Bool, ((d.types.filter p).map TypeDeclaration.id).Nodup :=
    fun p => hids.sublist (List.Sublist.map _ List.filter_sublist)
  rw [List.map_append, List.nodup_append']
  refine ⟨hnodup _, hnodup _, ?_⟩
  intro id hnamed hrecursive
  obtain ⟨t, ht, rfl⟩ := List.mem_map.1 hnamed
  obtain ⟨t', ht', hid⟩ := List.mem_map.1 hrecursive
  obtain ⟨ht, halias⟩ := List.mem_filter.1 ht
  obtain ⟨ht', hrec⟩ := List.mem_filter.1 ht'
  obtain rfl := List.inj_on_of_nodup_map hids ht' ht hid
  have hnot : ¬ t'.shape.IsAlias := by simpa using halias
  exact hnot (isAlias_of_isRecursive hr hc hd ht hrec)

/-- The names of a bound domain are distinct exactly when its paths are. -/
theorem Bound.nodup_names_iff {bound : Domain} (h : c.Bound d bound) :
    (bound.types.map DataType.name).Nodup ↔ (synthesizedPaths d).Nodup := by
  obtain ⟨types, hperm, hrealize⟩ := h.exists_perm hr hc hd
  have hgives : List.Forall₂ (c.Gives d) ((subjects c.resolution d).map Subject.source)
      (types.map DataType.name) := by
    rw [List.forall₂_map_left_iff, List.forall₂_map_right_iff]
    exact Outcome.forall₂_imp_of_mem hrealize fun s hs t hst => hst.gives hs
  have hnodup : ((subjects c.resolution d).map Subject.source).Nodup ↔
      (types.map DataType.name).Nodup := List.rel_nodup (gives_biUnique hr hc hd) hgives
  rw [(hperm.map _).nodup_iff, ← hnodup, map_source_subjects, List.nodup_append']
  have hdeclared : Function.Injective NameSource.declared := fun _ _ => NameSource.declared.inj
  have hsynthesized : Function.Injective NameSource.synthesized :=
    fun _ _ => NameSource.synthesized.inj
  rw [List.nodup_map_iff hdeclared, List.nodup_map_iff hsynthesized]
  constructor
  · exact fun h => h.2.1
  · intro hpaths
    -- a declared name is never a synthesized one, whatever the paths are
    refine ⟨nodup_ids_subjects hr hc hd, hpaths, ?_⟩
    intro source hid hpath
    obtain ⟨id, -, rfl⟩ := List.mem_map.1 hid
    obtain ⟨path, -, hsource⟩ := List.mem_map.1 hpath
    cases hsource

end

end Context

/-- The data types of a bound domain have names of their own exactly when no two synthesized names
are kept at one path. They do if its commands, its events and the members of each list have. -/
theorem type_names_distinct_iff {doc : Document} {r : Resolution} {p : Protocol}
    (hr : Resolution.ofDocument doc = .ok r) (hp : Protocol.ofResolution r = .ok p) :
    List.Forall₂ (fun d bound =>
      ((bound.types.map DataType.name).Nodup ↔ (synthesizedPaths d).Nodup) ∧
        (DistinctSiblings d → (bound.types.map DataType.name).Nodup)) doc.domains p.domains := by
  obtain ⟨c, hc, hbound⟩ := exists_bound hr hp
  refine Outcome.forall₂_imp_of_mem hbound ?_
  intro d hd bound h
  have hiff := h.nodup_names_iff hr hc hd
  refine ⟨hiff, ?_⟩
  intro hsiblings
  exact hiff.2 (hsiblings.nodup_synthesizedPaths ((Resolution.distinct hr).types d hd))

theorem type_names_distinct_forest :
    ∃ p, Compilation.bind forest = .ok p ∧
      List.Forall₂ (fun d bound =>
        ((bound.types.map DataType.name).Nodup ↔ (synthesizedPaths d).Nodup) ∧
          (DistinctSiblings d → (bound.types.map DataType.name).Nodup))
        forest.domains p.domains ∧
      ∀ d ∈ forest.domains, (synthesizedPaths d).Nodup := by
  have hok : (Compilation.bind forest).isOk = true := by decide +kernel
  obtain ⟨p, hp⟩ := Outcome.exists_eq_ok_of_isOk hok
  obtain ⟨r, hr, hp'⟩ := Outcome.bind_eq_ok.1 hp
  refine ⟨p, hp, type_names_distinct_iff (Outcome.liftM_eq_ok.1 hr) hp', ?_⟩
  decide +kernel

/-- Two commands of one name, which nothing refuses. -/
def twice : Document where
  domains := [
    { name := "D"
      commands := [
        { name := "go", returns := [{ name := "a", type := .scalar .string }] },
        { name := "go", returns := [{ name := "b", type := .scalar .integer }] }] }]

/-- Both results are kept under the name that was synthesized for the second one. -/
theorem type_names_not_distinct :
    ∃ p, Compilation.bind twice = .ok p ∧
      p.domains.map (fun d => d.types.map DataType.name) = [["GoResult2", "GoResult2"]] ∧
      ¬ ∀ bound ∈ p.domains, (bound.types.map DataType.name).Nodup := by
  have hnames : (Compilation.bind twice).toOption.map
      (fun p => p.domains.map fun d => d.types.map DataType.name) =
      some [["GoResult2", "GoResult2"]] := by decide +kernel
  obtain ⟨p, hp, hnames⟩ := Option.map_eq_some_iff.1 hnames
  refine ⟨p, Outcome.toOption_eq_some.1 hp, hnames, ?_⟩
  intro hdistinct
  have hall : ∀ names ∈ p.domains.map fun d => d.types.map DataType.name, names.Nodup :=
    List.forall_mem_map.2 hdistinct
  rw [hnames] at hall
  exact absurd (hall _ List.mem_cons_self) (by decide)

end WireBindings.Binding
