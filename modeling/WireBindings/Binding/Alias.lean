import WireBindings.Schema.References

/-!
# Alias chains

A declared type that is neither an enumeration nor a record is an alias of its body. Its body
refers to at most one further alias, since only array levels are looked through, so the aliases
form chains. An alias is recursive when its chain comes back to it.
-/

namespace WireBindings.Schema.Resolution

def isAlias (r : Resolution) (key : TypeKey) : Bool :=
  match r.table.find? key with
  | some t => t.shape.role = .array || t.shape.role = .primitive
  | none => false

def aliasIn (r : Resolution) (owner : String) : Shape → Option TypeKey
  | .reference target => (r.target? owner target).filter r.isAlias
  | .array item => r.aliasIn owner item
  | .scalar _ | .enumeration _ | .record _ => none

def nextAlias (r : Resolution) (key : TypeKey) : Option TypeKey :=
  (r.table.find? key).bind fun t => r.aliasIn key.domain t.shape

theorem isAlias_of_aliasIn {r : Resolution} {owner : String} {shape : Shape} {b : TypeKey}
    (h : r.aliasIn owner shape = some b) : r.isAlias b = true := by
  fun_induction aliasIn r owner shape with
  | case1 target => exact (Option.filter_eq_some_iff.1 h).2
  | case2 item ih => exact ih h
  | case3 => cases h
  | case4 => cases h
  | case5 => cases h

theorem mem_keys_of_isAlias {r : Resolution} {key : TypeKey} (h : r.isAlias key = true) :
    key ∈ r.table.types.map Prod.fst := by
  unfold isAlias at h
  cases hfind : r.table.find? key with
  | none => simp [hfind] at h
  | some t =>
      have hsome : (r.table.types.lookup key).isSome := by
        rw [TypeTable.find?] at hfind
        simp [hfind]
      simp only [List.lookup_isSome_iff, beq_iff_eq] at hsome
      obtain ⟨p, hp, rfl⟩ := hsome
      exact List.mem_map_of_mem hp

/-- The keys of the table that a search has not met. -/
def unvisited (r : Resolution) (visited : List TypeKey) : List TypeKey :=
  (r.table.types.map Prod.fst).filter (· ∉ visited)

theorem length_unvisited_cons_lt {r : Resolution} {visited : List TypeKey} {key next : TypeKey}
    (hnext : r.nextAlias key = some next) (hnew : next ∉ visited) :
    (r.unvisited (next :: visited)).length < (r.unvisited visited).length := by
  obtain ⟨t, -, ht⟩ := Option.bind_eq_some_iff.1 hnext
  have hkey := mem_keys_of_isAlias (isAlias_of_aliasIn ht)
  have hcons : r.unvisited (next :: visited) = (r.unvisited visited).filter (· ≠ next) := by
    simp [unvisited, List.filter_filter, not_or]
  rw [hcons, List.length_filter_lt_length_iff_exists]
  exact ⟨next, List.mem_filter.2 ⟨hkey, by simpa using hnew⟩, by simp⟩

/-- Whether a chain meets `goal` before it comes back to an alias that it has led through. -/
def chainMeets (r : Resolution) (goal : TypeKey) (visited : List TypeKey) (key : TypeKey) : Bool :=
  match hnext : r.nextAlias key with
  | none => false
  | some next =>
    if next = goal then true
    else if hvisited : next ∈ visited then false
    else
      have := length_unvisited_cons_lt hnext hvisited
      r.chainMeets goal (next :: visited) next
termination_by (r.unvisited visited).length

def isRecursive (r : Resolution) (key : TypeKey) : Bool :=
  r.isAlias key && r.chainMeets key [] key

def recursiveAliases (r : Resolution) : List TypeKey :=
  r.document.domains.flatMap fun d =>
    (d.types.map fun t => (⟨d.name, t.id⟩ : TypeKey)).filter r.isRecursive

end WireBindings.Schema.Resolution
