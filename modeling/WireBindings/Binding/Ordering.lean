import WireBindings.Binding

/-!
# Order of data types

The data types of a domain are printed after the types they refer to. A cycle of references cannot
be ordered; it is broken at the first type on it, and otherwise the order stays as close to the
given one as it can.
-/

namespace WireBindings.Binding

def DataType.dependencies (t : DataType) (domain : String) : List String :=
  ((t.namedTypes.filter fun n => n.domain = domain && n.name ≠ t.name).map TypeName.name).eraseDups

/-- A graph of names: the successors of each node. -/
structure DependencyGraph where
  edges : List (String × List String)

namespace DependencyGraph

def nodes (g : DependencyGraph) : List String := g.edges.map Prod.fst

/-- The successors of a name; a name that is no node has none. -/
def successors (g : DependencyGraph) (name : String) : List String := (g.edges.lookup name).getD []

/-- The graph of a list of types; only names on the list count. -/
def ofTypes (types : List DataType) (domain : String) : DependencyGraph where
  edges :=
    let known := types.map DataType.name
    -- of two types with one name the later is found
    types.reverse.map fun t => (t.name, (t.dependencies domain).filter known.contains)

def unvisited (g : DependencyGraph) (visited : List String) : List String :=
  g.nodes.filter fun n => !visited.contains n

theorem unvisited_cons_lt {g : DependencyGraph} {visited : List String} {n : String}
    (hn : n ∈ g.nodes) (hv : visited.contains n = false) :
    (g.unvisited (n :: visited)).length < (g.unvisited visited).length := by
  have hcons : g.unvisited (n :: visited) = (g.unvisited visited).filter (· ≠ n) := by
    simp [unvisited, List.filter_filter]
  rw [hcons, List.length_filter_lt_length_iff_exists]
  exact ⟨n, List.mem_filter.2 ⟨hn, by simpa using hv⟩, by simp⟩

/-- Whether the search meets its goal: from the names on the stack, along successors that are
pending, each node once. -/
def search (g : DependencyGraph) (pending : List String) (goal : String) (visited : List String)
    (stack : List String) : Bool :=
  match stack with
  | [] => false
  | n :: stack =>
    if n = goal then true
    else if hv : visited.contains n then g.search pending goal visited stack
    else if hn : n ∈ g.nodes then
      have := unvisited_cons_lt hn (by simpa using hv)
      g.search pending goal (n :: visited) ((g.successors n).filter pending.contains ++ stack)
    else g.search pending goal visited stack
termination_by ((g.unvisited visited).length, stack.length)

def isOnCycle (g : DependencyGraph) (name : String) (pending : List String) : Bool :=
  g.search pending name [] ((g.successors name).filter pending.contains)

end DependencyGraph

/-- One step of an ordering: the type that comes next, and whether a cycle was broken at it. -/
structure OrderStep where
  type : DataType
  breaksCycle : Bool
  deriving DecidableEq, Repr

def nextType (g : DependencyGraph) (emitted : List String) (remaining : List DataType) :
    Nat × Bool :=
  match remaining.findIdx? fun t => (g.successors t.name).all emitted.contains with
  | some i => (i, false)
  | none =>
    -- all wait for one another or for a cycle, which its first member breaks
    let pending := remaining.map DataType.name
    ((remaining.findIdx? fun t => g.isOnCycle t.name pending).getD 0, true)

def orderFrom (g : DependencyGraph) (emitted : List String) (remaining : List DataType) :
    List OrderStep :=
  let (i, breaksCycle) := nextType g emitted remaining
  if h : i < remaining.length then
    ⟨remaining[i], breaksCycle⟩ ::
      orderFrom g (remaining[i].name :: emitted) (remaining.eraseIdx i)
  else []
termination_by remaining.length
decreasing_by rw [List.length_eraseIdx_of_lt h]; omega

def orderSteps (types : List DataType) (domain : String) : List OrderStep :=
  orderFrom (.ofTypes types domain) [] types

def orderTypes (types : List DataType) (domain : String) : List DataType :=
  (orderSteps types domain).map OrderStep.type

end WireBindings.Binding
