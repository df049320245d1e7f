import WireBindings.Binding.Ordering
import Mathlib.Data.Fintype.EquivFin
import Mathlib.Logic.Relation
import Mathlib.Order.WellFounded

/-!
# The search for cycles

The search meets its goal exactly if the goal can be reached, so a name is found to be on a cycle
exactly if pending names lead from it back to it. In particular nothing depends on the order in
which the successors of a node are listed.
-/

namespace WireBindings.Binding.DependencyGraph

open Relation (ReflTransGen TransGen)

def Step (g : DependencyGraph) (pending : List String) (a b : String) : Prop :=
  b ∈ g.successors a ∧ b ∈ pending

instance (g : DependencyGraph) (pending : List String) (a b : String) :
    Decidable (g.Step pending a b) :=
  inferInstanceAs (Decidable (_ ∧ _))

def OnCycle (g : DependencyGraph) (pending : List String) (name : String) : Prop :=
  TransGen (g.Step pending) name name

variable {g : DependencyGraph} {pending : List String}

theorem mem_filter_successors {a b : String} :
    b ∈ (g.successors a).filter pending.contains ↔ g.Step pending a b := by
  rw [List.mem_filter, List.contains_iff_mem, Step]

theorem mem_nodes_of_mem_successors {a b : String} (h : b ∈ g.successors a) : a ∈ g.nodes := by
  unfold successors at h
  cases hlookup : g.edges.lookup a with
  | none =>
      rw [hlookup] at h
      exact absurd h List.not_mem_nil
  | some names =>
      obtain ⟨before, after, heq, -⟩ := List.lookup_eq_some_iff.1 hlookup
      rw [nodes, heq]
      simp

theorem reaches_of_search {goal : String} {visited stack : List String}
    (h : g.search pending goal visited stack = true) :
    ∃ a ∈ stack, ReflTransGen (g.Step pending) a goal := by
  fun_induction search g pending goal visited stack with
  | case1 => cases h
  | case2 => exact ⟨goal, List.mem_cons_self, .refl⟩
  | case3 visited n stack _ _ ih =>
      obtain ⟨a, ha, hreach⟩ := ih h
      exact ⟨a, List.mem_cons_of_mem n ha, hreach⟩
  | case4 visited n stack _ _ _ _ ih =>
      obtain ⟨a, ha, hreach⟩ := ih h
      rcases List.mem_append.1 ha with ha | ha
      · exact ⟨n, List.mem_cons_self, .head (mem_filter_successors.1 ha) hreach⟩
      · exact ⟨a, List.mem_cons_of_mem n ha, hreach⟩
  | case5 visited n stack _ _ _ ih =>
      obtain ⟨a, ha, hreach⟩ := ih h
      exact ⟨a, List.mem_cons_of_mem n ha, hreach⟩

/-- The names that are done with do not include the goal, and where they lead is done with or on the
stack. -/
structure Explored (g : DependencyGraph) (pending : List String) (goal : String)
    (stack : List String) (done : String → Prop) : Prop where
  goal : ¬ done goal
  step : ∀ {a b}, done a → g.Step pending a b → done b ∨ b ∈ stack

theorem Explored.pop {goal n : String} {stack : List String} {done : String → Prop}
    (h : Explored g pending goal (n :: stack) done) (hn : done n) :
    Explored g pending goal stack done where
  goal := h.goal
  step ha hab := by
    rcases h.step ha hab with hb | hb
    · exact .inl hb
    · rcases List.mem_cons.1 hb with rfl | hb
      · exact .inl hn
      · exact .inr hb

theorem Explored.visit {goal n : String} {stack names : List String} {done : String → Prop}
    (h : Explored g pending goal (n :: stack) done) (hn : n ≠ goal)
    (hnames : ∀ b, b ∈ names ↔ g.Step pending n b) :
    Explored g pending goal (names ++ stack) (fun a => done a ∨ a = n) where
  goal := by
    rintro (hgoal | hgoal)
    · exact h.goal hgoal
    · exact hn hgoal.symm
  step ha hab := by
    rcases ha with ha | rfl
    · rcases h.step ha hab with hb | hb
      · exact .inl (.inl hb)
      · rcases List.mem_cons.1 hb with rfl | hb
        · exact .inl (.inr rfl)
        · exact .inr (List.mem_append_right _ hb)
    · exact .inr (List.mem_append_left _ ((hnames _).2 hab))

theorem covered_visit {n a : String} {stack : List String} {done : String → Prop}
    (more : List String) (h : done a ∨ a ∈ n :: stack) : (done a ∨ a = n) ∨ a ∈ more ++ stack := by
  rw [List.mem_cons] at h
  rcases h with h | h | h
  · exact .inl (.inl h)
  · exact .inl (.inr h)
  · exact .inr (List.mem_append_right more h)

/-- A search that fails has closed off the names it is done with. -/
theorem exists_explored_of_search {goal : String} {visited stack : List String}
    (h : g.search pending goal visited stack = false) {done : String → Prop}
    (hvisited : ∀ a ∈ visited, done a) (hexplored : Explored g pending goal stack done) :
    ∃ closed : String → Prop, (∀ a, done a ∨ a ∈ stack → closed a) ∧
      Explored g pending goal [] closed := by
  fun_induction search g pending goal visited stack generalizing done with
  | case1 =>
      refine ⟨done, ?_, hexplored⟩
      rintro a (ha | ha)
      · exact ha
      · exact absurd ha List.not_mem_nil
  | case2 => cases h
  | case3 visited n stack hgoal hseen ih =>
      have hn : done n := hvisited n (List.contains_iff_mem.1 hseen)
      obtain ⟨closed, hsub, hclosed⟩ := ih h hvisited (hexplored.pop hn)
      refine ⟨closed, fun a ha => hsub a ?_, hclosed⟩
      rw [List.mem_cons] at ha
      rcases ha with ha | rfl | ha
      · exact .inl ha
      · exact .inl hn
      · exact .inr ha
  | case4 visited n stack hgoal hseen hnode _ ih =>
      have hvisited' : ∀ a ∈ n :: visited, done a ∨ a = n :=
        List.forall_mem_cons.2 ⟨.inr rfl, fun a ha => .inl (hvisited a ha)⟩
      obtain ⟨closed, hsub, hclosed⟩ := ih h hvisited'
        (hexplored.visit hgoal fun _ => mem_filter_successors)
      exact ⟨closed, fun a ha => hsub a (covered_visit _ ha), hclosed⟩
  | case5 visited n stack hgoal hseen hnode ih =>
      -- a name that is no node leads nowhere, so it is done with although it is not marked
      have hnone : ∀ b, b ∈ [] ↔ g.Step pending n b := fun b =>
        iff_of_false List.not_mem_nil fun hstep => hnode (mem_nodes_of_mem_successors hstep.1)
      have hvisit := hexplored.visit hgoal hnone
      obtain ⟨closed, hsub, hclosed⟩ := ih h (fun a ha => .inl (hvisited a ha)) hvisit
      exact ⟨closed, fun a ha => hsub a (covered_visit [] ha), hclosed⟩

theorem Explored.done_of_reaches {goal a b : String} {done : String → Prop}
    (h : Explored g pending goal [] done) (ha : done a)
    (hreach : ReflTransGen (g.Step pending) a b) : done b := by
  induction hreach with
  | refl => exact ha
  | tail _ hstep ih => exact (h.step ih hstep).resolve_right List.not_mem_nil

/-- A name is found to be on a cycle exactly if it is on one. -/
theorem isOnCycle_iff {name : String} :
    g.isOnCycle name pending = true ↔ g.OnCycle pending name := by
  unfold isOnCycle OnCycle
  rw [Relation.TransGen.head'_iff]
  constructor
  · intro h
    obtain ⟨a, ha, hreach⟩ := reaches_of_search h
    exact ⟨a, mem_filter_successors.1 ha, hreach⟩
  · rintro ⟨a, hstep, hreach⟩
    by_contra hsearch
    have hstart : Explored g pending name ((g.successors name).filter pending.contains)
        (fun _ => False) := ⟨id, fun ha => ha.elim⟩
    obtain ⟨closed, hsub, hclosed⟩ := exists_explored_of_search (Bool.eq_false_iff.2 hsearch)
      (fun a ha => absurd ha List.not_mem_nil) hstart
    have ha := hsub a (.inr (mem_filter_successors.2 hstep))
    exact hclosed.goal (hclosed.done_of_reaches ha hreach)

/-- If every pending name depends on a pending one, one of them is on a cycle. -/
theorem exists_onCycle (hne : pending ≠ [])
    (hblocked : ∀ a ∈ pending, ∃ b, g.Step pending a b) : ∃ a ∈ pending, g.OnCycle pending a := by
  by_contra hnone
  push Not at hnone
  let R (a b : { a // a ∈ pending }) : Prop := TransGen (g.Step pending) b.1 a.1
  have htrans : IsTrans _ R := ⟨fun a b c hab hbc => hbc.trans hab⟩
  have hirrefl : Std.Irrefl R := ⟨fun a => hnone a.1 a.2⟩
  have hwf : WellFounded R := Finite.wellFounded_of_trans_of_irrefl R
  obtain ⟨a, ha⟩ := List.exists_mem_of_ne_nil pending hne
  obtain ⟨m, -, hmin⟩ := hwf.has_min Set.univ ⟨⟨a, ha⟩, trivial⟩
  obtain ⟨b, hstep⟩ := hblocked m.1 m.2
  exact hmin ⟨b, hstep.2⟩ trivial (.single hstep)

end WireBindings.Binding.DependencyGraph
