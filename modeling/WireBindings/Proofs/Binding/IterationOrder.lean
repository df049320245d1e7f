import WireBindings.Proofs.Binding.DependencyOrder

/-!
# Searching in any order

The search for a cycle as the turns it takes, with the dependencies of a name listed in any order.
Whatever the orders, the turns come to an end, and the end has the same answer. So neither the
search nor the order of data types depends on how dependencies are listed.
-/

namespace WireBindings.Binding

open Relation (ReflTransGen TransGen)

namespace DependencyGraph

def Closed (g : DependencyGraph) : Prop := ∀ a ∈ g.nodes, ∀ b ∈ g.successors a, b ∈ g.nodes

instance (g : DependencyGraph) : Decidable g.Closed :=
  inferInstanceAs (Decidable (∀ a ∈ g.nodes, ∀ b ∈ g.successors a, b ∈ g.nodes))

def Lists (g : DependencyGraph) (pending : List String) (a : String) (names : List String) : Prop :=
  ∀ b, b ∈ names ↔ g.Step pending a b

structure SearchState where
  visited : List String
  stack : List String

/-- The search begins with the pending dependencies of its goal. The goal must be a node. -/
inductive Begins (g : DependencyGraph) (pending : List String) (goal : String) : SearchState → Prop
  | intro {names : List String} (hnode : goal ∈ g.nodes) (hnames : g.Lists pending goal names) :
      Begins g pending goal ⟨[], names⟩

/-- One turn of the search. There is none for a name that is looked up and is no node. -/
inductive Turn (g : DependencyGraph) (pending : List String) (goal : String) :
    SearchState → SearchState → Prop
  | skip {n : String} {visited stack : List String} (hgoal : n ≠ goal) (hseen : n ∈ visited) :
      Turn g pending goal ⟨visited, n :: stack⟩ ⟨visited, stack⟩
  | visit {n : String} {visited stack names : List String} (hgoal : n ≠ goal)
      (hnew : n ∉ visited) (hnode : n ∈ g.nodes) (hnames : g.Lists pending n names) :
      Turn g pending goal ⟨visited, n :: stack⟩ ⟨n :: visited, names ++ stack⟩

abbrev Turns (g : DependencyGraph) (pending : List String) (goal : String) :
    SearchState → SearchState → Prop := ReflTransGen (g.Turn pending goal)

inductive Ends (goal : String) : SearchState → Bool → Prop
  | met (visited stack : List String) : Ends goal ⟨visited, goal :: stack⟩ true
  | exhausted (visited : List String) : Ends goal ⟨visited, []⟩ false

variable {g : DependencyGraph} {pending : List String} {goal : String}

theorem lists_of_perm {a : String} {names : List String}
    (h : names.Perm ((g.successors a).filter pending.contains)) : g.Lists pending a names :=
  fun _ => h.mem_iff.trans mem_filter_successors

/-- A search takes finitely many turns: each visits one more node or shortens the stack. -/
theorem wellFounded_turn : WellFounded fun s' s => g.Turn pending goal s s' := by
  let size (s : SearchState) : Nat × Nat := ((g.unvisited s.visited).length, s.stack.length)
  have hlex : WellFounded (Prod.Lex (· < ·) (· < ·) : Nat × Nat → Nat × Nat → Prop) :=
    WellFounded.prod_lex wellFounded_lt wellFounded_lt
  refine Subrelation.wf ?_ (InvImage.wf size hlex)
  intro s' s hturn
  cases hturn with
  | skip hgoal hseen => exact .right _ (Nat.lt_succ_self _)
  | visit hgoal hnew hnode hnames => exact .left _ _ (unvisited_cons_lt hnode (by simpa using hnew))

/-! ## What the turns keep -/

/-- The names on the stack are reached from the goal, and what the goal or a visited name depends on
is visited or on the stack. -/
structure Searching (g : DependencyGraph) (pending : List String) (goal : String)
    (s : SearchState) : Prop where
  reached : ∀ a ∈ s.stack, TransGen (g.Step pending) goal a
  explored : Explored g pending goal s.stack fun a => a ∈ s.visited
  started : ∀ a, g.Step pending goal a → a ∈ s.visited ∨ a ∈ s.stack

theorem Begins.searching {s : SearchState} (h : g.Begins pending goal s) :
    g.Searching pending goal s := by
  obtain ⟨_, hnames⟩ := h
  constructor
  · exact fun a ha => .single ((hnames a).1 ha)
  · exact ⟨List.not_mem_nil, fun ha => absurd ha List.not_mem_nil⟩
  · exact fun a hstep => .inr ((hnames a).2 hstep)

theorem Searching.turn {s s' : SearchState} (h : g.Searching pending goal s)
    (hturn : g.Turn pending goal s s') : g.Searching pending goal s' := by
  cases hturn with
  | @skip n visited stack hgoal hseen =>
      refine ⟨fun a ha => h.reached a (List.mem_cons_of_mem n ha), h.explored.pop hseen, ?_⟩
      intro a hstep
      rcases h.started a hstep with ha | ha
      · exact .inl ha
      · rcases List.mem_cons.1 ha with rfl | ha
        · exact .inl hseen
        · exact .inr ha
  | @visit n visited stack names hgoal hnew hnode hnames =>
      have hvisited : (fun a => a ∈ visited ∨ a = n) = fun a => a ∈ n :: visited := by
        funext a
        rw [List.mem_cons, or_comm]
      refine ⟨?_, hvisited ▸ h.explored.visit hgoal hnames, ?_⟩
      · intro a ha
        rcases List.mem_append.1 ha with ha | ha
        · exact (h.reached n List.mem_cons_self).tail ((hnames a).1 ha)
        · exact h.reached a (List.mem_cons_of_mem n ha)
      · intro a hstep
        have hcovered := covered_visit names (h.started a hstep)
        rwa [or_comm (a := a ∈ visited), ← List.mem_cons] at hcovered

theorem Searching.turns {s s' : SearchState} (h : g.Searching pending goal s)
    (hturns : g.Turns pending goal s s') : g.Searching pending goal s' := by
  induction hturns with
  | refl => exact h
  | tail _ hturn ih => exact ih.turn hturn

/-- A search that ends has the right answer. -/
theorem Searching.answer_eq {s : SearchState} (h : g.Searching pending goal s) {answer : Bool}
    (hends : Ends goal s answer) : answer = g.isOnCycle goal pending := by
  cases hends with
  | met visited stack =>
      have hcycle : g.OnCycle pending goal := h.reached goal List.mem_cons_self
      exact (isOnCycle_iff.2 hcycle).symm
  | exhausted visited =>
      refine (Bool.eq_false_iff.2 fun hfound => ?_).symm
      obtain ⟨a, hstep, hreach⟩ := TransGen.head'_iff.1 (isOnCycle_iff.1 hfound)
      have ha : a ∈ visited := (h.started a hstep).resolve_right List.not_mem_nil
      exact h.explored.goal (h.explored.done_of_reaches ha hreach)

theorem Searching.turn_or_ends (hclosed : g.Closed) {s : SearchState}
    (h : g.Searching pending goal s) :
    (∃ s', g.Turn pending goal s s') ∨ ∃ answer, Ends goal s answer := by
  obtain ⟨visited, stack⟩ := s
  cases stack with
  | nil => exact .inr ⟨false, .exhausted visited⟩
  | cons n stack =>
      by_cases hgoal : n = goal
      · subst hgoal
        exact .inr ⟨true, .met visited stack⟩
      · by_cases hseen : n ∈ visited
        · exact .inl ⟨_, .skip hgoal hseen⟩
        · obtain ⟨a, -, hstep⟩ := TransGen.tail'_iff.1 (h.reached n List.mem_cons_self)
          have hnode : n ∈ g.nodes :=
            hclosed a (mem_nodes_of_mem_successors hstep.1) n hstep.1
          exact .inl ⟨_, .visit hgoal hseen hnode (lists_of_perm (.refl _))⟩

theorem turns_search (hclosed : g.Closed) {stack : List String}
    (hstack : ∀ a ∈ stack, a ∈ g.nodes) (visited : List String) :
    ∃ s, g.Turns pending goal ⟨visited, stack⟩ s ∧
      Ends goal s (g.search pending goal visited stack) := by
  fun_induction search g pending goal visited stack with
  | case1 visited => exact ⟨_, .refl, .exhausted visited⟩
  | case2 visited stack => exact ⟨_, .refl, .met visited stack⟩
  | case3 visited n stack hgoal hseen ih =>
      obtain ⟨s, hturns, hends⟩ := ih (List.forall_mem_cons.1 hstack).2
      exact ⟨s, .head (.skip hgoal (List.contains_iff_mem.1 hseen)) hturns, hends⟩
  | case4 visited n stack hgoal hseen hnode _ ih =>
      have hsuccessors : ∀ a ∈ (g.successors n).filter pending.contains, a ∈ g.nodes :=
        fun a ha => hclosed n hnode a (List.mem_filter.1 ha).1
      obtain ⟨s, hturns, hends⟩ :=
        ih (List.forall_mem_append.2 ⟨hsuccessors, (List.forall_mem_cons.1 hstack).2⟩)
      refine ⟨s, .head (.visit hgoal ?_ hnode (lists_of_perm (.refl _))) hturns, hends⟩
      exact fun hmem => hseen (List.contains_iff_mem.2 hmem)
  | case5 visited n stack hgoal hseen hnode ih => exact absurd (hstack n List.mem_cons_self) hnode

/-! ## The cycle as a path -/

theorem transGen_step_iff {a b : String} :
    TransGen (g.Step pending) a b ↔
      ∃ between, List.IsChain (fun a b => b ∈ g.successors a) (a :: (between ++ [b])) ∧
        ∀ n ∈ between ++ [b], n ∈ pending := by
  constructor
  · intro h
    induction h using TransGen.head_induction_on with
    | single hstep => exact ⟨[], by simpa using hstep.1, by simpa using hstep.2⟩
    | head hstep _ ih =>
        obtain ⟨between, hchain, hpending⟩ := ih
        exact ⟨_ :: between, .cons_cons hstep.1 hchain, List.forall_mem_cons.2 ⟨hstep.2, hpending⟩⟩
  · rintro ⟨between, hchain, hpending⟩
    induction between generalizing a with
    | nil => exact .single ⟨by simpa using hchain, by simpa using hpending⟩
    | cons n between ih =>
        rw [List.cons_append, List.isChain_cons_cons] at hchain
        obtain ⟨hn, hpending⟩ := List.forall_mem_cons.1 hpending
        exact .head ⟨hchain.1, hn⟩ (ih hchain.2 hpending)

theorem closed_ofTypes (types : List DataType) (domain : String) :
    (ofTypes types domain).Closed := by
  intro a _ b hb
  rw [successors] at hb
  cases hlookup : (ofTypes types domain).edges.lookup a with
  | none =>
      rw [hlookup] at hb
      exact absurd hb List.not_mem_nil
  | some names =>
      rw [hlookup, Option.getD_some] at hb
      obtain ⟨before, after, hedges, -⟩ := List.lookup_eq_some_iff.1 hlookup
      have hedge : (a, names) ∈ (ofTypes types domain).edges := by
        rw [hedges]
        simp
      obtain ⟨t, -, heq⟩ := List.mem_map.1 hedge
      obtain ⟨rfl, rfl⟩ := Prod.mk.inj heq
      exact mem_nodes_ofTypes.2 (List.contains_iff_mem.1 (List.mem_filter.1 hb).2)

end DependencyGraph

/-! ## Dependencies listed differently -/

section

variable {g g' : DependencyGraph} (hg : ∀ a b, b ∈ g.successors a ↔ b ∈ g'.successors a)

include hg

theorem isOnCycle_congr (name : String) (pending : List String) :
    g.isOnCycle name pending = g'.isOnCycle name pending := by
  rw [Bool.eq_iff_iff, DependencyGraph.isOnCycle_iff, DependencyGraph.isOnCycle_iff]
  exact ⟨fun h => h.congr hg fun _ => Iff.rfl,
    fun h => h.congr (fun a b => (hg a b).symm) fun _ => Iff.rfl⟩

theorem nextType_congr (emitted : List String) (remaining : List DataType) :
    nextType g emitted remaining = nextType g' emitted remaining := by
  have hready (t : DataType) : (g.successors t.name).all emitted.contains =
      (g'.successors t.name).all emitted.contains := by
    rw [Bool.eq_iff_iff, all_successors_iff, all_successors_iff]
    simp only [Ready, hg]
  simp only [nextType, hready, isOnCycle_congr hg]

theorem orderFrom_congr (emitted : List String) (remaining : List DataType) :
    orderFrom g emitted remaining = orderFrom g' emitted remaining := by
  induction hlength : remaining.length generalizing emitted remaining with
  | zero =>
      obtain rfl := List.length_eq_zero_iff.1 hlength
      rw [orderFrom, orderFrom]
      simp
  | succ n ih =>
      have hne : remaining ≠ [] := List.ne_nil_of_length_eq_add_one hlength
      have herase : (remaining.eraseIdx (nextType g' emitted remaining).1).length = n := by
        rw [List.length_eraseIdx_of_lt (nextType_lt g' emitted hne)]
        omega
      rw [orderFrom_of_ne_nil hne, orderFrom_of_ne_nil hne]
      simp only [nextType_congr hg emitted remaining, ih _ _ herase]

end

/-- In a closed graph the search finds a name to be on a cycle exactly if pending names lead from it
back to it. In whatever order it lists the dependencies of each name it meets, it takes finitely
many turns, looks up nodes only and ends with that answer; the program takes such turns. So the
order of types does not depend on how dependencies are listed. -/
theorem cycle_search_exact {g : DependencyGraph} (hclosed : g.Closed) {name : String}
    (hname : name ∈ g.nodes) (pending : List String) :
    (g.isOnCycle name pending = true ↔
      ∃ between, List.IsChain (fun a b => b ∈ g.successors a) (name :: (between ++ [name])) ∧
        ∀ n ∈ between ++ [name], n ∈ pending) ∧
    (∃ s s', g.Begins pending name s ∧ g.Turns pending name s s' ∧
      DependencyGraph.Ends name s' (g.isOnCycle name pending)) ∧
    WellFounded (fun s' s => g.Turn pending name s s') ∧
    (∀ s s', g.Begins pending name s → g.Turns pending name s s' →
      (∃ s'', g.Turn pending name s' s'') ∨
        DependencyGraph.Ends name s' (g.isOnCycle name pending)) ∧
    ∀ types domain, (DependencyGraph.ofTypes types domain).Closed ∧
      ∀ g' : DependencyGraph,
        (∀ a b, b ∈ (DependencyGraph.ofTypes types domain).successors a ↔ b ∈ g'.successors a) →
        (orderFrom g' [] types).map OrderStep.type = orderTypes types domain := by
  refine ⟨?_, ?_, DependencyGraph.wellFounded_turn, ?_, fun types domain =>
    ⟨DependencyGraph.closed_ofTypes types domain, fun g' hg => ?_⟩⟩
  · rw [DependencyGraph.isOnCycle_iff, DependencyGraph.OnCycle, DependencyGraph.transGen_step_iff]
  · have hstack : ∀ a ∈ (g.successors name).filter pending.contains, a ∈ g.nodes :=
      fun a ha => hclosed name hname a (List.mem_filter.1 ha).1
    obtain ⟨s', hturns, hends⟩ := DependencyGraph.turns_search hclosed hstack []
    exact ⟨_, s', .intro hname (DependencyGraph.lists_of_perm (.refl _)), hturns, hends⟩
  · intro s s' hbegins hturns
    have hsearching := hbegins.searching.turns hturns
    refine (hsearching.turn_or_ends hclosed).imp_right ?_
    rintro ⟨answer, hends⟩
    rwa [← hsearching.answer_eq hends]
  · rw [← orderFrom_congr hg]
    rfl

/-- Two ways from the top to the bottom, from which one leads back. -/
def diamond : DependencyGraph where
  edges := [("Top", ["Left", "Right"]), ("Left", ["Bottom"]), ("Right", ["Bottom"]),
    ("Bottom", ["Top"])]

/-- The top is on a cycle while it is pending, and a search that begins on the right finds it. -/
theorem cycle_search_exact_diamond :
    diamond.Closed ∧ "Top" ∈ diamond.nodes ∧
      diamond.isOnCycle "Top" ["Top", "Left", "Bottom"] = true ∧
      diamond.isOnCycle "Top" ["Left", "Right", "Bottom"] = false ∧
      ∃ s, diamond.Turns ["Top", "Left", "Right", "Bottom"] "Top" ⟨[], ["Right", "Left"]⟩ s ∧
        DependencyGraph.Ends "Top" s
          (diamond.isOnCycle "Top" ["Top", "Left", "Right", "Bottom"]) := by
  have hclosed : diamond.Closed := by decide
  have hname : "Top" ∈ diamond.nodes := by decide
  refine ⟨hclosed, hname, ?_, ?_, ?_⟩
  · have hiff := (cycle_search_exact hclosed hname ["Top", "Left", "Bottom"]).1
    exact hiff.2 ⟨["Left", "Bottom"], by decide, by decide⟩
  · have hiff := (cycle_search_exact hclosed hname ["Left", "Right", "Bottom"]).1
    refine Bool.eq_false_iff.2 fun hfound => ?_
    obtain ⟨between, -, hpending⟩ := hiff.1 hfound
    exact absurd (hpending "Top" (by simp)) (by decide)
  · let pending := ["Top", "Left", "Right", "Bottom"]
    have hbegins : diamond.Begins pending "Top" ⟨[], ["Right", "Left"]⟩ :=
      .intro hname (DependencyGraph.lists_of_perm (by decide))
    have hright : diamond.Turn pending "Top" ⟨[], ["Right", "Left"]⟩
        ⟨["Right"], ["Bottom"] ++ ["Left"]⟩ :=
      .visit (by decide) (by decide) (by decide) (DependencyGraph.lists_of_perm (by decide))
    have hbottom : diamond.Turn pending "Top" ⟨["Right"], ["Bottom"] ++ ["Left"]⟩
        ⟨["Bottom", "Right"], ["Top"] ++ ["Left"]⟩ :=
      .visit (by decide) (by decide) (by decide) (DependencyGraph.lists_of_perm (by decide))
    have hturns := Relation.ReflTransGen.head hright (.single hbottom)
    refine ⟨_, hturns, ?_⟩
    rcases (cycle_search_exact hclosed hname pending).2.2.2.1 _ _ hbegins hturns with
      ⟨_, hturn⟩ | hends
    · cases hturn with
      | skip hgoal => exact absurd rfl hgoal
      | visit hgoal => exact absurd rfl hgoal
    · exact hends

end WireBindings.Binding
