import WireBindings.Proofs.Binding.CycleSearch
import WireBindings.Proofs.Binding.Ordering
import WireBindings.Proofs.Schema.References

/-!
# Types after what they refer to

Each step of the ordering takes a type that waits for nothing, or breaks a cycle when all wait. An
order that consists of such steps is the one the ordering gives back, so ordering again changes
nothing.
-/

namespace WireBindings.Binding

open Relation (TransGen)

/-- The first type has a member or a target that points, seen through collections, at the second,
another type of the domain. -/
def DataType.RefersTo (domain : String) (t u : DataType) : Prop :=
  u.name ≠ t.name ∧ ∃ type ∈ t.namedTypes, type.domain = domain ∧ type.name = u.name

def RefersWithin (domain : String) (types : List DataType) (t u : DataType) : Prop :=
  u ∈ types ∧ t.RefersTo domain u

def OnReferenceCycle (domain : String) (types : List DataType) (t : DataType) : Prop :=
  TransGen (RefersWithin domain types) t t

def InDependencyOrder (domain : String) (types : List DataType) : Prop :=
  types.Pairwise fun t u => ¬ t.RefersTo domain u

theorem OnReferenceCycle.mono {domain : String} {types types' : List DataType} {t : DataType}
    (h : OnReferenceCycle domain types t) (hsub : types ⊆ types') :
    OnReferenceCycle domain types' t :=
  TransGen.mono (fun _ _ hrefers => ⟨hsub hrefers.1, hrefers.2⟩) t t h

/-! ## The graph of a list of types -/

theorem DataType.mem_dependencies {t : DataType} {domain name : String} :
    name ∈ t.dependencies domain ↔
      name ≠ t.name ∧ ∃ type ∈ t.namedTypes, type.domain = domain ∧ type.name = name := by
  unfold DataType.dependencies
  simp only [List.mem_eraseDups, List.mem_map, List.mem_filter, Bool.and_eq_true, decide_eq_true_eq]
  constructor
  · rintro ⟨type, ⟨htype, hdomain, hname⟩, rfl⟩
    exact ⟨hname, type, htype, hdomain, rfl⟩
  · rintro ⟨hname, type, htype, hdomain, rfl⟩
    exact ⟨type, ⟨htype, hdomain, hname⟩, rfl⟩

section

variable {types : List DataType} {domain : String}

theorem DependencyGraph.mem_nodes_ofTypes {name : String} :
    name ∈ (ofTypes types domain).nodes ↔ name ∈ types.map DataType.name := by
  simp [nodes, ofTypes]

variable (hnames : (types.map DataType.name).Nodup)

include hnames

theorem eq_of_name_eq {t u : DataType} (ht : t ∈ types) (hu : u ∈ types) (h : t.name = u.name) :
    t = u := List.inj_on_of_nodup_map hnames ht hu h

theorem successors_ofTypes {t : DataType} (ht : t ∈ types) :
    (DependencyGraph.ofTypes types domain).successors t.name =
      (t.dependencies domain).filter (types.map DataType.name).contains := by
  have hkeys : ((DependencyGraph.ofTypes types domain).edges.map Prod.fst).Nodup := by
    have hmap : (DependencyGraph.ofTypes types domain).edges.map Prod.fst =
        (types.map DataType.name).reverse := by
      simp [DependencyGraph.ofTypes, Function.comp_def]
    rw [hmap]
    exact List.nodup_reverse.2 hnames
  have hedge : (t.name, (t.dependencies domain).filter (types.map DataType.name).contains) ∈
      (DependencyGraph.ofTypes types domain).edges :=
    List.mem_map.2 ⟨t, List.mem_reverse.2 ht, rfl⟩
  rw [DependencyGraph.successors, (Schema.lookup_eq_some_iff_mem hkeys).2 hedge, Option.getD_some]

theorem mem_successors_ofTypes {a b : String} :
    b ∈ (DependencyGraph.ofTypes types domain).successors a ↔
      ∃ t ∈ types, ∃ u ∈ types, t.name = a ∧ u.name = b ∧ t.RefersTo domain u := by
  constructor
  · intro h
    have ha := DependencyGraph.mem_nodes_ofTypes.1 (DependencyGraph.mem_nodes_of_mem_successors h)
    obtain ⟨t, ht, rfl⟩ := List.mem_map.1 ha
    rw [successors_ofTypes hnames ht, List.mem_filter, List.contains_iff_mem] at h
    obtain ⟨u, hu, rfl⟩ := List.mem_map.1 h.2
    exact ⟨t, ht, u, hu, rfl, rfl, DataType.mem_dependencies.1 h.1⟩
  · rintro ⟨t, ht, u, hu, rfl, rfl, hrefers⟩
    rw [successors_ofTypes hnames ht, List.mem_filter, List.contains_iff_mem]
    exact ⟨DataType.mem_dependencies.2 hrefers, List.mem_map_of_mem hu⟩

end

/-! ## Steps that are due -/

def Ready (g : DependencyGraph) (emitted : List String) (t : DataType) : Prop :=
  ∀ name ∈ g.successors t.name, name ∈ emitted

/-- A step before others takes a type that is ready, or breaks a cycle when no type is. -/
def Due (g : DependencyGraph) (emitted : List String) (s : OrderStep) (rest : List DataType) :
    Prop :=
  s.breaksCycle = false ∧ Ready g emitted s.type ∨
    s.breaksCycle = true ∧ (∀ t ∈ s.type :: rest, ¬ Ready g emitted t) ∧
      g.OnCycle ((s.type :: rest).map DataType.name) s.type.name

def Settled (g : DependencyGraph) : List String → List OrderStep → Prop
  | _, [] => True
  | emitted, s :: steps =>
    Due g emitted s (steps.map OrderStep.type) ∧ Settled g (s.type.name :: emitted) steps

section

variable {g : DependencyGraph} {emitted : List String}

theorem all_successors_iff {t : DataType} :
    ((g.successors t.name).all fun name => emitted.contains name) = true ↔ Ready g emitted t := by
  simp only [List.all_eq_true, List.contains_iff_mem, Ready]

theorem DependencyGraph.OnCycle.congr {g' : DependencyGraph} {pending pending' : List String}
    {name : String} (h : g.OnCycle pending name)
    (hg : ∀ a b, b ∈ g.successors a ↔ b ∈ g'.successors a)
    (hpending : ∀ a, a ∈ pending ↔ a ∈ pending') : g'.OnCycle pending' name :=
  TransGen.mono (fun _ _ hstep => ⟨(hg _ _).1 hstep.1, (hpending _).1 hstep.2⟩) name name h

theorem Due.congr {g' : DependencyGraph} {s : OrderStep} {rest rest' : List DataType}
    (h : Due g emitted s rest) (hg : ∀ a b, b ∈ g.successors a ↔ b ∈ g'.successors a)
    (hrest : rest.Perm rest') : Due g' emitted s rest' := by
  have hperm := hrest.cons s.type
  have hready : ∀ t, Ready g emitted t ↔ Ready g' emitted t := fun t => by simp only [Ready, hg]
  rcases h with ⟨hflag, h⟩ | ⟨hflag, hwait, hcycle⟩
  · exact .inl ⟨hflag, (hready s.type).1 h⟩
  · refine .inr ⟨hflag, ?_, hcycle.congr hg fun a => (hperm.map DataType.name).mem_iff⟩
    intro t ht hnow
    exact hwait t (hperm.mem_iff.2 ht) ((hready t).2 hnow)

theorem Settled.congr {g' : DependencyGraph} {steps : List OrderStep} (h : Settled g emitted steps)
    (hg : ∀ a b, b ∈ g.successors a ↔ b ∈ g'.successors a) : Settled g' emitted steps := by
  induction steps generalizing emitted with
  | nil => trivial
  | cons s steps ih => exact ⟨h.1.congr hg (.refl _), ih h.2⟩

/-- A step that is due is the one taken from a list that starts with its type. -/
theorem nextType_of_due {s : OrderStep} {rest : List DataType} (h : Due g emitted s rest) :
    nextType g emitted (s.type :: rest) = (0, s.breaksCycle) := by
  unfold nextType
  rcases h with ⟨hflag, hready⟩ | ⟨hflag, hwait, hcycle⟩
  · rw [List.findIdx?_cons, if_pos (all_successors_iff.2 hready), hflag]
  · have hnone : (s.type :: rest).findIdx?
        (fun t => (g.successors t.name).all emitted.contains) = none :=
      List.findIdx?_eq_none_iff.2 fun t ht =>
        Bool.eq_false_iff.2 fun hall => hwait t ht (all_successors_iff.1 hall)
    rw [hnone]
    simp only
    rw [List.findIdx?_cons, if_pos (DependencyGraph.isOnCycle_iff.2 hcycle), hflag]
    rfl

/-- Ordering types that come in steps that are due gives these steps. -/
theorem orderFrom_of_settled {steps : List OrderStep} (h : Settled g emitted steps) :
    orderFrom g emitted (steps.map OrderStep.type) = steps := by
  induction steps generalizing emitted with
  | nil =>
      rw [List.map_nil, orderFrom]
      simp
  | cons s steps ih =>
      have hnext := nextType_of_due h.1
      rw [List.map_cons, orderFrom_of_ne_nil (List.cons_ne_nil _ _)]
      simp only [hnext, List.get_eq_getElem, List.getElem_cons_zero, List.eraseIdx_zero,
        List.tail_cons, ih h.2]

def Accounted (g : DependencyGraph) (emitted : List String) (remaining : List DataType) : Prop :=
  ∀ t ∈ remaining, ∀ name ∈ g.successors t.name,
    name ∈ emitted ∨ name ∈ remaining.map DataType.name

theorem exists_onCycle_of_not_ready {remaining : List DataType} (hne : remaining ≠ [])
    (haccounted : Accounted g emitted remaining) (hwait : ∀ t ∈ remaining, ¬ Ready g emitted t) :
    ∃ t ∈ remaining, g.OnCycle (remaining.map DataType.name) t.name := by
  have hblocked : ∀ a ∈ remaining.map DataType.name,
      ∃ b, g.Step (remaining.map DataType.name) a b := by
    intro a ha
    obtain ⟨t, ht, rfl⟩ := List.mem_map.1 ha
    obtain ⟨name, hname, hnot⟩ : ∃ name ∈ g.successors t.name, name ∉ emitted := by
      simpa only [Ready, not_forall, exists_prop] using hwait t ht
    exact ⟨name, hname, (haccounted t ht name hname).resolve_left hnot⟩
  obtain ⟨a, ha, hcycle⟩ := DependencyGraph.exists_onCycle (by simpa using hne) hblocked
  obtain ⟨t, ht, rfl⟩ := List.mem_map.1 ha
  exact ⟨t, ht, hcycle⟩

theorem due_of_nextType_eq {remaining : List DataType} (haccounted : Accounted g emitted remaining)
    {i : Nat} {breaksCycle : Bool} (h : nextType g emitted remaining = (i, breaksCycle))
    (hi : i < remaining.length) :
    Due g emitted ⟨remaining[i], breaksCycle⟩ (remaining.eraseIdx i) := by
  have hne : remaining ≠ [] := List.ne_nil_of_length_pos (Nat.zero_lt_of_lt hi)
  have hperm := List.getElem_cons_eraseIdx_perm hi
  unfold nextType at h
  split at h
  · next j hready =>
      obtain ⟨rfl, rfl⟩ := Prod.mk.inj h
      obtain ⟨_, hall, _⟩ := List.findIdx?_eq_some_iff_getElem.1 hready
      exact .inl ⟨rfl, all_successors_iff.1 hall⟩
  · next hnone =>
      have hwait : ∀ t ∈ remaining, ¬ Ready g emitted t := fun t ht hready =>
        Bool.eq_false_iff.1 (List.findIdx?_eq_none_iff.1 hnone t ht) (all_successors_iff.2 hready)
      obtain ⟨t, ht, hcycle⟩ := exists_onCycle_of_not_ready hne haccounted hwait
      obtain ⟨hj, rfl⟩ := Prod.mk.inj h
      cases hfind : remaining.findIdx? fun t =>
          g.isOnCycle t.name (remaining.map DataType.name) with
      | none =>
          have hnot := List.findIdx?_eq_none_iff.1 hfind t ht
          rw [DependencyGraph.isOnCycle_iff.2 hcycle] at hnot
          cases hnot
      | some j =>
          rw [hfind, Option.getD_some] at hj
          subst hj
          obtain ⟨_, hfound, _⟩ := List.findIdx?_eq_some_iff_getElem.1 hfind
          refine .inr ⟨rfl, fun t ht => hwait t (hperm.mem_iff.1 ht), ?_⟩
          exact (DependencyGraph.isOnCycle_iff.1 hfound).congr (fun _ _ => Iff.rfl)
            fun a => (hperm.map DataType.name).symm.mem_iff

theorem settled_orderFrom {remaining : List DataType} (haccounted : Accounted g emitted remaining) :
    Settled g emitted (orderFrom g emitted remaining) := by
  induction hlength : remaining.length generalizing emitted remaining with
  | zero =>
      obtain rfl := List.length_eq_zero_iff.1 hlength
      rw [orderFrom]
      simp [Settled]
  | succ n ih =>
      have hne : remaining ≠ [] := List.ne_nil_of_length_eq_add_one hlength
      have hlt := nextType_lt g emitted hne
      have hperm := List.getElem_cons_eraseIdx_perm hlt
      rw [orderFrom_of_ne_nil hne]
      refine ⟨(due_of_nextType_eq haccounted rfl hlt).congr (fun _ _ => Iff.rfl)
        (orderFrom_perm g _ _).symm, ih ?_ ?_⟩
      · intro t ht name hname
        rcases haccounted t (List.mem_of_mem_eraseIdx ht) name hname with h | h
        · exact .inl (List.mem_cons_of_mem _ h)
        · rw [← (hperm.map DataType.name).mem_iff, List.map_cons, List.mem_cons] at h
          rcases h with rfl | h
          · exact .inl List.mem_cons_self
          · exact .inr h
      · rw [List.length_eraseIdx_of_lt hlt]
        omega

theorem Settled.due {before after : List OrderStep} {s : OrderStep}
    (h : Settled g emitted (before ++ s :: after)) :
    Due g ((before.map fun s => s.type.name).reverse ++ emitted) s (after.map OrderStep.type) := by
  induction before generalizing emitted with
  | nil => exact h.1
  | cons first before ih =>
      rw [List.map_cons, List.reverse_cons, List.append_assoc]
      exact ih h.2

end

/-! ## Ordering the types of a domain -/

section

variable {types : List DataType} {domain : String}

theorem inDependencyOrder_of_forall
    (h : ∀ before t after, types = before ++ t :: after → ∀ u ∈ after, ¬ t.RefersTo domain u) :
    InDependencyOrder domain types := by
  induction types with
  | nil => exact .nil
  | cons t types ih =>
      refine .cons (h [] t types rfl) (ih fun before u after heq => ?_)
      exact h (t :: before) u after (by rw [heq, List.cons_append])

variable (hnames : (types.map DataType.name).Nodup)

include hnames

theorem accounted_ofTypes {emitted remaining : List DataType}
    (hperm : (emitted ++ remaining).Perm types) :
    Accounted (.ofTypes types domain) (emitted.map DataType.name) remaining := by
  intro t _ name hname
  obtain ⟨_, _, u, hu, _, rfl, _⟩ := (mem_successors_ofTypes hnames).1 hname
  rcases List.mem_append.1 (hperm.mem_iff.2 hu) with hu | hu
  · exact .inl (List.mem_map_of_mem hu)
  · exact .inr (List.mem_map_of_mem hu)

/-- A cycle of names on a part of the list is a cycle of references. -/
theorem onReferenceCycle_of_onCycle {part : List DataType} (hpart : part ⊆ types) {t : DataType}
    (ht : t ∈ types)
    (h : (DependencyGraph.ofTypes types domain).OnCycle (part.map DataType.name) t.name) :
    OnReferenceCycle domain part t := by
  have hstep : ∀ {v : DataType} {name : String}, v ∈ types →
      (DependencyGraph.ofTypes types domain).Step (part.map DataType.name) v.name name →
        ∃ u ∈ types, u.name = name ∧ RefersWithin domain part v u := by
    rintro v name hv ⟨hsuccessor, hpending⟩
    obtain ⟨v', hv', u, hu, hname, rfl, hrefers⟩ := (mem_successors_ofTypes hnames).1 hsuccessor
    obtain rfl := eq_of_name_eq hnames hv' hv hname
    obtain ⟨w, hw, hwname⟩ := List.mem_map.1 hpending
    obtain rfl := eq_of_name_eq hnames (hpart hw) hu hwname
    exact ⟨w, hu, rfl, hw, hrefers⟩
  have hreach : ∀ {name : String},
      TransGen ((DependencyGraph.ofTypes types domain).Step (part.map DataType.name)) t.name name →
        ∃ u ∈ types, u.name = name ∧ TransGen (RefersWithin domain part) t u := by
    intro name hpath
    induction hpath with
    | single hfirst =>
        obtain ⟨u, hu, hname, hrefers⟩ := hstep ht hfirst
        exact ⟨u, hu, hname, .single hrefers⟩
    | tail _ hlast ih =>
        obtain ⟨v, hv, rfl, hpath⟩ := ih
        obtain ⟨u, hu, hname, hrefers⟩ := hstep hv hlast
        exact ⟨u, hu, hname, hpath.tail hrefers⟩
  obtain ⟨u, hu, hname, hcycle⟩ := hreach h
  obtain rfl := eq_of_name_eq hnames hu ht hname
  exact hcycle

theorem settled_orderSteps (domain : String) :
    Settled (.ofTypes types domain) [] (orderSteps types domain) := by
  have haccounted : Accounted (.ofTypes types domain) ([].map DataType.name) types :=
    accounted_ofTypes hnames (.refl types)
  exact settled_orderFrom haccounted

theorem not_ready_iff {emitted remaining : List DataType}
    (hperm : (emitted ++ remaining).Perm types) {t : DataType} (ht : t ∈ remaining) :
    ¬ Ready (.ofTypes types domain) (emitted.map DataType.name) t ↔
      ∃ u ∈ remaining, t.RefersTo domain u := by
  have hsub : ∀ {u}, u ∈ remaining → u ∈ types := fun hu =>
    hperm.mem_iff.1 (List.mem_append_right _ hu)
  constructor
  · intro hwait
    obtain ⟨name, hname, hnot⟩ :
        ∃ name ∈ (DependencyGraph.ofTypes types domain).successors t.name,
          name ∉ emitted.map DataType.name := by
      simpa only [Ready, not_forall, exists_prop] using hwait
    obtain ⟨t', ht', u, hu, heq, rfl, hrefers⟩ := (mem_successors_ofTypes hnames).1 hname
    obtain rfl := eq_of_name_eq hnames ht' (hsub ht) heq
    rcases List.mem_append.1 (hperm.mem_iff.2 hu) with hu' | hu'
    · exact absurd (List.mem_map_of_mem hu') hnot
    · exact ⟨u, hu', hrefers⟩
  · rintro ⟨u, hu, hrefers⟩ hready
    have hname := hready u.name
      ((mem_successors_ofTypes hnames).2 ⟨t, hsub ht, u, hsub hu, rfl, rfl, hrefers⟩)
    have hnodup := (hperm.map DataType.name).nodup_iff.2 hnames
    rw [List.map_append] at hnodup
    exact List.disjoint_of_nodup_append hnodup hname (List.mem_map_of_mem hu)

/-- A step takes a type that refers to nothing that remains, or one on a cycle when every type that
remains refers to one that does. -/
theorem step_orderSteps {before after : List OrderStep} {s : OrderStep}
    (hsteps : orderSteps types domain = before ++ s :: after) :
    let remaining := s.type :: after.map OrderStep.type
    s.breaksCycle = false ∧ (¬ ∃ u ∈ remaining, s.type.RefersTo domain u) ∨
      s.breaksCycle = true ∧ (∀ t ∈ remaining, ∃ u ∈ remaining, t.RefersTo domain u) ∧
        OnReferenceCycle domain remaining s.type := by
  intro remaining
  have hperm : ((before.map OrderStep.type).reverse ++ remaining).Perm types := by
    have horder := orderTypes_perm types domain
    rw [orderTypes, hsteps, List.map_append, List.map_cons] at horder
    exact ((List.reverse_perm _).append_right _).trans horder
  have hsub : remaining ⊆ types := fun _ hu => hperm.mem_iff.1 (List.mem_append_right _ hu)
  have hdue := settled_orderSteps hnames domain
  rw [hsteps] at hdue
  have hnamed : (before.map fun s => s.type.name).reverse ++ [] =
      (before.map OrderStep.type).reverse.map DataType.name := by
    simp [Function.comp_def]
  rcases hnamed ▸ hdue.due with ⟨hflag, hready⟩ | ⟨hflag, hwait, hcycle⟩
  · refine .inl ⟨hflag, fun hrefers => ?_⟩
    exact (not_ready_iff hnames hperm List.mem_cons_self).2 hrefers hready
  · refine .inr ⟨hflag, fun t ht => (not_ready_iff hnames hperm ht).1 (hwait t ht), ?_⟩
    exact onReferenceCycle_of_onCycle hnames hsub (hsub List.mem_cons_self) hcycle

/-- Ordering again takes the same steps. -/
theorem orderSteps_orderTypes :
    orderSteps (orderTypes types domain) domain = orderSteps types domain := by
  have hperm := orderTypes_perm types domain
  have hnames' := (hperm.map DataType.name).nodup_iff.2 hnames
  apply orderFrom_of_settled
  apply (settled_orderSteps hnames domain).congr
  intro a b
  simp only [mem_successors_ofTypes hnames, mem_successors_ofTypes hnames', hperm.mem_iff]

theorem settled_of_inDependencyOrder {before after : List DataType}
    (htypes : types = before ++ after) (horder : InDependencyOrder domain types) :
    Settled (.ofTypes types domain) (before.map DataType.name).reverse
      (after.map fun t => ⟨t, false⟩) := by
  induction after generalizing before with
  | nil => trivial
  | cons t after ih =>
      constructor
      · refine .inl ⟨rfl, ?_⟩
        rw [InDependencyOrder, htypes, List.pairwise_append, List.pairwise_cons] at horder
        have hperm : (before.reverse ++ t :: after).Perm types :=
          htypes ▸ (List.reverse_perm before).append_right _
        rw [← List.map_reverse]
        by_contra hwait
        obtain ⟨u, hu, hrefers⟩ := (not_ready_iff hnames hperm List.mem_cons_self).1 hwait
        rcases List.mem_cons.1 hu with rfl | hu
        · exact hrefers.1 rfl
        · exact horder.2.1.1 u hu hrefers
      · have htypes' : types = (before ++ [t]) ++ after := by simpa using htypes
        simpa using ih htypes'

theorem orderTypes_of_inDependencyOrder (horder : InDependencyOrder domain types) :
    orderTypes types domain = types := by
  have hsettled := settled_of_inDependencyOrder hnames (List.nil_append types).symm horder
  have hid : (types.map fun t => (⟨t, false⟩ : OrderStep)).map OrderStep.type = types := by
    rw [List.map_map]
    exact List.map_id types
  calc orderTypes types domain
      = (orderFrom (.ofTypes types domain) [] types).map OrderStep.type := rfl
    _ = (types.map fun t => (⟨t, false⟩ : OrderStep)).map OrderStep.type := by
        conv_lhs => rw [← hid, orderFrom_of_settled (hid.symm ▸ hsettled)]
    _ = types := hid

end

/-- A type comes before one it refers to only to break a cycle of types that remain, which exists
whenever none is ready. Types without cycles come in dependency order, and types in that order keep
it, as does the result of ordering. -/
theorem order_breaks_cycles_only {types : List DataType} {domain : String}
    (hnames : (types.map DataType.name).Nodup) :
    (orderTypes types domain).Perm types ∧
    (∀ before t after, orderTypes types domain = before ++ t :: after →
      (∃ u ∈ after, t.RefersTo domain u) → OnReferenceCycle domain (t :: after) t) ∧
    ((∀ t ∈ types, ¬ OnReferenceCycle domain types t) →
      InDependencyOrder domain (orderTypes types domain)) ∧
    (∀ emitted remaining, (emitted ++ remaining).Perm types → remaining ≠ [] →
      let g := DependencyGraph.ofTypes types domain
      (∀ t ∈ remaining, (g.successors t.name).all (emitted.map DataType.name).contains = false) →
      ∃ t ∈ remaining, g.isOnCycle t.name (remaining.map DataType.name) = true ∧
        OnReferenceCycle domain remaining t) ∧
    (∀ before s after, orderSteps types domain = before ++ s :: after → s.breaksCycle = true →
      OnReferenceCycle domain (s.type :: after.map OrderStep.type) s.type) ∧
    orderTypes (orderTypes types domain) domain = orderTypes types domain ∧
    (InDependencyOrder domain types → orderTypes types domain = types) := by
  have hbefore : ∀ before t after, orderTypes types domain = before ++ t :: after →
      (∃ u ∈ after, t.RefersTo domain u) → OnReferenceCycle domain (t :: after) t := by
    rintro before t after horder ⟨u, hu, hrefers⟩
    obtain ⟨steps, rest, hsteps, rfl, hrest⟩ := List.map_eq_append_iff.1 horder
    obtain ⟨s, steps', rfl, rfl, rfl⟩ := List.map_eq_cons_iff.1 hrest
    rcases step_orderSteps hnames hsteps with ⟨-, hnone⟩ | ⟨-, -, hcycle⟩
    · exact absurd ⟨u, List.mem_cons_of_mem _ hu, hrefers⟩ hnone
    · exact hcycle
  have hperm := orderTypes_perm types domain
  refine ⟨hperm, hbefore, ?_, ?_, ?_, ?_, orderTypes_of_inDependencyOrder hnames⟩
  · intro hacyclic
    apply inDependencyOrder_of_forall
    intro before t after horder u hu hrefers
    have hsub : t :: after ⊆ types := fun _ ht =>
      hperm.mem_iff.1 (horder ▸ List.mem_append_right _ ht)
    have hcycle := hbefore before t after horder ⟨u, hu, hrefers⟩
    exact hacyclic t (hsub List.mem_cons_self) (hcycle.mono hsub)
  · intro emitted remaining hperm' hne g hwait
    have hsub : remaining ⊆ types := fun _ ht => hperm'.mem_iff.1 (List.mem_append_right _ ht)
    have hready : ∀ t ∈ remaining, ¬ Ready g (emitted.map DataType.name) t := fun t ht hnow =>
      Bool.eq_false_iff.1 (hwait t ht) (all_successors_iff.2 hnow)
    obtain ⟨t, ht, hcycle⟩ :=
      exists_onCycle_of_not_ready hne (accounted_ofTypes hnames hperm') hready
    exact ⟨t, ht, DependencyGraph.isOnCycle_iff.2 hcycle,
      onReferenceCycle_of_onCycle hnames hsub (hsub ht) hcycle⟩
  · intro before s after hsteps hbreaks
    rcases step_orderSteps hnames hsteps with ⟨hflag, -⟩ | ⟨-, -, hcycle⟩
    · rw [hbreaks] at hflag
      cases hflag
    · exact hcycle
  · rw [orderTypes, orderSteps_orderTypes hnames]
    rfl

/-- A record with a list of each type it is linked to. -/
def linked (name : String) (targets : List String) : DataType where
  domain := "Page"
  name := name
  kind := .record
  fields := targets.map fun target =>
    { name := target, type := .collection (.named ⟨"Page", target, .record⟩) }

instance (g : DependencyGraph) (emitted : List String) (t : DataType) :
    Decidable (Ready g emitted t) :=
  List.decidableBAll _ (g.successors t.name)

/-- Two cycles that share a type, a type that waits for one of them, and one that is linked to
itself and to a type that is not on the list. -/
def overlapping : List OrderStep :=
  [⟨linked "Alone" ["Alone", "Missing"], false⟩, ⟨linked "First" ["Shared"], true⟩,
    ⟨linked "Outside" ["First"], false⟩, ⟨linked "Shared" ["First", "Second"], true⟩,
    ⟨linked "Second" ["Shared"], false⟩]

theorem settled_overlapping :
    Settled (.ofTypes (overlapping.map OrderStep.type) "Page") [] overlapping := by
  refine ⟨.inl (by decide), .inr ⟨rfl, by decide, ?_⟩, .inl (by decide), .inr ⟨rfl, by decide, ?_⟩,
    .inl (by decide), trivial⟩
  · exact .tail (b := "Shared") (.single (by decide)) (by decide)
  · exact .tail (b := "Second") (.single (by decide)) (by decide)

/-- Both cycles are broken, each at its first type that remains. -/
theorem order_breaks_cycles_only_overlapping :
    ((overlapping.map OrderStep.type).map DataType.name).Nodup ∧
      orderSteps (overlapping.map OrderStep.type) "Page" = overlapping ∧
      OnReferenceCycle "Page" [linked "Shared" ["First", "Second"], linked "Second" ["Shared"]]
        (linked "Shared" ["First", "Second"]) := by
  have hnames : ((overlapping.map OrderStep.type).map DataType.name).Nodup := by decide
  have hsteps : orderSteps (overlapping.map OrderStep.type) "Page" = overlapping :=
    orderFrom_of_settled settled_overlapping
  have horder : orderTypes (overlapping.map OrderStep.type) "Page" =
      [linked "Alone" ["Alone", "Missing"], linked "First" ["Shared"],
        linked "Outside" ["First"]] ++
        linked "Shared" ["First", "Second"] :: [linked "Second" ["Shared"]] := by
    rw [orderTypes, hsteps]
    rfl
  have hrefers : (linked "Shared" ["First", "Second"]).RefersTo "Page"
      (linked "Second" ["Shared"]) :=
    ⟨by decide, ⟨"Page", "Second", .record⟩, by decide, rfl, rfl⟩
  obtain ⟨-, hbefore, -⟩ := order_breaks_cycles_only hnames
  exact ⟨hnames, hsteps, hbefore _ _ _ horder ⟨_, List.mem_singleton_self _, hrefers⟩⟩

end WireBindings.Binding
