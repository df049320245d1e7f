import WireBindings.Binding.Ordering
import Mathlib.Data.List.Perm.Basic

/-!
# Ordering keeps the data types

Each step of the ordering takes one of the remaining types, so no type is lost and none appears
twice.
-/

namespace WireBindings.Binding

theorem nextType_lt (g : DependencyGraph) (emitted : List String) {remaining : List DataType}
    (h : remaining ≠ []) : (nextType g emitted remaining).1 < remaining.length := by
  have hpos := List.length_pos_iff.2 h
  unfold nextType
  split
  · rename_i i hi
    exact (List.findIdx?_eq_some_iff_getElem.1 hi).1
  · simp only
    cases hcycle : remaining.findIdx? fun t => g.isOnCycle t.name (remaining.map DataType.name) with
    | none => exact hpos
    | some i => exact (List.findIdx?_eq_some_iff_getElem.1 hcycle).1

theorem orderFrom_of_ne_nil {g : DependencyGraph} {emitted : List String}
    {remaining : List DataType} (h : remaining ≠ []) :
    let i := (nextType g emitted remaining).1
    let next := remaining.get ⟨i, nextType_lt g emitted h⟩
    orderFrom g emitted remaining =
      ⟨next, (nextType g emitted remaining).2⟩ ::
        orderFrom g (next.name :: emitted) (remaining.eraseIdx i) := by
  intro i next
  rw [orderFrom]
  exact dif_pos (nextType_lt g emitted h)

theorem orderFrom_perm (g : DependencyGraph) (emitted : List String) (remaining : List DataType) :
    ((orderFrom g emitted remaining).map OrderStep.type).Perm remaining := by
  induction hlength : remaining.length generalizing emitted remaining with
  | zero =>
      obtain rfl := List.length_eq_zero_iff.1 hlength
      rw [orderFrom]
      simp
  | succ n ih =>
      have hne : remaining ≠ [] := List.ne_nil_of_length_eq_add_one hlength
      have hlt := nextType_lt g emitted hne
      rw [orderFrom_of_ne_nil hne, List.map_cons]
      refine (List.Perm.cons _ (ih _ _ ?_)).trans (List.getElem_cons_eraseIdx_perm hlt)
      rw [List.length_eraseIdx_of_lt hlt]
      omega

theorem orderTypes_perm (types : List DataType) (domain : String) :
    (orderTypes types domain).Perm types :=
  orderFrom_perm (.ofTypes types domain) [] types

/-! ## What the order depends on -/

section

variable {F : DataType → DataType} (hname : ∀ t, (F t).name = t.name)

include hname

theorem nextType_map (g : DependencyGraph) (emitted : List String) (remaining : List DataType) :
    nextType g emitted (remaining.map F) = nextType g emitted remaining := by
  simp only [nextType, List.findIdx?_map, List.map_map, Function.comp_def, hname]

theorem orderFrom_map (g : DependencyGraph) (emitted : List String) (remaining : List DataType) :
    (orderFrom g emitted (remaining.map F)).map OrderStep.type =
      ((orderFrom g emitted remaining).map OrderStep.type).map F := by
  induction hlength : remaining.length generalizing emitted remaining with
  | zero =>
      obtain rfl := List.length_eq_zero_iff.1 hlength
      rw [List.map_nil, orderFrom]
      simp
  | succ n ih =>
      have hne : remaining ≠ [] := List.ne_nil_of_length_eq_add_one hlength
      have hne' : remaining.map F ≠ [] := by simpa using hne
      have hlt := nextType_lt g emitted hne
      have herase : (remaining.eraseIdx (nextType g emitted remaining).1).length = n := by
        rw [List.length_eraseIdx_of_lt hlt]
        omega
      rw [orderFrom_of_ne_nil hne, orderFrom_of_ne_nil hne']
      simp only [nextType_map hname, List.map_cons, List.get_eq_getElem, List.getElem_map, hname,
        List.eraseIdx_map, ih _ _ herase]

theorem orderTypes_map
    (hdependencies : ∀ t domain, (F t).dependencies domain = t.dependencies domain)
    (types : List DataType) (domain : String) :
    orderTypes (types.map F) domain = (orderTypes types domain).map F := by
  have hgraph : DependencyGraph.ofTypes (types.map F) domain = .ofTypes types domain := by
    simp only [DependencyGraph.ofTypes, List.map_map, ← List.map_reverse, Function.comp_def, hname,
      hdependencies]
  rw [orderTypes, orderSteps, hgraph, orderFrom_map hname]
  rfl

end

end WireBindings.Binding
