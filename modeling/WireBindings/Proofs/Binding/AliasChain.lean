import WireBindings.Binding.Alias
import WireBindings.Proofs.Schema.References
import Mathlib.Logic.Relation

/-!
# Chains of aliases

An alias leads to at most one further alias, so a chain is a walk without choices. The search of the
binder finds every alias that comes back to itself: when it stops at an alias that it has met, the
chain only goes round among those.
-/

namespace WireBindings.Schema

inductive Shape.Points : Shape → String → Prop
  | reference (target : String) : Points (.reference target) target
  | array {item : Shape} {target : String} (h : Points item target) : Points (.array item) target

namespace Resolution

/-- The body of a declared type is, below its array levels, a reference to an alias. -/
def LeadsTo (r : Resolution) (a b : TypeKey) : Prop :=
  ∃ t target, r.table.find? a = some t ∧ t.shape.Points target ∧
    r.target? a.domain target = some b ∧ r.isAlias b = true

theorem aliasIn_eq_some {r : Resolution} {owner : String} {shape : Shape} {b : TypeKey} :
    r.aliasIn owner shape = some b ↔
      ∃ target, shape.Points target ∧ r.target? owner target = some b ∧ r.isAlias b = true := by
  induction shape with
  | reference target =>
      rw [aliasIn, Option.filter_eq_some_iff]
      constructor
      · exact fun h => ⟨target, .reference target, h⟩
      · rintro ⟨_, ⟨⟩, h⟩
        exact h
  | scalar kind =>
      simp only [aliasIn, reduceCtorEq, false_iff]
      rintro ⟨_, ⟨⟩, -⟩
  | enumeration literals =>
      simp only [aliasIn, reduceCtorEq, false_iff]
      rintro ⟨_, ⟨⟩, -⟩
  | record properties ih =>
      simp only [aliasIn, reduceCtorEq, false_iff]
      rintro ⟨_, ⟨⟩, -⟩
  | array item ih =>
      rw [aliasIn, ih]
      constructor
      · rintro ⟨target, hpoints, h⟩
        exact ⟨target, .array hpoints, h⟩
      · rintro ⟨target, hpoints, h⟩
        cases hpoints with
        | array hpoints => exact ⟨target, hpoints, h⟩

theorem nextAlias_eq_some {r : Resolution} {a b : TypeKey} :
    r.nextAlias a = some b ↔ r.LeadsTo a b := by
  rw [nextAlias, Option.bind_eq_some_iff]
  constructor
  · rintro ⟨t, ht, hb⟩
    obtain ⟨target, hpoints, h⟩ := aliasIn_eq_some.1 hb
    exact ⟨t, target, ht, hpoints, h⟩
  · rintro ⟨t, target, ht, hpoints, h⟩
    exact ⟨t, ht, aliasIn_eq_some.2 ⟨target, hpoints, h⟩⟩

theorem transGen_iff_of_nextAlias {r : Resolution} {key next goal : TypeKey}
    (hnext : r.nextAlias key = some next) :
    Relation.TransGen r.LeadsTo key goal ↔
      next = goal ∨ Relation.TransGen r.LeadsTo next goal := by
  rw [Relation.TransGen.head'_iff]
  constructor
  · rintro ⟨b, hb, hgoal⟩
    obtain rfl : next = b := Option.some.inj (hnext.symm.trans (nextAlias_eq_some.2 hb))
    exact (Relation.reflTransGen_iff_eq_or_transGen.1 hgoal).imp Eq.symm id
  · rintro (rfl | hgoal)
    · exact ⟨next, nextAlias_eq_some.1 hnext, .refl⟩
    · exact ⟨next, nextAlias_eq_some.1 hnext, hgoal.to_reflTransGen⟩

theorem not_transGen_of_nextAlias {r : Resolution} {key goal : TypeKey}
    (hnext : r.nextAlias key = none) : ¬ Relation.TransGen r.LeadsTo key goal := by
  rw [Relation.TransGen.head'_iff]
  rintro ⟨b, hb, -⟩
  rw [nextAlias_eq_some.2 hb] at hnext
  cases hnext

theorem mem_of_transGen {r : Resolution} {members : List TypeKey}
    (hclosed : ∀ a ∈ members, ∀ b, r.nextAlias a = some b → b ∈ members) {a goal : TypeKey}
    (ha : a ∈ members) (h : Relation.TransGen r.LeadsTo a goal) : goal ∈ members := by
  induction h with
  | single hb => exact hclosed a ha _ (nextAlias_eq_some.2 hb)
  | tail _ hc ih => exact hclosed _ ih _ (nextAlias_eq_some.2 hc)

/-- The search finds what its chain leads to. Its invariant: no alias that it has visited is the goal,
and each of them leads to another of them, except for the one where the search stands. -/
theorem chainMeets_iff {r : Resolution} {goal key : TypeKey} {visited : List TypeKey}
    (hgoal : goal ∉ visited)
    (hnext : ∀ a ∈ visited, ∀ b, r.nextAlias a = some b → b ∈ visited ∨ a = key) :
    r.chainMeets goal visited key = true ↔ Relation.TransGen r.LeadsTo key goal := by
  fun_induction chainMeets r goal visited key with
  | case1 visited key hnone => simp [not_transGen_of_nextAlias hnone]
  | case2 visited key hsome => simp [transGen_iff_of_nextAlias hsome]
  | case3 visited key next hsome hne hvisited =>
      -- the chain has come back, so it goes round among the aliases visited
      have hclosed : ∀ a ∈ visited, ∀ b, r.nextAlias a = some b → b ∈ visited := by
        intro a ha b hb
        rcases hnext a ha b hb with hmem | rfl
        · exact hmem
        · obtain rfl : next = b := Option.some.inj (hsome.symm.trans hb)
          exact hvisited
      simp only [Bool.false_eq_true, false_iff, transGen_iff_of_nextAlias hsome, not_or]
      exact ⟨hne, fun h => hgoal (mem_of_transGen hclosed hvisited h)⟩
  | case4 visited key next hsome hne hvisited _ ih =>
      rw [transGen_iff_of_nextAlias hsome, or_iff_right hne]
      refine ih ?_ ?_
      · exact List.not_mem_cons_of_ne_of_not_mem (Ne.symm hne) hgoal
      · intro a ha b hb
        rcases List.mem_cons.1 ha with rfl | ha
        · exact .inr rfl
        · rcases hnext a ha b hb with hmem | rfl
          · exact .inl (List.mem_cons_of_mem _ hmem)
          · obtain rfl : next = b := Option.some.inj (hsome.symm.trans hb)
            exact .inl List.mem_cons_self

/-- The binder finds exactly the aliases that lead back to themselves. -/
theorem isRecursive_iff {r : Resolution} {key : TypeKey} :
    r.isRecursive key = true ↔ Relation.TransGen r.LeadsTo key key := by
  rw [isRecursive, Bool.and_eq_true, chainMeets_iff List.not_mem_nil nofun, and_iff_right_iff_imp]
  intro h
  obtain ⟨_, -, _, _, _, _, _, halias⟩ := Relation.TransGen.tail'_iff.1 h
  exact halias

theorem isAlias_eq_true {r : Resolution} {key : TypeKey} :
    r.isAlias key = true ↔
      ∃ t, r.table.find? key = some t ∧ t.shape.IsAlias := by
  unfold isAlias
  cases r.table.find? key with
  | none => simp
  | some t => simp [Shape.IsAlias]

theorem mem_recursiveAliases {doc : Document} {r : Resolution} (hr : ofDocument doc = .ok r)
    {key : TypeKey} : key ∈ r.recursiveAliases ↔ Relation.TransGen r.LeadsTo key key := by
  rw [← isRecursive_iff, recursiveAliases, document_eq hr]
  simp only [List.mem_flatMap, List.mem_filter, List.mem_map]
  constructor
  · rintro ⟨d, -, -, h⟩
    exact h
  · intro h
    obtain ⟨halias, -⟩ := Bool.and_eq_true_iff.1 h
    obtain ⟨t, ht, -⟩ := isAlias_eq_true.1 halias
    obtain ⟨d, hd, hname, hmem, hid⟩ := (find?_eq_some_iff hr).1 ht
    exact ⟨d, hd, ⟨t, hmem, by rw [hname, hid]⟩, h⟩

end Resolution

end WireBindings.Schema
