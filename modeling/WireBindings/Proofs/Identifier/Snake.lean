import WireBindings.Identifier.Case
import WireBindings.Proofs.Text

/-!
# Identifiers in snake case

Two identifiers have the same snake case exactly when they are equal or have the same words up to
the case of their letters.
-/

namespace WireBindings.Identifier

theorem isWordChar_of_mem_firstWord {s : List Char} {c : Char} (h : c ∈ (firstWord s).1) :
    isWordChar c = true := by
  have hupper : ∀ c ∈ s.takeWhile Char.isUpper, isWordChar c = true := by
    intro c hc
    simp [isWordChar_eq, List.all_eq_true.1 List.all_takeWhile c hc]
  have htail : ∀ (p : Char → Bool) (t : List Char), (∀ c, p c = true → isTail c = true) →
      ∀ c ∈ t.takeWhile p, isWordChar c = true := by
    intro p t hp c hc
    simp [isWordChar_eq, hp c (List.all_eq_true.1 List.all_takeWhile c hc)]
  unfold firstWord at h
  simp only at h
  split at h
  · rcases List.mem_append.1 h with h | h
    · exact hupper c h
    · exact htail isTail _ (fun _ hc => hc) c h
  · split at h
    · exact hupper c (List.dropLast_subset _ h)
    · rcases List.mem_append.1 h with h | h
      · exact hupper c h
      · exact htail Char.isDigit _ (fun c hc => by simp [isTail, hc]) c h

theorem mem_splitChars {s w : List Char} (h : w ∈ splitChars s) :
    w ≠ [] ∧ ∀ c ∈ w, isWordChar c = true := by
  fun_induction splitChars s with
  | case1 => cases h
  | case2 c rest hc _ ih =>
      rcases List.mem_cons.1 h with rfl | h
      · exact ⟨firstWord_ne_nil rest hc, fun _ => isWordChar_of_mem_firstWord⟩
      · exact ih h
  | case3 c rest _ ih => exact ih h

theorem splitChars_eq_nil_iff {s : List Char} :
    splitChars s = [] ↔ ∀ c ∈ s, isWordChar c = false := by
  fun_induction splitChars s with
  | case1 => simp
  | case2 c rest hc _ ih =>
      simp only [List.mem_cons, forall_eq_or_imp, hc]
      exact iff_of_false (List.cons_ne_nil _ _) (fun h => Bool.noConfusion h.1)
  | case3 c rest hc ih => simp [ih, hc]

theorem isWordChar_toLower {c : Char} (h : isWordChar c = true) : isWordChar c.toLower = true := by
  delta Char.toLower
  split
  · rename_i hc
    have h1 : 65 ≤ c.val.toNat := UInt32.le_iff_toNat_le.1 hc.1
    have h2 : c.val.toNat ≤ 90 := UInt32.le_iff_toNat_le.1 hc.2
    have hsmall : 'a'.val ≤ c.val + ('a'.val - 'A'.val) ∧
        c.val + ('a'.val - 'A'.val) ≤ 'z'.val := by
      simp only [UInt32.le_iff_toNat_le, UInt32.toNat_add, UInt32.reduceSub, UInt32.reduceToNat,
        Char.reduceVal]
      omega
    have hlower := Bool.and_eq_true_iff.2 ⟨decide_eq_true hsmall.1, decide_eq_true hsmall.2⟩
    exact Bool.or_eq_true_iff.2 (.inl (Bool.or_eq_true_iff.2 (.inr hlower)))
  · exact h

def foldedWords (s : String) : List (List Char) := (splitChars s.toList).map (·.map Char.toLower)

theorem mem_foldedWords {s : String} {w : List Char} (h : w ∈ foldedWords s) :
    w ≠ [] ∧ ∀ c ∈ w, isWordChar c = true := by
  obtain ⟨v, hv, rfl⟩ := List.mem_map.1 h
  obtain ⟨hne, hall⟩ := mem_splitChars hv
  refine ⟨by simpa using hne, ?_⟩
  intro c hc
  obtain ⟨d, hd, rfl⟩ := List.mem_map.1 hc
  exact isWordChar_toLower (hall d hd)

theorem foldedWords_eq_nil_iff {s : String} :
    foldedWords s = [] ↔ ∀ c ∈ s.toList, isWordChar c = false := by
  rw [foldedWords, List.map_eq_nil_iff, splitChars_eq_nil_iff]

theorem snake_of_foldedWords_eq_nil {s : String} (h : foldedWords s = []) : snake s = s := by
  rw [snake, List.map_eq_nil_iff.1 h]

theorem toList_snake {s : String} (h : foldedWords s ≠ []) :
    (snake s).toList = ['_'].intercalate (foldedWords s) := by
  have hne : splitChars s.toList ≠ [] := fun hnil => h (by rw [foldedWords, hnil, List.map_nil])
  unfold snake
  split
  · contradiction
  · rw [String.toList_ofList]
    rfl

/-- Two identifiers have words, and the same ones but for the case of letters. -/
def SameWords (a b : String) : Prop := foldedWords a ≠ [] ∧ foldedWords a = foldedWords b

instance (a b : String) : Decidable (SameWords a b) := instDecidableAnd

theorem underscore_not_mem {s : String} {w : List Char} (hw : w ∈ foldedWords s) : '_' ∉ w := by
  intro hmem
  have hword := (mem_foldedWords hw).2 _ hmem
  exact absurd hword (by decide)

theorem isWordChar_getLast?_snake {s : String} (h : foldedWords s ≠ []) :
    ∃ c, (snake s).toList.getLast? = some c ∧ isWordChar c = true := by
  obtain ⟨w, hw, c, hc, hlast⟩ := Text.exists_getLast?_intercalate (x := '_') h
    fun w hw => (mem_foldedWords hw).1
  exact ⟨c, by rw [toList_snake h, hlast], (mem_foldedWords hw).2 c hc⟩

/-- The words in snake case stand between single underscores. -/
theorem splitOn_snake {s : String} (h : foldedWords s ≠ []) :
    (snake s).toList.splitOn '_' = foldedWords s := by
  rw [toList_snake h, List.splitOn_intercalate '_' (fun _ => underscore_not_mem) h]

theorem nil_not_mem_splitOn_snake {s : String} (h : ∃ c ∈ (snake s).toList, isWordChar c = true) :
    [] ∉ (snake s).toList.splitOn '_' := by
  by_cases hwords : foldedWords s = []
  · obtain ⟨c, hc, hword⟩ := h
    rw [snake_of_foldedWords_eq_nil hwords] at hc
    rw [foldedWords_eq_nil_iff.1 hwords c hc] at hword
    cases hword
  · rw [splitOn_snake hwords]
    exact fun hnil => (mem_foldedWords hnil).1 rfl

/-- An identifier without words is never the snake case of one with words. -/
theorem snake_ne_snake {a b : String} (ha : foldedWords a = []) (hb : foldedWords b ≠ []) :
    snake a ≠ snake b := by
  intro heq
  obtain ⟨c, hlast, hc⟩ := isWordChar_getLast?_snake hb
  rw [← heq, snake_of_foldedWords_eq_nil ha] at hlast
  have hnot := foldedWords_eq_nil_iff.1 ha c (List.mem_of_getLast? hlast)
  rw [hc] at hnot
  cases hnot

theorem snake_eq_snake_iff {a b : String} : snake a = snake b ↔ a = b ∨ SameWords a b := by
  by_cases ha : foldedWords a = []
  · have hnot : ¬ SameWords a b := fun h => h.1 ha
    rw [or_iff_left hnot]
    by_cases hb : foldedWords b = []
    · rw [snake_of_foldedWords_eq_nil ha, snake_of_foldedWords_eq_nil hb]
    · exact iff_of_false (snake_ne_snake ha hb) (fun heq => hb (heq ▸ ha))
  · constructor
    · -- the words are read off at the underscores
      intro heq
      have hb : foldedWords b ≠ [] := fun hb => snake_ne_snake hb ha heq.symm
      exact .inr ⟨ha, by rw [← splitOn_snake ha, heq, splitOn_snake hb]⟩
    · rintro (rfl | ⟨-, hwords⟩)
      · rfl
      · have hb : foldedWords b ≠ [] := hwords ▸ ha
        rw [← String.toList_inj, toList_snake ha, toList_snake hb, hwords]

end WireBindings.Identifier
