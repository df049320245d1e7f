import WireBindings.Proofs.Identifier.Snake

/-!
# Identifiers in Pascal case

An identifier in Pascal case has letters, digits and underscores only, whatever it is made from, and
so has one in snake case that has words.
-/

namespace WireBindings.Identifier

theorem isWordChar_toUpper {c : Char} (h : isWordChar c = true) : isWordChar c.toUpper = true := by
  delta Char.toUpper
  split
  · rename_i hc
    have hlow : 97 ≤ c.toNat := UInt32.le_iff_toNat_le.1 hc.1
    have hhigh : c.toNat ≤ 122 := UInt32.le_iff_toNat_le.1 hc.2
    have hall : ∀ n < 123, 97 ≤ n → isWordChar (Char.ofNat n).toUpper = true := by decide +kernel
    have hword := hall c.toNat (by omega) hlow
    rw [Char.ofNat_toNat] at hword
    delta Char.toUpper at hword
    rwa [dif_pos hc] at hword
  · exact h

def IsWordText (s : String) : Prop := ∀ c ∈ s.toList, isWordChar c = true ∨ c = '_'

-- the characters of the text are tested, not all that there are
instance (s : String) : Decidable (IsWordText s) :=
  decidable_of_iff (s.toList.all (fun c => isWordChar c || c == '_') = true)
    (by simp [IsWordText])

theorem IsWordText.append {s t : String} (hs : IsWordText s) (ht : IsWordText t) :
    IsWordText (s ++ t) := by
  intro c hc
  rw [String.toList_append] at hc
  exact (List.mem_append.1 hc).elim (hs c) (ht c)

theorem IsWordText.dot_not_mem {s : String} (h : IsWordText s) : '.' ∉ s.toList := fun hdot =>
  absurd (h '.' hdot) (by decide)

theorem isWordChar_of_mem_capitalized {chars : List Char} {c : Char}
    (h : c ∈ (splitChars chars).flatMap capitalize) : isWordChar c = true := by
  obtain ⟨w, hw, hc⟩ := List.mem_flatMap.1 h
  have hword := (mem_splitChars hw).2
  cases w with
  | nil => cases hc
  | cons first rest =>
      rcases List.mem_cons.1 hc with rfl | hc
      · exact isWordChar_toUpper (hword first List.mem_cons_self)
      · exact hword c (List.mem_cons_of_mem _ hc)

theorem isWordText_pascal (s : String) : IsWordText (pascal s) := by
  intro c hc
  rw [pascal, String.toList_ofList] at hc
  rcases List.mem_append.1 hc with hc | hc
  · split at hc
    · exact .inr (List.mem_singleton.1 hc)
    · cases hc
  · exact .inl (isWordChar_of_mem_capitalized hc)

/-- Words are asked for, since the snake case of a text without them is the text itself. -/
theorem isWordText_snake {s : String} (h : foldedWords s ≠ []) : IsWordText (snake s) := by
  unfold IsWordText
  rw [toList_snake h]
  refine Text.forall_mem_intercalate ?_ fun w hw c hc => .inl ((mem_foldedWords hw).2 c hc)
  exact List.forall_mem_singleton.2 (.inr rfl)

end WireBindings.Identifier
