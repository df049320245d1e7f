import WireBindings.Proofs.Identifier.Pascal
import Mathlib

/-!
# What splitting and rebuilding keep

The words of a text are its letters and digits in order. A character that belongs to no word
separates what is on its two sides, and a word has no words but itself. Identifiers rebuilt from the
words therefore keep the letters and digits up to case.
-/

namespace WireBindings.Identifier

/-! ## The shape of a word -/

/-- Small letters and digits behind at most one capital, or digits behind capitals. -/
inductive IsWord : List Char → Prop
  | plain {capitals tail : List Char} (hlength : capitals.length ≤ 1)
      (hcapitals : ∀ c ∈ capitals, c.isUpper = true) (htail : ∀ c ∈ tail, isTail c = true) :
      IsWord (capitals ++ tail)
  | acronym {capitals digits : List Char} (hcapitals : ∀ c ∈ capitals, c.isUpper = true)
      (hdigits : ∀ c ∈ digits, c.isDigit = true) : IsWord (capitals ++ digits)

theorem not_isAlpha_of_isDigit {c : Char} (h : c.isDigit = true) :
    c.isUpper = false ∧ c.isLower = false := by
  have hle : c.toNat ≤ 57 := (Char.isDigit_iff_toNat.1 h).2
  constructor
  · refine Bool.eq_false_iff.2 fun hupper => ?_
    have hge : 65 ≤ c.toNat := UInt32.le_iff_toNat_le.1 (of_decide_eq_true hupper).1
    omega
  · refine Bool.eq_false_iff.2 fun hlower => ?_
    have hge : 97 ≤ c.toNat :=
      UInt32.le_iff_toNat_le.1 (of_decide_eq_true (Bool.and_eq_true_iff.1 hlower).1)
    omega

theorem isUpper_eq_false_of_isTail {c : Char} (h : isTail c = true) : c.isUpper = false := by
  rcases Bool.or_eq_true_iff.1 h with hlower | hdigit
  · exact Bool.eq_false_iff.2 (Char.not_isUpper_of_isLower hlower)
  · exact (not_isAlpha_of_isDigit hdigit).1

theorem isWord_firstWord (s : List Char) : IsWord (firstWord s).1 := by
  have hcapitals : ∀ c ∈ s.takeWhile Char.isUpper, c.isUpper = true :=
    List.all_eq_true.1 List.all_takeWhile
  unfold firstWord
  simp only
  split
  · next hlength => exact .plain hlength hcapitals (List.all_eq_true.1 List.all_takeWhile)
  · split
    · -- the last capital belongs to the next word
      rw [← List.append_nil (List.dropLast _)]
      exact .acronym (fun c hc => hcapitals c (List.dropLast_subset _ hc)) nofun
    · exact .acronym hcapitals (List.all_eq_true.1 List.all_takeWhile)

theorem takeWhile_isUpper_append {capitals tail : List Char}
    (hcapitals : ∀ c ∈ capitals, c.isUpper = true) (htail : ∀ c ∈ tail, isTail c = true) :
    (capitals ++ tail).takeWhile Char.isUpper = capitals := by
  have hnone : tail.takeWhile Char.isUpper = [] := by
    cases tail with
    | nil => rfl
    | cons c tail =>
        rw [List.takeWhile_cons, isUpper_eq_false_of_isTail (htail c List.mem_cons_self)]
        rfl
  rw [List.takeWhile_append_of_pos hcapitals, hnone, List.append_nil]

theorem firstWord_of_isWord {w : List Char} (h : IsWord w) : firstWord w = (w, []) := by
  have hplain {capitals tail : List Char} (hlength : capitals.length ≤ 1)
      (hcapitals : ∀ c ∈ capitals, c.isUpper = true) (htail : ∀ c ∈ tail, isTail c = true) :
      firstWord (capitals ++ tail) = (capitals ++ tail, []) := by
    simp only [firstWord, takeWhile_isUpper_append hcapitals htail, List.drop_left, if_pos hlength,
      List.takeWhile_eq_self_iff.2 htail, List.drop_length]
  cases h with
  | plain hlength hcapitals htail => exact hplain hlength hcapitals htail
  | @acronym capitals digits hcapitals hdigits =>
      have htail : ∀ c ∈ digits, isTail c = true := fun c hc => by
        rw [isTail, hdigits c hc, Bool.or_true]
      by_cases hlength : capitals.length ≤ 1
      · exact hplain hlength hcapitals htail
      · have hlower : (digits.head?.map Char.isLower).getD false = false := by
          cases digits with
          | nil => rfl
          | cons c digits => exact (not_isAlpha_of_isDigit (hdigits c List.mem_cons_self)).2
        simp only [firstWord, takeWhile_isUpper_append hcapitals htail, List.drop_left,
          if_neg hlength, hlower, Bool.false_eq_true, if_false,
          List.takeWhile_eq_self_iff.2 hdigits, List.drop_length]

theorem splitChars_cons {c : Char} (s : List Char) (h : isWordChar c = true) :
    splitChars (c :: s) = (firstWord (c :: s)).1 :: splitChars (firstWord (c :: s)).2 := by
  rw [splitChars, dif_pos h]

theorem splitChars_nil : splitChars [] = [] := by rw [splitChars]

theorem isWord_of_mem_splitChars {s w : List Char} (h : w ∈ splitChars s) : IsWord w := by
  fun_induction splitChars s with
  | case1 => cases h
  | case2 c rest _ _ ih =>
      rcases List.mem_cons.1 h with rfl | h
      · exact isWord_firstWord _
      · exact ih h
  | case3 c rest _ ih => exact ih h

theorem splitChars_of_isWord {w : List Char} (h : IsWord w) (hne : w ≠ []) :
    splitChars w = [w] := by
  obtain ⟨c, s, rfl⟩ := List.exists_cons_of_ne_nil hne
  have hfirst := firstWord_of_isWord h
  have hword : isWordChar c = true := isWordChar_of_mem_firstWord (s := c :: s) (by simp [hfirst])
  rw [splitChars_cons s hword, hfirst, splitChars_nil]

/-! ## What is between the words -/

theorem flatten_splitChars (s : List Char) : (splitChars s).flatten = s.filter isWordChar := by
  fun_induction splitChars s with
  | case1 => rfl
  | case2 c rest _ _ ih =>
      have hfirst : (firstWord (c :: rest)).1.filter isWordChar = (firstWord (c :: rest)).1 :=
        List.filter_eq_self.2 fun _ => isWordChar_of_mem_firstWord
      calc ((firstWord (c :: rest)).1 :: splitChars (firstWord (c :: rest)).2).flatten
          = (firstWord (c :: rest)).1.filter isWordChar ++
              (firstWord (c :: rest)).2.filter isWordChar := by rw [List.flatten_cons, ih, hfirst]
        _ = (c :: rest).filter isWordChar := by rw [← List.filter_append, firstWord_append]
  | case3 c rest hc ih => rw [ih, List.filter_cons_of_neg hc]

section

variable {c : Char}

theorem takeWhile_append_separator {p : Char → Bool} (hp : p c = false) (s t : List Char) :
    (s ++ c :: t).takeWhile p = s.takeWhile p := by
  rw [List.takeWhile_append, List.takeWhile_cons, hp]
  split
  · next hall =>
      have heq : s.takeWhile p = s := (List.takeWhile_prefix p).eq_of_length hall
      rw [if_neg Bool.false_ne_true, List.append_nil, heq]
  · rfl

variable (hc : isWordChar c = false)

include hc

theorem firstWord_append_separator (s t : List Char) :
    firstWord (s ++ c :: t) = ((firstWord s).1, (firstWord s).2 ++ c :: t) := by
  obtain ⟨⟨hupper, hlower⟩, hdigit⟩ :
      (c.isUpper = false ∧ c.isLower = false) ∧ c.isDigit = false := by
    simpa [isWordChar, Char.isAlphanum, Char.isAlpha] using hc
  have htail : isTail c = false := by rw [isTail, hlower, hdigit, Bool.or_false]
  have htaken (p : Char → Bool) (r : List Char) : (r.takeWhile p).length ≤ r.length :=
    (List.takeWhile_prefix p).length_le
  have hdrop {n : Nat} {r : List Char} (hn : n ≤ r.length) :
      (r ++ c :: t).drop n = r.drop n ++ c :: t := List.drop_append_of_le_length hn
  have hhead (r : List Char) : ((r ++ c :: t).head?.map Char.isLower).getD false =
      (r.head?.map Char.isLower).getD false := by
    cases r with
    | nil => exact hlower
    | cons d r => rfl
  have hlast : (s.takeWhile Char.isUpper).length - 1 ≤ s.length :=
    (Nat.sub_le _ _).trans (htaken _ s)
  simp only [firstWord, takeWhile_append_separator hupper, takeWhile_append_separator htail,
    takeWhile_append_separator hdigit, hdrop (htaken _ _), hdrop hlast, hhead]
  split
  · rfl
  · split
    · rfl
    · rfl

/-- A character of no word separates the words before it from those behind it. -/
theorem splitChars_append_separator (s t : List Char) :
    splitChars (s ++ c :: t) = splitChars s ++ splitChars t := by
  fun_induction splitChars s with
  | case1 => rw [List.nil_append, List.nil_append, splitChars, dif_neg (Bool.eq_false_iff.1 hc)]
  | case2 d rest hd _ ih =>
      rw [List.cons_append, splitChars_cons _ hd, ← List.cons_append,
        firstWord_append_separator hc, ih, List.cons_append]
  | case3 d rest hd ih => rw [List.cons_append, splitChars, dif_neg hd, ih]

end

/-! ## Letters up to case -/

def letters (s : List Char) : List Char := (s.filter isWordChar).map Char.toLower

@[simp] theorem letters_append (s t : List Char) : letters (s ++ t) = letters s ++ letters t := by
  rw [letters, List.filter_append, List.map_append]
  rfl

theorem letters_flatMap {α : Type} (l : List α) (f : α → List Char) :
    letters (l.flatMap f) = l.flatMap fun a => letters (f a) := by
  rw [letters, List.filter_flatMap, List.map_flatMap]
  rfl

theorem isWordChar_toLower_eq (c : Char) : isWordChar c.toLower = isWordChar c := by
  by_cases h : c.isUpper = true
  · have hword : isWordChar c = true := by rw [isWordChar_eq, h, Bool.true_or]
    rw [isWordChar_toLower hword, hword]
  · rw [Char.toLower_eq_of_not_isUpper h]

theorem isWordChar_toUpper_eq (c : Char) : isWordChar c.toUpper = isWordChar c := by
  by_cases h : c.isLower = true
  · have hword : isWordChar c = true := by rw [isWordChar_eq, isTail, h, Bool.true_or, Bool.or_true]
    rw [isWordChar_toUpper hword, hword]
  · rw [Char.toUpper_eq_of_not_isLower h]

@[simp] theorem letters_map_toLower (s : List Char) : letters (s.map Char.toLower) = letters s := by
  simp only [letters, List.filter_map, List.map_map, Function.comp_def, isWordChar_toLower_eq,
    Char.toLower_toLower_eq_toLower]

@[simp] theorem letters_capitalize (s : List Char) : letters (capitalize s) = letters s := by
  cases s with
  | nil => rfl
  | cons c s =>
      simp only [capitalize, letters, List.filter_cons, isWordChar_toUpper_eq]
      split
      · simp only [List.map_cons, Char.toLower_toUpper_eq_toLower]
      · rfl

/-- The letters of the words are those of the text. -/
theorem flatMap_letters_splitChars (s : List Char) :
    (splitChars s).flatMap letters = letters s := by
  calc (splitChars s).flatMap letters
      = letters (splitChars s).flatten := by rw [← List.flatMap_id, letters_flatMap]; rfl
    _ = letters s := by
        rw [flatten_splitChars, letters, List.filter_filter]
        simp only [Bool.and_self]
        rfl

theorem letters_pascal (s : String) : letters (pascal s).toList = letters s.toList := by
  have hlead : letters (if s.toList.head? = some '_' then ['_'] else []) = [] := by
    split
    · rfl
    · rfl
  rw [pascal, String.toList_ofList, letters_append, hlead, letters_flatMap]
  simp only [letters_capitalize, List.nil_append]
  exact flatMap_letters_splitChars s.toList

theorem letters_camel (s : String) : letters (camel s).toList = letters s.toList := by
  unfold camel
  split
  · rfl
  · next w ws hws =>
    rw [String.toList_ofList, letters_append, letters_flatMap, letters_map_toLower,
      ← flatMap_letters_splitChars s.toList, hws, List.flatMap_cons]
    simp only [letters_capitalize]

theorem letters_intercalate (ws : List (List Char)) :
    letters (['_'].intercalate ws) = ws.flatMap letters := by
  cases ws with
  | nil => rfl
  | cons w ws =>
      have hseparator : letters ['_'] = [] := rfl
      rw [Text.intercalate_cons_eq_flatMap, letters_append, letters_flatMap, List.flatMap_cons]
      simp only [letters_append, hseparator, List.nil_append]

theorem letters_snake (s : String) : letters (snake s).toList = letters s.toList := by
  unfold snake
  split
  · rfl
  · rw [String.toList_ofList, letters_intercalate, List.flatMap_map]
    simp only [letters_map_toLower]
    exact flatMap_letters_splitChars s.toList

/-! ## Snake case again -/

theorem isTail_toLower {c : Char} (h : isWordChar c = true) : isTail c.toLower = true := by
  by_cases hupper : c.isUpper = true
  · have hlower : c.toLower.isLower = true := by
      rw [Char.isLower_toLower_eq_isAlpha, Char.isAlpha, hupper, Bool.true_or]
    rw [isTail, hlower, Bool.true_or]
  · rw [Char.toLower_eq_of_not_isUpper hupper]
    rw [isWordChar_eq, Bool.or_eq_true] at h
    exact h.resolve_left hupper

theorem splitChars_of_mem_foldedWords {s : String} {w : List Char} (h : w ∈ foldedWords s) :
    splitChars w = [w] := by
  obtain ⟨v, hv, rfl⟩ := List.mem_map.1 h
  have htail : ∀ c ∈ v.map Char.toLower, isTail c = true :=
    List.forall_mem_map.2 fun c hc => isTail_toLower ((mem_splitChars hv).2 c hc)
  have hword : IsWord (v.map Char.toLower) := @IsWord.plain [] _ (by simp) nofun htail
  exact splitChars_of_isWord hword (mem_foldedWords h).1

theorem splitChars_intercalate {ws : List (List Char)} (h : ∀ w ∈ ws, splitChars w = [w]) :
    splitChars (['_'].intercalate ws) = ws := by
  induction ws with
  | nil => exact splitChars_nil
  | cons w ws ih =>
      obtain ⟨hw, hws⟩ := List.forall_mem_cons.1 h
      cases ws with
      | nil => rw [List.intercalate_singleton, hw]
      | cons v ws =>
          have hseparator : isWordChar '_' = false := rfl
          rw [List.intercalate_cons_cons, List.append_assoc, List.singleton_append,
            splitChars_append_separator hseparator, hw, ih hws, List.singleton_append]

theorem foldedWords_snake {s : String} (h : foldedWords s ≠ []) :
    foldedWords (snake s) = foldedWords s := by
  have hsplit : splitChars (snake s).toList = foldedWords s := by
    rw [toList_snake h, splitChars_intercalate fun _ => splitChars_of_mem_foldedWords]
  rw [foldedWords, hsplit, foldedWords, List.map_map]
  simp only [Function.comp_def, List.map_map, Char.toLower_toLower_eq_toLower]

theorem snake_snake (s : String) : snake (snake s) = snake s := by
  by_cases h : foldedWords s = []
  · rw [snake_of_foldedWords_eq_nil h, snake_of_foldedWords_eq_nil h]
  · have hwords := foldedWords_snake h
    rw [← String.toList_inj, toList_snake (hwords ▸ h), hwords, toList_snake h]

/-! ## The words of a text -/

theorem words_of_mem_words {s w : String} (h : w ∈ words s) : w ≠ "" ∧ words w = [w] := by
  obtain ⟨v, hv, rfl⟩ := List.mem_map.1 h
  have hne : v ≠ [] := (mem_splitChars hv).1
  constructor
  · rwa [Ne, String.ofList_eq_empty_iff]
  · rw [words, String.toList_ofList, splitChars_of_isWord (isWord_of_mem_splitChars hv) hne]
    rfl

theorem join_words (s : String) :
    String.join (words s) = String.ofList (s.toList.filter isWordChar) := by
  rw [← String.toList_inj, String.toList_join, String.toList_ofList, words, List.flatMap_map]
  simp only [String.toList_ofList]
  rw [← flatten_splitChars, ← List.flatMap_id]
  rfl

theorem words_append_separator {c : Char} (hc : isWordChar c = false) (before after : String) :
    words (before ++ String.singleton c ++ after) = words before ++ words after := by
  rw [words, String.toList_append, String.toList_append, String.toList_singleton, List.append_assoc,
    List.singleton_append, splitChars_append_separator hc, List.map_append]
  rfl

/-- The words of a text are not empty, make up its letters and digits and have no other words in
them; none goes on behind a character that is removed. Rebuilt in any case they keep the letters and
digits up to case, and a text in snake case is already in snake case. -/
theorem words_lose_nothing (s : String) :
    (∀ w ∈ words s, w ≠ "" ∧ words w = [w]) ∧
      String.join (words s) = String.ofList (s.toList.filter isWordChar) ∧
      (∀ before c after, s = before ++ String.singleton c ++ after → isWordChar c = false →
        words s = words before ++ words after) ∧
      letters (pascal s).toList = letters s.toList ∧ letters (camel s).toList = letters s.toList ∧
      letters (snake s).toList = letters s.toList ∧ snake (snake s) = snake s := by
  refine ⟨fun w => words_of_mem_words, join_words s, ?_, letters_pascal s, letters_camel s,
    letters_snake s, snake_snake s⟩
  rintro before c after rfl hc
  exact words_append_separator hc before after

theorem words_lose_nothing_acronyms :
    words "DOMNode2D__x-ID9" = ["DOM", "Node2", "D", "x", "ID9"] ∧ words "Node2" = ["Node2"] ∧
      words "DOMNode2D__x-ID9" = words "DOMNode2D_" ++ words "x-ID9" ∧
      snake "DOMNode2D__x-ID9" = "dom_node2_d_x_id9" ∧
      snake "dom_node2_d_x_id9" = "dom_node2_d_x_id9" := by
  have hwords : words "DOMNode2D__x-ID9" = ["DOM", "Node2", "D", "x", "ID9"] := by decide +kernel
  have hsnake : snake "DOMNode2D__x-ID9" = "dom_node2_d_x_id9" := by decide +kernel
  obtain ⟨hself, -, hseparator, -, -, -, hidem⟩ := words_lose_nothing "DOMNode2D__x-ID9"
  refine ⟨hwords, (hself "Node2" ?_).2, hseparator "DOMNode2D_" '_' "x-ID9" (by decide) (by decide),
    hsnake, hsnake ▸ hidem⟩
  rw [hwords]
  decide

end WireBindings.Identifier
