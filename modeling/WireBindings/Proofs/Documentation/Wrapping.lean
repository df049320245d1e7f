import WireBindings.Proofs.Documentation.Lines
import WireBindings.Proofs.Outcome

/-!
# Wrapped lines

The lines that the words of a paragraph fill, and what the lines of a text have to do with those of
its wrapping. A blank line stays if a line with words stands before it and another one after it.
-/

namespace WireBindings.Documentation

open Text (isBlank isLineBreak)

/-! ## Words between spaces -/

def IsWord (w : List Char) : Prop := w ≠ [] ∧ ∀ c ∈ w, isBlank c = false

theorem isWord_of_mem_words {s w : List Char} (h : w ∈ Text.words s) : IsWord w :=
  ⟨Text.words_ne_nil h, fun _ => isBlank_eq_false_of_mem_words h⟩

theorem IsWord.words {w : List Char} (h : IsWord w) : Text.words w = [w] := by
  rw [Text.words, List.splitOnP_eq_singleton h.2]
  simp [h.1]

def spaced (ws : List (List Char)) : List Char := [' '].intercalate ws

section

variable {ws : List (List Char)} {w line current : List Char} {width : Int}

theorem words_spaced (h : ∀ w ∈ ws, IsWord w) : Text.words (spaced ws) = ws := by
  rw [spaced, piecewise_words.intercalate (List.forall_mem_singleton.2 (by decide))]
  induction ws with
  | nil => rfl
  | cons w ws ih =>
      obtain ⟨hw, hws⟩ := List.forall_mem_cons.1 h
      rw [List.flatMap_cons, hw.words, ih hws, List.singleton_append]

theorem spaced_singleton (w : List Char) : spaced [w] = w := List.intercalate_singleton

theorem spaced_concat (hne : ws ≠ []) (w : List Char) :
    spaced (ws ++ [w]) = spaced ws ++ ' ' :: w := by
  obtain ⟨first, rest, rfl⟩ := List.exists_cons_of_ne_nil hne
  rw [spaced, spaced, List.cons_append, Text.intercalate_cons_eq_flatMap,
    Text.intercalate_cons_eq_flatMap, List.flatMap_append, List.append_assoc]
  simp

theorem isLineBreak_spaced (h : ∀ w ∈ ws, IsWord w) : ∀ c ∈ spaced ws, isLineBreak c = false := by
  refine Text.forall_mem_intercalate (List.forall_mem_singleton.2 (by decide)) fun w hw c hc => ?_
  have hblank := (h w hw).2 c hc
  by_contra hbreak
  rw [Text.isBlank_of_isLineBreak (by simpa using hbreak)] at hblank
  cases hblank

theorem trimmed_spaced (h : ∀ w ∈ ws, IsWord w) : Trimmed (spaced ws) := by
  cases ws with
  | nil => exact ⟨fun _ hc => (nomatch hc), fun _ hc => (nomatch hc)⟩
  | cons w ws =>
      constructor
      · intro c hc
        rw [spaced, Text.intercalate_cons_eq_flatMap,
          List.head?_append_of_ne_nil _ (h w List.mem_cons_self).1] at hc
        exact (h w List.mem_cons_self).2 c (List.mem_of_head? hc)
      · intro c hc
        obtain ⟨v, hv, d, hd, hlast⟩ := Text.exists_getLast?_intercalate (x := ' ')
          (List.cons_ne_nil w ws) fun w hw => (h w hw).1
        obtain rfl := Option.some.inj (hlast.symm.trans hc)
        exact (h v hv).2 d hd

/-! ## Lines -/

/-- A line of words with single spaces between them, which fits the width or is one word. -/
structure IsLine (width : Int) (line : List Char) : Prop where
  spaced : line = spaced (Text.words line)
  unbroken : ∀ c ∈ line, isLineBreak c = false
  trimmed : Text.trim line = line
  fits : line ≠ [] → width < line.length → Text.words line = [line]

namespace IsLine

theorem of_words (h : ∀ w ∈ ws, IsWord w)
    (hfits : (Documentation.spaced ws).length ≤ width ∨ ws.length ≤ 1) :
    IsLine width (Documentation.spaced ws) where
  spaced := by rw [words_spaced h]
  unbroken := isLineBreak_spaced h
  trimmed := (trimmed_spaced h).trim_eq
  fits := by
    intro hne hwide
    rw [words_spaced h]
    rcases hfits with hfits | hfew
    · omega
    · match ws, hfew with
      | [], _ => exact absurd rfl hne
      | [w], _ => rw [spaced_singleton]

theorem of_isWord (width : Int) (h : IsWord w) : IsLine width w := by
  rw [← spaced_singleton w]
  exact of_words (List.forall_mem_singleton.2 h) (.inr le_rfl)

theorem nil (width : Int) : IsLine width [] :=
  have hnone : ∀ w ∈ ([] : List (List Char)), IsWord w := fun _ hw => absurd hw List.not_mem_nil
  of_words hnone (.inr (Nat.zero_le 1))

theorem words_eq_nil_iff (h : IsLine width line) : Text.words line = [] ↔ line = [] := by
  constructor
  · intro hnil
    rw [h.spaced, hnil]
    rfl
  · rintro rfl
    rfl

theorem append_word (h : IsLine width current) (hne : current ≠ []) (hw : IsWord w)
    (hfits : current.length + 1 + w.length ≤ width) : IsLine width (current ++ ' ' :: w) := by
  have hwords : Text.words current ≠ [] := mt h.words_eq_nil_iff.1 hne
  have hjoined : current ++ ' ' :: w = Documentation.spaced (Text.words current ++ [w]) := by
    rw [spaced_concat hwords, ← h.spaced]
  rw [hjoined]
  refine of_words ?_ (.inl ?_)
  · exact List.forall_mem_append.2
      ⟨fun _ => isWord_of_mem_words, List.forall_mem_singleton.2 hw⟩
  · rw [← hjoined, List.length_append, List.length_cons]
    push_cast
    omega

end IsLine

/-! ## Filled lines -/

/-- The first word of the next line does not fit behind a line. -/
def Overflows (width : Int) (line next : List Char) : Prop :=
  ∀ w, (Text.words next).head? = some w → width < line.length + 1 + w.length

/-- Words are put on lines with a first word before them. -/
theorem exists_fill_eq_cons (width : Int) (hne : Text.words current ≠ []) (ws : List (List Char)) :
    ∃ line rest, fill width current ws = line :: rest ∧
      (Text.words line).head? = (Text.words current).head? := by
  fun_induction fill width current ws with
  | case1 current => exact ⟨current, [], rfl, rfl⟩
  | case2 current w ws hempty ih =>
      obtain rfl := List.isEmpty_iff.1 hempty
      exact absurd rfl hne
  | case3 current w ws hempty hwide ih => exact ⟨current, _, rfl, rfl⟩
  | case4 current w ws hempty hwide ih =>
      have hwords : Text.words (current ++ ' ' :: w) = Text.words current ++ Text.words w :=
        piecewise_words.append_blank current w (by decide)
      obtain ⟨line, rest, hfill, hhead⟩ :=
        ih (hwords ▸ List.append_ne_nil_of_left_ne_nil hne _)
      refine ⟨line, rest, hfill, ?_⟩
      rw [hhead, hwords, List.head?_append_of_ne_nil _ hne]

/-- Every line that words fill is a line, none is empty if there is a word, and each is broken
before a word that does not fit. -/
theorem fill_spec (hcurrent : IsLine width current) (hws : ∀ w ∈ ws, IsWord w) :
    (∀ line ∈ fill width current ws, IsLine width line) ∧
      (current ≠ [] ∨ ws ≠ [] → [] ∉ fill width current ws) ∧
      (fill width current ws).IsChain (Overflows width) := by
  fun_induction fill width current ws with
  | case1 current =>
      refine ⟨List.forall_mem_singleton.2 hcurrent, fun hne hmem => ?_, List.IsChain.singleton _⟩
      rcases hne with hne | hne
      · exact hne (List.mem_singleton.1 hmem).symm
      · exact hne rfl
  | case2 current w ws hempty ih =>
      obtain ⟨hw, hws⟩ := List.forall_mem_cons.1 hws
      obtain ⟨hlines, hnonempty, hchain⟩ := ih (.of_isWord width hw) hws
      exact ⟨hlines, fun _ => hnonempty (.inl hw.1), hchain⟩
  | case3 current w ws hempty hwide ih =>
      obtain ⟨hw, hws⟩ := List.forall_mem_cons.1 hws
      obtain ⟨hlines, hnonempty, hchain⟩ := ih (.of_isWord width hw) hws
      have hwords : Text.words w = [w] := hw.words
      obtain ⟨line, rest, hfill, hhead⟩ :=
        exists_fill_eq_cons width (hwords ▸ List.cons_ne_nil w []) ws
      refine ⟨List.forall_mem_cons.2 ⟨hcurrent, hlines⟩, fun _ => ?_, ?_⟩
      · rw [List.mem_cons, not_or]
        refine ⟨?_, hnonempty (.inl hw.1)⟩
        rintro rfl
        exact hempty rfl
      · rw [hfill] at hchain ⊢
        refine List.isChain_cons_cons.2 ⟨fun v hv => ?_, hchain⟩
        rw [hhead, hwords] at hv
        obtain rfl := Option.some.inj hv
        exact hwide
  | case4 current w ws hempty hwide ih =>
      obtain ⟨hw, hws⟩ := List.forall_mem_cons.1 hws
      have hne : current ≠ [] := mt List.isEmpty_iff.2 hempty
      obtain ⟨hlines, hnonempty, hchain⟩ :=
        ih (hcurrent.append_word hne hw (Int.not_lt.1 hwide)) hws
      exact ⟨hlines, fun _ => hnonempty (.inl (by simp)), hchain⟩

theorem fill_of_fits (hne : current ≠ [])
    (hfits : ((current ++ ws.flatMap (' ' :: ·)).length : Int) ≤ width) :
    fill width current ws = [current ++ ws.flatMap (' ' :: ·)] := by
  induction ws generalizing current with
  | nil => rw [fill, List.flatMap_nil, List.append_nil]
  | cons w ws ih =>
      rw [List.flatMap_cons, ← List.append_assoc] at hfits ⊢
      have hshort : ¬ ((current.length : Int) + 1 + w.length > width) := by
        simp only [List.length_append, List.length_cons] at hfits
        push_cast at hfits
        omega
      rw [fill, if_neg (mt List.isEmpty_iff.1 hne), if_neg hshort]
      exact ih (List.append_ne_nil_of_left_ne_nil hne _) hfits

theorem fill_words (h : IsLine width line) : fill width [] (Text.words line) = [line] := by
  by_cases hne : line = []
  · rw [hne]
    rfl
  · cases hwords : Text.words line with
    | nil => exact absurd (h.words_eq_nil_iff.1 hwords) hne
    | cons w ws =>
        have hw : IsWord w := isWord_of_mem_words (hwords ▸ List.mem_cons_self)
        have hline : line = w ++ ws.flatMap (' ' :: ·) := by
          conv_lhs => rw [h.spaced, hwords, spaced, Text.intercalate_cons_eq_flatMap]
          rfl
        rw [fill, if_pos List.isEmpty_nil]
        by_cases hwide : width < line.length
        · have hsingle := h.fits hne hwide
          rw [hwords] at hsingle
          obtain ⟨rfl, rfl⟩ := List.cons.inj hsingle
          rfl
        · rw [fill_of_fits hw.1 (hline ▸ Int.not_lt.1 hwide), ← hline]

/-! ## Paragraphs -/

/-- The lines that a paragraph is wrapped to. They hold its words, a line break stands only where
the next word would not have fit, and a blank paragraph is one empty line. -/
structure Fills (width : Int) (paragraph : List Char) (block : List (List Char)) : Prop where
  words : block.flatMap Text.words = Text.words paragraph
  lines : ∀ line ∈ block, IsLine width line
  greedy : block.IsChain (Overflows width)
  blank : IsBlankLine paragraph = true → block = [[]]
  filled : IsBlankLine paragraph = false → block ≠ [] ∧ [] ∉ block

theorem fills_fill (width : Int) (paragraph : List Char) :
    Fills width paragraph (fill width [] (Text.words paragraph)) := by
  obtain ⟨hlines, hnonempty, hchain⟩ :=
    fill_spec (IsLine.nil width) fun w (hw : w ∈ Text.words paragraph) => isWord_of_mem_words hw
  have hwords : (fill width [] (Text.words paragraph)).flatMap Text.words =
      Text.words paragraph := by
    rw [piecewise_words.fill, piecewise_words.words]
    rfl
  refine ⟨hwords, hlines, hchain, fun hblank => ?_, fun hblank => ⟨?_, ?_⟩⟩
  · rw [List.isEmpty_iff.1 hblank]
    rfl
  · intro hnil
    rw [hnil, List.flatMap_nil] at hwords
    rw [IsBlankLine, ← hwords] at hblank
    cases hblank
  · exact hnonempty (.inr fun hnil => by rw [IsBlankLine, hnil] at hblank; cases hblank)

/-- A text is wrapped line by line, without the blank lines at its ends. -/
theorem wrapChars_eq (width : Int) (s : List Char) :
    wrapChars width s = (innerLines s).flatMap fun line => fill width [] (Text.words line) := by
  rw [wrapChars, ← List.flatMap_map Text.words (fill width []), map_words_lines_trim,
    List.flatMap_map]

theorem isLine_of_mem_wrapChars {s : List Char} (h : line ∈ wrapChars width s) :
    IsLine width line := by
  rw [wrapChars_eq] at h
  obtain ⟨paragraph, -, hline⟩ := List.mem_flatMap.1 h
  exact (fills_fill width paragraph).lines line hline

theorem head?_wrapChars_ne (width : Int) (s : List Char) :
    (wrapChars width s).head? ≠ some [] := by
  rw [wrapChars_eq]
  cases hlines : innerLines s with
  | nil => exact fun h => nomatch h
  | cons paragraph rest =>
      obtain ⟨hne, hfilled⟩ :=
        (fills_fill width paragraph).filled (not_isBlankLine_head (by rw [hlines]; rfl))
      rw [List.flatMap_cons, List.head?_append_of_ne_nil _ hne]
      exact fun h => hfilled (List.mem_of_head? h)

theorem getLast?_wrapChars_ne (width : Int) (s : List Char) :
    (wrapChars width s).getLast? ≠ some [] := by
  rw [wrapChars_eq]
  cases hlines : innerLines s using List.reverseRecOn with
  | nil => exact fun h => nomatch h
  | append_singleton rest paragraph =>
      obtain ⟨hne, hfilled⟩ := (fills_fill width paragraph).filled
        (not_isBlankLine_getLast (by rw [hlines, List.getLast?_concat]))
      rw [List.flatMap_append, List.flatMap_singleton, List.getLast?_append_of_ne_nil _ hne]
      exact fun h => hfilled (List.mem_of_getLast? h)

theorem innerLines_intercalate {ls : List (List Char)} (h : ∀ line ∈ ls, IsLine width line)
    (hhead : ls.head? ≠ some []) (hlast : ls.getLast? ≠ some []) :
    innerLines (['\n'].intercalate ls) = ls := by
  have hblank {line : List Char} (hmem : line ∈ ls) (hne : line ≠ []) :
      ¬ IsBlankLine line = true := by
    rw [IsBlankLine, List.isEmpty_iff, (h line hmem).words_eq_nil_iff]
    exact hne
  have hreturn : '\r' ∉ ['\n'].intercalate ls := by
    have hall : ∀ c ∈ ['\n'].intercalate ls, c ≠ '\r' := by
      refine Text.forall_mem_intercalate (List.forall_mem_singleton.2 (by decide))
        fun line hline c hc => ?_
      rintro rfl
      exact absurd ((h line hline).unbroken _ hc) (by decide)
    exact fun hmem => hall _ hmem rfl
  have hlines : Text.lines (['\n'].intercalate ls) = ls := by
    rw [Text.lines, unifyBreaks_eq_self hreturn,
      splitLines_intercalate (fun line hline => (h line hline).unbroken) hlast]
  have hdrop : ls.dropWhile IsBlankLine = ls := by
    rw [List.dropWhile_eq_self_iff]
    intro hpos
    have hfirst : ls.head? = some ls[0] := by
      rw [List.head?_eq_getElem?, List.getElem?_eq_getElem hpos]
    exact hblank (List.getElem_mem hpos) fun hnil => hhead (hnil ▸ hfirst)
  have hend : ls.rdropWhile IsBlankLine = ls := by
    rw [List.rdropWhile_eq_self_iff]
    intro hne
    exact hblank (List.getLast_mem hne) fun hnil =>
      hlast (hnil ▸ List.getLast?_eq_some_getLast hne)
  rw [innerLines, hlines, hdrop, hend]

theorem wrapChars_intercalate (width : Int) (s : List Char) :
    wrapChars width (['\n'].intercalate (wrapChars width s)) = wrapChars width s := by
  have hlines : ∀ line ∈ wrapChars width s, IsLine width line := fun _ => isLine_of_mem_wrapChars
  rw [wrapChars_eq width (['\n'].intercalate _), innerLines_intercalate hlines
    (head?_wrapChars_ne width s) (getLast?_wrapChars_ne width s)]
  calc (wrapChars width s).flatMap (fun line => fill width [] (Text.words line))
      = (wrapChars width s).flatMap fun line => [line] :=
        List.flatMap_congr fun line hline => fill_words (hlines line hline)
    _ = wrapChars width s := List.flatMap_singleton' _

end

/-- Wrapping keeps the words of a text in their order and puts them on lines with single spaces. A
line is too wide only if it is one word, and within a paragraph it ends only where the next word
would not have fit. An inner blank line of the text is one empty line, the first and the last line
are not empty, and wrapping the lines again changes nothing. -/
theorem wrapTo_fills (width : Int) (s : String) :
    ((wrapTo width s).flatMap fun line => Text.words line.toList) = Text.words s.toList ∧
      (∀ line ∈ wrapTo width s, IsLine width line.toList) ∧
      (∃ blocks, (wrapTo width s).map String.toList = blocks.flatten ∧
        List.Forall₂ (Fills width) (innerLines s.toList) blocks) ∧
      (wrapTo width s).head? ≠ some "" ∧ (wrapTo width s).getLast? ≠ some "" ∧
      wrapTo width ("\n".intercalate (wrapTo width s)) = wrapTo width s := by
  have hlist : (wrapTo width s).map String.toList = wrapChars width s.toList := by
    rw [wrapTo, List.map_map]
    simp
  refine ⟨?_, ?_, ?_, ?_, ?_, ?_⟩
  · rw [← List.flatMap_map String.toList Text.words, hlist, piecewise_words.wrapChars]
  · intro line hline
    exact isLine_of_mem_wrapChars (hlist ▸ List.mem_map_of_mem hline)
  · refine ⟨(innerLines s.toList).map fun line => fill width [] (Text.words line), ?_, ?_⟩
    · rw [hlist, wrapChars_eq, List.flatMap_def]
    · rw [List.forall₂_map_right_iff, List.forall₂_same]
      exact fun paragraph _ => fills_fill width paragraph
  · intro h
    have hhead := congrArg (Option.map String.toList) h
    rw [← List.head?_map, hlist] at hhead
    exact head?_wrapChars_ne width _ hhead
  · intro h
    have hlast := congrArg (Option.map String.toList) h
    rw [← List.getLast?_map, hlist] at hlast
    exact getLast?_wrapChars_ne width _ hlast
  · conv_lhs => rw [wrapTo, String.toList_intercalate, hlist]
    have hagain := wrapChars_intercalate width s.toList
    rw [wrapTo]
    exact congrArg (List.map String.ofList) hagain

/-- A word that is too wide stands alone, and the blank line between two paragraphs stays. -/
theorem wrapTo_fills_separated :
    wrapTo 8 " \r\n one  two\tthree\x0c \nextraordinary four\n" =
        ["one two", "three", "", "extraordinary", "four"] ∧
      IsLine 8 "extraordinary".toList := by
  have hrun : wrapTo 8 " \r\n one  two\tthree\x0c \nextraordinary four\n" =
      ["one two", "three", "", "extraordinary", "four"] := by decide +kernel
  refine ⟨hrun, (wrapTo_fills 8 " \r\n one  two\tthree\x0c \nextraordinary four\n").2.1 _ ?_⟩
  rw [hrun]
  decide

end WireBindings.Documentation
