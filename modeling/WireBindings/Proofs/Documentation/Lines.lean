import Mathlib.Data.List.DropRight
import WireBindings.Proofs.Documentation

/-!
# Lines of a trimmed text

Trimming takes the blank lines at both ends of a text, and blanks from the first and the last line
that stay. So the lines of a trimmed text have the words of the inner lines of the text.
-/

namespace WireBindings.Documentation

open Text (isBlank isLineBreak)

/-! ## Lists without what stands at their ends -/

section

variable {α : Type} {p : α → Bool} {l m : List α} {x : α}

theorem rdropWhile_append (hx : p x = false)
    (hm : ∀ y ∈ m, p y) : (l ++ x :: m).rdropWhile p = l ++ [x] := by
  induction m using List.reverseRecOn with
  | nil => rw [List.rdropWhile_concat, if_neg (by simp [hx])]
  | append_singleton m y ih =>
      rw [List.forall_mem_append, List.forall_mem_singleton] at hm
      rw [← List.cons_append, ← List.append_assoc, List.rdropWhile_concat, if_pos hm.2, ih hm.1]

theorem not_of_getLast?_rdropWhile (h : (l.rdropWhile p).getLast? = some x) : p x = false := by
  have hne : l.rdropWhile p ≠ [] := by
    intro hnil
    rw [hnil] at h
    cases h
  have hlast := List.rdropWhile_last_not p l hne
  rw [List.getLast?_eq_some_getLast hne] at h
  rw [Option.some.inj h] at hlast
  simpa using hlast

theorem not_of_head?_trimmed (h : ((l.dropWhile p).rdropWhile p).head? = some x) :
    p x = false := by
  obtain ⟨rest, hrest⟩ := List.head?_eq_some_iff.1 h
  obtain ⟨more, hmore⟩ := List.rdropWhile_prefix p (l.dropWhile p)
  rw [hrest, List.cons_append] at hmore
  have hhead := List.head_dropWhile_not p (l := l) (hmore ▸ List.cons_ne_nil x _)
  simpa [← hmore] using hhead

end

/-! ## Blank texts -/

theorem words_eq_nil_iff {s : List Char} : Text.words s = [] ↔ ∀ c ∈ s, isBlank c := by
  constructor
  · intro h c hc
    by_contra hblank
    have hkept := (piecewise_filter (!isBlank ·) (by simp)).words s
    rw [h, List.flatMap_nil] at hkept
    exact List.not_mem_nil (hkept ▸ List.mem_filter.2 ⟨hc, by simpa using hblank⟩)
  · exact piecewise_words.blanks

def IsBlankLine (line : List Char) : Bool := (Text.words line).isEmpty

theorem isBlankLine_iff {line : List Char} : IsBlankLine line ↔ ∀ c ∈ line, isBlank c := by
  rw [IsBlankLine, List.isEmpty_iff, words_eq_nil_iff]

theorem isBlankLine_of_mem_splitLines {s line : List Char} (h : ∀ c ∈ s, isBlank c)
    (hline : line ∈ Text.splitLines s) : IsBlankLine line := by
  have hwords := piecewise_words.splitLines s
  rw [words_eq_nil_iff.2 h, List.flatMap_eq_nil_iff] at hwords
  exact List.isEmpty_iff.2 (hwords line hline)

/-- The lines of a text from the first to the last one that is not blank. -/
def innerLines (s : List Char) : List (List Char) :=
  ((Text.lines s).dropWhile IsBlankLine).rdropWhile IsBlankLine

/-! ## Trimmed texts -/

section

variable {s t before after line : List Char} {c : Char}

structure Trimmed (s : List Char) : Prop where
  head : ∀ c, s.head? = some c → isBlank c = false
  last : ∀ c, s.getLast? = some c → isBlank c = false

theorem trimmed_trim (s : List Char) : Trimmed (Text.trim s) where
  head _ h := not_of_head?_trimmed (l := s) h
  last _ h := not_of_getLast?_rdropWhile (l := s.dropWhile isBlank) h

theorem Trimmed.trim_eq (h : Trimmed s) : Text.trim s = s := by
  have hdrop : s.dropWhile isBlank = s := by
    rw [List.dropWhile_eq_self_iff]
    intro hpos
    simpa using h.head s[0] (List.head?_eq_getElem? ▸ List.getElem?_eq_getElem hpos)
  have hend : s.rdropWhile isBlank = s := by
    rw [List.rdropWhile_eq_self_iff]
    intro hne
    simpa using h.last _ (List.getLast?_eq_some_getLast hne)
  rw [Text.trim, hdrop]
  exact hend

/-- A text is its trimmed form between blanks. -/
theorem exists_eq_append_trim (s : List Char) : ∃ before after, (∀ c ∈ before, isBlank c) ∧
    (∀ c ∈ after, isBlank c) ∧ s = before ++ (Text.trim s ++ after) := by
  refine ⟨s.takeWhile isBlank, ((s.dropWhile isBlank).reverse.takeWhile isBlank).reverse,
    fun c hc => List.mem_takeWhile_imp hc,
    fun c hc => List.mem_takeWhile_imp (List.mem_reverse.1 hc), ?_⟩
  rw [Text.trim, Text.trimEnd, ← List.reverse_append, List.takeWhile_append_dropWhile,
    List.reverse_reverse, List.takeWhile_append_dropWhile]

/-! ## Line breaks -/

/-- Nothing is unified across two texts unless a carriage return meets a line feed there. -/
theorem unifyBreaks_append (h : s.getLast? = some '\r' → t.head? ≠ some '\n') :
    Text.unifyBreaks (s ++ t) = Text.unifyBreaks s ++ Text.unifyBreaks t := by
  fun_induction Text.unifyBreaks s with
  | case1 => rfl
  | case2 c =>
      cases t with
      | nil => rfl
      | cons d t =>
          have hnot : ¬ (c = '\r' ∧ d = '\n') := by
            rintro ⟨rfl, rfl⟩
            exact h rfl rfl
          rw [List.singleton_append, Text.unifyBreaks, if_neg hnot]
          rfl
  | case3 c d s hbreak ih =>
      have hlast : (c :: d :: s).getLast? = (d :: s).getLast? := List.getLast?_cons_cons
      rw [List.cons_append, List.cons_append, Text.unifyBreaks, if_pos hbreak, ← List.cons_append,
        ih (hlast ▸ h)]
  | case4 c d s hbreak ih =>
      have hlast : (c :: d :: s).getLast? = (d :: s).getLast? := List.getLast?_cons_cons
      rw [List.cons_append, List.cons_append, Text.unifyBreaks, if_neg hbreak, ← List.cons_append,
        ih (hlast ▸ h), List.cons_append]

theorem ne_of_not_isBlank (h : isBlank c = false) : c ≠ '\r' ∧ c ≠ '\n' := by
  constructor <;> rintro rfl <;> exact absurd h (by decide)

theorem unifyBreaks_ne_nil (h : s ≠ []) : Text.unifyBreaks s ≠ [] := by
  fun_induction Text.unifyBreaks s with
  | case1 => exact absurd rfl h
  | case2 c => exact List.cons_ne_nil c []
  | case3 c d s _ ih => exact ih (List.cons_ne_nil d s)
  | case4 c d s _ ih => exact List.cons_ne_nil c _

theorem Trimmed.unifyBreaks_between (h : Trimmed s) (hne : s ≠ []) (before after : List Char) :
    Text.unifyBreaks (before ++ (s ++ after)) =
      Text.unifyBreaks before ++ (Text.unifyBreaks s ++ Text.unifyBreaks after) := by
  rw [unifyBreaks_append, unifyBreaks_append]
  · exact fun hlast => absurd rfl (ne_of_not_isBlank (h.last _ hlast)).1
  · rw [List.head?_append_of_ne_nil _ hne]
    exact fun _ hhead => absurd rfl (ne_of_not_isBlank (h.head _ hhead)).2

theorem Trimmed.unifyBreaks (h : Trimmed s) : Trimmed (Text.unifyBreaks s) where
  head := by
    intro c hc
    cases s with
    | nil => cases hc
    | cons d s =>
        have hd := h.head d rfl
        rw [← List.singleton_append, unifyBreaks_append] at hc
        · obtain rfl := Option.some.inj hc
          exact hd
        · exact fun hlast => absurd (Option.some.inj hlast) (ne_of_not_isBlank hd).1
  last := by
    intro c hc
    cases s using List.reverseRecOn with
    | nil => cases hc
    | append_singleton s d =>
        have hd := h.last d List.getLast?_concat
        rw [unifyBreaks_append] at hc
        · obtain rfl := Option.some.inj (List.getLast?_concat.symm.trans hc)
          exact hd
        · exact fun _ hhead => absurd (Option.some.inj hhead) (ne_of_not_isBlank hd).2

theorem unifyBreaks_eq_self (h : '\r' ∉ s) : Text.unifyBreaks s = s := by
  fun_induction Text.unifyBreaks s with
  | case1 => rfl
  | case2 c => rfl
  | case3 c d s hbreak ih => exact absurd (hbreak.1 ▸ List.mem_cons_self) h
  | case4 c d s hbreak ih => rw [ih (List.not_mem_of_not_mem_cons h)]

theorem isBlank_of_mem_unifyBreaks (h : ∀ c ∈ s, isBlank c) (hc : c ∈ Text.unifyBreaks s) :
    isBlank c := by
  have hwords := piecewise_words.unifyBreaks s
  rw [words_eq_nil_iff.2 h] at hwords
  exact words_eq_nil_iff.1 hwords c hc

/-! ## Split lines -/

theorem splitLines_cons_of_not_break (h : isLineBreak c = false) (s : List Char) :
    ∃ line rest, Text.splitLines (c :: s) = (c :: line) :: rest ∧
      (Text.splitLines s = line :: rest ∨ Text.splitLines s = [] ∧ line = [] ∧ rest = []) := by
  rw [Text.splitLines, if_neg (by simp [h])]
  cases Text.splitLines s with
  | nil => exact ⟨[], [], rfl, .inr ⟨rfl, rfl, rfl⟩⟩
  | cons line rest => exact ⟨line, rest, rfl, .inl rfl⟩

theorem isLineBreak_eq_false_of_not_isBlank (h : isBlank c = false) : isLineBreak c = false := by
  by_contra hbreak
  rw [Text.isBlank_of_isLineBreak (by simpa using hbreak)] at h
  cases h

theorem map_words_splitLines_blanks_append (h : ∀ c ∈ before, isBlank c) (s : List Char) :
    ((Text.splitLines (before ++ s)).map Text.words).dropWhile List.isEmpty =
      ((Text.splitLines s).map Text.words).dropWhile List.isEmpty := by
  induction before with
  | nil => rfl
  | cons c before ih =>
      obtain ⟨hc, hbefore⟩ := List.forall_mem_cons.1 h
      rw [← ih hbefore, List.cons_append]
      cases hbreak : isLineBreak c with
      | true => rw [Text.splitLines, if_pos hbreak]; rfl
      | false =>
          obtain ⟨line, rest, hsplit, hlines | ⟨hlines, rfl, rfl⟩⟩ :=
            splitLines_cons_of_not_break hbreak (before ++ s)
          · rw [hsplit, hlines, List.map_cons, List.map_cons, piecewise_words.cons_blank hc]
          · rw [hsplit, hlines, List.map_singleton, piecewise_words.cons_blank hc]
            rfl

theorem exists_splitLines_append_blanks (s : List Char) (hc : isBlank c = false)
    (hafter : ∀ c ∈ after, isBlank c) : ∃ first last blanks rest,
      Text.splitLines (s ++ [c]) = first ++ [last] ∧
      Text.splitLines (s ++ c :: after) = first ++ (last ++ blanks) :: rest ∧
      IsBlankLine last = false ∧ (∀ c ∈ blanks, isBlank c) ∧ ∀ line ∈ rest, IsBlankLine line := by
  have hnotBlank {line : List Char} (hmem : c ∈ line) : IsBlankLine line = false := by
    rw [Bool.eq_false_iff, Ne, isBlankLine_iff]
    exact fun hall => Bool.eq_false_iff.1 hc (hall c hmem)
  induction s with
  | nil =>
      have hbreak := isLineBreak_eq_false_of_not_isBlank hc
      obtain ⟨line, rest, hsplit, hlines⟩ := splitLines_cons_of_not_break hbreak after
      have hblank : ∀ l ∈ line :: rest, IsBlankLine l := by
        rcases hlines with hlines | ⟨-, rfl, rfl⟩
        · exact fun l hl => isBlankLine_of_mem_splitLines hafter (hlines ▸ hl)
        · simp [isBlankLine_iff]
      obtain ⟨hline, hrest⟩ := List.forall_mem_cons.1 hblank
      refine ⟨[], [c], line, rest, ?_, hsplit, hnotBlank List.mem_cons_self,
        isBlankLine_iff.1 hline, hrest⟩
      rw [List.nil_append, Text.splitLines, if_neg (by simp [hbreak])]
      rfl
  | cons d s ih =>
      obtain ⟨first, last, blanks, rest, hsplit, hsplit', hlast, hblanks, hrest⟩ := ih
      rw [List.cons_append, List.cons_append, Text.splitLines, Text.splitLines, hsplit, hsplit']
      cases isLineBreak d with
      | true => exact ⟨[] :: first, last, blanks, rest, rfl, rfl, hlast, hblanks, hrest⟩
      | false =>
          cases first with
          | nil =>
              refine ⟨[], d :: last, blanks, rest, rfl, rfl, ?_, hblanks, hrest⟩
              rw [Bool.eq_false_iff, Ne, isBlankLine_iff] at hlast ⊢
              exact fun hall => hlast (List.forall_mem_cons.1 hall).2
          | cons line first =>
              exact ⟨(d :: line) :: first, last, blanks, rest, rfl, rfl, hlast, hblanks, hrest⟩

theorem exists_splitLines_eq_cons (hc : isBlank c = false) (s : List Char) :
    ∃ line rest, Text.splitLines (c :: s) = line :: rest ∧ IsBlankLine line = false := by
  obtain ⟨line, rest, hsplit, -⟩ :=
    splitLines_cons_of_not_break (isLineBreak_eq_false_of_not_isBlank hc) s
  refine ⟨c :: line, rest, hsplit, ?_⟩
  rw [Bool.eq_false_iff, Ne, isBlankLine_iff]
  exact fun hall => Bool.eq_false_iff.1 hc (hall c List.mem_cons_self)

theorem splitLines_of_unbroken (h : ∀ c ∈ line, isLineBreak c = false) (hne : line ≠ []) :
    Text.splitLines line = [line] := by
  induction line with
  | nil => exact absurd rfl hne
  | cons c line ih =>
      obtain ⟨hc, hline⟩ := List.forall_mem_cons.1 h
      rw [Text.splitLines, if_neg (by simp [hc])]
      by_cases hnil : line = []
      · rw [hnil]
        rfl
      · rw [ih hline hnil]

theorem splitLines_append_break (h : ∀ c ∈ line, isLineBreak c = false) (s : List Char) :
    Text.splitLines (line ++ '\n' :: s) = line :: Text.splitLines s := by
  induction line with
  | nil => rw [List.nil_append, Text.splitLines, if_pos (by decide)]
  | cons c line ih =>
      obtain ⟨hc, hline⟩ := List.forall_mem_cons.1 h
      rw [List.cons_append, Text.splitLines, if_neg (by simp [hc]), ih hline]

/-- Lines with line breaks between them are those of the text, unless the last one is empty. -/
theorem splitLines_intercalate {ls : List (List Char)}
    (h : ∀ line ∈ ls, ∀ c ∈ line, isLineBreak c = false) (hlast : ls.getLast? ≠ some []) :
    Text.splitLines (['\n'].intercalate ls) = ls := by
  induction ls with
  | nil => rfl
  | cons line ls ih =>
      obtain ⟨hline, hls⟩ := List.forall_mem_cons.1 h
      cases ls with
      | nil =>
          rw [List.intercalate_singleton]
          exact splitLines_of_unbroken hline fun hnil => hlast (congrArg (some ·) hnil)
      | cons next ls =>
          rw [List.getLast?_cons_cons] at hlast
          rw [List.intercalate_cons_cons, List.append_assoc, List.singleton_append,
            splitLines_append_break hline, ih hls hlast]

/-! ## Inner lines -/

theorem map_words_innerLines (s : List Char) : (innerLines s).map Text.words =
    (((Text.lines s).map Text.words).dropWhile List.isEmpty).rdropWhile List.isEmpty := by
  have hdrop (ls : List (List Char)) : (ls.dropWhile IsBlankLine).map Text.words =
      (ls.map Text.words).dropWhile List.isEmpty := List.dropWhile_map.symm
  rw [innerLines, List.rdropWhile, List.rdropWhile, List.map_reverse, hdrop, List.map_reverse,
    hdrop]

/-- Blanks around a text leave the words of its lines. -/
theorem map_words_splitLines_between (h : Trimmed s) (hne : s ≠ [])
    (hbefore : ∀ c ∈ before, isBlank c) (hafter : ∀ c ∈ after, isBlank c) :
    (((Text.splitLines (before ++ (s ++ after))).map Text.words).dropWhile
        List.isEmpty).rdropWhile List.isEmpty = (Text.splitLines s).map Text.words := by
  have hstart : ((Text.splitLines (s ++ after)).map Text.words).dropWhile List.isEmpty =
      (Text.splitLines (s ++ after)).map Text.words := by
    obtain ⟨c, s, rfl⟩ := List.exists_cons_of_ne_nil hne
    obtain ⟨line, rest, hlines, hline⟩ := exists_splitLines_eq_cons (h.head c rfl) (s ++ after)
    rw [List.cons_append, hlines, List.map_cons]
    exact List.dropWhile_cons_of_neg (Bool.eq_false_iff.1 hline)
  rw [map_words_splitLines_blanks_append hbefore, hstart]
  cases s using List.reverseRecOn with
  | nil => exact absurd rfl hne
  | append_singleton s c =>
      obtain ⟨first, last, blanks, rest, hsplit, hsplit', hlast, hblanks, hrest⟩ :=
        exists_splitLines_append_blanks s (h.last c List.getLast?_concat) hafter
      rw [← List.append_cons, hsplit, hsplit', List.map_append, List.map_cons,
        piecewise_words.append_blanks hblanks,
        rdropWhile_append (p := List.isEmpty) hlast (List.forall_mem_map.2 hrest), List.map_append,
        List.map_singleton]

/-- The lines of a trimmed text have the words of the inner lines of the text. -/
theorem map_words_lines_trim (s : List Char) :
    (Text.lines (Text.trim s)).map Text.words = (innerLines s).map Text.words := by
  obtain ⟨before, after, hbefore, hafter, hs⟩ := exists_eq_append_trim s
  have htrimmed := trimmed_trim s
  rw [map_words_innerLines]
  by_cases hne : Text.trim s = []
  · have hblank : ∀ c ∈ s, isBlank c := by
      rw [hs, hne, List.nil_append]
      exact List.forall_mem_append.2 ⟨hbefore, hafter⟩
    have hdrop : ((Text.lines s).map Text.words).dropWhile List.isEmpty = [] := by
      rw [List.dropWhile_eq_nil_iff, List.forall_mem_map]
      exact fun line => isBlankLine_of_mem_splitLines fun c => isBlank_of_mem_unifyBreaks hblank
    rw [hne, hdrop]
    rfl
  · conv_rhs => rw [hs]
    rw [Text.lines, Text.lines, htrimmed.unifyBreaks_between hne,
      map_words_splitLines_between htrimmed.unifyBreaks (unifyBreaks_ne_nil hne)
        (fun c => isBlank_of_mem_unifyBreaks hbefore) fun c => isBlank_of_mem_unifyBreaks hafter]

theorem not_isBlankLine_head (h : (innerLines s).head? = some line) : IsBlankLine line = false :=
  not_of_head?_trimmed (l := Text.lines s) h

theorem not_isBlankLine_getLast (h : (innerLines s).getLast? = some line) :
    IsBlankLine line = false := not_of_getLast?_rdropWhile h

end

end WireBindings.Documentation
