import Mathlib.Data.List.TakeWhile
import WireBindings.Documentation
import WireBindings.Proofs.Text

/-!
# What wrapping keeps

Wrapping moves the words of a text and nothing else. Whatever is read off a text piece by piece,
with a blank between two pieces, is therefore read off its wrapped lines as well.
-/

namespace WireBindings.Documentation

open Text (isBlank)

/-- The lines of a text are what its line breaks cut, but for an empty piece at the end. -/
theorem exists_splitOnP_isLineBreak (s : List Char) : ∃ rest, (∀ piece ∈ rest, piece = []) ∧
    s.splitOnP Text.isLineBreak = Text.splitLines s ++ rest := by
  induction s with
  | nil => exact ⟨[[]], by simp, rfl⟩
  | cons c s ih =>
      obtain ⟨rest, hrest, hs⟩ := ih
      rw [List.splitOnP_cons_eq_if_modifyHead, Text.splitLines, hs]
      split
      · exact ⟨rest, hrest, rfl⟩
      · cases hlines : Text.splitLines s with
        | cons line lines => exact ⟨rest, hrest, rfl⟩
        | nil =>
            cases rest with
            | nil => exact absurd (hlines ▸ hs) (List.splitOnP_ne_nil _ _)
            | cons piece rest =>
                obtain ⟨rfl, hempty⟩ := List.forall_mem_cons.1 hrest
                exact ⟨rest, hempty, rfl⟩

/-- A list that is read off a text in pieces that blanks separate. -/
structure Piecewise {β : Type} (f : List Char → List β) : Prop where
  nil : f [] = []
  append_blank : ∀ before after {c : Char}, isBlank c → f (before ++ c :: after) =
    f before ++ f after

namespace Piecewise

variable {β : Type} {f : List Char → List β}

theorem cons_blank (hf : Piecewise f) {c : Char} (hc : isBlank c) (s : List Char) :
    f (c :: s) = f s := by
  have h := hf.append_blank [] s hc
  rwa [hf.nil, List.nil_append, List.nil_append] at h

theorem blanks_append (hf : Piecewise f) {blanks : List Char} (h : ∀ c ∈ blanks, isBlank c)
    (s : List Char) : f (blanks ++ s) = f s := by
  induction blanks with
  | nil => rfl
  | cons c blanks ih =>
      obtain ⟨hc, hblanks⟩ := List.forall_mem_cons.1 h
      rw [List.cons_append, hf.cons_blank hc, ih hblanks]

theorem blanks (hf : Piecewise f) {blanks : List Char} (h : ∀ c ∈ blanks, isBlank c) :
    f blanks = [] := by
  have hnil := hf.blanks_append h []
  rwa [List.append_nil, hf.nil] at hnil

theorem append_blanks (hf : Piecewise f) {blanks : List Char} (h : ∀ c ∈ blanks, isBlank c)
    (s : List Char) : f (s ++ blanks) = f s := by
  cases blanks with
  | nil => rw [List.append_nil]
  | cons c blanks =>
      obtain ⟨hc, hblanks⟩ := List.forall_mem_cons.1 h
      rw [hf.append_blank s blanks hc, hf.blanks hblanks, List.append_nil]

theorem trimEnd (hf : Piecewise f) (s : List Char) : f (Text.trimEnd s) = f s := by
  have hblanks : ∀ c ∈ (s.reverse.takeWhile isBlank).reverse, isBlank c := fun c hc =>
    List.mem_takeWhile_imp (List.mem_reverse.1 hc)
  calc f (Text.trimEnd s)
      = f (Text.trimEnd s ++ (s.reverse.takeWhile isBlank).reverse) :=
        (hf.append_blanks hblanks _).symm
    _ = f s := by
        rw [Text.trimEnd, ← List.reverse_append, List.takeWhile_append_dropWhile,
          List.reverse_reverse]

theorem trim (hf : Piecewise f) (s : List Char) : f (Text.trim s) = f s := by
  have hblanks : ∀ c ∈ s.takeWhile isBlank, isBlank c := fun c hc => List.mem_takeWhile_imp hc
  calc f (Text.trim s)
      = f (s.dropWhile isBlank) := hf.trimEnd _
    _ = f (s.takeWhile isBlank ++ s.dropWhile isBlank) := (hf.blanks_append hblanks _).symm
    _ = f s := by rw [List.takeWhile_append_dropWhile]

/-! ## Words and lines -/

/-- Cutting a text at blanks of some kind cuts no piece. -/
theorem splitOnP (hf : Piecewise f) {p : Char → Bool} (hp : ∀ c, p c → isBlank c)
    (s : List Char) : (s.splitOnP p).flatMap f = f s := by
  have hid (pieces : List (List Char)) : pieces.modifyHead ([] ++ ·) = pieces := by
    cases pieces <;> rfl
  -- the piece that is being read has begun with `before`
  have hfrom (before : List Char) :
      ((s.splitOnP p).modifyHead (before ++ ·)).flatMap f = f (before ++ s) := by
    induction s generalizing before with
    | nil => simp [List.splitOnP_nil]
    | cons c s ih =>
        rw [List.splitOnP_cons_eq_if_modifyHead]
        split
        · next hc =>
          have hrest := ih []
          rw [hid, List.nil_append] at hrest
          rw [List.modifyHead_cons, List.append_nil, List.flatMap_cons, hrest,
            hf.append_blank before s (hp c hc)]
        · have hrest := ih (before ++ [c])
          simpa [Function.comp_def] using hrest
  have hwhole := hfrom []
  rwa [hid, List.nil_append] at hwhole

theorem words (hf : Piecewise f) (s : List Char) : (Text.words s).flatMap f = f s := by
  rw [← hf.splitOnP (p := isBlank) (fun _ hc => hc) s, Text.words]
  induction s.splitOnP isBlank with
  | nil => rfl
  | cons piece pieces ih =>
      cases piece with
      | nil => simpa [hf.nil] using ih
      | cons c piece => simpa using ih

theorem splitLines (hf : Piecewise f) (s : List Char) : (Text.splitLines s).flatMap f = f s := by
  obtain ⟨rest, hrest, hs⟩ := exists_splitOnP_isLineBreak s
  have hnil : rest.flatMap f = [] := by
    rw [List.flatMap_eq_nil_iff]
    intro piece hpiece
    rw [hrest piece hpiece, hf.nil]
  rw [← hf.splitOnP (fun _ => Text.isBlank_of_isLineBreak) s, hs, List.flatMap_append, hnil,
    List.append_nil]

theorem unifyBreaks (hf : Piecewise f) (s : List Char) : f (Text.unifyBreaks s) = f s := by
  have hfrom (before : List Char) : f (before ++ Text.unifyBreaks s) = f (before ++ s) := by
    fun_induction Text.unifyBreaks s generalizing before with
    | case1 => rfl
    | case2 c => rfl
    | case3 c d s hbreak ih =>
        obtain ⟨rfl, rfl⟩ := hbreak
        rw [ih, hf.append_blank before s (by decide), hf.append_blank before _ (by decide),
          hf.cons_blank (by decide)]
    | case4 c d s _ ih => simpa using ih (before ++ [c])
  exact hfrom []

theorem fill (hf : Piecewise f) (width : Int) (current : List Char) (ws : List (List Char)) :
    (fill width current ws).flatMap f = f current ++ ws.flatMap f := by
  fun_induction Documentation.fill width current ws with
  | case1 current => simp
  | case2 current w ws hempty ih =>
      obtain rfl := List.isEmpty_iff.1 hempty
      rw [ih, hf.nil, List.nil_append, List.flatMap_cons]
  | case3 current w ws _ _ ih => rw [List.flatMap_cons, ih, List.flatMap_cons]
  | case4 current w ws _ _ ih =>
      rw [ih, hf.append_blank current w (by decide), List.flatMap_cons, List.append_assoc]

theorem wrapChars (hf : Piecewise f) (width : Int) (s : List Char) :
    (wrapChars width s).flatMap f = f s := by
  have hline (line : List Char) :
      (Documentation.fill width [] (Text.words line)).flatMap f = f line := by
    rw [hf.fill, hf.nil, List.nil_append, hf.words]
  unfold Documentation.wrapChars
  rw [List.flatMap_assoc]
  simp only [hline]
  rw [Text.lines, hf.splitLines, hf.unifyBreaks, hf.trim]

theorem wrap (hf : Piecewise f) (s : String) :
    (wrap s).flatMap (fun line => f line.toList) = f s.toList := by
  rw [Documentation.wrap, wrapTo, List.flatMap_map]
  simpa using hf.wrapChars defaultWidth s.toList

theorem intercalate (hf : Piecewise f) {c : Char} {blanks : List Char}
    (h : ∀ x ∈ c :: blanks, isBlank x) (pieces : List (List Char)) :
    f ((c :: blanks).intercalate pieces) = pieces.flatMap f := by
  obtain ⟨hc, hblanks⟩ := List.forall_mem_cons.1 h
  induction pieces with
  | nil => rw [List.intercalate_nil, hf.nil, List.flatMap_nil]
  | cons piece pieces ih =>
      cases pieces with
      | nil => rw [List.intercalate_singleton, List.flatMap_singleton]
      | cons next pieces =>
          rw [List.intercalate_cons_cons, List.append_assoc, List.cons_append,
            hf.append_blank _ _ hc, hf.blanks_append hblanks, ih, ← List.flatMap_cons]

end Piecewise

/-! ## Characters of wrapped lines -/

theorem piecewise_words : Piecewise Text.words where
  nil := rfl
  append_blank before after {c} hc := by
    rw [Text.words, List.splitOnP_append_cons before after hc, List.filter_append]
    rfl

theorem piecewise_filter (p : Char → Bool) (hp : ∀ c, isBlank c → p c = false) :
    Piecewise (List.filter p) where
  nil := rfl
  append_blank before after {c} hc := by
    rw [List.filter_append, List.filter_cons_of_neg (Bool.eq_false_iff.1 (hp c hc))]

theorem isBlank_eq_false_of_mem_words {s w : List Char} (h : w ∈ Text.words s) {c : Char}
    (hc : c ∈ w) : isBlank c = false := (Text.mem_of_mem_splitOnP (List.mem_filter.1 h).1 hc).2

theorem mem_fill {width : Int} {current line : List Char} {ws : List (List Char)}
    (h : line ∈ fill width current ws) {c : Char} (hc : c ∈ line) :
    c = ' ' ∨ ∃ w ∈ current :: ws, c ∈ w := by
  fun_induction Documentation.fill width current ws with
  | case1 current => exact .inr ⟨line, h, hc⟩
  | case2 current w ws _ ih =>
      exact (ih h).imp_right fun ⟨w', hw', hc'⟩ => ⟨w', List.mem_cons_of_mem _ hw', hc'⟩
  | case3 current w ws _ _ ih =>
      obtain rfl | h := List.mem_cons.1 h
      · exact .inr ⟨line, List.mem_cons_self, hc⟩
      · exact (ih h).imp_right fun ⟨w', hw', hc'⟩ => ⟨w', List.mem_cons_of_mem _ hw', hc'⟩
  | case4 current w ws _ _ ih =>
      obtain hspace | ⟨w', hw', hc'⟩ := ih h
      · exact .inl hspace
      obtain rfl | hw' := List.mem_cons.1 hw'
      · obtain hcurrent | hjoined := List.mem_append.1 hc'
        · exact .inr ⟨current, List.mem_cons_self, hcurrent⟩
        · exact (List.mem_cons.1 hjoined).imp_right fun hw => ⟨w, by simp, hw⟩
      · exact .inr ⟨w', by simp [hw'], hc'⟩

/-- Between the words of a line there are spaces, and no other blanks. -/
theorem eq_space_or_mem_of_mem_wrap {s line : String} (h : line ∈ wrap s) {c : Char}
    (hc : c ∈ line.toList) : c = ' ' ∨ c ∈ s.toList ∧ isBlank c = false := by
  by_cases hblank : isBlank c
  · refine .inl ?_
    obtain ⟨chars, hchars, rfl⟩ := List.mem_map.1 h
    obtain ⟨l, -, hfill⟩ := List.mem_flatMap.1 hchars
    rw [String.toList_ofList] at hc
    obtain hspace | ⟨w, hw, hcw⟩ := mem_fill hfill hc
    · exact hspace
    obtain rfl | hw := List.mem_cons.1 hw
    · exact absurd hcw List.not_mem_nil
    · exact absurd hblank (Bool.eq_false_iff.1 (isBlank_eq_false_of_mem_words hw hcw))
  · have hkept := (piecewise_filter (!isBlank ·) (by simp)).wrap s
    have hmem : c ∈ (wrap s).flatMap fun line => line.toList.filter (!isBlank ·) :=
      List.mem_flatMap.2 ⟨line, h, List.mem_filter.2 ⟨hc, by simpa using hblank⟩⟩
    rw [hkept] at hmem
    exact .inr ⟨(List.mem_filter.1 hmem).1, Bool.eq_false_iff.2 hblank⟩

end WireBindings.Documentation
