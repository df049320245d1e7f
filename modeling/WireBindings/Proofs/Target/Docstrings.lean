import Mathlib.Data.List.ReduceOption
import WireBindings.Proofs.Documentation
import WireBindings.Proofs.Target.PythonLiterals

/-!
# Descriptions in docstrings

A description is escaped before it is wrapped. No blank stands inside an escape, so wrapping leaves
the escapes whole, and the lines between three quotes are read back as the words of the description.
-/

namespace WireBindings.Target.Python

open Documentation (Piecewise)
open Java (backslashes)

/-! ## Escaped text -/

def IsGuarded (c : Char) : Prop := c = '\\' ∨ c = '"'

instance (c : Char) : Decidable (IsGuarded c) := inferInstanceAs (Decidable (_ ∨ _))

/-- Complete escapes, and characters that are neither backslashes nor quotes. -/
inductive Paired : List Char → Prop
  | nil : Paired []
  | plain {c : Char} {s : List Char} (hc : ¬ IsGuarded c) (hs : Paired s) : Paired (c :: s)
  | pair {c : Char} {s : List Char} (hc : IsGuarded c) (hs : Paired s) : Paired ('\\' :: c :: s)

/-- The characters that a text stands for, and nothing in the place of a backslash or a quote that
stands outside of an escape. -/
def readings : List Char → List (Option Char)
  | [] => []
  | [c] => [if IsGuarded c then none else some c]
  | c :: d :: s =>
    if c = '\\' ∧ IsGuarded d then some d :: readings s
    else (if IsGuarded c then none else some c) :: readings (d :: s)

def unescape (s : List Char) : List Char := (readings s).reduceOption

def strays (s : List Char) : List (Option Char) := (readings s).filter Option.isNone

theorem readings_cons {c : Char} (hc : ¬ IsGuarded c) (s : List Char) :
    readings (c :: s) = some c :: readings s := by
  cases s with
  | nil => exact congrArg ([·]) (if_neg hc)
  | cons d s => rw [readings, if_neg fun h => hc (.inl h.1), if_neg hc]

theorem readings_pair {c : Char} (hc : IsGuarded c) (s : List Char) :
    readings ('\\' :: c :: s) = some c :: readings s := by
  rw [readings, if_pos ⟨rfl, hc⟩]

theorem readings_append_cons (before after : List Char) {c : Char} (hc : ¬ IsGuarded c) :
    readings (before ++ c :: after) = readings before ++ some c :: readings after := by
  fun_induction readings before with
  | case1 => exact readings_cons hc after
  | case2 x =>
      rw [List.singleton_append, readings, if_neg fun h => hc h.2, readings_cons hc]
      rfl
  | case3 x d s h ih => rw [List.cons_append, List.cons_append, readings, if_pos h, ih]; rfl
  | case4 x d s h ih =>
      rw [List.cons_append] at ih ⊢
      rw [List.cons_append, readings, if_neg h, ih]
      rfl

theorem not_isGuarded_of_isBlank {c : Char} (hc : Text.isBlank c) : ¬ IsGuarded c := by
  rintro (rfl | rfl)
  all_goals exact absurd hc (by decide)

theorem piecewise_strays : Piecewise strays where
  nil := rfl
  append_blank before after {c} hc := by
    rw [strays, readings_append_cons before after (not_isGuarded_of_isBlank hc),
      List.filter_append, List.filter_cons_of_neg (by simp)]
    rfl

theorem piecewise_words_unescape : Piecewise fun s => Text.words (unescape s) where
  nil := rfl
  append_blank before after {c} hc := by
    rw [unescape, readings_append_cons before after (not_isGuarded_of_isBlank hc),
      List.reduceOption_append, List.reduceOption_cons_of_some,
      Documentation.piecewise_words.append_blank _ _ hc]
    rfl

theorem readings_flatMap_docChar (s : List Char) : readings (s.flatMap docChar) = s.map some := by
  induction s with
  | nil => rfl
  | cons c s ih =>
      by_cases hc : IsGuarded c
      · have hwritten : docChar c = ['\\', c] := if_pos hc
        rw [List.flatMap_cons, hwritten, List.cons_append, List.singleton_append, readings_pair hc,
          ih, List.map_cons]
      · have hwritten : docChar c = [c] := if_neg hc
        rw [List.flatMap_cons, hwritten, List.singleton_append, readings_cons hc, ih, List.map_cons]

theorem unescape_flatMap_docChar (s : List Char) : unescape (s.flatMap docChar) = s := by
  rw [unescape, readings_flatMap_docChar, Text.reduceOption_map_some]

theorem strays_flatMap_docChar (s : List Char) : strays (s.flatMap docChar) = [] := by
  rw [strays, readings_flatMap_docChar, List.filter_eq_nil_iff]
  intro x hx
  obtain ⟨c, -, rfl⟩ := List.mem_map.1 hx
  exact Bool.false_ne_true

theorem paired_of_strays {s : List Char} (h : strays s = []) : Paired s := by
  have hnone : none ∉ readings s := fun hmem =>
    List.filter_eq_nil_iff.1 h none hmem rfl
  clear h
  have hplain {c : Char} {rest : List (Option Char)}
      (h : none ∉ (if IsGuarded c then none else some c) :: rest) :
      ¬ IsGuarded c ∧ none ∉ rest := by
    rw [List.mem_cons, not_or] at h
    exact ⟨fun hc => h.1 (if_pos hc).symm, h.2⟩
  fun_induction readings s with
  | case1 => exact .nil
  | case2 c => exact .plain (hplain hnone).1 .nil
  | case3 c d s hc ih =>
      obtain ⟨rfl, hd⟩ := hc
      exact .pair hd (ih fun hmem => hnone (List.mem_cons_of_mem _ hmem))
  | case4 c d s hc ih => exact .plain (hplain hnone).1 (ih (hplain hnone).2)

/-! ## Backslashes before quotes -/

theorem backslashes_append (s t : List Char) : backslashes (s ++ t) =
    if t.all (· = '\\') then backslashes s + t.length else backslashes t := by
  induction t using List.reverseRecOn with
  | nil => rw [List.append_nil]; rfl
  | append_singleton t c ih =>
      rw [← List.append_assoc, Java.backslashes_concat, Java.backslashes_concat, ih,
        List.all_append]
      by_cases hc : c = '\\'
      · subst hc
        have hlast : ['\\'].all (· = '\\') = true := rfl
        rw [if_pos rfl, if_pos rfl, hlast, Bool.and_true, List.length_append]
        split <;> rfl
      · have hlast : [c].all (· = '\\') = false := by simpa using hc
        rw [if_neg hc, if_neg hc, hlast, Bool.and_false]
        rfl

theorem backslashes_cons {c : Char} (hc : c ≠ '\\') (s : List Char) :
    backslashes (c :: s) = backslashes s := by
  have hnil := backslashes_append [] s
  have hsingle : backslashes [c] = 0 := by
    rw [← List.nil_append [c], Java.backslashes_concat, if_neg hc]
  rw [← List.singleton_append, backslashes_append, hsingle]
  exact hnil.symm

theorem odd_backslashes_pair {c : Char} (hc : IsGuarded c) (s : List Char) :
    Odd (backslashes ('\\' :: c :: s)) ↔ Odd (backslashes s) := by
  have hnil := backslashes_append [] s
  have hpair : backslashes ['\\', c] = 2 ∨ backslashes ['\\', c] = 0 := by
    obtain rfl | rfl := hc
    · exact .inl (by decide)
    · exact .inr (by decide)
  have hsplit := backslashes_append ['\\', c] s
  rw [List.nil_append, Java.backslashes_nil] at hnil
  rw [List.cons_append, List.singleton_append] at hsplit
  rw [hsplit, hnil]
  split
  · obtain h | h := hpair
    · rw [h, Nat.zero_add, Nat.add_comm, Nat.odd_add]
      exact iff_true_right (by decide)
    · rw [h]
  · exact Iff.rfl

namespace Paired

theorem even_backslashes {s : List Char} (h : Paired s) : Even (backslashes s) := by
  induction h with
  | nil => exact Even.zero
  | plain hc _ ih =>
      rwa [backslashes_cons fun heq => hc (.inl heq)]
  | pair hc _ ih =>
      rwa [← Nat.not_odd_iff_even, odd_backslashes_pair hc, Nat.not_odd_iff_even]

/-- Every quote is escaped. -/
theorem odd_backslashes {s : List Char} (h : Paired s) {before after : List Char}
    (hs : s = before ++ '"' :: after) : Odd (backslashes before) := by
  -- the escapes are followed from the left, where each keeps the parity
  induction h generalizing before with
  | nil => simp at hs
  | @plain c s hc _ ih =>
      cases before with
      | nil => exact absurd (.inr (List.head_eq_of_cons_eq hs)) hc
      | cons x before =>
          obtain ⟨rfl, hrest⟩ := List.cons.inj hs
          rw [backslashes_cons fun heq => hc (.inl heq)]
          exact ih hrest
  | @pair c s hc _ ih =>
      cases before with
      | nil => exact absurd (List.head_eq_of_cons_eq hs) (by decide)
      | cons x before =>
          obtain ⟨hx, hrest⟩ := List.cons.inj hs
          cases before with
          | nil =>
              rw [← hx]
              decide
          | cons y before =>
              obtain ⟨rfl, hafter⟩ := List.cons.inj hrest
              rw [← hx, odd_backslashes_pair hc]
              exact ih hafter

theorem reads {s : List Char} (h : Paired s) (hs : ∀ c ∈ s, c ≠ '\x00' ∧ c ≠ '\r') :
    Reads "\"\"\"".toList s ((unescape s).map Char.toNat) := by
  induction h with
  | nil => exact .nil
  | @plain c s hc _ ih =>
      obtain ⟨⟨hnull, hreturn⟩, hs⟩ := List.forall_mem_cons.1 hs
      have hplain : Reads "\"\"\"".toList [c] [c.toNat] := by
        refine .plain rfl ?_ fun _ => by decide
        simp only [List.mem_cons, List.not_mem_nil, or_false, not_or]
        exact ⟨fun h => hc (.inr h), fun h => hc (.inl h), hnull, hreturn⟩
      rw [unescape, readings_cons hc]
      exact hplain.append (ih hs)
  | @pair c s hc _ ih =>
      have hletter : escapeLetters.lookup c = some c.toNat := by
        obtain rfl | rfl := hc <;> decide
      rw [unescape, readings_pair hc]
      exact (Reads.letter rfl hletter).append
        (ih fun x hx => hs x (List.mem_cons_of_mem _ (List.mem_cons_of_mem _ hx)))

end Paired

/-! ## Docstrings -/

section

variable {description : String}

/-- What is read off the lines is read off the escaped description. -/
theorem flatMap_docLines {β : Type} {f : List Char → List β} (hf : Piecewise f)
    (description : String) : (docLines description).flatMap (fun line => f line.toList) =
      f (description.toList.flatMap docChar) := by
  simp only [docLines]
  split
  · next hvoid =>
    rw [Documentation.isVoid, String.toList_ofList, List.all_eq_true] at hvoid
    exact (hf.blanks hvoid).symm
  · have hwrap := hf.wrap (String.ofList (description.toList.flatMap docChar))
    rwa [String.toList_ofList] at hwrap

theorem eq_space_or_mem_of_mem_docLines {line : String} (h : line ∈ docLines description)
    {c : Char} (hc : c ∈ line.toList) :
    c = ' ' ∨ c = '\\' ∨ c ∈ description.toList ∧ Text.isBlank c = false := by
  simp only [docLines] at h
  split at h
  · exact absurd h List.not_mem_nil
  obtain rfl | ⟨hmem, hblank⟩ := Documentation.eq_space_or_mem_of_mem_wrap h hc
  · exact .inl rfl
  rw [String.toList_ofList] at hmem
  obtain ⟨x, hx, hmem⟩ := List.mem_flatMap.1 hmem
  rw [docChar] at hmem
  split at hmem
  · obtain rfl | hmem := List.mem_cons.1 hmem
    · exact .inr (.inl rfl)
    · rw [List.mem_singleton.1 hmem] at hblank ⊢
      exact .inr (.inr ⟨hx, hblank⟩)
  · rw [List.mem_singleton.1 hmem] at hblank ⊢
    exact .inr (.inr ⟨hx, hblank⟩)

theorem isSource_of_mem_docLines (h : '\x00' ∉ description.toList) {line : String}
    (hline : line ∈ docLines description) :
    ∀ c ∈ line.toList, c ≠ '\x00' ∧ c ≠ '\r' := by
  intro c hc
  obtain rfl | rfl | ⟨hmem, hkept⟩ := eq_space_or_mem_of_mem_docLines hline hc
  · decide
  · decide
  · constructor
    · rintro rfl
      exact h hmem
    · rintro rfl
      exact absurd hkept (by decide)

theorem paired_of_mem_docLines {line : String} (h : line ∈ docLines description) :
    Paired line.toList := by
  have hstrays := flatMap_docLines piecewise_strays description
  rw [strays_flatMap_docChar, List.flatMap_eq_nil_iff] at hstrays
  exact paired_of_strays (hstrays line h)

def spacedLines (before separator after : String) (lines : List String) : String :=
  before ++ separator.intercalate lines ++ after

/-- Space between the lines adds nothing to what is read off them. -/
theorem spacedLines_docLines {β : Type} {f : List Char → List β} (hf : Piecewise f)
    {before separator after : String} (hseparator : separator ≠ "")
    (hspace : ∀ c ∈ (before ++ separator ++ after).toList, Text.isBlank c) (description : String) :
    f (spacedLines before separator after (docLines description)).toList =
      f (description.toList.flatMap docChar) := by
  simp only [String.toList_append, List.forall_mem_append] at hspace
  obtain ⟨⟨hbefore, hbetween⟩, hafter⟩ := hspace
  obtain ⟨c, blanks, hblanks⟩ :=
    List.exists_cons_of_ne_nil (mt String.toList_eq_nil_iff.1 hseparator)
  rw [hblanks] at hbetween
  rw [spacedLines, String.toList_append, String.toList_append, hf.append_blanks hafter,
    hf.blanks_append hbefore, String.toList_intercalate, hblanks, hf.intercalate hbetween,
    List.flatMap_map, flatMap_docLines hf]

theorem forall_mem_spacedLines {p : Char → Prop} {before separator after : String}
    {lines : List String} (hspace : ∀ c ∈ (before ++ separator ++ after).toList, p c)
    (hlines : ∀ line ∈ lines, ∀ c ∈ line.toList, p c) :
    ∀ c ∈ (spacedLines before separator after lines).toList, p c := by
  simp only [String.toList_append, List.forall_mem_append] at hspace
  simp only [spacedLines, String.toList_append, String.toList_intercalate, List.forall_mem_append]
  have hjoined := Text.forall_mem_intercalate hspace.1.2 (List.forall_mem_map.2 hlines)
  exact ⟨⟨hspace.1.1, hjoined⟩, hspace.2⟩

/-- No line of a description has a quote or a backslash outside of escapes, and the lines between
three quotes, set apart by spaces or line feeds, are a literal of a text with the same words. -/
theorem docLines_read_back (h : '\x00' ∉ description.toList) :
    (∀ line ∈ docLines description, Paired line.toList ∧ Even (backslashes line.toList) ∧
      ∀ before after, line.toList = before ++ '"' :: after → Odd (backslashes before)) ∧
    ∀ before separator after : String, separator ≠ "" →
      (∀ c ∈ (before ++ separator ++ after).toList, c = ' ' ∨ c = '\n') →
        ∃ text : String, Text.words text.toList = Text.words description.toList ∧
          IsLiteralOf
            ("\"\"\"" ++ spacedLines before separator after (docLines description) ++ "\"\"\"")
            (codePoints text) := by
  constructor
  · intro line hline
    have hpaired := paired_of_mem_docLines hline
    exact ⟨hpaired, hpaired.even_backslashes, fun before after => hpaired.odd_backslashes⟩
  intro before separator after hseparator hspace
  have hblank : ∀ c ∈ (before ++ separator ++ after).toList, Text.isBlank c := by
    intro c hc
    obtain rfl | rfl := hspace c hc <;> decide
  have hlayout : ∀ c ∈ (before ++ separator ++ after).toList, c ≠ '\x00' ∧ c ≠ '\r' := by
    intro c hc
    obtain rfl | rfl := hspace c hc <;> decide
  -- what is set between the lines is blank, so both are read off the escaped description
  have hstrays := spacedLines_docLines piecewise_strays hseparator hblank description
  have hwords := spacedLines_docLines piecewise_words_unescape hseparator hblank description
  have hsource := forall_mem_spacedLines hlayout fun _ => isSource_of_mem_docLines h
  rw [strays_flatMap_docChar] at hstrays
  rw [unescape_flatMap_docChar] at hwords
  refine ⟨String.ofList (unescape (spacedLines before separator after
    (docLines description)).toList), by rw [String.toList_ofList, hwords], ?_⟩
  rw [codePoints, String.toList_ofList]
  exact ((paired_of_strays hstrays).reads hsource).isLiteralOf

theorem docLines_read_back_escaped :
    '\x00' ∉ "a\\\" \\\\\n\"b c\"".toList ∧
      docLines "a\\\" \\\\\n\"b c\"" = ["a\\\\\\\" \\\\\\\\", "\\\"b c\\\""] ∧
      Paired "a\\\\\\\" \\\\\\\\".toList ∧
      ∃ text : String, Text.words text.toList =
          ["a\\\"".toList, "\\\\".toList, "\"b".toList, "c\"".toList] ∧
        IsLiteralOf "\"\"\"\n    a\\\\\\\" \\\\\\\\\n    \\\"b c\\\"\n    \"\"\""
          (codePoints text) := by
  have hnull : '\x00' ∉ "a\\\" \\\\\n\"b c\"".toList := by decide
  have hlines : docLines "a\\\" \\\\\n\"b c\"" =
      ["a\\\\\\\" \\\\\\\\", "\\\"b c\\\""] := by decide +kernel
  obtain ⟨hpaired, hliteral⟩ := docLines_read_back hnull
  obtain ⟨text, hwords, hread⟩ := hliteral "\n    " "\n    " "\n    " (by decide) (by simp)
  refine ⟨hnull, hlines, (hpaired _ (by rw [hlines]; exact List.mem_cons_self)).1, text, ?_, ?_⟩
  · rw [hwords]
    decide +kernel
  · rw [hlines] at hread
    exact hread

end

end WireBindings.Target.Python
