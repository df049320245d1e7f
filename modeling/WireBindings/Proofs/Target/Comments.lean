import WireBindings.Proofs.Documentation
import WireBindings.Proofs.Target.UnicodeEscapes
import WireBindings.Target.JavaText

/-!
# Comments that descriptions cannot break

A comment is broken by a closing mark before its end and by a unicode escape anywhere. Both are
hazards that can be read off a text piece by piece, so wrapping and framing a description leaves its
hazards as they are. Guarding a description drops its closing marks and gives each `u` behind
backslashes one more of them. That disarms an escape, which has an odd number of them, and arms a
`u` behind an even number.
-/

namespace WireBindings.Target.Java

open Documentation (Piecewise)

inductive Hazard
  | closing
  /-- A `u` right behind backslashes, with the number of these. -/
  | marked (run : Nat)
  deriving DecidableEq

/-- The hazards of a text that stands right behind `run` backslashes. -/
def hazards (run : Nat) : List Char → List Hazard
  | [] => []
  | c :: s =>
    if c = '\\' then hazards (run + 1) s
    else if c = 'u' ∧ 0 < run then .marked run :: hazards 0 s
    else if c = '*' ∧ s.head? = some '/' then .closing :: hazards 0 s
    else hazards 0 s

section

variable (run : Nat) (s : List Char)

theorem hazards_backslash : hazards run ('\\' :: s) = hazards (run + 1) s := by
  rw [hazards, if_pos rfl]

theorem hazards_mark (h : 0 < run) : hazards run ('u' :: s) = .marked run :: hazards 0 s := by
  rw [hazards, if_neg (by decide), if_pos ⟨rfl, h⟩]

theorem hazards_closing : hazards run ('*' :: '/' :: s) = .closing :: hazards 0 s := by
  simp [hazards]

variable {run s}

theorem hazards_plain {c : Char} (hslash : c ≠ '\\') (hmark : ¬ (c = 'u' ∧ 0 < run))
    (hclose : ¬ (c = '*' ∧ s.head? = some '/')) : hazards run (c :: s) = hazards 0 s := by
  rw [hazards, if_neg hslash, if_neg hmark, if_neg hclose]

/-- The backslashes before a text matter only if it goes on with another one or with `u`. -/
theorem hazards_eq_zero (hslash : s.head? ≠ some '\\') (hu : s.head? ≠ some 'u') (run : Nat) :
    hazards run s = hazards 0 s := by
  cases s with
  | nil => rfl
  | cons c s =>
      have hslash : c ≠ '\\' := by simpa using hslash
      have hu : c ≠ 'u' := by simpa using hu
      simp [hazards, hslash, hu]

end

/-! ## Hazards by pieces -/

theorem hazards_append_cons {c : Char} (hslash : c ≠ '\\') (hu : c ≠ 'u') (hclose : c ≠ '/')
    (run : Nat) (before after : List Char) :
    hazards run (before ++ c :: after) = hazards run before ++ hazards 0 (c :: after) := by
  induction before generalizing run with
  | nil => exact hazards_eq_zero (by simpa using hslash) (by simpa using hu) run
  | cons d before ih =>
      have hhead : (before ++ c :: after).head? = some '/' ↔ before.head? = some '/' := by
        cases before <;> simp [hclose]
      simp only [List.cons_append, hazards, hhead, ih]
      split_ifs <;> rfl

theorem not_isBlank {c : Char} (h : c ∈ ['\\', 'u', '*', '/']) : Text.isBlank c = false := by
  simp only [List.mem_cons, List.not_mem_nil, or_false] at h
  rcases h with rfl | rfl | rfl | rfl <;> decide

theorem piecewise_hazards : Piecewise (hazards 0) where
  nil := rfl
  append_blank before after c hc := by
    have hne {d : Char} (hd : d ∈ ['\\', 'u', '*', '/']) : c ≠ d := by
      rintro rfl
      exact Bool.false_ne_true ((not_isBlank hd).symm.trans hc)
    have hslash := hne (d := '\\') (by simp)
    have hu := hne (d := 'u') (by simp)
    have hstar := hne (d := '*') (by simp)
    rw [hazards_append_cons hslash hu (hne (by simp))]
    simp [hazards, hslash, hstar]

theorem marked_mem_hazards {n : Nat} {s : List Char} : .marked n ∈ hazards 0 s ↔
    ∃ before after, s = before ++ 'u' :: after ∧ backslashes before = n ∧ 0 < n := by
  have hfrom (seen : List Char) : .marked n ∈ hazards (backslashes seen) s ↔
      ∃ before after, s = before ++ 'u' :: after ∧ backslashes (seen ++ before) = n ∧ 0 < n := by
    induction s generalizing seen with
    | nil => simp [hazards]
    | cons c s ih =>
        have hrest := ih (seen ++ [c])
        -- the letter is the first character, or it stands behind that one
        have hcons : (∃ before after, c :: s = before ++ 'u' :: after ∧
            backslashes (seen ++ before) = n ∧ 0 < n) ↔
            (c = 'u' ∧ backslashes seen = n ∧ 0 < n) ∨
              .marked n ∈ hazards (backslashes (seen ++ [c])) s := by
          rw [hrest]
          constructor
          · rintro ⟨_ | ⟨d, before⟩, after, heq, hn⟩
            · obtain ⟨rfl, rfl⟩ := List.cons.inj heq
              exact .inl ⟨rfl, by simpa using hn⟩
            · obtain ⟨rfl, rfl⟩ := List.cons.inj heq
              exact .inr ⟨before, after, rfl, by simpa using hn⟩
          · rintro (⟨rfl, hn⟩ | ⟨before, after, rfl, hn⟩)
            · exact ⟨[], s, rfl, by simpa using hn⟩
            · exact ⟨c :: before, after, rfl, by simpa using hn⟩
        rw [hcons, backslashes_concat, hazards]
        split_ifs with hslash hmark hclose
        · simp [hslash]
        · have hn : (c = 'u' ∧ backslashes seen = n ∧ 0 < n) ↔ n = backslashes seen :=
            ⟨fun h => h.2.1.symm, fun h => ⟨hmark.1, h.symm, h ▸ hmark.2⟩⟩
          rw [List.mem_cons, Hazard.marked.injEq, hn]
        · simp [hclose.1]
        · have hn : ¬ (c = 'u' ∧ backslashes seen = n ∧ 0 < n) := by
            rintro ⟨hu, rfl, h⟩
            exact hmark ⟨hu, h⟩
          rw [or_iff_right hn]
  simpa using hfrom []

/-! ## Guarding -/

def Hazard.guarded? : Hazard → Option Hazard
  | .closing => none
  | .marked run => some (.marked (run + 1))

theorem head?_guardComment (s : List Char) : (guardComment s).head? = s.head? := by
  fun_cases guardComment s <;> simp_all

theorem hazards_guardComment (s : List Char) :
    hazards 0 (guardComment s) = (hazards 0 s).filterMap Hazard.guarded? := by
  -- further backslashes only follow where the text goes on with one
  have hfrom (run : Nat) (hrun : 0 < run → s.head? = some '\\') :
      hazards run (guardComment s) = (hazards run s).filterMap Hazard.guarded? := by
    fun_induction guardComment s generalizing run with
    | case1 => rfl
    | case2 c =>
        have hu : ¬ (c = 'u' ∧ 0 < run) := by
          rintro ⟨rfl, h⟩
          exact absurd (hrun h) (by decide)
        simp [hazards, hu]
    | case3 c d s hclose ih =>
        obtain ⟨rfl, rfl⟩ := hclose
        have hguarded : hazards run ("*&#47;".toList ++ guardComment s) =
            hazards 0 (guardComment s) := by
          simp [hazards]
        rw [hguarded, hazards_closing, ih 0 (by simp)]
        rfl
    | case4 c d s _ hescape ih =>
        obtain ⟨rfl, rfl⟩ := hescape
        rw [hazards_backslash, hazards_backslash, hazards_backslash, hazards_mark _ _ (by omega),
          hazards_mark _ _ (by omega), ih 0 (by simp)]
        rfl
    | case5 c d s hclose hescape ih =>
        by_cases hslash : c = '\\'
        · subst hslash
          have hu : d ≠ 'u' := fun hd => hescape ⟨rfl, hd⟩
          rw [hazards_backslash, hazards_backslash]
          by_cases hnext : d = '\\'
          · exact ih (run + 1) fun _ => by simp [hnext]
          · have hhead : (d :: s).head? ≠ some '\\' ∧ (d :: s).head? ≠ some 'u' := by
              simpa using And.intro hnext hu
            rw [hazards_eq_zero hhead.1 hhead.2,
              hazards_eq_zero (by rw [head?_guardComment]; exact hhead.1)
                (by rw [head?_guardComment]; exact hhead.2)]
            exact ih 0 (by simp)
        · have hmark : ¬ (c = 'u' ∧ 0 < run) := by
            rintro ⟨-, h⟩
            exact hslash (by simpa using hrun h)
          have hopen : ¬ (c = '*' ∧ (d :: s).head? = some '/') := by simpa using hclose
          rw [hazards_plain hslash hmark hopen,
            hazards_plain hslash hmark (by rw [head?_guardComment]; exact hopen)]
          exact ih 0 (by simp)
  exact hfrom 0 (by simp)

/-! ## Comments -/

def textHazards (s : String) : List Hazard := hazards 0 s.toList

theorem textHazards_docLines (description : String) :
    (docLines description).flatMap textHazards =
      (textHazards description).filterMap Hazard.guarded? := by
  simp only [textHazards, docLines]
  rw [← hazards_guardComment]
  split
  · next hvoid =>
    rw [Documentation.isVoid, String.toList_ofList, List.all_eq_true] at hvoid
    exact (piecewise_hazards.blanks hvoid).symm
  · have hwrap := piecewise_hazards.wrap (String.ofList (guardComment description.toList))
    rwa [String.toList_ofList] at hwrap

def IsPlain (name : String) : Prop := '\\' ∉ name.toList ∧ '*' ∉ name.toList

theorem hazards_eq_nil {s : List Char} (hslash : '\\' ∉ s) (hstar : '*' ∉ s) :
    hazards 0 s = [] := by
  induction s with
  | nil => rfl
  | cons c s ih =>
      simp only [List.mem_cons, not_or] at hslash hstar
      rw [hazards_plain (Ne.symm hslash.1) (by omega) (fun h => hstar.1 h.1.symm)]
      exact ih hslash.2 hstar.2

theorem textHazards_parameterLine {p : ParameterDoc} (hname : IsPlain p.name) :
    textHazards (parameterLine p) = p.doc.flatMap textHazards := by
  have hspace : Text.isBlank ' ' := by decide
  have htag : " * @param ".toList = " * @param".toList ++ [' '] := by decide
  calc textHazards (parameterLine p)
      = hazards 0 (" * @param".toList ++ ' ' :: (p.name.toList ++ ' ' ::
          [' '].intercalate (p.doc.map String.toList))) := by
        rw [textHazards, parameterLine, String.toList_ofList, piecewise_hazards.trimEnd]
        simp only [String.toList_append, String.toList_intercalate, htag, List.append_assoc]
        rfl
    _ = hazards 0 " * @param".toList ++ (hazards 0 p.name.toList ++
          (p.doc.map String.toList).flatMap (hazards 0)) := by
        rw [piecewise_hazards.append_blank _ _ hspace, piecewise_hazards.append_blank _ _ hspace,
          piecewise_hazards.intercalate (List.forall_mem_singleton.2 hspace)]
    _ = p.doc.flatMap textHazards := by
        rw [hazards_eq_nil hname.1 hname.2, List.flatMap_map]
        rfl

def commentText (indent : Nat) (lines : List String) : List Char :=
  ('\n' :: List.replicate indent ' ').intercalate (lines.map String.toList)

theorem hazards_commentText (indent : Nat) (lines : List String) :
    hazards 0 (commentText indent lines) = lines.flatMap textHazards := by
  have hblank : ∀ c ∈ '\n' :: List.replicate indent ' ', Text.isBlank c := by
    rintro c (_ | ⟨_, hc⟩)
    · decide
    · obtain rfl := List.eq_of_mem_replicate hc
      decide
  rw [commentText, piecewise_hazards.intercalate hblank, List.flatMap_map]
  rfl

theorem textHazards_framed (line : String) : textHazards (" * " ++ line) = textHazards line := by
  rw [textHazards, String.toList_append]
  exact piecewise_hazards.append_blank [' ', '*'] line.toList (by decide)

theorem textHazards_closed (line : String) :
    textHazards ("/** " ++ line ++ " */") = textHazards line ++ [.closing] := by
  have hspace : Text.isBlank ' ' := by decide
  calc textHazards ("/** " ++ line ++ " */")
      = hazards 0 ("/**".toList ++ ' ' :: (line.toList ++ ' ' :: "*/".toList)) := by
        rw [textHazards, String.toList_append, String.toList_append, List.append_assoc]
        rfl
    _ = hazards 0 "/**".toList ++ (textHazards line ++ hazards 0 "*/".toList) := by
        rw [piecewise_hazards.append_blank _ _ hspace, piecewise_hazards.append_blank _ _ hspace,
          textHazards]
    _ = textHazards line ++ [.closing] := rfl

section

variable {description : String} {parameters : List ParameterDoc}

/-- A comment that is there stands on one line, or frames its lines and the parameters that have
some. -/
theorem docComment_cases (hlines : docComment description parameters ≠ []) :
    (∃ line, docLines description = [line] ∧ parameters.filter (fun p => !p.doc.isEmpty) = [] ∧
      docComment description parameters = ["/** " ++ line ++ " */"]) ∨
    ∃ separator, (separator = [] ∨ separator = [" *"]) ∧
      docComment description parameters = "/**" :: (docLines description).map (" * " ++ ·) ++
        separator ++ (parameters.filter fun p => !p.doc.isEmpty).map parameterLine ++ [" */"] := by
  unfold docComment at hlines ⊢
  simp only at hlines ⊢
  generalize docLines description = lines at hlines ⊢
  generalize parameters.filter (fun p => !p.doc.isEmpty) = documented at hlines ⊢
  split at hlines
  · exact absurd rfl hlines
  · exact .inl ⟨_, rfl, rfl, rfl⟩
  · refine .inr ⟨_, ?_, rfl⟩
    split
    · exact .inl rfl
    · exact .inr rfl

theorem flatMap_documented (hnames : ∀ p ∈ parameters, IsPlain p.name) :
    parameters.flatMap (fun p => p.doc.flatMap textHazards) =
      ((parameters.filter fun p => !p.doc.isEmpty).map parameterLine).flatMap textHazards := by
  rw [List.flatMap_map]
  induction parameters with
  | nil => rw [List.filter_nil, List.flatMap_nil, List.flatMap_nil]
  | cons p parameters ih =>
      obtain ⟨hp, hparameters⟩ := List.forall_mem_cons.1 hnames
      rw [List.flatMap_cons, ih hparameters]
      cases hdoc : p.doc with
      | nil => rw [List.filter_cons_of_neg (by simp [hdoc]), List.flatMap_nil, List.nil_append]
      | cons line lines =>
          rw [List.filter_cons_of_pos (by simp [hdoc]), ← hdoc, ← textHazards_parameterLine hp,
            List.flatMap_cons]

/-- A comment has the hazards of its texts, and is closed behind them. -/
theorem textHazards_docComment (hnames : ∀ p ∈ parameters, IsPlain p.name)
    (hlines : docComment description parameters ≠ []) :
    (docComment description parameters).flatMap textHazards =
      (docLines description).flatMap textHazards ++
        parameters.flatMap (fun p => p.doc.flatMap textHazards) ++ [.closing] := by
  rw [flatMap_documented hnames]
  obtain ⟨line, hline, hnone, heq⟩ | ⟨separator, hseparator, heq⟩ := docComment_cases hlines
  · rw [heq, hline, hnone]
    simp [textHazards_closed]
  · have hopen : textHazards "/**" = [] := rfl
    have hclose : textHazards " */" = [.closing] := rfl
    have hempty : separator.flatMap textHazards = [] := by
      rcases hseparator with rfl | rfl <;> rfl
    simp only [heq, List.flatMap_append, List.flatMap_cons, List.flatMap_map, textHazards_framed,
      hopen, hclose, hempty, List.flatMap_nil, List.append_nil, List.nil_append]

theorem exists_last_docComment (hlines : docComment description parameters ≠ []) :
    ∃ lines last, docComment description parameters = lines ++ [last] ∧
      ['*', '/'] <:+ last.toList := by
  obtain ⟨line, -, -, heq⟩ | ⟨separator, -, heq⟩ := docComment_cases hlines
  · refine ⟨[], _, heq, ?_⟩
    rw [String.toList_append]
    exact ⟨("/** " ++ line).toList ++ [' '], by rw [List.append_assoc]; rfl⟩
  · exact ⟨_, _, heq, [' '], rfl⟩

end

/-! ## What breaks a comment -/

/-- A list that ends with `closer` and has it nowhere before. -/
def ClosedBy {α : Type} (closer s : List α) : Prop :=
  closer <:+ s ∧ ∀ before after, s = before ++ closer ++ after → after = []

/-- A comment that is read as one whole: no escape is in it, and once escapes are translated it is
closed at its end and nowhere before. -/
structure Sealed (comment : List Char) : Prop where
  escapeFree : ¬ HasEscape comment
  closed : ∃ units, translate (.text true) comment = some units ∧
    ClosedBy (['*', '/'].map Char.toNat) units

theorem closedBy_of_hazards {s : List Char} (h : .closing ∉ hazards 0 s) :
    ClosedBy ['*', '/'] (s ++ ['*', '/']) := by
  refine ⟨List.suffix_append _ _, fun before after heq => ?_⟩
  -- an earlier mark would lie in `s` as a whole, for it shares no character with the last one
  cases after using List.reverseRecOn with
  | nil => rfl
  | append_singleton after c _ =>
      exfalso
      have hlast : s ++ ['*'] ++ ['/'] = before ++ ['*', '/'] ++ after ++ [c] := by simpa using heq
      have hinit := (List.append_inj' hlast rfl).1
      cases after using List.reverseRecOn with
      | nil =>
          have hend : s ++ ['*'] = before ++ ['*'] ++ ['/'] := by simpa using hinit
          exact absurd (List.append_inj' hend rfl).2 (by decide)
      | append_singleton after d _ =>
          have hs : s = before ++ '*' :: '/' :: after := by
            have hend : s ++ ['*'] = before ++ '*' :: '/' :: after ++ [d] := by simpa using hinit
            exact (List.append_inj' hend rfl).1
          rw [hs, hazards_append_cons (by decide) (by decide) (by decide), hazards_closing] at h
          simp at h

theorem ClosedBy.flatMap_codeUnits {s : List Char} (h : ClosedBy ['*', '/'] s) :
    ClosedBy (['*', '/'].map Char.toNat) (s.flatMap codeUnits) := by
  obtain ⟨⟨body, hbody⟩, honly⟩ := h
  refine ⟨⟨body.flatMap codeUnits, ?_⟩, fun before after heq => ?_⟩
  · rw [← hbody, List.flatMap_append]
    rfl
  · rw [List.append_assoc] at heq
    obtain ⟨first, rest, hs, -, hrest⟩ := exists_of_flatMap_codeUnits (x := '*') (by decide) heq
    have hclose : rest.flatMap codeUnits = [] ++ '/'.toNat :: after := hrest
    obtain ⟨second, rest', rfl, hsecond, rfl⟩ := exists_of_flatMap_codeUnits (by decide) hclose
    obtain rfl := eq_nil_of_flatMap_codeUnits hsecond
    rw [honly first rest' (by simpa using hs), List.flatMap_nil]

/-- Somewhere a `u` has an even number of backslashes right before it, and some at all. -/
def HasEvenMark (s : List Char) : Prop :=
  ∃ before after, s = before ++ 'u' :: after ∧ 0 < backslashes before ∧ Even (backslashes before)

def documented (parameters : List (String × String)) : List ParameterDoc :=
  parameters.map fun p => ⟨p.1, docLines p.2⟩

theorem hasEvenMark_iff {s : List Char} :
    HasEvenMark s ↔ ∃ n, Even n ∧ .marked n ∈ hazards 0 s := by
  simp only [marked_mem_hazards]
  constructor
  · rintro ⟨before, after, hs, hpos, heven⟩
    exact ⟨_, heven, before, after, hs, rfl, hpos⟩
  · rintro ⟨_, heven, before, after, hs, rfl, hpos⟩
    exact ⟨before, after, hs, hpos, heven⟩

theorem hasEscape_iff_marked {s : List Char} :
    HasEscape s ↔ ∃ n, Odd n ∧ .marked n ∈ hazards 0 s := by
  simp only [marked_mem_hazards, hasEscape_iff]
  constructor
  · rintro ⟨before, after, hs, hodd⟩
    exact ⟨_, hodd, before, after, hs, rfl, by obtain ⟨k, hk⟩ := hodd; omega⟩
  · rintro ⟨_, hodd, before, after, hs, rfl, -⟩
    exact ⟨before, after, hs, hodd⟩

def guardedHazards (texts : List String) : List Hazard :=
  texts.flatMap fun s => (textHazards s).filterMap Hazard.guarded?

theorem closing_not_mem_guardedHazards (texts : List String) :
    .closing ∉ guardedHazards texts := by
  rw [guardedHazards, List.mem_flatMap]
  rintro ⟨s, -, h⟩
  obtain ⟨hazard, -, hguarded⟩ := List.mem_filterMap.1 h
  cases hazard <;> cases hguarded

theorem marked_mem_guardedHazards {texts : List String} {n : Nat} :
    .marked n ∈ guardedHazards texts ↔
      ∃ s ∈ texts, ∃ m, .marked m ∈ textHazards s ∧ m + 1 = n := by
  simp only [guardedHazards, List.mem_flatMap, List.mem_filterMap]
  constructor
  · rintro ⟨s, hs, hazard, hmem, hguarded⟩
    cases hazard with
    | closing => cases hguarded
    | marked m => exact ⟨s, hs, m, hmem, by simpa [Hazard.guarded?] using hguarded⟩
  · rintro ⟨s, hs, m, hmem, rfl⟩
    exact ⟨s, hs, _, hmem, rfl⟩

theorem suffix_intercalate {α : Type} (separator last : List α) (lists : List (List α)) :
    last <:+ separator.intercalate (lists ++ [last]) := by
  induction lists with
  | nil => simp
  | cons l lists ih =>
      obtain ⟨next, rest, hrest⟩ := List.exists_cons_of_ne_nil (l := lists ++ [last]) (by simp)
      rw [List.cons_append, hrest, List.intercalate_cons_cons, ← hrest]
      exact List.suffix_append_of_suffix ih

/-- The text of a comment up to its closing mark has the guarded hazards of the descriptions. -/
theorem exists_body {description : String} {parameters : List (String × String)}
    (indent : Nat) (hnames : ∀ p ∈ parameters, IsPlain p.1)
    (hlines : docComment description (documented parameters) ≠ []) :
    ∃ body, commentText indent (docComment description (documented parameters)) =
        body ++ ['*', '/'] ∧
      hazards 0 body = guardedHazards (description :: parameters.map Prod.snd) := by
  have hplain : ∀ p ∈ documented parameters, IsPlain p.name := by
    rintro p hp
    obtain ⟨q, hq, rfl⟩ := List.mem_map.1 hp
    exact hnames q hq
  obtain ⟨lines, last, hlast, hcloser⟩ := exists_last_docComment hlines
  have hsuffix : ['*', '/'] <:+
      commentText indent (docComment description (documented parameters)) := by
    rw [hlast, commentText, List.map_append]
    exact hcloser.trans (suffix_intercalate _ _ _)
  obtain ⟨body, hbody⟩ := hsuffix
  have hall := hazards_commentText indent (docComment description (documented parameters))
  rw [textHazards_docComment hplain hlines, ← hbody,
    hazards_append_cons (by decide) (by decide) (by decide), hazards_closing] at hall
  refine ⟨body, hbody.symm, ?_⟩
  rw [List.append_cancel_right hall, textHazards_docLines, guardedHazards, List.flatMap_cons,
    documented, List.flatMap_map, List.flatMap_map]
  simp only [textHazards_docLines]

/-- A comment is whole exactly if none of its descriptions has a `u` behind an even number of
backslashes. Guarding makes that number odd, and so an escape that was none. -/
theorem docComment_sealed_iff {description : String} {parameters : List (String × String)}
    (indent : Nat) (hnames : ∀ p ∈ parameters, IsPlain p.1)
    (hlines : docComment description (documented parameters) ≠ []) :
    Sealed (commentText indent (docComment description (documented parameters))) ↔
      ∀ s ∈ description :: parameters.map Prod.snd, ¬ HasEvenMark s.toList := by
  obtain ⟨body, hbody, hhazards⟩ := exists_body indent hnames hlines
  have hescape : HasEscape (commentText indent (docComment description (documented parameters))) ↔
      ∃ s ∈ description :: parameters.map Prod.snd, HasEvenMark s.toList := by
    rw [hbody, hasEscape_iff_marked, hazards_append_cons (by decide) (by decide) (by decide),
      hazards_closing, hhazards]
    simp only [hasEvenMark_iff]
    constructor
    · rintro ⟨n, hodd, hmem⟩
      rcases List.mem_append.1 hmem with hmem | hmem
      · obtain ⟨s, hs, m, hmark, rfl⟩ := marked_mem_guardedHazards.1 hmem
        exact ⟨s, hs, m, Nat.not_odd_iff_even.1 (Nat.odd_add_one.1 hodd), hmark⟩
      · cases List.mem_singleton.1 hmem
    · rintro ⟨s, hs, n, heven, hmem⟩
      refine ⟨n + 1, heven.add_one, List.mem_append_left _ ?_⟩
      exact marked_mem_guardedHazards.2 ⟨s, hs, n, hmem, rfl⟩
  constructor
  · intro h s hs hmark
    exact h.escapeFree (hescape.2 ⟨s, hs, hmark⟩)
  · intro h
    have hnone : ¬ HasEscape _ := fun hmem => by
      obtain ⟨s, hs, hmark⟩ := hescape.1 hmem
      exact h s hs hmark
    refine ⟨hnone, _, translate_eq hnone, ?_⟩
    rw [hbody]
    refine ClosedBy.flatMap_codeUnits (closedBy_of_hazards ?_)
    rw [hhazards]
    exact closing_not_mem_guardedHazards _

/-- A closing mark and an escape in descriptions, both of which a comment survives. -/
theorem docComment_sealed_guarded :
    (∀ p ∈ [("x", "At \\u0041.")], IsPlain p.1) ∧
      docComment "Ends a */ comment." (documented [("x", "At \\u0041.")]) ≠ [] ∧
      Sealed (commentText 4 (docComment "Ends a */ comment."
        (documented [("x", "At \\u0041.")]))) := by
  have hnames : ∀ p ∈ [("x", "At \\u0041.")], IsPlain p.1 := by
    simp [IsPlain]
  have hlines : docComment "Ends a */ comment." (documented [("x", "At \\u0041.")]) ≠ [] := by
    decide
  refine ⟨hnames, hlines, (docComment_sealed_iff 4 hnames hlines).2 ?_⟩
  have hfirst : hazards 0 "Ends a */ comment.".toList = [.closing] := by decide
  have hsecond : hazards 0 "At \\u0041.".toList = [.marked 1] := by decide
  rintro s (_ | ⟨_, _ | ⟨_, ⟨⟩⟩⟩)
  · rw [hasEvenMark_iff, hfirst]
    simp
  · rw [hasEvenMark_iff, hsecond]
    simp

/-- Two backslashes before `u` become three, and the escape that they make closes the comment. -/
theorem docComment_not_sealed :
    docComment "a\\\\u002a/ b" (documented []) = ["/** a\\\\\\u002a/ b */"] ∧
      ¬ Sealed (commentText 0 (docComment "a\\\\u002a/ b" (documented []))) := by
  have hlines : docComment "a\\\\u002a/ b" (documented []) = ["/** a\\\\\\u002a/ b */"] := by
    decide
  refine ⟨hlines, fun h => h.escapeFree ?_⟩
  rw [hlines]
  exact ⟨"/** a\\\\".toList, "002a/ b */".toList, by decide, by decide⟩

end WireBindings.Target.Java
