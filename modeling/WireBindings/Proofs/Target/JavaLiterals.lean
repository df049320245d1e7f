import WireBindings.Proofs.Json.Tokens
import WireBindings.Proofs.Target.Literals
import WireBindings.Proofs.Target.UnicodeEscapes
import WireBindings.Target.JavaText

/-!
# Java string literals

A literal is read in two phases: unicode escapes of the source are translated, and then the code
units between two quotes are read with the escapes of literals. A written literal goes through both
and gives the text that it was written for, wherever it stands.
-/

namespace WireBindings.Target.Java

/-! ## Reading literals -/

def escapeLetters : List (Nat × Nat) :=
  [('b', '\x08'), ('s', ' '), ('t', '\t'), ('n', '\n'), ('f', '\x0c'), ('r', '\r'), ('"', '"'),
    ('\'', '\''), ('\\', '\\')].map fun (letter, c) => (letter.toNat, c.toNat)

/-- The octal digits of an escape: up to three if the first is at most three, else up to two. -/
def octalDigits (s : List Nat) : List Nat :=
  (s.takeWhile isOctalDigit).take (if s.head?.any (· ≤ '3'.toNat) then 3 else 2)

def escape? (s : List Nat) : Option (Nat × Nat) :=
  match s.head?.bind fun letter => escapeLetters.lookup letter with
  | some n => some (n, 1)
  | none =>
    let digits := octalDigits s
    if digits.isEmpty then none else some (octalNumber digits, digits.length)

/-- The value up to the closing quote and what follows that. No line ends inside a literal. -/
def toQuote? (s : List Nat) : Option (List Nat × List Nat) :=
  match s with
  | [] => none
  | n :: rest =>
    if n = '"'.toNat then some ([], rest)
    else if n = '\n'.toNat ∨ n = '\r'.toNat then none
    else if n = '\\'.toNat then
      match escape? rest with
      | some (m, count) => behind [m] (toQuote? (rest.drop count))
      | none => none
    else behind [n] (toQuote? rest)
termination_by s.length
decreasing_by all_goals simp only [List.length_cons, List.length_drop]; omega

/-- The value of the literal at the head of translated source text and what follows it. Three quotes
begin a text block, which is no string literal. -/
def literal? : List Nat → Option (List Nat × List Nat)
  | [] => none
  | n :: s =>
    if n ≠ '"'.toNat ∨ s.take 2 = ['"'.toNat, '"'.toNat] then none else toQuote? s

/-- A text that is a literal of a value wherever it stands. -/
structure IsLiteralOf (text value : String) : Prop where
  /-- No unicode escape begins in it or ends in it. -/
  translated : ∀ after,
    translate (.text true) (text.toList ++ after) =
      (units text ++ ·) <$> translate (.text true) after
  unbroken : '\n'.toNat ∉ units text ∧ '\r'.toNat ∉ units text
  read : ∀ after, after.head? ≠ some '"'.toNat → literal? (units text ++ after) =
    some (units value, after)

/-! ## One character -/

def IsOrdinary (n : Nat) : Prop :=
  n ≠ '"'.toNat ∧ n ≠ '\n'.toNat ∧ n ≠ '\r'.toNat ∧ n ≠ '\\'.toNat

structure IsPaired (c letter : Char) : Prop where
  written : literalChar c = ['\\', letter]
  letter_ne : letter ≠ 'u' ∧ letter ≠ '\n' ∧ letter ≠ '\r'
  letter_units : codeUnits letter = [letter.toNat]
  stands : escapeLetters.lookup letter.toNat = some c.toNat
  units : codeUnits c = [c.toNat]

theorem literalChar_cases (c : Char) :
    (∃ letter, IsPaired c letter) ∨ literalChar c = [c] ∧ c ≠ '\\' ∧ ∀ n ∈ codeUnits c,
      IsOrdinary n := by
  by_cases hslash : c = '\\'
  · subst hslash
    exact .inl ⟨'\\', rfl, by decide, by decide, by decide, by decide⟩
  by_cases hquote : c = '"'
  · subst hquote
    exact .inl ⟨'"', rfl, by decide, by decide, by decide, by decide⟩
  by_cases hline : c = '\n'
  · subst hline
    exact .inl ⟨'n', rfl, by decide, by decide, by decide, by decide⟩
  by_cases hreturn : c = '\r'
  · subst hreturn
    exact .inl ⟨'r', rfl, by decide, by decide, by decide, by decide⟩
  have hwritten : literalChar c = [c] := by
    rw [literalChar, if_neg (not_or.2 ⟨hslash, hquote⟩), if_neg hline, if_neg hreturn]
  refine .inr ⟨hwritten, hslash, fun n hn => ?_⟩
  have hne {x : Char} (hx : c ≠ x) : c.toNat ≠ x.toNat := fun h => hx (Char.toNat_inj.1 h)
  have hlarge (hn : 0xd800 ≤ n) : IsOrdinary n := by
    have hsmall : '"'.toNat < 0xd800 ∧ '\n'.toNat < 0xd800 ∧ '\r'.toNat < 0xd800 ∧
        '\\'.toNat < 0xd800 := by decide
    unfold IsOrdinary
    omega
  obtain hc | ⟨high, low, hc, hhigh, hlow⟩ := codeUnits_cases c
  · rw [hc, List.mem_singleton] at hn
    subst hn
    exact ⟨hne hquote, hne hline, hne hreturn, hne hslash⟩
  · rw [hc, List.mem_cons, List.mem_singleton] at hn
    rcases hn with rfl | rfl
    · exact hlarge hhigh
    · exact hlarge hlow

theorem IsPaired.units_eq {c letter : Char} (h : IsPaired c letter) :
    (literalChar c).flatMap codeUnits = ['\\'.toNat, letter.toNat] := by
  have hslash : codeUnits '\\' = ['\\'.toNat] := by decide
  rw [h.written, List.flatMap_cons, List.flatMap_singleton, h.letter_units, hslash]
  rfl

theorem translate_plain {c : Char} (hc : c ≠ '\\') (even : Bool) (s : List Char) :
    translate (.text even) (c :: s) = (codeUnits c ++ ·) <$> translate (.text true) s := by
  rw [translate, if_neg hc]

theorem translate_pair {letter : Char} (h : letter ≠ 'u') (s : List Char) :
    translate (.text true) ('\\' :: letter :: s) =
      ((codeUnits '\\' ++ codeUnits letter) ++ ·) <$> translate (.text true) s := by
  have hletter : translate (.text false) (letter :: s) =
      (codeUnits letter ++ ·) <$> translate (.text true) s := by
    by_cases hslash : letter = '\\'
    · subst hslash
      simp [translate]
    · exact translate_plain hslash false s
  have hu : ¬ (true && (letter :: s).head? = some 'u') = true := by simpa using h
  rw [translate, if_pos rfl, if_neg hu, Bool.not_true, hletter, ← comp_map]
  simp only [Function.comp_def, List.append_assoc]

theorem translate_literalChar (c : Char) (s : List Char) :
    translate (.text true) (literalChar c ++ s) =
      ((literalChar c).flatMap codeUnits ++ ·) <$> translate (.text true) s := by
  obtain ⟨letter, hpaired⟩ | ⟨hwritten, hslash, -⟩ := literalChar_cases c
  · rw [hpaired.written]
    simpa using translate_pair hpaired.letter_ne.1 s
  · rw [hwritten]
    simpa using translate_plain hslash true s

theorem toQuote?_ordinary {read : List Nat} (h : ∀ n ∈ read, IsOrdinary n) (s : List Nat) :
    toQuote? (read ++ s) = behind read (toQuote? s) := by
  induction read with
  | nil => exact (behind_nil _).symm
  | cons n read ih =>
      obtain ⟨⟨hquote, hline, hreturn, hslash⟩, hread⟩ := List.forall_mem_cons.1 h
      rw [List.cons_append, toQuote?, if_neg hquote, if_neg (not_or.2 ⟨hline, hreturn⟩),
        if_neg hslash, ih hread, behind_behind, List.singleton_append]

theorem toQuote?_literalChar (c : Char) (s : List Nat) :
    toQuote? ((literalChar c).flatMap codeUnits ++ s) = behind (codeUnits c) (toQuote? s) := by
  obtain ⟨letter, hpaired⟩ | ⟨hwritten, -, hordinary⟩ := literalChar_cases c
  · have hescape : escape? (letter.toNat :: s) = some (c.toNat, 1) := by
      simp only [escape?, List.head?_cons, Option.bind_some, hpaired.stands]
    rw [hpaired.units_eq, hpaired.units, List.cons_append, toQuote?, if_neg (by decide),
      if_neg (by decide), if_pos rfl, List.singleton_append]
    simp only [hescape, List.drop_one, List.tail_cons]
  · rw [hwritten, List.flatMap_singleton]
    exact toQuote?_ordinary hordinary s

/-! ## Whole literals -/

def writtenUnits (s : List Char) : List Nat := s.flatMap fun c => (literalChar c).flatMap codeUnits

theorem toList_stringLiteral (s : String) :
    (stringLiteral s).toList = '"' :: (s.toList.flatMap literalChar ++ ['"']) := by
  rw [stringLiteral, String.toList_ofList, List.cons_append]

theorem units_stringLiteral (s : String) :
    units (stringLiteral s) = '"'.toNat :: (writtenUnits s.toList ++ ['"'.toNat]) := by
  have hquote : codeUnits '"' = ['"'.toNat] := by decide
  rw [units, toList_stringLiteral, List.flatMap_cons, List.flatMap_append, List.flatMap_singleton,
    hquote, List.flatMap_assoc, List.singleton_append, writtenUnits]

theorem translate_written (s after : List Char) :
    translate (.text true) (s.flatMap literalChar ++ after) =
      (writtenUnits s ++ ·) <$> translate (.text true) after := by
  induction s with
  | nil => exact (id_map _).symm
  | cons c s ih =>
      rw [List.flatMap_cons, List.append_assoc, translate_literalChar, ih, ← comp_map]
      simp only [Function.comp_def, writtenUnits, List.flatMap_cons, List.append_assoc]

theorem toQuote?_written (s : List Char) (after : List Nat) :
    toQuote? (writtenUnits s ++ '"'.toNat :: after) = some (s.flatMap codeUnits, after) := by
  induction s with
  | nil =>
      rw [writtenUnits, List.flatMap_nil, List.nil_append, toQuote?, if_pos rfl]
      rfl
  | cons c s ih =>
      rw [writtenUnits, List.flatMap_cons, List.append_assoc, toQuote?_literalChar, ← writtenUnits,
        ih, List.flatMap_cons]
      rfl

/-- No code unit of a written text ends a line. -/
theorem not_break_of_mem_writtenUnits {s : List Char} {n : Nat} (h : n ∈ writtenUnits s) :
    n ≠ '\n'.toNat ∧ n ≠ '\r'.toNat := by
  obtain ⟨c, -, hn⟩ := List.mem_flatMap.1 h
  obtain ⟨letter, hpaired⟩ | ⟨hwritten, -, hordinary⟩ := literalChar_cases c
  · rw [hpaired.units_eq, List.mem_cons, List.mem_singleton] at hn
    rcases hn with rfl | rfl
    · decide
    · exact ⟨mt Char.toNat_inj.1 hpaired.letter_ne.2.1, mt Char.toNat_inj.1 hpaired.letter_ne.2.2⟩
  · rw [hwritten, List.flatMap_singleton] at hn
    exact ⟨(hordinary n hn).2.1, (hordinary n hn).2.2.1⟩

theorem head?_writtenUnits_ne (s : List Char) : (writtenUnits s).head? ≠ some '"'.toNat := by
  cases s with
  | nil => exact nofun
  | cons c s =>
      intro hhead
      rw [writtenUnits, List.flatMap_cons] at hhead
      obtain ⟨letter, hpaired⟩ | ⟨hwritten, -, hordinary⟩ := literalChar_cases c
      · rw [hpaired.units_eq] at hhead
        exact absurd (Option.some.inj hhead) (by decide)
      · rw [hwritten, List.flatMap_singleton] at hhead
        obtain hc | ⟨high, low, hc, -, -⟩ := codeUnits_cases c <;> rw [hc] at hhead hordinary
        · exact (hordinary _ List.mem_cons_self).1 (Option.some.inj hhead)
        · exact (hordinary _ List.mem_cons_self).1 (Option.some.inj hhead)

theorem isLiteralOf_stringLiteral (s : String) : IsLiteralOf (stringLiteral s) s where
  translated after := by
    have hslash : '"' ≠ '\\' := by decide
    have hquote : codeUnits '"' = ['"'.toNat] := by decide
    rw [toList_stringLiteral, List.cons_append, List.append_assoc, translate_plain hslash,
      translate_written, List.singleton_append, translate_plain hslash, ← comp_map, ← comp_map,
      units_stringLiteral, hquote]
    simp only [Function.comp_def, List.cons_append, List.append_assoc, List.nil_append]
  unbroken := by
    have hbreak {n : Nat} (hn : n = '\n'.toNat ∨ n = '\r'.toNat) : n ∉ units (stringLiteral s) := by
      have hquote : n ≠ '"'.toNat := by rcases hn with rfl | rfl <;> decide
      rw [units_stringLiteral, List.mem_cons, List.mem_append, List.mem_singleton,
        or_iff_left hquote, or_iff_right hquote]
      exact fun h => (not_or.2 (not_break_of_mem_writtenUnits h)) hn
    exact ⟨hbreak (.inl rfl), hbreak (.inr rfl)⟩
  read after h := by
    have htake := take_two_ne (head?_writtenUnits_ne s.toList) h
    rw [units_stringLiteral, List.cons_append, List.append_assoc, List.singleton_append, literal?,
      if_neg (not_or.2 ⟨not_not_intro rfl, htake⟩), toQuote?_written]
    rfl

/-- Texts with the same code units are equal, so a value tells the text that was written. -/
theorem units_injective : Function.Injective units := by
  suffices h : ∀ s t : List Char, s.flatMap codeUnits = t.flatMap codeUnits → s = t from
    fun s t heq => String.toList_inj.1 (h s.toList t.toList heq)
  intro s
  induction s with
  | nil => exact fun t h => (eq_nil_of_flatMap_codeUnits h.symm).symm
  | cons c s ih =>
      intro t h
      cases t with
      | nil => exact eq_nil_of_flatMap_codeUnits h
      | cons d t =>
          -- the first unit tells whether it is alone
          have hc := Json.toNat_valid c
          have hd := Json.toNat_valid d
          rw [List.flatMap_cons, List.flatMap_cons, codeUnits, codeUnits] at h
          split_ifs at h with hc' hd' hd'
          all_goals simp only [List.cons_append, List.nil_append, List.cons.injEq] at h
          · rw [Char.toNat_inj.1 h.1, ih t h.2]
          · omega
          · omega
          · have heq : c.toNat = d.toNat := by omega
            rw [Char.toNat_inj.1 heq, ih t h.2.2]

end WireBindings.Target.Java
