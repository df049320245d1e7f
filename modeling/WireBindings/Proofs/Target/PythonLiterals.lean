import WireBindings.Proofs.Json.Tokens
import WireBindings.Proofs.Target.Literals
import WireBindings.Proofs.Target.UnicodeEscapes
import WireBindings.Target.PythonText

/-!
# Python string literals

The value of a literal is a list of code points. An escape of four digits stands for one code
point, a surrogate as well, so the two escapes that are written for a character beyond the first
plane are read as two code points. Every other text is read back as it was written.
-/

namespace WireBindings.Target.Python

open Java (codeUnits units)

/-! ## Reading literals -/

def escapeLetters : List (Char × Nat) :=
  [('\\', '\\'), ('\'', '\''), ('"', '"'), ('a', '\x07'), ('b', '\x08'), ('f', '\x0c'), ('n', '\n'),
    ('r', '\r'), ('t', '\t'), ('v', '\x0b')].map fun (letter, c) => (letter, c.toNat)

def hexEscapes : List (Char × Nat) := [('x', 2), ('u', 4), ('U', 8)]

def hexPoint? (count : Nat) (s : List Char) : Option Nat :=
  if s.length < count then none else (Text.hexNumber? (s.take count)).filter (· < 0x110000)

/-- The octal digits at the head of a text, at most three. -/
def octalDigits (s : List Char) : List Nat := ((s.map Char.toNat).takeWhile isOctalDigit).take 3

/-- What an escape stands for, read behind its backslash, and the count of characters it takes. A
line end stands for nothing, and a backslash before any other character for itself. Escapes by name
are not read. -/
def escape? : List Char → Option (List Nat × Nat)
  | [] => none
  | c :: s =>
    if c = '\n' then some ([], 1)
    else if c = 'N' then none
    else
      match escapeLetters.lookup c, hexEscapes.lookup c with
      | some n, _ => some ([n], 1)
      | none, some count => (hexPoint? count s).map fun n => ([n], count + 1)
      | none, none =>
        let digits := octalDigits (c :: s)
        some (if digits.isEmpty then (['\\'.toNat], 0) else ([octalNumber digits], digits.length))

/-- The value up to the closing quotes and what follows these. Source text has no null characters
and ends its lines with line feeds; only three quotes enclose several lines. -/
def toQuotes? (quotes s : List Char) : Option (List Nat × List Char) :=
  match s with
  | [] => none
  | c :: rest =>
    if quotes.isPrefixOf (c :: rest) then some ([], (c :: rest).drop quotes.length)
    else if c = '\x00' ∨ c = '\r' ∨ c = '\n' ∧ quotes.length = 1 then none
    else if c = '\\' then
      match escape? rest with
      | some (piece, count) => behind piece (toQuotes? quotes (rest.drop count))
      | none => none
    else behind [c.toNat] (toQuotes? quotes rest)
termination_by s.length
decreasing_by all_goals simp only [List.length_cons, List.length_drop]; omega

def quoteMarks : List (List Char) := ["\"\"\"".toList, "'''".toList, "\"".toList, "'".toList]

def literal? (s : List Char) : Option (List Nat × List Char) :=
  (quoteMarks.find? (·.isPrefixOf s)).bind fun quotes => toQuotes? quotes (s.drop quotes.length)

def codePoints (s : String) : List Nat := s.toList.map Char.toNat

def IsLiteralOf (text : String) (value : List Nat) : Prop :=
  ∀ after, after.head? ≠ some '"' → literal? (text.toList ++ after) = some (value, after)

def InFirstPlane (s : String) : Prop := ∀ c ∈ s.toList, c.toNat < 0x10000

-- the characters of the text are tested, not all that there are
instance (s : String) : Decidable (InFirstPlane s) :=
  decidable_of_iff (s.toList.all (fun c => c.toNat < 0x10000) = true) (by simp [InFirstPlane])

/-! ## Pieces of literals -/

/-- The text is read as the value between such quotes, whatever follows it. -/
def Reads (quotes text : List Char) (value : List Nat) : Prop :=
  ∀ s, toQuotes? quotes (text ++ s) = behind value (toQuotes? quotes s)

namespace Reads

variable {quotes text text' : List Char} {value value' : List Nat}

theorem nil : Reads quotes [] [] := fun _ => (behind_nil _).symm

theorem append (h : Reads quotes text value) (h' : Reads quotes text' value') :
    Reads quotes (text ++ text') (value ++ value') := by
  intro s
  rw [List.append_assoc, h, h', behind_behind]

theorem flatMap {α : Type} {f : α → List Char} {g : α → List Nat} {l : List α}
    (h : ∀ a ∈ l, Reads quotes (f a) (g a)) : Reads quotes (l.flatMap f) (l.flatMap g) := by
  induction l with
  | nil => exact nil
  | cons a l ih =>
      obtain ⟨ha, hl⟩ := List.forall_mem_cons.1 h
      rw [List.flatMap_cons, List.flatMap_cons]
      exact ha.append (ih hl)

theorem isPrefixOf_eq_false {c : Char} (h : quotes.head? = some '"') (hc : c ≠ '"')
    (s : List Char) : quotes.isPrefixOf (c :: s) = false := by
  obtain ⟨quotes, rfl⟩ := List.head?_eq_some_iff.1 h
  rw [List.isPrefixOf_cons_cons, beq_eq_false_iff_ne.2 (Ne.symm hc), Bool.false_and]

theorem plain {c : Char} (h : quotes.head? = some '"') (hc : c ∉ ['"', '\\', '\x00', '\r'])
    (hline : c = '\n' → quotes.length ≠ 1) : Reads quotes [c] [c.toNat] := by
  intro s
  simp only [List.mem_cons, List.not_mem_nil, or_false, not_or] at hc
  obtain ⟨hquote, hslash, hnull, hreturn⟩ := hc
  rw [List.singleton_append, toQuotes?, if_neg (by rw [isPrefixOf_eq_false h hquote]; decide),
    if_neg (by rw [not_or, not_or, not_and]; exact ⟨hnull, hreturn, hline⟩), if_neg hslash]

theorem escape {piece : List Nat} {count : Nat} (h : quotes.head? = some '"')
    (hescape : ∀ s, escape? (text ++ s) = some (piece, count)) (hcount : text.length = count) :
    Reads quotes ('\\' :: text) piece := by
  intro s
  have hslash : ¬ ('\\' = '\x00' ∨ '\\' = '\r' ∨ '\\' = '\n' ∧ quotes.length = 1) := by
    rintro (h | h | ⟨h, -⟩) <;> exact absurd h (by decide)
  rw [List.cons_append, toQuotes?, if_neg (by rw [isPrefixOf_eq_false h (by decide)]; decide),
    if_neg hslash, if_pos rfl, hescape s]
  simp only [← hcount, List.drop_left]

theorem letter {c : Char} {n : Nat} (h : quotes.head? = some '"')
    (hc : escapeLetters.lookup c = some n) : Reads quotes ['\\', c] [n] := by
  have hplain : ∀ entry ∈ escapeLetters, entry.1 ≠ '\n' ∧ entry.1 ≠ 'N' := by decide
  obtain ⟨l, l', hsplit, -⟩ := List.lookup_eq_some_iff.1 hc
  obtain ⟨hline, hname⟩ := hplain (c, n) (by simp [hsplit])
  refine escape h (fun s => ?_) rfl
  rw [List.singleton_append, escape?, if_neg hline, if_neg hname, hc]
  rfl

theorem unitEscape {n : Nat} (h : quotes.head? = some '"') (hn : n < 0x10000) :
    Reads quotes (Json.unitEscape n) [n] := by
  have hlength := Text.length_hexDigits 4 n
  refine escape h (fun s => ?_) (congrArg (· + 1) hlength)
  have hletter : escapeLetters.lookup 'u' = none := by decide
  have hcount : hexEscapes.lookup 'u' = some 4 := by decide
  have hpoint : hexPoint? 4 (Text.hexDigits 4 n ++ s) = some n := by
    rw [hexPoint?, if_neg (by rw [List.length_append]; omega), Json.take_hexDigits_append,
      Text.hexNumber?_hexDigits_four hn, Option.filter_some, if_pos (by simp; omega)]
  rw [List.cons_append, escape?, if_neg (by decide), if_neg (by decide), hletter, hcount]
  simp only [hpoint, Option.map_some]

end Reads

theorem toQuotes?_closing {quotes : List Char} (h : quotes ≠ []) (s : List Char) :
    toQuotes? quotes (quotes ++ s) = some ([], s) := by
  obtain ⟨c, quotes, rfl⟩ := List.exists_cons_of_ne_nil h
  have hprefix : (c :: quotes).isPrefixOf (c :: quotes ++ s) = true := by
    rw [List.isPrefixOf_iff_prefix]
    exact List.prefix_append _ _
  rw [List.cons_append] at hprefix ⊢
  rw [toQuotes?, if_pos hprefix, ← List.cons_append, List.drop_left]

/-! ## Written characters -/

def IsMarkup (c : Char) : Prop := c = '<' ∨ c = '>' ∨ c = '&' ∨ c = '\''

instance (c : Char) : Decidable (IsMarkup c) := inferInstanceAs (Decidable (_ ∨ _))

theorem escapeLetter?_eq_some {c letter : Char} (h : Json.escapeLetter? c = some letter) :
    escapeLetters.lookup letter = some c.toNat ∧ ¬ IsMarkup letter ∧ c.toNat < 0x10000 := by
  have hall : ∀ entry ∈ [('"', '"'), ('\\', '\\'), ('\n', 'n'), ('\r', 'r'), ('\t', 't'),
      ('\x08', 'b'), ('\x0c', 'f')], escapeLetters.lookup entry.2 = some entry.1.toNat ∧
        ¬ IsMarkup entry.2 ∧ entry.1.toNat < 0x10000 := by decide
  obtain ⟨l, l', hsplit, -⟩ := List.lookup_eq_some_iff.1 h
  have hmem : (c, letter) ∈ [('"', '"'), ('\\', '\\'), ('\n', 'n'), ('\r', 'r'), ('\t', 't'),
      ('\x08', 'b'), ('\x0c', 'f')] := by simp [hsplit]
  exact hall _ hmem

theorem writtenChar_cases (c : Char) :
    (Json.writtenChar c = [c] ∧ c ≠ '"' ∧ c ≠ '\\' ∧ 0x20 ≤ c.toNat ∧ codeUnits c = [c.toNat]) ∨
      (∃ letter, Json.writtenChar c = ['\\', letter] ∧ ¬ IsMarkup letter ∧
        escapeLetters.lookup letter = some c.toNat ∧ codeUnits c = [c.toNat]) ∨
      Json.writtenChar c = (codeUnits c).flatMap Json.unitEscape ∧
        ∀ n ∈ codeUnits c, n < 0x10000 := by
  unfold Json.writtenChar codeUnits
  simp only
  split
  · next letter hletter =>
    obtain ⟨hlookup, hmarkup, hunit⟩ := escapeLetter?_eq_some hletter
    exact .inr (.inl ⟨letter, rfl, hmarkup, hlookup, if_pos hunit⟩)
  · next hnone =>
    split
    · next hascii =>
      refine .inl ⟨rfl, ?_, ?_, hascii.1, if_pos (by omega)⟩
      all_goals
        rintro rfl
        cases hnone
    · split
      · next hunit => exact .inr (.inr ⟨by simp, by simpa using hunit⟩)
      · have hvalid := Json.toNat_valid c
        refine .inr (.inr ⟨by simp, ?_⟩)
        simp only [List.mem_cons, List.not_mem_nil, or_false, forall_eq_or_imp, forall_eq]
        omega

theorem reads_writtenChar (c : Char) : Reads ['"'] (Json.writtenChar c) (codeUnits c) := by
  obtain ⟨hwritten, hquote, hslash, hlarge, hunit⟩ | ⟨letter, hwritten, -, hletter, hunit⟩ |
    ⟨hwritten, hunits⟩ := writtenChar_cases c
  · have hsmall {x : Char} (hx : x.toNat < 0x20) : c ≠ x := by
      rintro rfl
      omega
    rw [hwritten, hunit]
    refine .plain rfl ?_ fun hline => absurd hline (hsmall (by decide))
    simp only [List.mem_cons, List.not_mem_nil, or_false, not_or]
    exact ⟨hquote, hslash, hsmall (by decide), hsmall (by decide)⟩
  · rw [hwritten, hunit]
    exact .letter rfl hletter
  · have hreads : Reads ['"'] ((codeUnits c).flatMap Json.unitEscape)
        ((codeUnits c).flatMap ([·])) := .flatMap fun n hn => .unitEscape rfl (hunits n hn)
    rwa [List.flatMap_singleton', ← hwritten] at hreads

theorem head?_writtenChar (c : Char) : ∃ x text, Json.writtenChar c = x :: text ∧ x ≠ '"' := by
  obtain ⟨hwritten, hquote, -⟩ | ⟨letter, hwritten, -⟩ | ⟨hwritten, -⟩ := writtenChar_cases c
  · exact ⟨c, [], hwritten, hquote⟩
  · exact ⟨'\\', [letter], hwritten, by decide⟩
  · obtain hunit | ⟨high, low, hunit, -⟩ := Java.codeUnits_cases c <;> rw [hwritten, hunit]
    · exact ⟨'\\', _, rfl, by decide⟩
    · exact ⟨'\\', _, rfl, by decide⟩

theorem flatMap_markupChar_eq {s : List Char} (h : ∀ c ∈ s, ¬ IsMarkup c) :
    s.flatMap markupChar = s := by
  induction s with
  | nil => rfl
  | cons c s ih =>
      obtain ⟨hc, hs⟩ := List.forall_mem_cons.1 h
      rw [List.flatMap_cons, ih hs, markupChar]
      exact congrArg (· ++ s) (if_neg hc)

theorem not_isMarkup_of_mem_unitEscape {n : Nat} {c : Char} (h : c ∈ Json.unitEscape n) :
    ¬ IsMarkup c := by
  have hdigit : ∀ d < 16, ¬ IsMarkup (Nat.digitChar d) := by decide
  rw [Json.unitEscape, List.mem_cons, List.mem_cons] at h
  obtain rfl | rfl | h := h
  · decide
  · decide
  · obtain ⟨d, hd, rfl⟩ := Text.exists_of_mem_hexDigits h
    exact hdigit d hd

/-- A written character that has a meaning in markup is escaped, and the others stay. -/
theorem flatMap_markupChar_writtenChar (c : Char) :
    (Json.writtenChar c).flatMap markupChar =
      if IsMarkup c then Json.unitEscape c.toNat else Json.writtenChar c := by
  by_cases hmarkup : IsMarkup c
  · rw [if_pos hmarkup]
    obtain rfl | rfl | rfl | rfl := hmarkup <;> rfl
  rw [if_neg hmarkup]
  apply flatMap_markupChar_eq
  intro x hx
  obtain ⟨hwritten, -⟩ | ⟨letter, hwritten, hletter, -⟩ | ⟨hwritten, -⟩ := writtenChar_cases c
  all_goals rw [hwritten] at hx
  · rwa [List.mem_singleton.1 hx]
  · obtain rfl | hx := List.mem_cons.1 hx
    · decide
    · rwa [List.mem_singleton.1 hx]
  · obtain ⟨n, -, hx⟩ := List.mem_flatMap.1 hx
    exact not_isMarkup_of_mem_unitEscape hx

/-! ## Whole literals -/

structure IsWriting (write : Char → List Char) : Prop where
  reads : ∀ c, Reads ['"'] (write c) (codeUnits c)
  head : ∀ c, ∃ x text, write c = x :: text ∧ x ≠ '"'

theorem isWriting_writtenChar : IsWriting Json.writtenChar := ⟨reads_writtenChar, head?_writtenChar⟩

theorem isWriting_markup : IsWriting fun c => (Json.writtenChar c).flatMap markupChar where
  reads c := by
    simp only [flatMap_markupChar_writtenChar]
    split
    · next hmarkup =>
      have hunit : c.toNat < 0x10000 := by obtain rfl | rfl | rfl | rfl := hmarkup <;> decide
      rw [codeUnits, if_pos hunit]
      exact .unitEscape rfl hunit
    · exact reads_writtenChar c
  head c := by
    simp only [flatMap_markupChar_writtenChar]
    split
    · exact ⟨'\\', _, rfl, by decide⟩
    · exact head?_writtenChar c

/-- What two quotes enclose is the beginning of a literal, and not of three quotes. -/
theorem find?_quoteMarks {s : List Char} (h : s.take 2 ≠ ['"', '"']) :
    quoteMarks.find? (·.isPrefixOf ('"' :: s)) = some ['"'] := by
  have hlong : "\"\"\"".toList.isPrefixOf ('"' :: s) = false := by
    rw [Bool.eq_false_iff]
    intro hprefix
    obtain ⟨t, ht⟩ := List.isPrefixOf_iff_prefix.1 hprefix
    obtain rfl : ['"', '"'] ++ t = s := List.tail_eq_of_cons_eq ht
    exact h rfl
  have hsingle : "'''".toList.isPrefixOf ('"' :: s) = false := rfl
  have hshort : "\"".toList.isPrefixOf ('"' :: s) = true := by simp
  simp only [quoteMarks, List.find?, hlong, hsingle, hshort]
  rfl

theorem IsWriting.head?_ne {write : Char → List Char} (h : IsWriting write) (s : List Char) :
    (s.flatMap write).head? ≠ some '"' := by
  cases s with
  | nil => exact nofun
  | cons c s =>
      obtain ⟨x, text, hwritten, hx⟩ := h.head c
      rw [List.flatMap_cons, hwritten]
      exact mt Option.some.inj hx

/-- A text that is written character by character is read as its code units. -/
theorem IsWriting.isLiteralOf {write : Char → List Char} (h : IsWriting write) (s : String) :
    IsLiteralOf (String.ofList ('"' :: s.toList.flatMap write ++ ['"'])) (units s) := by
  intro after hafter
  have htake := take_two_ne (h.head?_ne s.toList) hafter
  have hreads : Reads ['"'] (s.toList.flatMap write) (units s) := .flatMap fun c _ => h.reads c
  rw [String.toList_ofList, List.cons_append, List.cons_append, List.append_assoc,
    List.singleton_append, literal?, find?_quoteMarks htake]
  change toQuotes? ['"'] (s.toList.flatMap write ++ (['"'] ++ after)) = _
  rw [hreads, toQuotes?_closing (List.cons_ne_nil _ _)]
  exact congrArg (fun value => some (value, after)) (List.append_nil _)

theorem isLiteralOf_stringLiteral (s : String) : IsLiteralOf (stringLiteral s) (units s) :=
  isWriting_writtenChar.isLiteralOf s

theorem isLiteralOf_markupLiteral (s : String) : IsLiteralOf (markupLiteral s) (units s) := by
  have hquote : markupChar '"' = ['"'] := by decide
  have htext : markupLiteral s = String.ofList
      ('"' :: (s.toList.flatMap fun c => (Json.writtenChar c).flatMap markupChar) ++ ['"']) := by
    rw [markupLiteral, guardMarkup, stringLiteral, Json.writtenText, String.toList_ofList,
      List.flatMap_append, List.flatMap_cons, List.flatMap_singleton, List.flatMap_assoc, hquote,
      List.singleton_append]
  rw [htext]
  exact isWriting_markup.isLiteralOf s

theorem Reads.isLiteralOf {s : String} {value : List Nat}
    (h : Reads "\"\"\"".toList s.toList value) :
    IsLiteralOf ("\"\"\"" ++ s ++ "\"\"\"") value := by
  intro after _
  have hfind (t : List Char) : quoteMarks.find? (·.isPrefixOf ("\"\"\"".toList ++ t)) =
      some "\"\"\"".toList := by
    have hprefix : "\"\"\"".toList.isPrefixOf ("\"\"\"".toList ++ t) = true :=
      List.isPrefixOf_iff_prefix.2 (List.prefix_append _ t)
    simp only [quoteMarks, List.find?, hprefix]
  rw [String.toList_append, String.toList_append, List.append_assoc, List.append_assoc, literal?,
    hfind, Option.bind_some, List.drop_left, h, toQuotes?_closing (by decide)]
  exact congrArg (fun read => some (read, after)) (List.append_nil value)

/-- A text has one value as a literal. -/
theorem IsLiteralOf.unique {text : String} {value value' : List Nat} (h : IsLiteralOf text value)
    (h' : IsLiteralOf text value') : value = value' := by
  have heq := (h [] nofun).symm.trans (h' [] nofun)
  exact congrArg Prod.fst (Option.some.inj heq)

/-- The code units of a text are its code points if no character needs two. -/
theorem units_eq_codePoints_iff (s : String) : units s = codePoints s ↔ InFirstPlane s := by
  unfold units codePoints InFirstPlane
  induction s.toList with
  | nil => simp
  | cons c s ih =>
      rw [List.flatMap_cons, List.map_cons, List.forall_mem_cons, ← ih, codeUnits]
      split
      · next hunit =>
        rw [List.singleton_append, List.cons.injEq, eq_self, true_and, and_iff_right hunit]
      · next hunit =>
        have hvalid := Json.toNat_valid c
        rw [List.cons_append, List.cons.injEq]
        constructor
        · rintro ⟨hfirst, -⟩
          omega
        · exact fun h => absurd h.1 hunit

end WireBindings.Target.Python
