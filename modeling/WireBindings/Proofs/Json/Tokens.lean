import WireBindings.Json.Reader
import WireBindings.Json.Writer
import WireBindings.Proofs.Text
import Mathlib.Data.List.Forall2

/-!
# Tokens of written values

A written text, a mark or white space is read as the same tokens whatever follows it, so the tokens
of a written value can be put together from those of its parts.
-/

namespace WireBindings.Json

/-! ## Escapes -/

theorem unitChar?_toNat (c : Char) : unitChar? c.toNat = some c := by
  have hvalid : c.toNat.isValidChar := c.valid
  rw [unitChar?, if_pos hvalid, Char.ofNat_toNat]

theorem toNat_valid (c : Char) : c.toNat < 0xd800 ∨ 0xe000 ≤ c.toNat ∧ c.toNat < 0x110000 := by
  rcases c.valid with h | ⟨h1, h2⟩
  · exact .inl h
  · exact .inr ⟨h1, h2⟩

theorem take_hexDigits_append (n : Nat) (rest : List Char) :
    (Text.hexDigits 4 n ++ rest).take 4 = Text.hexDigits 4 n := by
  have hlength := Text.length_hexDigits 4 n
  rw [List.take_append_of_le_length (by omega), List.take_of_length_le (by omega)]

theorem drop_hexDigits_append (n : Nat) (rest : List Char) :
    (Text.hexDigits 4 n ++ rest).drop 4 = rest := by
  have hlength := Text.length_hexDigits 4 n
  rw [List.drop_append_of_le_length (by omega), List.drop_of_length_le (by omega),
    List.nil_append]

theorem unicodeEscape_hexDigits {n : Nat} (hn : n < 0x10000) (hhigh : isHighSurrogate n = false)
    {rest : List Char} (hrest : rest ≠ []) :
    unicodeEscape (Text.hexDigits 4 n ++ rest) = .ok (unitChar? n, 4) := by
  have hlength := Text.length_hexDigits 4 n
  have hpos := List.length_pos_iff.2 hrest
  unfold unicodeEscape
  rw [if_neg (by rw [List.length_append]; omega), take_hexDigits_append,
    Text.hexNumber?_hexDigits_four hn]
  simp [hhigh]

/-- Two escapes that form a surrogate pair are read as one character. -/
theorem unicodeEscape_pair {high low : Nat} (hhigh : isHighSurrogate high = true)
    (hlow : isLowSurrogate low = true) {rest : List Char} (hrest : rest ≠ []) :
    unicodeEscape (Text.hexDigits 4 high ++ (unitEscape low ++ rest)) =
      .ok (some (Char.ofNat (0x10000 + (high - 0xd800) * 0x400 + (low - 0xdc00))), 10) := by
  have hlength := Text.length_hexDigits 4 high
  have hlength' := Text.length_hexDigits 4 low
  have hpos := List.length_pos_iff.2 hrest
  have hhighlt : high < 0x10000 := by
    simp only [isHighSurrogate, Bool.and_eq_true, decide_eq_true_eq] at hhigh
    omega
  have hlowlt : low < 0x10000 := by
    simp only [isLowSurrogate, Bool.and_eq_true, decide_eq_true_eq] at hlow
    omega
  have htotal : (Text.hexDigits 4 high ++ (unitEscape low ++ rest)).length = 10 + rest.length := by
    simp only [List.length_append, unitEscape, List.length_cons]
    omega
  have hmark : ((Text.hexDigits 4 high ++ (unitEscape low ++ rest)).drop 4).take 2 =
      ['\\', 'u'] := by
    rw [drop_hexDigits_append]
    rfl
  have hsecond : ((Text.hexDigits 4 high ++ (unitEscape low ++ rest)).drop 6).take 4 =
      Text.hexDigits 4 low := by
    rw [← List.drop_drop (i := 2) (j := 4), drop_hexDigits_append]
    exact take_hexDigits_append low rest
  unfold unicodeEscape
  rw [if_neg (by omega), take_hexDigits_append, Text.hexNumber?_hexDigits_four hhighlt]
  simp only [hhigh, htotal, hmark, hsecond, Text.hexNumber?_hexDigits_four hlowlt, hlow]
  simp
  omega

theorem escape_unitEscape {n : Nat} (hn : n < 0x10000) (hhigh : isHighSurrogate n = false)
    {rest : List Char} (hrest : rest ≠ []) :
    escape ('u' :: (Text.hexDigits 4 n ++ rest)) = .ok (unitChar? n, 5) := by
  rw [escape, if_pos rfl, unicodeEscape_hexDigits hn hhigh hrest]
  rfl

theorem escape_pair {high low : Nat} (hhigh : isHighSurrogate high = true)
    (hlow : isLowSurrogate low = true) {rest : List Char} (hrest : rest ≠ []) :
    escape ('u' :: (Text.hexDigits 4 high ++ (unitEscape low ++ rest))) =
      .ok (some (Char.ofNat (0x10000 + (high - 0xd800) * 0x400 + (low - 0xdc00))), 11) := by
  rw [escape, if_pos rfl, unicodeEscape_pair hhigh hlow hrest]
  rfl

theorem quotedText_escape {seen : List (Option Char)} {rest : List Char} {d : Option Char}
    {count : Nat}
    (h : escape rest = .ok (d, count)) :
    quotedText seen ('\\' :: rest) = quotedText (d :: seen) (rest.drop count) := by
  rw [quotedText, if_neg (by decide), if_pos rfl, h]

theorem escape_of_escapeLetter? {c letter : Char} (h : escapeLetter? c = some letter)
    (rest : List Char) : escape (letter :: rest) = .ok (some c, 1) := by
  have hall : ∀ entry ∈ [('"', '"'), ('\\', '\\'), ('\n', 'n'), ('\r', 'r'), ('\t', 't'),
      ('\x08', 'b'), ('\x0c', 'f')], entry.2 ≠ 'u' ∧ letterEscape? entry.2 = some entry.1 := by
    decide
  obtain ⟨l, l', hsplit, -⟩ := List.lookup_eq_some_iff.1 h
  have hmem : (c, letter) ∈ [('"', '"'), ('\\', '\\'), ('\n', 'n'), ('\r', 'r'), ('\t', 't'),
      ('\x08', 'b'), ('\x0c', 'f')] := by simp [hsplit]
  obtain ⟨hne, hletter⟩ := hall _ hmem
  rw [escape, if_neg hne, hletter]

theorem quotedText_unitEscape (seen : List (Option Char)) {c : Char} (hunit : c.toNat < 0x10000)
    {rest : List Char} (hrest : rest ≠ []) :
    quotedText seen (unitEscape c.toNat ++ rest) = quotedText (some c :: seen) rest := by
  have hhigh : isHighSurrogate c.toNat = false := by
    have hvalid := toNat_valid c
    simp only [isHighSurrogate, Bool.and_eq_false_iff, decide_eq_false_iff_not]
    omega
  have hescape := escape_unitEscape hunit hhigh hrest
  rw [unitChar?_toNat] at hescape
  refine (quotedText_escape hescape).trans ?_
  rw [List.drop_succ_cons, drop_hexDigits_append]

/-- A character beyond the first plane is read from its surrogates. -/
theorem quotedText_surrogates (seen : List (Option Char)) {c : Char} (hunit : ¬ c.toNat < 0x10000)
    {rest : List Char} (hrest : rest ≠ []) :
    quotedText seen (unitEscape (0xd800 + (c.toNat - 0x10000) / 0x400) ++
      (unitEscape (0xdc00 + (c.toNat - 0x10000) % 0x400) ++ rest)) =
        quotedText (some c :: seen) rest := by
  have hvalid := toNat_valid c
  have hhigh : isHighSurrogate (0xd800 + (c.toNat - 0x10000) / 0x400) = true := by
    simp only [isHighSurrogate, Bool.and_eq_true, decide_eq_true_eq]
    omega
  have hlow : isLowSurrogate (0xdc00 + (c.toNat - 0x10000) % 0x400) = true := by
    simp only [isLowSurrogate, Bool.and_eq_true, decide_eq_true_eq]
    omega
  have hcode : 0x10000 + (0xd800 + (c.toNat - 0x10000) / 0x400 - 0xd800) * 0x400 +
      (0xdc00 + (c.toNat - 0x10000) % 0x400 - 0xdc00) = c.toNat := by omega
  have hescape := escape_pair hhigh hlow hrest
  rw [hcode, Char.ofNat_toNat] at hescape
  refine (quotedText_escape hescape).trans ?_
  rw [List.drop_succ_cons, ← List.drop_drop (i := 6) (j := 4), drop_hexDigits_append,
    unitEscape, List.cons_append, List.cons_append, List.drop_succ_cons,
    List.drop_succ_cons, drop_hexDigits_append]

/-- A written character is read as itself, whatever has been read before it. -/
theorem quotedText_writtenChar (seen : List (Option Char)) (c : Char) {rest : List Char}
    (hrest : rest ≠ []) :
    quotedText seen (writtenChar c ++ rest) = quotedText (some c :: seen) rest := by
  unfold writtenChar
  simp only
  split
  · rename_i letter hletter
    exact quotedText_escape (escape_of_escapeLetter? hletter rest)
  · rename_i hnone
    have hquote : c ≠ '"' := by
      rintro rfl
      cases hnone
    have hbackslash : c ≠ '\\' := by
      rintro rfl
      cases hnone
    split
    · rename_i hplain
      rw [List.singleton_append, quotedText, if_neg hquote, if_neg hbackslash,
        if_neg (by omega)]
    · split
      · rename_i hunit
        exact quotedText_unitEscape seen hunit hrest
      · rename_i hunit
        rw [List.append_assoc]
        exact quotedText_surrogates seen hunit hrest

theorem quotedText_writtenChars (seen s rest : List Char) :
    quotedText (seen.map some) (s.flatMap writtenChar ++ '"' :: rest) =
      (.text (String.ofList (seen.reverse ++ s)), rest) := by
  induction s generalizing seen with
  | nil =>
      have htoken : textToken (seen.map some).reverse = .text (String.ofList seen.reverse) := by
        rw [textToken, ← List.map_reverse, if_pos (by simp), Text.reduceOption_map_some]
      rw [List.flatMap_nil, List.nil_append, quotedText, if_pos rfl, htoken, List.append_nil]
  | cons c s ih =>
      rw [List.flatMap_cons, List.append_assoc, quotedText_writtenChar _ c (by simp),
        ← List.map_cons, ih, List.reverse_cons, List.append_assoc, List.singleton_append]

/-! ## Tokens that do not depend on what follows -/

/-- A text is read as these tokens, whatever follows it. -/
def Lexes (s : List Char) (ts : List Token) : Prop :=
  ∀ rest, tokens (s ++ rest) = ts ++ tokens rest

namespace Lexes

theorem nil : Lexes [] [] := fun _ => rfl

theorem append {s s' : List Char} {ts ts' : List Token} (h : Lexes s ts) (h' : Lexes s' ts') :
    Lexes (s ++ s') (ts ++ ts') := by
  intro rest
  rw [List.append_assoc, h, h', List.append_assoc]

theorem space {s : List Char} (h : s.all isSpace = true) : Lexes s [] := by
  intro rest
  induction s with
  | nil => rfl
  | cons c s ih =>
      rw [List.all_cons, Bool.and_eq_true] at h
      rw [List.cons_append, tokens, if_pos h.1]
      exact ih h.2

theorem mark {c : Char} {token : Token} (hspace : isSpace c = false)
    (h : mark? c = some token) : Lexes [c] [token] := by
  intro rest
  rw [List.singleton_append, tokens, if_neg (by simp [hspace])]
  simp [firstToken, h]

theorem writtenText (s : String) : Lexes (Json.writtenText s).toList [.text s] := by
  intro rest
  have hmark : mark? '"' = none := rfl
  have htext : quotedText [] (s.toList.flatMap writtenChar ++ '"' :: rest) = (.text s, rest) := by
    simpa using quotedText_writtenChars [] s.toList rest
  rw [Json.writtenText, String.toList_ofList, List.cons_append, List.cons_append, tokens,
    if_neg (by decide), List.append_assoc, List.singleton_append]
  simp [firstToken, hmark, htext]

theorem bool (b : Bool) : Lexes (if b then "true" else "false").toList [.literal (.bool b)] := by
  intro rest
  have hword : ∀ c s, mark? c = none → c ≠ '"' → isSpace c = false →
      literal? (c :: s) = some (.bool b, rest) →
      tokens (c :: s) = [.literal (.bool b)] ++ tokens rest := by
    intro c s hmark hquote hspace hliteral
    rw [tokens, if_neg (by simp [hspace])]
    simp [firstToken, hmark, hquote, hliteral]
  cases b
  · exact hword 'f' ('a' :: 'l' :: 's' :: 'e' :: rest) rfl (by decide) rfl rfl
  · exact hword 't' ('r' :: 'u' :: 'e' :: rest) rfl (by decide) rfl rfl

theorem intercalate {sep : List Char} {tsep : List Token} (hsep : Lexes sep tsep)
    {texts : List (List Char)} {tokens : List (List Token)}
    (h : List.Forall₂ Lexes texts tokens) :
    Lexes (sep.intercalate texts) (tsep.intercalate tokens) := by
  induction h with
  | nil => exact nil
  | @cons s ts texts tokens hs hrest ih =>
      cases hrest with
      | nil =>
          rw [List.intercalate_singleton, List.intercalate_singleton]
          exact hs
      | cons hs' hrest =>
          rw [List.intercalate_cons_cons, List.intercalate_cons_cons]
          exact (hs.append hsep).append ih

theorem lineStart (level : Nat) : Lexes (Layout.lineStart level).toList [] := by
  refine space (List.all_eq_true.2 ?_)
  intro c hc
  rw [Layout.lineStart, String.toList_ofList, List.mem_cons, List.mem_replicate] at hc
  rcases hc with rfl | ⟨-, rfl⟩ <;> rfl

theorem enclose {layout : Layout} {level : Nat} {opening closing : String} {o c : Token}
    (ho : Lexes opening.toList [o]) (hc : Lexes closing.toList [c]) {items : List String}
    {tokens : List (List Token)} (h : List.Forall₂ Lexes (items.map String.toList) tokens) :
    Lexes (layout.enclose level opening closing items).toList
      (o :: ([.comma].intercalate tokens ++ [c])) := by
  have hcomma : Lexes [','] [.comma] := mark rfl rfl
  unfold Layout.enclose
  cases items with
  | nil =>
      obtain rfl := List.forall₂_nil_left_iff.1 h
      rw [List.isEmpty_nil, if_pos rfl, String.toList_append]
      exact ho.append hc
  | cons item items =>
      rw [if_neg (by simp)]
      cases layout with
      | inline =>
          have hsep : Lexes ", ".toList [.comma] := hcomma.append (space (s := [' ']) rfl)
          simp only [String.toList_append, String.toList_intercalate]
          exact (ho.append (intercalate hsep h)).append hc
      | indented =>
          have hsep : Lexes ("," ++ Layout.lineStart (level + 1)).toList [.comma] := by
            rw [String.toList_append]
            exact hcomma.append (lineStart (level + 1))
          simp only [String.toList_append, String.toList_intercalate] at hsep ⊢
          have hall := (((ho.append (lineStart (level + 1))).append (intercalate hsep h)).append
            (lineStart level)).append hc
          simpa using hall

end Lexes

/-! ## Values without numbers -/

/-- A value of texts, truth values, lists and objects with distinct keys. -/
inductive Value.Plain : Value → Prop
  | bool (b : Bool) : Plain (.bool b)
  | text (s : String) : Plain (.text s)
  | array {items : List Value} (h : ∀ v ∈ items, Plain v) : Plain (.array items)
  | object {entries : List (String × Value)} (hkeys : (entries.map Prod.fst).Nodup)
      (h : ∀ e ∈ entries, Plain e.2) : Plain (.object entries)

mutual

def valueTokens : Value → List Token
  | .array items => .openArray :: ([.comma].intercalate (itemTokens items) ++ [.closeArray])
  | .object entries =>
    .openObject :: ([.comma].intercalate (entryTokens entries) ++ [.closeObject])
  | .text s => [.text s]
  | v => [.literal v]

def itemTokens : List Value → List (List Token)
  | [] => []
  | v :: items => valueTokens v :: itemTokens items

def entryTokens : List (String × Value) → List (List Token)
  | [] => []
  | (key, v) :: entries => (.text key :: .colon :: valueTokens v) :: entryTokens entries

end

theorem lexes_writeItems {layout : Layout} {items : List Value}
    (h : ∀ v ∈ items, ∀ level, Lexes (v.writeAt layout level).toList (valueTokens v))
    (level : Nat) :
    List.Forall₂ Lexes ((Value.writeItems layout level items).map String.toList)
      (itemTokens items) := by
  induction items with
  | nil => exact .nil
  | cons v items ih =>
      obtain ⟨hv, hitems⟩ := List.forall_mem_cons.1 h
      exact .cons (hv level) (ih hitems)

theorem lexes_writeEntries {layout : Layout} {entries : List (String × Value)}
    (h : ∀ e ∈ entries, ∀ level, Lexes (e.2.writeAt layout level).toList (valueTokens e.2))
    (level : Nat) :
    List.Forall₂ Lexes ((Value.writeEntries layout level entries).map String.toList)
      (entryTokens entries) := by
  induction entries with
  | nil => exact .nil
  | cons e entries ih =>
      obtain ⟨key, v⟩ := e
      obtain ⟨hv, hentries⟩ := List.forall_mem_cons.1 h
      have hcolon : Lexes ": ".toList [.colon] :=
        (Lexes.mark (c := ':') rfl rfl).append (Lexes.space (s := [' ']) rfl)
      have hentry := ((Lexes.writtenText key).append hcolon).append (hv level)
      refine .cons ?_ (ih hentries)
      rw [String.toList_append, String.toList_append]
      exact hentry

/-- The text of a value is read as the tokens of the value. -/
theorem Value.Plain.lexes {v : Value} (h : v.Plain) (layout : Layout) (level : Nat) :
    Lexes (v.writeAt layout level).toList (valueTokens v) := by
  -- what is inside a list or an object stands one level deeper
  induction h generalizing level with
  | bool b =>
      rw [writeAt, valueTokens]
      · exact Lexes.bool b
      all_goals simp
  | text s =>
      rw [writeAt, valueTokens]
      exact Lexes.writtenText s
  | array _ ih =>
      have hopen : Lexes "[".toList [.openArray] := Lexes.mark (c := '[') rfl rfl
      have hclose : Lexes "]".toList [.closeArray] := Lexes.mark (c := ']') rfl rfl
      rw [writeAt, valueTokens]
      exact Lexes.enclose hopen hclose (lexes_writeItems ih _)
  | object _ _ ih =>
      have hopen : Lexes "\x7b".toList [.openObject] := Lexes.mark (c := '\x7b') rfl rfl
      have hclose : Lexes "\x7d".toList [.closeObject] := Lexes.mark (c := '\x7d') rfl rfl
      rw [writeAt, valueTokens]
      exact Lexes.enclose hopen hclose (lexes_writeEntries ih _)

end WireBindings.Json
