import WireBindings.Json.Value
import WireBindings.Text.Hex

/-!
# Reading a text as a value

A text is first cut into tokens, of which the last may be a fault, and the tokens are then read with
an explicit list of open arrays and objects. A fault counts only when the reading reaches it, so the
first complaint in the order of the text is the one given. A quoted text with a surrogate on its own
is kept apart from all others: only a reader that brings a stand-in for it can go on.
-/

namespace WireBindings.Json

inductive ReadError
  | byteOrderMark
  | expectedValue
  | expectedKey
  | expectedColon
  | expectedComma
  | extraData
  | unterminatedText
  | controlCharacter
  | badEscape
  | badUnicodeEscape
  /-- A surrogate on its own is no character, and a text with one has no bytes. -/
  | loneSurrogate
  deriving DecidableEq, Repr

def ReadError.message : ReadError → String
  | .byteOrderMark => "Unexpected UTF-8 BOM (decode using utf-8-sig)"
  | .expectedValue => "Expecting value"
  | .expectedKey => "Expecting property name enclosed in double quotes"
  | .expectedColon => "Expecting ':' delimiter"
  | .expectedComma => "Expecting ',' delimiter"
  | .extraData => "Extra data"
  | .unterminatedText => "Unterminated string starting at"
  | .controlCharacter => "Invalid control character at"
  | .badEscape => "Invalid \\escape"
  | .badUnicodeEscape => "Invalid \\uXXXX escape"
  | .loneSurrogate => "surrogates not allowed"

inductive Token
  | openArray
  | closeArray
  | openObject
  | closeObject
  | colon
  | comma
  | literal (v : Value)
  | text (s : String)
  /-- A text with a surrogate on its own in it. -/
  | brokenText
  | badText (e : ReadError)
  | junk

def Token.isWhole : Token → Bool
  | .brokenText => false
  | _ => true

def Token.mended (standIn : String) : Token → Token
  | .brokenText => .text standIn
  | token => token

def isSpace (c : Char) : Bool := c = ' ' ∨ c = '\t' ∨ c = '\n' ∨ c = '\r'

/-- The character that a unit stands for; a surrogate on its own stands for none. -/
def unitChar? (n : Nat) : Option Char := if n.isValidChar then some (Char.ofNat n) else none

def isHighSurrogate (n : Nat) : Bool := 0xd800 ≤ n && n < 0xdc00
def isLowSurrogate (n : Nat) : Bool := 0xdc00 ≤ n && n < 0xe000

/-- The character of a `\u` escape, read after the letter, if it has one, and the count of
characters that the escape takes. -/
def unicodeEscape (s : List Char) : Except ReadError (Option Char × Nat) :=
  -- some character has to follow the four digits, if only the closing quote
  match if s.length < 5 then none else Text.hexNumber? (s.take 4) with
  | none => .error .badUnicodeEscape
  | some unit =>
    -- two escapes in a row that form a surrogate pair are one character
    if isHighSurrogate unit && 11 ≤ s.length && (s.drop 4).take 2 == ['\\', 'u'] then
      match Text.hexNumber? ((s.drop 6).take 4) with
      | none => .error .badUnicodeEscape
      | some low =>
        if isLowSurrogate low then
          .ok (some (Char.ofNat (0x10000 + (unit - 0xd800) * 0x400 + (low - 0xdc00))), 10)
        else .ok (unitChar? unit, 4)
    else .ok (unitChar? unit, 4)

def letterEscape? (c : Char) : Option Char :=
  [('"', '"'), ('\\', '\\'), ('/', '/'), ('b', '\x08'), ('f', '\x0c'), ('n', '\n'), ('r', '\r'),
    ('t', '\t')].lookup c

def escape : List Char → Except ReadError (Option Char × Nat)
  | [] => .error .unterminatedText
  | c :: s =>
    if c = 'u' then (unicodeEscape s).map fun (d, count) => (d, count + 1)
    else
      match letterEscape? c with
      | some d => .ok (some d, 1)
      | none => .error .badEscape

def textToken (chars : List (Option Char)) : Token :=
  if chars.all Option.isSome then .text (String.ofList chars.reduceOption) else .brokenText

/-- A text up to its closing quote, with the characters before it in `seen`, last one first. -/
def quotedText (seen : List (Option Char)) (s : List Char) : Token × List Char :=
  match s with
  | [] => (.badText .unterminatedText, [])
  | c :: rest =>
    if c = '"' then (textToken seen.reverse, rest)
    else if c = '\\' then
      match escape rest with
      | .error e => (.badText e, [])
      | .ok (d, count) => quotedText (d :: seen) (rest.drop count)
    else if c.toNat < 0x20 then (.badText .controlCharacter, [])
    else quotedText (some c :: seen) rest
termination_by s.length
decreasing_by all_goals simp only [List.length_cons, List.length_drop]; omega

theorem length_quotedText_le (seen : List (Option Char)) (s : List Char) :
    (quotedText seen s).2.length ≤ s.length := by
  fun_induction quotedText seen s with
  | case1 => simp
  | case2 => simp
  | case3 => simp
  | case4 seen rest d count _ _ ih =>
    simp only [List.length_drop] at ih
    simp only [List.length_cons]
    omega
  | case5 => simp
  | case6 => simp only [List.length_cons]; omega

def digitsNumber (digits : List Char) : Nat :=
  digits.foldl (fun n c => 10 * n + (c.toNat - '0'.toNat)) 0

/-- The digits of a whole number: a zero stands alone. -/
def wholeDigits (s : List Char) : List Char :=
  if s.head? = some '0' then ['0'] else s.takeWhile Char.isDigit

/-- The digits of the fraction at the head of a text; a point without a digit starts none. -/
def fractionDigits (s : List Char) : List Char :=
  if s.head? = some '.' then (s.drop 1).takeWhile Char.isDigit else []

def exponent? (s : List Char) : Option (Int × Nat) :=
  if s.head? = some 'e' ∨ s.head? = some 'E' then
    let signed := (s.drop 1).head?
    let signCount := if signed = some '-' ∨ signed = some '+' then 1 else 0
    let digits := (s.drop (1 + signCount)).takeWhile Char.isDigit
    let power : Int := digitsNumber digits
    if digits.isEmpty then none
    else some (if signed = some '-' then -power else power, 1 + signCount + digits.length)
  else none

/-- The number at the head of a text without a sign, and what follows it. -/
def unsignedNumber (negative : Bool) (s : List Char) : Number × List Char :=
  let whole := wholeDigits s
  let rest := s.drop whole.length
  let fraction := fractionDigits rest
  let rest := if fraction.isEmpty then rest else rest.drop (1 + fraction.length)
  match exponent? rest with
  | none =>
    if fraction.isEmpty then
      (.integer (if negative then -(digitsNumber whole : Int) else digitsNumber whole), rest)
    else (.decimal ⟨negative, digitsNumber (whole ++ fraction), -fraction.length⟩, rest)
  | some (power, count) =>
    (.decimal ⟨negative, digitsNumber (whole ++ fraction), power - fraction.length⟩,
      rest.drop count)

/-- The number at the head of a text, with its sign; none if no digit stands there. -/
def signedNumber? (s : List Char) : Option (Number × List Char) :=
  let negative := s.head? == some '-'
  let digits := if negative then s.drop 1 else s
  if (digits.head?.map Char.isDigit).getD false then some (unsignedNumber negative digits) else none

def literalWords : List (List Char × Value) :=
  [("null".toList, .null), ("true".toList, .bool true), ("false".toList, .bool false),
    ("NaN".toList, .number .notANumber), ("Infinity".toList, .number (.infinity false)),
    ("-Infinity".toList, .number (.infinity true))]

def literal? (s : List Char) : Option (Value × List Char) :=
  match literalWords.find? fun word => word.1.isPrefixOf s with
  | some (word, v) => some (v, s.drop word.length)
  | none => (signedNumber? s).map fun (n, rest) => (.number n, rest)

def mark? (c : Char) : Option Token :=
  [('[', Token.openArray), (']', .closeArray), ('{', .openObject), ('}', .closeObject),
    (':', .colon), (',', .comma)].lookup c

/-- The first token of a text that starts with `c`, and what follows it; nothing follows a fault. -/
def firstToken (c : Char) (s : List Char) : Token × List Char :=
  match mark? c with
  | some token => (token, s)
  | none =>
    if c = '"' then quotedText [] s
    else
      match literal? (c :: s) with
      | some (v, rest) => (.literal v, rest)
      | none => (.junk, [])

theorem length_unsignedNumber_lt {negative : Bool} {s : List Char}
    (h : (s.head?.map Char.isDigit).getD false = true) :
    (unsignedNumber negative s).2.length < s.length := by
  have hw : 0 < (wholeDigits s).length ∧ 0 < s.length := by
    cases s with
    | nil => simp at h
    | cons c s =>
      simp only [List.head?_cons, Option.map_some, Option.getD_some] at h
      unfold wholeDigits
      split <;> simp [h]
  unfold unsignedNumber
  simp only
  repeat' split
  all_goals simp only [List.length_drop]
  all_goals omega

theorem length_signedNumber?_lt {s rest : List Char} {n : Number}
    (h : signedNumber? s = some (n, rest)) : rest.length < s.length := by
  unfold signedNumber? at h
  simp only [Option.ite_none_right_eq_some, Option.some.injEq] at h
  have := @length_unsignedNumber_lt (s.head? == some '-') _ h.1
  rw [h.2] at this
  split at this
  · simp only [List.length_drop] at this; omega
  · exact this

theorem literalWords_ne_nil {word : List Char} {v : Value} (h : (word, v) ∈ literalWords) :
    word ≠ [] := by
  simp only [literalWords, List.mem_cons, List.not_mem_nil, or_false, Prod.mk.injEq] at h
  rcases h with h | h | h | h | h | h <;> simp [h.1]

theorem length_literal?_lt {s rest : List Char} {v : Value} (h : literal? s = some (v, rest)) :
    rest.length < s.length := by
  unfold literal? at h
  split at h
  · rename_i word w hf
    have hne := List.length_pos_iff.2 (literalWords_ne_nil (List.mem_of_find?_eq_some hf))
    have hp := List.find?_some hf
    simp only [List.isPrefixOf_iff_prefix] at hp
    have := hp.length_le
    cases h
    simp only [List.length_drop]
    omega
  · obtain ⟨⟨n, r⟩, hn, hr⟩ := Option.map_eq_some_iff.1 h
    cases hr
    exact length_signedNumber?_lt hn

theorem length_firstToken_lt (c : Char) (s : List Char) :
    (firstToken c s).2.length < (c :: s).length := by
  have := length_quotedText_le [] s
  unfold firstToken
  split
  · simp
  · split
    · simp only [List.length_cons]; omega
    · split
      · rename_i h
        exact length_literal?_lt h
      · simp

def tokens (s : List Char) : List Token :=
  match s with
  | [] => []
  | c :: rest =>
    if isSpace c then tokens rest
    else
      have := length_firstToken_lt c rest
      (firstToken c rest).1 :: tokens (firstToken c rest).2
termination_by s.length
decreasing_by all_goals simp_all

/-- An array or object that waits for a value inside it: the items before it, last one first, or the
entries before it and its key. -/
inductive Frame
  | array (items : List Value)
  | object (entries : List (String × Value)) (key : String)

/-- What the reading waits for: a value, the first item or key of what was just opened, a key after
a comma, the colon after a key, what follows an item or an entry, or nothing more. -/
inductive Awaiting
  | value
  | firstItem
  | firstKey
  | key (entries : List (String × Value))
  | colon (entries : List (String × Value)) (key : String)
  | itemEnd (items : List Value)
  | entryEnd (entries : List (String × Value))
  | nothing (v : Value)

/-- A reading in progress, with the open arrays and objects from the innermost out. -/
structure Reading where
  awaiting : Awaiting
  frames : List Frame

namespace Reading

def deliver (v : Value) : List Frame → Reading
  | [] => ⟨.nothing v, []⟩
  | .array items :: frames => ⟨.itemEnd (v :: items), frames⟩
  -- a key that was there before takes the new value and keeps its place
  | .object entries key :: frames => ⟨.entryEnd (Value.setField key v entries), frames⟩

def startValue (frames : List Frame) : Token → Except ReadError Reading
  | .openArray => .ok ⟨.firstItem, frames⟩
  | .openObject => .ok ⟨.firstKey, frames⟩
  | .literal v => .ok (deliver v frames)
  | .text s => .ok (deliver (.text s) frames)
  | .badText e => .error e
  | _ => .error .expectedValue

def startEntry (frames : List Frame) (entries : List (String × Value)) :
    Token → Except ReadError Reading
  | .text key => .ok ⟨.colon entries key, frames⟩
  | .badText e => .error e
  | _ => .error .expectedKey

def step (r : Reading) (token : Token) : Except ReadError Reading :=
  match r.awaiting, token with
  | .value, token => startValue r.frames token
  | .firstItem, .closeArray => .ok (deliver (.array []) r.frames)
  | .firstItem, token => startValue (.array [] :: r.frames) token
  | .firstKey, .closeObject => .ok (deliver (.object []) r.frames)
  | .firstKey, token => startEntry r.frames [] token
  | .key entries, token => startEntry r.frames entries token
  | .colon entries key, .colon => .ok ⟨.value, .object entries key :: r.frames⟩
  | .colon _ _, _ => .error .expectedColon
  | .itemEnd items, .comma => .ok ⟨.value, .array items :: r.frames⟩
  | .itemEnd items, .closeArray => .ok (deliver (.array items.reverse) r.frames)
  | .itemEnd _, _ => .error .expectedComma
  | .entryEnd entries, .comma => .ok ⟨.key entries, r.frames⟩
  | .entryEnd entries, .closeObject => .ok (deliver (.object entries) r.frames)
  | .entryEnd _, _ => .error .expectedComma
  | .nothing _, _ => .error .extraData

def finish (r : Reading) : Except ReadError Value :=
  match r.awaiting with
  | .nothing v => .ok v
  | .value | .firstItem => .error .expectedValue
  | .firstKey | .key _ => .error .expectedKey
  | .colon _ _ => .error .expectedColon
  | .itemEnd _ | .entryEnd _ => .error .expectedComma

end Reading

/-- Reads a text as a value, with a stand-in for every quoted text with a surrogate on its own. -/
def Value.readWith (standIn s : String) : Except ReadError Value :=
  let chars := s.toList
  if chars.head? = some '\ufeff' then .error .byteOrderMark
  else do
    let r ← ((tokens chars).map (Token.mended standIn)).foldlM Reading.step ⟨.value, []⟩
    r.finish

def Value.read (s : String) : Except ReadError Value := do
  let v ← Value.readWith "" s
  -- what is wrong with the format comes before what is wrong with its texts
  if (tokens s.toList).all Token.isWhole then return v else throw .loneSurrogate

end WireBindings.Json
