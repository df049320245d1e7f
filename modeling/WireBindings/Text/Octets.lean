import WireBindings.Text.Hex

/-!
# Texts as octets

UTF-8 in both directions. Bytes that are no text are reported with the first offending sequence.
-/

namespace WireBindings.Text

/-- Why bytes are not UTF-8: the offset of the first fault, the bytes it covers and its kind. -/
structure OctetFault where
  start : Nat
  bytes : List UInt8
  reason : String
  deriving DecidableEq, Repr

def OctetFault.message (f : OctetFault) : String :=
  match f.bytes with
  | [b] =>
    "'utf-8' codec can't decode byte 0x" ++ String.ofList (hexDigits 2 b.toNat) ++
      " in position " ++ toString f.start ++ ": " ++ f.reason
  | bytes =>
    "'utf-8' codec can't decode bytes in position " ++ toString f.start ++ "-" ++
      toString (f.start + bytes.length - 1) ++ ": " ++ f.reason

/-- The number of bytes that follow a leading byte, and the range of the first of them; none for a
byte that leads no sequence. -/
def leadByte? (b : UInt8) : Option (Nat × UInt8 × UInt8) :=
  if b < 0x80 then some (0, 0x80, 0xbf)
  else if b < 0xc2 then none
  else if b < 0xe0 then some (1, 0x80, 0xbf)
  else if b = 0xe0 then some (2, 0xa0, 0xbf)
  else if b = 0xed then some (2, 0x80, 0x9f)
  else if b < 0xf0 then some (2, 0x80, 0xbf)
  else if b = 0xf0 then some (3, 0x90, 0xbf)
  else if b < 0xf4 then some (3, 0x80, 0xbf)
  else if b = 0xf4 then some (3, 0x80, 0x8f)
  else none

def followers : Nat → UInt8 → UInt8 → List UInt8 → Nat × Bool
  | 0, _, _, _ => (0, false)
  | _ + 1, _, _, [] => (0, true)
  | n + 1, low, high, b :: bytes =>
    if low ≤ b && b ≤ high then
      let (count, ended) := followers n 0x80 0xbf bytes
      (count + 1, ended)
    else (0, false)

def firstFault (offset : Nat) (bytes : List UInt8) : Option OctetFault :=
  match bytes with
  | [] => none
  | b :: rest =>
    match leadByte? b with
    | none => some ⟨offset, [b], "invalid start byte"⟩
    | some (needed, low, high) =>
      let (count, ended) := followers needed low high rest
      if count = needed then firstFault (offset + 1 + needed) (rest.drop needed)
      else if ended then some ⟨offset, bytes, "unexpected end of data"⟩
      else some ⟨offset, bytes.take (1 + count), "invalid continuation byte"⟩
termination_by bytes.length
decreasing_by simp only [List.length_cons, List.length_drop]; omega

def decode (bytes : ByteArray) : Except OctetFault String :=
  match String.fromUTF8? bytes with
  | some s => .ok s
  | none => .error ((firstFault 0 bytes.toList).getD ⟨0, bytes.toList, "invalid start byte"⟩)

def unifyLineEnds : List Char → List Char
  | [] => []
  | [c] => [if c = '\r' then '\n' else c]
  | c :: d :: s =>
    if c = '\r' then
      if d = '\n' then unifyLineEnds (d :: s) else '\n' :: unifyLineEnds (d :: s)
    else c :: unifyLineEnds (d :: s)

/-- The text of a file's bytes, with line feeds as its only line ends. -/
def readable (bytes : ByteArray) : Except OctetFault String :=
  (decode bytes).map fun s => String.ofList (unifyLineEnds s.toList)

end WireBindings.Text
