import WireBindings.Proofs.Json.Tokens
import WireBindings.Proofs.Outcome
import WireBindings.Proofs.Text
import WireBindings.Text.Octets
import Mathlib.Data.List.Nodup

/-!
# Reading what was written

The text of a value, and the bytes of that text, are read as the value itself.
-/

namespace WireBindings.Json

/-! ## Readings of token sequences -/

def Reads (r : Reading) (ts : List Token) (r' : Reading) : Prop :=
  ts.foldlM Reading.step r = .ok r'

namespace Reads

theorem cons {r r' r'' : Reading} {token : Token} {ts : List Token}
    (h : r.step token = .ok r') (h' : Reads r' ts r'') : Reads r (token :: ts) r'' := by
  unfold Reads
  rw [List.foldlM_cons, h]
  exact h'

theorem single {r r' : Reading} {token : Token} (h : r.step token = .ok r') :
    Reads r [token] r' :=
  cons h rfl

theorem append {r r' r'' : Reading} {ts ts' : List Token} (h : Reads r ts r')
    (h' : Reads r' ts' r'') : Reads r (ts ++ ts') r'' := by
  unfold Reads at h ⊢
  rw [List.foldlM_append, h]
  exact h'

/-- Two states that treat the first token alike read the whole sequence alike. -/
theorem congr_head {r₁ r₂ r' : Reading} {token : Token} {ts : List Token}
    (hstep : r₁.step token = r₂.step token) (h : Reads r₂ (token :: ts) r') :
    Reads r₁ (token :: ts) r' := by
  unfold Reads at h ⊢
  rw [List.foldlM_cons] at h ⊢
  rw [hstep]
  exact h

end Reads

/-- The tokens of a value deliver it, wherever a value may start. -/
def Value.Delivered (v : Value) : Prop :=
  ∀ frames, Reads ⟨.value, frames⟩ (valueTokens v) (Reading.deliver v frames)

/-- No value starts with the end of a list, so a first item is read as any other. -/
theorem Value.Delivered.first {v : Value} (h : v.Delivered) (frames : List Frame) :
    Reads ⟨.firstItem, frames⟩ (valueTokens v) ⟨.itemEnd [v], frames⟩ := by
  have hread := h (.array [] :: frames)
  cases v <;> exact hread.congr_head rfl

theorem reads_items {items : List Value} (h : ∀ v ∈ items, v.Delivered) (frames : List Frame)
    (seen : List Value) :
    Reads ⟨.itemEnd seen, frames⟩ ((itemTokens items).flatMap (.comma :: ·))
      ⟨.itemEnd (items.reverse ++ seen), frames⟩ := by
  induction items generalizing seen with
  | nil => rfl
  | cons v items ih =>
      obtain ⟨hv, hitems⟩ := List.forall_mem_cons.1 h
      rw [itemTokens, List.flatMap_cons, List.reverse_cons, List.append_assoc]
      exact .cons rfl ((hv (.array seen :: frames)).append (ih hitems (v :: seen)))

theorem Value.Delivered.array {items : List Value} (h : ∀ v ∈ items, v.Delivered) :
    (Value.array items).Delivered := by
  intro frames
  rw [valueTokens]
  have hopen : Reading.step ⟨.value, frames⟩ .openArray = .ok ⟨.firstItem, frames⟩ := rfl
  refine .cons hopen ?_
  cases items with
  | nil => exact .single rfl
  | cons v items =>
      obtain ⟨hv, hitems⟩ := List.forall_mem_cons.1 h
      have hread := (hv.first frames).append (reads_items hitems frames [v])
      rw [itemTokens, Text.intercalate_cons_eq_flatMap]
      have hclose : Reading.step ⟨.itemEnd (items.reverse ++ [v]), frames⟩ .closeArray =
          .ok (Reading.deliver (.array (v :: items)) frames) := by
        simp [Reading.step]
      exact hread.append (.single hclose)

theorem setField_of_notMem {key : String} {v : Value} {entries : List (String × Value)}
    (h : key ∉ entries.map Prod.fst) :
    Value.setField key v entries = entries ++ [(key, v)] := by
  induction entries with
  | nil => rfl
  | cons e entries ih =>
      rw [List.map_cons, List.mem_cons, not_or] at h
      rw [Value.setField, if_neg (Ne.symm h.1), ih h.2, List.cons_append]

theorem Value.Delivered.entry {v : Value} (h : v.Delivered) {key : String}
    {seen : List (String × Value)} (hkey : key ∉ seen.map Prod.fst) (frames : List Frame) :
    Reads ⟨.key seen, frames⟩ (.text key :: .colon :: valueTokens v)
      ⟨.entryEnd (seen ++ [(key, v)]), frames⟩ := by
  have hvalue := h (.object seen key :: frames)
  rw [Reading.deliver, setField_of_notMem hkey] at hvalue
  exact .cons rfl (.cons rfl hvalue)

theorem reads_entries {entries : List (String × Value)} (h : ∀ e ∈ entries, e.2.Delivered)
    (frames : List Frame) {seen : List (String × Value)}
    (hkeys : ((seen ++ entries).map Prod.fst).Nodup) :
    Reads ⟨.entryEnd seen, frames⟩ ((entryTokens entries).flatMap (.comma :: ·))
      ⟨.entryEnd (seen ++ entries), frames⟩ := by
  induction entries generalizing seen with
  | nil =>
      rw [List.append_nil]
      rfl
  | cons e entries ih =>
      obtain ⟨key, v⟩ := e
      obtain ⟨hv, hentries⟩ := List.forall_mem_cons.1 h
      have hnew : key ∉ seen.map Prod.fst := by
        rw [List.map_append, List.map_cons, List.nodup_middle, List.nodup_cons] at hkeys
        exact fun hmem => hkeys.1 (List.mem_append_left _ hmem)
      rw [List.append_cons] at hkeys ⊢
      rw [entryTokens, List.flatMap_cons]
      exact .cons rfl ((hv.entry hnew frames).append (ih hentries hkeys))

theorem Value.Delivered.object {entries : List (String × Value)}
    (hkeys : (entries.map Prod.fst).Nodup) (h : ∀ e ∈ entries, e.2.Delivered) :
    (Value.object entries).Delivered := by
  intro frames
  rw [valueTokens]
  have hopen : Reading.step ⟨.value, frames⟩ .openObject = .ok ⟨.firstKey, frames⟩ := rfl
  refine .cons hopen ?_
  cases entries with
  | nil => exact .single rfl
  | cons e entries =>
      obtain ⟨key, v⟩ := e
      obtain ⟨hv, hentries⟩ := List.forall_mem_cons.1 h
      have hfirst : Reads ⟨.firstKey, frames⟩ (.text key :: .colon :: valueTokens v)
          ⟨.entryEnd [(key, v)], frames⟩ := by
        have hnew : key ∉ ([] : List (String × Value)).map Prod.fst := List.not_mem_nil
        exact (hv.entry hnew frames).congr_head rfl
      rw [entryTokens, Text.intercalate_cons_eq_flatMap]
      exact (hfirst.append (reads_entries hentries frames hkeys)).append (.single rfl)

theorem Value.Plain.delivered {v : Value} (h : v.Plain) : v.Delivered := by
  induction h with
  | bool b => exact fun _ => .single rfl
  | text s => exact fun _ => .single rfl
  | array _ ih => exact .array ih
  | object hkeys _ ih => exact .object hkeys ih

mutual

theorem valueTokens_isWhole (v : Value) : ∀ token ∈ valueTokens v, token.isWhole = true := by
  have hcomma : ∀ token ∈ [Token.comma], token.isWhole = true := List.forall_mem_singleton.2 rfl
  cases v with
  | array items =>
      have hitems := Text.forall_mem_intercalate hcomma (itemTokens_isWhole items)
      rw [valueTokens, List.forall_mem_cons, List.forall_mem_append]
      exact ⟨rfl, hitems, List.forall_mem_singleton.2 rfl⟩
  | object entries =>
      have hentries := Text.forall_mem_intercalate hcomma (entryTokens_isWhole entries)
      rw [valueTokens, List.forall_mem_cons, List.forall_mem_append]
      exact ⟨rfl, hentries, List.forall_mem_singleton.2 rfl⟩
  | null => exact List.forall_mem_singleton.2 rfl
  | bool b => exact List.forall_mem_singleton.2 rfl
  | number n => exact List.forall_mem_singleton.2 rfl
  | text s => exact List.forall_mem_singleton.2 rfl

theorem itemTokens_isWhole (items : List Value) :
    ∀ ts ∈ itemTokens items, ∀ token ∈ ts, token.isWhole = true := by
  cases items with
  | nil => exact nofun
  | cons v items =>
      rw [itemTokens, List.forall_mem_cons]
      exact ⟨valueTokens_isWhole v, itemTokens_isWhole items⟩

theorem entryTokens_isWhole (entries : List (String × Value)) :
    ∀ ts ∈ entryTokens entries, ∀ token ∈ ts, token.isWhole = true := by
  cases entries with
  | nil => exact nofun
  | cons e entries =>
      obtain ⟨key, v⟩ := e
      rw [entryTokens, List.forall_mem_cons, List.forall_mem_cons, List.forall_mem_cons]
      exact ⟨⟨rfl, rfl, valueTokens_isWhole v⟩, entryTokens_isWhole entries⟩

end

theorem Token.mended_of_isWhole {token : Token} (h : token.isWhole = true) (standIn : String) :
    token.mended standIn = token := by
  cases token with
  | brokenText => cases h
  | _ => rfl

/-- A text that starts with a byte order mark holds no token of a value. -/
theorem tokens_byteOrderMark (s : List Char) : tokens ('\ufeff' :: s) = [.junk] := by
  have hjunk : firstToken '\ufeff' s = (.junk, []) := rfl
  rw [tokens, if_neg (by decide)]
  simp only [hjunk, tokens]

theorem valueTokens_ne_junk (v : Value) : valueTokens v ≠ [.junk] := by
  cases v <;> simp [valueTokens]

/-- The text of a value is read as the value, whatever white space follows. -/
theorem Value.Plain.read_write {v : Value} (h : v.Plain) (layout : Layout) {trailing : String}
    (hspace : trailing.toList.all isSpace = true) :
    Value.read (v.write layout ++ trailing) = .ok v := by
  have htokens : tokens (v.write layout ++ trailing).toList = valueTokens v := by
    have hend := Lexes.space hspace []
    rw [List.append_nil, List.nil_append] at hend
    rw [String.toList_append, Value.write, h.lexes layout 0, hend, tokens, List.append_nil]
  have hmark : (v.write layout ++ trailing).toList.head? ≠ some '\ufeff' := by
    intro hhead
    obtain ⟨s, hs⟩ := List.head?_eq_some_iff.1 hhead
    rw [hs, tokens_byteOrderMark] at htokens
    exact valueTokens_ne_junk v htokens.symm
  have hwhole := valueTokens_isWhole v
  have hmended : (valueTokens v).map (Token.mended "") = valueTokens v :=
    (List.map_congr_left fun token ht => Token.mended_of_isWhole (hwhole token ht) "").trans
      (List.map_id' _)
  have hread : (valueTokens v).foldlM Reading.step ⟨.value, []⟩ = .ok ⟨.nothing v, []⟩ :=
    h.delivered []
  have hvalue : Value.readWith "" (v.write layout ++ trailing) = .ok v := by
    unfold Value.readWith
    simp only
    rw [if_neg hmark, htokens, hmended, hread]
    rfl
  rw [Value.read, hvalue, Outcome.ok_bind, htokens, if_pos (List.all_eq_true.2 hwhole)]
  rfl

/-! ## Bytes -/

def IsLineChar (c : Char) : Prop := c = '\n' ∨ 0x20 ≤ c.toNat ∧ c.toNat < 0x7f

instance (c : Char) : Decidable (IsLineChar c) := instDecidableOr

def IsLineText (s : List Char) : Prop := ∀ c ∈ s, IsLineChar c

instance (s : List Char) : Decidable (IsLineText s) := List.decidableBAll _ s

theorem isLineText_cons {c : Char} {s : List Char} :
    IsLineText (c :: s) ↔ IsLineChar c ∧ IsLineText s := List.forall_mem_cons

theorem isLineText_append {s s' : List Char} :
    IsLineText (s ++ s') ↔ IsLineText s ∧ IsLineText s' := List.forall_mem_append

theorem isLineText_hexDigits (count n : Nat) : IsLineText (Text.hexDigits count n) := by
  have hall : ∀ d < 16, IsLineChar (Nat.digitChar d) := by decide
  intro c hc
  obtain ⟨d, hd, rfl⟩ := Text.exists_of_mem_hexDigits hc
  exact hall d hd

theorem isLineText_unitEscape (n : Nat) : IsLineText (unitEscape n) := by
  rw [unitEscape, isLineText_cons, isLineText_cons]
  exact ⟨by decide, by decide, isLineText_hexDigits 4 n⟩

theorem isLineText_writtenChar (c : Char) : IsLineText (writtenChar c) := by
  unfold writtenChar
  simp only
  split
  · rename_i letter hletter
    have hall : ∀ entry ∈ [('"', '"'), ('\\', '\\'), ('\n', 'n'), ('\r', 'r'), ('\t', 't'),
        ('\x08', 'b'), ('\x0c', 'f')], IsLineChar entry.2 := by
      decide
    obtain ⟨l, l', hsplit, -⟩ := List.lookup_eq_some_iff.1 hletter
    have hmem : (c, letter) ∈ [('"', '"'), ('\\', '\\'), ('\n', 'n'), ('\r', 'r'), ('\t', 't'),
        ('\x08', 'b'), ('\x0c', 'f')] := by simp [hsplit]
    rw [isLineText_cons, isLineText_cons]
    exact ⟨by decide, hall _ hmem, by decide⟩
  · split
    · rename_i hplain
      rw [isLineText_cons]
      exact ⟨.inr hplain, by decide⟩
    · split
      · exact isLineText_unitEscape _
      · exact isLineText_append.2 ⟨isLineText_unitEscape _, isLineText_unitEscape _⟩

theorem isLineText_writtenText (s : String) : IsLineText (writtenText s).toList := by
  rw [writtenText, String.toList_ofList, List.cons_append, isLineText_cons, isLineText_append]
  refine ⟨by decide, ?_, by decide⟩
  intro d hd
  obtain ⟨c, -, hc⟩ := List.mem_flatMap.1 hd
  exact isLineText_writtenChar c d hc

theorem isLineText_lineStart (level : Nat) : IsLineText (Layout.lineStart level).toList := by
  intro c hc
  rw [Layout.lineStart, String.toList_ofList, List.mem_cons, List.mem_replicate] at hc
  rcases hc with rfl | ⟨-, rfl⟩ <;> decide

theorem isLineText_intercalate {sep : String} (hsep : IsLineText sep.toList)
    {items : List String} (h : ∀ s ∈ items, IsLineText s.toList) :
    IsLineText (sep.intercalate items).toList := by
  rw [String.toList_intercalate]
  exact Text.forall_mem_intercalate hsep (List.forall_mem_map.2 h)

theorem isLineText_enclose {layout : Layout} {level : Nat} {opening closing : String}
    (hopen : IsLineText opening.toList) (hclose : IsLineText closing.toList)
    {items : List String} (h : ∀ s ∈ items, IsLineText s.toList) :
    IsLineText (layout.enclose level opening closing items).toList := by
  unfold Layout.enclose
  split
  · rw [String.toList_append, isLineText_append]
    exact ⟨hopen, hclose⟩
  · cases layout with
    | inline =>
        simp only [String.toList_append, isLineText_append]
        exact ⟨⟨hopen, isLineText_intercalate (by decide) h⟩, hclose⟩
    | indented =>
        have hsep : IsLineText ("," ++ Layout.lineStart (level + 1)).toList := by
          rw [String.toList_append, isLineText_append]
          exact ⟨by decide, isLineText_lineStart _⟩
        simp only [String.toList_append, isLineText_append]
        exact ⟨⟨⟨⟨hopen, isLineText_lineStart _⟩, isLineText_intercalate hsep h⟩,
          isLineText_lineStart _⟩, hclose⟩

theorem writeItems_eq_map (layout : Layout) (level : Nat) (items : List Value) :
    Value.writeItems layout level items = items.map (Value.writeAt layout level) := by
  induction items with
  | nil => rfl
  | cons v items ih => rw [Value.writeItems, ih, List.map_cons]

theorem writeEntries_eq_map (layout : Layout) (level : Nat) (entries : List (String × Value)) :
    Value.writeEntries layout level entries =
      entries.map fun e => writtenText e.1 ++ ": " ++ e.2.writeAt layout level := by
  induction entries with
  | nil => rfl
  | cons e entries ih => rw [Value.writeEntries, ih, List.map_cons]

/-- A value is written in ASCII, with line feeds as its only line ends. -/
theorem Value.Plain.isLineText {v : Value} (h : v.Plain) (layout : Layout) (level : Nat) :
    IsLineText (v.writeAt layout level).toList := by
  induction h generalizing level with
  | bool b =>
      rw [writeAt]
      cases b <;> decide
  | text s =>
      rw [writeAt]
      exact isLineText_writtenText s
  | array _ ih =>
      rw [writeAt, writeItems_eq_map]
      refine isLineText_enclose (by decide) (by decide) ?_
      rw [List.forall_mem_map]
      exact fun v hv => ih v hv (level + 1)
  | object _ _ ih =>
      rw [writeAt, writeEntries_eq_map]
      refine isLineText_enclose (by decide) (by decide) ?_
      rw [List.forall_mem_map]
      intro e he
      rw [String.toList_append, String.toList_append, isLineText_append, isLineText_append]
      exact ⟨⟨isLineText_writtenText e.1, by decide⟩, ih e he (level + 1)⟩

theorem decode_toUTF8 (s : String) : Text.decode s.toUTF8 = .ok s := by
  have hvalid : String.fromUTF8? s.toUTF8 = some s := by
    unfold String.fromUTF8?
    rw [String.toUTF8_eq_toByteArray, dif_pos s.isValidUTF8]
    rfl
  unfold Text.decode
  rw [hvalid]

theorem readable_toUTF8_eq (s : String) :
    Text.readable s.toUTF8 = .ok (String.ofList (Text.unifyLineEnds s.toList)) := by
  unfold Text.readable
  rw [decode_toUTF8, Except.map]

theorem readable_toUTF8 {s : String} (h : IsLineText s.toList) :
    Text.readable s.toUTF8 = .ok s := by
  have hreturn : '\r' ∉ s.toList := fun hc => absurd (h _ hc) (by decide)
  rw [readable_toUTF8_eq, Text.unifyLineEnds_of_notMem hreturn, String.ofList_toList]

/-- A text that was read is read again from its own bytes. -/
theorem readable_of_readable {content : ByteArray} {text : String}
    (h : Text.readable content = .ok text) : Text.readable text.toUTF8 = .ok text := by
  unfold Text.readable at h
  cases hdecode : Text.decode content with
  | error fault =>
      rw [hdecode] at h
      cases h
  | ok s =>
      rw [hdecode] at h
      obtain rfl := Except.ok.inj h
      rw [readable_toUTF8_eq, String.toList_ofList, Text.unifyLineEnds_idem]

end WireBindings.Json
