import Mathlib.Data.List.Nodup
import Mathlib.Data.List.Perm.Subperm
import WireBindings.Identifier.Constant
import WireBindings.Proofs.Identifier.Pascal
import WireBindings.Target.JavaText
import WireBindings.Target.PythonText

/-!
# Names of constants

Every literal gets a legal name that no literal before it has. The names in use are finitely many,
so there is always a number that makes a name free, and later literals never change a name.
-/

namespace WireBindings.Identifier

/-! ## Legal names -/

def isConstantChar (c : Char) : Bool := c.isUpper || c.isDigit || c == '_'

/-- A name of constant characters that no digit starts, and more than underscores. -/
structure IsConstantName (s : String) : Prop where
  chars : ∀ c ∈ s.toList, isConstantChar c = true
  head : ∀ c, s.toList.head? = some c → c.isDigit = false
  word : ∃ c ∈ s.toList, isWordChar c = true

theorem toNat_lt_of_isWordChar {c : Char} (h : isWordChar c = true) : c.toNat < 123 := by
  delta isWordChar Char.isAlphanum Char.isAlpha Char.isUpper Char.isLower Char.isDigit at h
  simp only [ge_iff_le, Bool.or_eq_true, Bool.and_eq_true, decide_eq_true_eq,
    UInt32.le_iff_toNat_le, UInt32.reduceToNat, Char.reduceVal] at h
  change c.val.toNat < 123
  omega

theorem isConstantChar_toUpper {c : Char} (h : isWordChar c = true) :
    isConstantChar c.toUpper = true := by
  have hall : ∀ n < 123, isWordChar (Char.ofNat n) = true →
      isConstantChar (Char.ofNat n).toUpper = true := by decide +kernel
  have hchar := hall c.toNat (toNat_lt_of_isWordChar h)
  rw [Char.ofNat_toNat] at hchar
  exact hchar h

theorem isConstantChar_of_isDigit {c : Char} (h : c.isDigit = true) :
    isConstantChar c = true := by
  rw [isConstantChar, h, Bool.or_true, Bool.true_or]

theorem isConstantChar_eq_false_of_isLower {c : Char} (h : c.isLower = true) :
    isConstantChar c = false := by
  have hall : ∀ n < 123, (Char.ofNat n).isLower = true →
      isConstantChar (Char.ofNat n) = false := by decide +kernel
  have hword : isWordChar c = true := by rw [isWordChar_eq, isTail, h, Bool.true_or, Bool.or_true]
  have hchar := hall c.toNat (toNat_lt_of_isWordChar hword)
  rw [Char.ofNat_toNat] at hchar
  exact hchar h

namespace IsConstantName

variable {s : String}

theorem ne_empty (h : IsConstantName s) : s ≠ "" := by
  rintro rfl
  obtain ⟨c, hc, -⟩ := h.word
  exact absurd hc List.not_mem_nil

theorem ofList {chars : List Char} (hchars : ∀ c ∈ chars, isConstantChar c = true)
    (hword : ∃ c ∈ chars, isWordChar c = true) :
    IsConstantName (if (chars.head?.map Char.isDigit).getD false then
      String.ofList ('_' :: chars) else String.ofList chars) := by
  split
  · constructor
    · rw [String.toList_ofList]
      exact List.forall_mem_cons.2 ⟨by decide, hchars⟩
    · intro c hc
      rw [String.toList_ofList] at hc
      obtain rfl := Option.some.inj hc
      decide
    · obtain ⟨c, hc, hcword⟩ := hword
      rw [String.toList_ofList]
      exact ⟨c, List.mem_cons_of_mem _ hc, hcword⟩
  · rename_i hdigit
    constructor
    · rwa [String.toList_ofList]
    · intro c hc
      rw [String.toList_ofList] at hc
      simpa [hc] using hdigit
    · rwa [String.toList_ofList]

theorem numbered (h : IsConstantName s) (n : Nat) :
    IsConstantName (ConstantNames.numbered s n) := by
  have hlist : (ConstantNames.numbered s n).toList = s.toList ++ '_' :: (toString n).toList := by
    simp [ConstantNames.numbered, String.toList_append]
  constructor
  · rw [hlist, List.forall_mem_append, List.forall_mem_cons]
    refine ⟨h.chars, by decide, fun c hc => isConstantChar_of_isDigit ?_⟩
    rw [Nat.toString_eq_repr, Nat.toList_repr] at hc
    exact Nat.isDigit_of_mem_toDigits (by decide) (by decide) hc
  · intro c hc
    have hne : s.toList ≠ [] := mt String.toList_eq_nil_iff.1 h.ne_empty
    rw [hlist, List.head?_append_of_ne_nil _ hne] at hc
    exact h.head c hc
  · obtain ⟨c, hc, hword⟩ := h.word
    rw [hlist]
    exact ⟨c, List.mem_append_left _ hc, hword⟩

theorem not_mem (h : IsConstantName s) {words : List String}
    (hwords : ∀ w ∈ words, w = "_" ∨ w.toList.any Char.isLower = true) : s ∉ words := by
  intro hmem
  rcases hwords s hmem with rfl | hany
  · obtain ⟨c, hc, hword⟩ := h.word
    obtain rfl := List.mem_singleton.1 hc
    exact absurd hword (by decide)
  · obtain ⟨c, hc, hlower⟩ := List.any_eq_true.1 hany
    have hchar := h.chars c hc
    rw [isConstantChar_eq_false_of_isLower hlower] at hchar
    cases hchar

theorem not_isReserved (h : IsConstantName s) :
    Target.Java.isReserved s = false ∧ Target.Python.isReserved s = false := by
  constructor
  · have hwords : s ∉ Target.Java.reservedWords := h.not_mem (by decide)
    simpa [Target.Java.isReserved] using hwords
  · have hwords : s ∉ Target.Python.reservedWords := h.not_mem (by decide)
    simpa [Target.Python.isReserved] using hwords

end IsConstantName

theorem isConstantName_constantBase (literal : String) : IsConstantName (constantBase literal) := by
  unfold constantBase
  cases hws : splitChars literal.toList with
  | nil =>
      refine ⟨List.all_eq_true.1 (by decide), fun c hc => ?_, 'E', by decide, by decide⟩
      obtain rfl := Option.some.inj hc
      decide
  | cons w ws =>
      have hwords (v : List Char) (hv : v ∈ w :: ws) := mem_splitChars (hws ▸ hv)
      apply IsConstantName.ofList
      · refine Text.forall_mem_intercalate (List.forall_mem_singleton.2 (by decide)) ?_
        rintro piece hpiece c hc
        obtain ⟨v, hv, rfl⟩ := List.mem_map.1 hpiece
        obtain ⟨d, hd, rfl⟩ := List.mem_map.1 hc
        exact isConstantChar_toUpper ((hwords v hv).2 d hd)
      · obtain ⟨hne, hall⟩ := hwords w List.mem_cons_self
        obtain ⟨first, rest, rfl⟩ := List.exists_cons_of_ne_nil hne
        refine ⟨first.toUpper, ?_, isWordChar_toUpper (hall first List.mem_cons_self)⟩
        rw [List.map_cons, Text.intercalate_cons_eq_flatMap]
        exact List.mem_append_left _ List.mem_cons_self

/-! ## Free numbers -/

namespace ConstantNames

variable {used : ConstantNames} {base name literal : String} {n m tries : Nat}

theorem count?_eq_none : used.count? name = none ↔ name ∉ used.map Prod.fst := by
  rw [count?, List.lookup_eq_none_iff, List.mem_map]
  constructor
  · rintro h ⟨x, hx, rfl⟩
    simpa using h x hx
  · intro h x hx
    have hne : name ≠ x.1 := fun heq => h ⟨x, hx, heq.symm⟩
    simpa using hne

/-- The search for a free number without a bound: a number is found if its name is free, and
otherwise what is found from the next one on. -/
inductive Finds (used : ConstantNames) (base : String) : Nat → Nat → Prop
  | free {n : Nat} (h : used.count? (numbered base n) = none) : Finds used base n n
  | next {n m : Nat} (h : (used.count? (numbered base n)).isSome) (hrest : Finds used base (n + 1) m) :
      Finds used base n m

theorem Finds.isFree (h : Finds used base n m) : numbered base m ∉ used.map Prod.fst := by
  induction h with
  | free h => exact count?_eq_none.1 h
  | next _ _ ih => exact ih

theorem numbered_injective (base : String) : Function.Injective (numbered base) := by
  intro n m h
  have hdigits : Nat.toDigits 10 n = Nat.toDigits 10 m := by
    simpa [numbered, ← String.toList_inj, String.toList_append] using h
  have hvalue := congrArg (fun digits => Nat.ofDigitChars 10 digits 0) hdigits
  simpa using hvalue

/-- With too few names in use to take all the numbers that are looked at, the bounded search finds
what the unbounded one does. -/
theorem finds_freeNumber (h : ∃ i < tries, used.count? (numbered base (n + i)) = none) :
    Finds used base n (freeNumber used base tries n) := by
  induction tries generalizing n with
  | zero =>
      obtain ⟨i, hi, -⟩ := h
      omega
  | succ tries ih =>
      rw [freeNumber]
      split
      · rename_i htaken
        refine .next htaken (ih ?_)
        obtain ⟨i, hi, hfree⟩ := h
        cases i with
        | zero =>
            rw [Nat.add_zero] at hfree
            rw [hfree] at htaken
            cases htaken
        | succ i => exact ⟨i, by omega, by rwa [Nat.add_right_comm, Nat.add_assoc]⟩
      · rename_i hfree
        exact .free (Option.not_isSome_iff_eq_none.1 hfree)

theorem exists_free_number (used : ConstantNames) (base : String) (n : Nat) :
    ∃ i < used.length + 1, used.count? (numbered base (n + i)) = none := by
  by_contra hall
  have hsubset : (List.range (used.length + 1)).map (fun i => numbered base (n + i)) ⊆
      used.map Prod.fst := by
    intro name hname
    obtain ⟨i, hi, rfl⟩ := List.mem_map.1 hname
    by_contra hfree
    exact hall ⟨i, List.mem_range.1 hi, count?_eq_none.2 hfree⟩
  have hnodup : ((List.range (used.length + 1)).map fun i => numbered base (n + i)).Nodup := by
    exact (List.nodup_range).map fun i j hij => Nat.add_left_cancel (numbered_injective base hij)
  have hlength := (List.subperm_of_subset hnodup hsubset).length_le
  simp only [List.length_map, List.length_range] at hlength
  omega

theorem finds_number (used : ConstantNames) (base : String) (n : Nat) :
    Finds used base n (freeNumber used base (used.length + 1) n) :=
  finds_freeNumber (exists_free_number used base n)

/-! ## Taken names -/

theorem mem_map_fst_set : name ∈ (used.set base n).map Prod.fst ↔
    name = base ∨ name ∈ used.map Prod.fst := by
  induction used with
  | nil => simp [set]
  | cons x used ih =>
      obtain ⟨k, m⟩ := x
      rw [set]
      split
      · rename_i heq
        simp [heq]
      · rw [List.map_cons, List.mem_cons, ih, List.map_cons, List.mem_cons, or_left_comm]

/-- A name that is taken was free, and is the only one that is in use then and was not before. -/
theorem take_spec (used : ConstantNames) (literal : String) :
    IsConstantName (used.take literal).1 ∧ (used.take literal).1 ∉ used.map Prod.fst ∧
      ∀ name, name ∈ (used.take literal).2.map Prod.fst ↔
        name = (used.take literal).1 ∨ name ∈ used.map Prod.fst := by
  have hbase := isConstantName_constantBase literal
  unfold take
  simp only
  cases hcount : used.count? (constantBase literal) with
  | none => exact ⟨hbase, count?_eq_none.1 hcount, fun _ => mem_map_fst_set⟩
  | some last =>
      have hfree := (finds_number used (constantBase literal) (last + 1)).isFree
      refine ⟨hbase.numbered _, hfree, fun name => ?_⟩
      have hmem : constantBase literal ∈ used.map Prod.fst := by
        by_contra hnot
        rw [count?_eq_none.2 hnot] at hcount
        cases hcount
      rw [mem_map_fst_set, mem_map_fst_set]
      constructor
      · rintro (hname | rfl | hname)
        · exact .inl hname
        · exact .inr hmem
        · exact .inr hname
      · exact fun h => h.imp_right .inr

end ConstantNames

/-! ## The names of literals -/

theorem constantsAfter_cons (used : ConstantNames) (literal : String) (literals : List String) :
    constantsAfter used (literal :: literals) =
      ((used.take literal).1, literal) :: constantsAfter (used.take literal).2 literals := rfl

/-- Names that follow those in use are legal, differ from these and from one another. -/
theorem constantsAfter_spec (used : ConstantNames) (literals : List String) :
    ((constantsAfter used literals).map Prod.fst).Nodup ∧
      ∀ name ∈ (constantsAfter used literals).map Prod.fst,
        IsConstantName name ∧ name ∉ used.map Prod.fst := by
  induction literals generalizing used with
  | nil => exact ⟨List.nodup_nil, fun _ h => absurd h List.not_mem_nil⟩
  | cons literal literals ih =>
      obtain ⟨hlegal, hfree, htaken⟩ := used.take_spec literal
      obtain ⟨hnodup, hrest⟩ := ih (used.take literal).2
      rw [constantsAfter_cons, List.map_cons]
      constructor
      · refine List.nodup_cons.2 ⟨fun hmem => ?_, hnodup⟩
        exact (hrest _ hmem).2 ((htaken _).2 (.inl rfl))
      · refine List.forall_mem_cons.2 ⟨⟨hlegal, hfree⟩, fun name hname => ?_⟩
        obtain ⟨hname, hnew⟩ := hrest name hname
        exact ⟨hname, fun hused => hnew ((htaken name).2 (.inr hused))⟩

/-- Further literals come with names of their own and leave the names before them. -/
theorem constantsAfter_prefix (used : ConstantNames) (literals more : List String) :
    constantsAfter used literals <+: constantsAfter used (literals ++ more) := by
  induction literals generalizing used with
  | nil => exact List.nil_prefix
  | cons literal literals ih =>
      rw [List.cons_append, constantsAfter_cons, constantsAfter_cons, List.prefix_cons_inj]
      exact ih _

theorem isConstantName_of_mem {literals : List String} {pair : String × String}
    (h : pair ∈ constants literals) : IsConstantName pair.1 :=
  ((constantsAfter_spec [] literals).2 _ (List.mem_map_of_mem h)).1

theorem constants_ne_empty {literals : List String} {pair : String × String}
    (h : pair ∈ constants literals) : pair.1 ≠ "" := (isConstantName_of_mem h).ne_empty

/-- The literals keep their order and get distinct names, each of them legal and no reserved word.
The search for a free number ends whatever names are in use, and the names of the first literals do
not depend on those after them. -/
theorem constants_distinct_and_legal (literals : List String) :
    (constants literals).map Prod.snd = literals ∧
      ((constants literals).map Prod.fst).Nodup ∧
      (∀ pair ∈ constants literals, pair.1 ≠ "" ∧ IsConstantName pair.1 ∧
        Target.Java.isReserved pair.1 = false ∧ Target.Python.isReserved pair.1 = false) ∧
      (∀ used base n, ConstantNames.Finds used base n
        (used.freeNumber base (used.length + 1) n)) ∧
      ∀ more, constants literals <+: constants (literals ++ more) := by
  refine ⟨map_snd_constants literals, (constantsAfter_spec [] literals).1, fun pair hpair => ?_,
    ConstantNames.finds_number, constantsAfter_prefix [] literals⟩
  have hname := isConstantName_of_mem hpair
  exact ⟨constants_ne_empty hpair, hname, hname.not_isReserved⟩

/-- Numbers of one base can be part of another base. -/
theorem constants_distinct_and_legal_interfering :
    constants ["a", "A_2", "A", "a-2", "3d", ""] =
        [("A", "a"), ("A_2", "A_2"), ("A_3", "A"), ("A_2_2", "a-2"), ("_3D", "3d"), ("EMPTY", "")] ∧
      IsConstantName "A_2_2" ∧ Target.Java.isReserved "A_2_2" = false := by
  have hrun : constants ["a", "A_2", "A", "a-2", "3d", ""] =
      [("A", "a"), ("A_2", "A_2"), ("A_3", "A"), ("A_2_2", "a-2"), ("_3D", "3d"),
        ("EMPTY", "")] := by decide +kernel
  have hmem : ("A_2_2", "a-2") ∈ constants ["a", "A_2", "A", "a-2", "3d", ""] := by
    rw [hrun]
    decide
  have hname := (constants_distinct_and_legal ["a", "A_2", "A", "a-2", "3d", ""]).2.2.1 _ hmem
  exact ⟨hrun, hname.2.1, hname.2.2.1⟩

end WireBindings.Identifier
