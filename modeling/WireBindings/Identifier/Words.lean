/-!
# Words of an identifier

An identifier in snake, camel or Pascal case is cut into words at case changes and at every
character that is no ASCII letter or digit. Joining the words gives back the letters and digits.
-/

namespace WireBindings.Identifier

def isWordChar (c : Char) : Bool := c.isAlphanum

def isTail (c : Char) : Bool := c.isLower || c.isDigit

/-- The first word of a text that starts with a word character, and what follows it. A run of
capitals is one word with the digits after it, but leaves its last capital to a small letter that
follows. -/
def firstWord (s : List Char) : List Char × List Char :=
  let capitals := s.takeWhile Char.isUpper
  let rest := s.drop capitals.length
  if capitals.length ≤ 1 then
    let tail := rest.takeWhile isTail
    (capitals ++ tail, rest.drop tail.length)
  else if (rest.head?.map Char.isLower).getD false then
    (capitals.dropLast, s.drop (capitals.length - 1))
  else
    let digits := rest.takeWhile Char.isDigit
    (capitals ++ digits, rest.drop digits.length)

theorem firstWord_append (s : List Char) : (firstWord s).1 ++ (firstWord s).2 = s := by
  have key : ∀ (p : Char → Bool) (t : List Char),
      t.takeWhile p ++ t.drop (t.takeWhile p).length = t :=
    fun p t => by
      have h : (t.takeWhile p) <+: t := List.takeWhile_prefix p
      rw [List.prefix_iff_eq_append.1 h]
  unfold firstWord
  simp only
  split
  · rw [List.append_assoc, key, key]
  · split
    · have h : (s.takeWhile Char.isUpper).dropLast <+: s :=
        (List.dropLast_prefix _).trans (List.takeWhile_prefix _)
      have := List.prefix_iff_eq_append.1 h
      rwa [List.length_dropLast] at this
    · rw [List.append_assoc, key, key]

theorem isWordChar_eq (c : Char) : isWordChar c = (c.isUpper || isTail c) :=
  Bool.or_assoc c.isUpper c.isLower c.isDigit

theorem firstWord_ne_nil {c : Char} (s : List Char) (h : isWordChar c = true) :
    (firstWord (c :: s)).1 ≠ [] := by
  rw [isWordChar_eq] at h
  unfold firstWord
  simp only
  by_cases hc : c.isUpper = true
  · split
    · simp [hc]
    · split
      · rename_i h1 _
        intro h2
        apply h1
        have := congrArg List.length h2
        simp only [List.length_dropLast, List.length_nil] at this
        omega
      · simp [hc]
  · have ht : isTail c = true := by simpa [hc] using h
    simp [hc, ht]

def splitChars (s : List Char) : List (List Char) :=
  match s with
  | [] => []
  | c :: rest =>
    if h : isWordChar c then
      have : (firstWord (c :: rest)).2.length < rest.length + 1 := by
        have h1 := congrArg List.length (firstWord_append (c :: rest))
        have h2 := List.length_pos_iff.2 (firstWord_ne_nil rest h)
        simp only [List.length_append, List.length_cons] at h1
        omega
      (firstWord (c :: rest)).1 :: splitChars (firstWord (c :: rest)).2
    else splitChars rest
termination_by s.length

def words (s : String) : List String := (splitChars s.toList).map String.ofList

end WireBindings.Identifier
