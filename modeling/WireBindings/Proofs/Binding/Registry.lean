import WireBindings.Binding.Names
import Mathlib.Data.List.Nodup

/-!
# A run of a name registry

What a registry has taken is what it was asked to reserve and what it gave out. So each answer is
described by the calls and answers before it: the first candidate that none of them took, or a
refusal that nothing after it can tell from a call that was not made.
-/

namespace WireBindings.Binding.NameRegistry

/-- The base if it is free, else the base with the least number that makes it free. -/
def FirstFree (taken : List String) (base name : String) : Prop :=
  name ∉ taken ∧ (name = base ∨ base ∈ taken ∧ ∃ n, 2 ≤ n ∧ n ≤ maxNameNumber ∧
    name = base ++ toString n ∧ ∀ m, 2 ≤ m → m < n → base ++ toString m ∈ taken)

def Exhausted (taken : List String) (base : String) : Prop :=
  base ∈ taken ∧ ∀ n, 2 ≤ n → n ≤ maxNameNumber → base ++ toString n ∈ taken

section

variable {taken : List String} {base name : String}

theorem find?_numbered_eq_some :
    (((List.range (maxNameNumber - 1)).map fun i => base ++ toString (i + 2)).find?
        fun name => !taken.contains name) = some name ↔
      name ∉ taken ∧ ∃ n, 2 ≤ n ∧ n ≤ maxNameNumber ∧ name = base ++ toString n ∧
        ∀ m, 2 ≤ m → m < n → base ++ toString m ∈ taken := by
  rw [List.find?_map, Option.map_eq_some_iff]
  constructor
  · rintro ⟨i, hfind, rfl⟩
    rw [List.find?_range_eq_some] at hfind
    obtain ⟨hfree, hi, hbefore⟩ := hfind
    have hlt : i < maxNameNumber - 1 := List.mem_range.1 hi
    refine ⟨by simpa using hfree, i + 2, by omega, by omega, rfl, ?_⟩
    intro m hm hlt
    have htaken := hbefore (m - 2) (by omega)
    rw [Function.comp_apply, Nat.sub_add_cancel hm] at htaken
    simpa using htaken
  · rintro ⟨hfree, n, hn, hmax, rfl, hbefore⟩
    refine ⟨n - 2, ?_, by rw [Nat.sub_add_cancel hn]⟩
    rw [List.find?_range_eq_some]
    refine ⟨?_, List.mem_range.2 (by omega), ?_⟩
    · rw [Function.comp_apply, Nat.sub_add_cancel hn]
      simpa using hfree
    · intro m hm
      simpa using hbefore (m + 2) (by omega) (by omega)

theorem find?_candidates_eq_some :
    (candidates base).find? (fun name => !taken.contains name) = some name ↔
      FirstFree taken base name := by
  unfold candidates FirstFree
  by_cases hbase : base ∈ taken
  · have hne : name ∉ taken → name ≠ base := fun hfree heq => hfree (heq ▸ hbase)
    rw [List.find?_cons_of_neg (by simpa using hbase), find?_numbered_eq_some]
    constructor
    · rintro ⟨hfree, hnumber⟩
      exact ⟨hfree, .inr ⟨hbase, hnumber⟩⟩
    · rintro ⟨hfree, heq | ⟨-, hnumber⟩⟩
      · exact absurd heq (hne hfree)
      · exact ⟨hfree, hnumber⟩
  · rw [List.find?_cons_of_pos (by simpa using hbase), Option.some.injEq]
    constructor
    · rintro rfl
      exact ⟨hbase, .inl rfl⟩
    · rintro ⟨-, heq | ⟨htaken, -⟩⟩
      · exact heq.symm
      · exact absurd htaken hbase

theorem find?_candidates_eq_none :
    (candidates base).find? (fun name => !taken.contains name) = none ↔ Exhausted taken base := by
  unfold candidates Exhausted
  rw [List.find?_eq_none, List.forall_mem_cons, List.forall_mem_map]
  apply and_congr (by simp)
  constructor
  · intro h n hn hmax
    have htaken := h (n - 2) (List.mem_range.2 (by omega))
    rw [Nat.sub_add_cancel hn] at htaken
    simpa using htaken
  · intro h i hi
    have hlt : i < maxNameNumber - 1 := List.mem_range.1 hi
    simpa using h (i + 2) (by omega) (by omega)

theorem FirstFree.eq {name' : String} (h : FirstFree taken base name)
    (h' : FirstFree taken base name') : name = name' :=
  Option.some.inj ((find?_candidates_eq_some.2 h).symm.trans (find?_candidates_eq_some.2 h'))

theorem FirstFree.not_exhausted (h : FirstFree taken base name) : ¬ Exhausted taken base := by
  intro hexhausted
  have hsome := find?_candidates_eq_some.2 h
  rw [find?_candidates_eq_none.2 hexhausted] at hsome
  exact Option.some_ne_none name hsome.symm

variable {taken' : List String} (hmem : ∀ name, name ∈ taken ↔ name ∈ taken')

include hmem

theorem firstFree_congr : FirstFree taken base name ↔ FirstFree taken' base name := by
  simp only [FirstFree, hmem]

theorem exhausted_congr : Exhausted taken base ↔ Exhausted taken' base := by
  simp only [Exhausted, hmem]

end

/-! ## One call -/

theorem answer_synthesize (r : NameRegistry) (base : String) :
    (∃ name, FirstFree r.taken base name ∧
      r.answer (.synthesize base) = (.ok (some name), r.reserve name)) ∨
    (Exhausted r.taken base ∧
      r.answer (.synthesize base) = (.error (.nameCollision r.domain base), r)) := by
  cases hfind : (candidates base).find? fun name => !r.taken.contains name with
  | some name =>
      left
      refine ⟨name, find?_candidates_eq_some.1 hfind, ?_⟩
      simp only [answer, synthesize, hfind]
  | none =>
      right
      refine ⟨find?_candidates_eq_none.1 hfind, ?_⟩
      simp only [answer, synthesize, hfind]

section

variable {r : NameRegistry} {base : String}

theorem answer_eq_ok_iff {result : Option String} :
    (r.answer (.synthesize base)).1 = .ok result ↔
      ∃ name, result = some name ∧ FirstFree r.taken base name := by
  rcases answer_synthesize r base with ⟨found, hfound, hanswer⟩ | ⟨hexhausted, hanswer⟩
  · rw [hanswer]
    constructor
    · intro h
      exact ⟨found, (Except.ok.inj h).symm, hfound⟩
    · rintro ⟨name, rfl, hname⟩
      rw [hname.eq hfound]
  · rw [hanswer]
    constructor
    · intro h
      cases h
    · rintro ⟨name, -, hname⟩
      exact absurd hexhausted hname.not_exhausted

theorem answer_eq_error_iff {e : CompileError} :
    (r.answer (.synthesize base)).1 = .error e ↔
      Exhausted r.taken base ∧ e = .nameCollision r.domain base := by
  rcases answer_synthesize r base with ⟨found, hfound, hanswer⟩ | ⟨hexhausted, hanswer⟩
  · rw [hanswer]
    constructor
    · intro h
      cases h
    · rintro ⟨hexhausted, -⟩
      exact absurd hexhausted hfound.not_exhausted
  · rw [hanswer]
    constructor
    · intro h
      exact ⟨hexhausted, (Except.error.inj h).symm⟩
    · rintro ⟨-, rfl⟩
      rfl

/-- A refusal leaves the registry as it is. -/
theorem answer_snd_of_error {e : CompileError}
    (h : (r.answer (.synthesize base)).1 = .error e) : (r.answer (.synthesize base)).2 = r := by
  rcases answer_synthesize r base with ⟨found, -, hanswer⟩ | ⟨-, hanswer⟩
  · rw [hanswer] at h
    cases h
  · rw [hanswer]

end

def reserved (calls : List Call) : List String :=
  calls.filterMap fun
    | .reserve name => some name
    | .synthesize _ => none

def returned (answers : List Answer) : List String :=
  answers.filterMap fun
    | .ok name? => name?
    | .error _ => none

@[simp] theorem answer_domain (r : NameRegistry) (call : Call) :
    (r.answer call).2.domain = r.domain := by
  cases call with
  | reserve name => rfl
  | synthesize base =>
      rcases answer_synthesize r base with ⟨name, -, hanswer⟩ | ⟨-, hanswer⟩
      · rw [hanswer]
        rfl
      · rw [hanswer]

theorem answer_taken (r : NameRegistry) (call : Call) :
    (r.answer call).2.taken = reserved [call] ++ returned [(r.answer call).1] ++ r.taken := by
  cases call with
  | reserve name => rfl
  | synthesize base =>
      rcases answer_synthesize r base with ⟨name, -, hanswer⟩ | ⟨-, hanswer⟩
      · rw [hanswer]
        rfl
      · rw [hanswer]
        rfl

/-- A name that is given was free. -/
theorem returned_answer (r : NameRegistry) (call : Call) :
    (returned [(r.answer call).1]).Nodup ∧
      ∀ name ∈ returned [(r.answer call).1], name ∉ r.taken := by
  cases call with
  | reserve name => exact ⟨List.nodup_nil, fun _ h => absurd h List.not_mem_nil⟩
  | synthesize base =>
      rcases answer_synthesize r base with ⟨name, hname, hanswer⟩ | ⟨-, hanswer⟩
      · rw [hanswer]
        exact ⟨List.nodup_singleton name, fun _ h => List.mem_singleton.1 h ▸ hname.1⟩
      · rw [hanswer]
        exact ⟨List.nodup_nil, fun _ h => absurd h List.not_mem_nil⟩

/-! ## A run -/

theorem answerAll_cons (r : NameRegistry) (call : Call) (calls : List Call) :
    r.answerAll (call :: calls) =
      ((r.answer call).1 :: ((r.answer call).2.answerAll calls).1,
        ((r.answer call).2.answerAll calls).2) := rfl

theorem answerAll_append (r : NameRegistry) (calls calls' : List Call) :
    r.answerAll (calls ++ calls') =
      ((r.answerAll calls).1 ++ ((r.answerAll calls).2.answerAll calls').1,
        ((r.answerAll calls).2.answerAll calls').2) := by
  induction calls generalizing r with
  | nil => rfl
  | cons call calls ih =>
      rw [List.cons_append, answerAll_cons, ih, answerAll_cons, List.cons_append]

@[simp] theorem answerAll_domain (r : NameRegistry) (calls : List Call) :
    (r.answerAll calls).2.domain = r.domain := by
  induction calls generalizing r with
  | nil => rfl
  | cons call calls ih => rw [answerAll_cons, ih, answer_domain]

@[simp] theorem length_answerAll (r : NameRegistry) (calls : List Call) :
    (r.answerAll calls).1.length = calls.length := by
  induction calls generalizing r with
  | nil => rfl
  | cons call calls ih => rw [answerAll_cons, List.length_cons, ih, List.length_cons]

theorem reserved_cons (call : Call) (calls : List Call) :
    reserved (call :: calls) = reserved [call] ++ reserved calls :=
  List.filterMap_append (l := [call])

theorem returned_cons (answer : Answer) (answers : List Answer) :
    returned (answer :: answers) = returned [answer] ++ returned answers :=
  List.filterMap_append (l := [answer])

theorem mem_taken_answerAll {r : NameRegistry} {calls : List Call} {name : String} :
    name ∈ (r.answerAll calls).2.taken ↔
      name ∈ reserved calls ++ returned (r.answerAll calls).1 ∨ name ∈ r.taken := by
  induction calls generalizing r with
  | nil => simp [answerAll, reserved, returned]
  | cons call calls ih =>
      rw [reserved_cons call calls, answerAll_cons, returned_cons _ (answerAll _ calls).1, ih,
        answer_taken]
      simp only [List.mem_append]
      tauto

theorem returned_answerAll (r : NameRegistry) (calls : List Call) :
    (returned (r.answerAll calls).1).Nodup ∧
      ∀ name ∈ returned (r.answerAll calls).1, name ∉ r.taken := by
  induction calls generalizing r with
  | nil => exact ⟨List.nodup_nil, fun _ h => absurd h List.not_mem_nil⟩
  | cons call calls ih =>
      obtain ⟨hnodup, hfree⟩ := returned_answer r call
      obtain ⟨hnodups, hfrees⟩ := ih (r.answer call).2
      simp only [answer_taken, List.mem_append, not_or] at hfrees
      rw [answerAll_cons, returned_cons]
      constructor
      · apply hnodup.append hnodups
        intro name hname hnames
        exact (hfrees name hnames).1.2 hname
      · intro name hname
        rcases List.mem_append.1 hname with hname | hname
        · exact hfree name hname
        · exact (hfrees name hname).2

theorem mem_taken_answerAll_new (domain : String) (calls : List Call) (name : String) :
    name ∈ (answerAll { domain } calls).2.taken ↔
      name ∈ reserved calls ++ returned (answerAll { domain } calls).1 := by
  rw [mem_taken_answerAll]
  exact or_iff_left List.not_mem_nil

/-- The answers given are all different. Each request for a name is answered by the first candidate
that no call before it took, or refused because there is none, and a refusal leaves no trace. -/
theorem gives_first_free (domain : String) (calls : List Call) :
    (returned (answerAll { domain } calls).1).Nodup ∧
    ∀ before base after, calls = before ++ .synthesize base :: after →
      ∃ answer answers, answers.length = after.length ∧
        (answerAll { domain } calls).1 =
          (answerAll { domain } before).1 ++ answer :: answers ∧
        (∀ result, answer = .ok result ↔ ∃ name, result = some name ∧
          FirstFree (reserved before ++ returned (answerAll { domain } before).1) base name) ∧
        (∀ e, answer = .error e ↔
          Exhausted (reserved before ++ returned (answerAll { domain } before).1) base ∧
            e = .nameCollision domain base) ∧
        (∀ e, answer = .error e →
          (answerAll { domain } (before ++ [.synthesize base])).2 =
            (answerAll { domain } before).2 ∧
          answerAll { domain } (before ++ after) =
            ((answerAll { domain } before).1 ++ answers, (answerAll { domain } calls).2)) := by
  refine ⟨(returned_answerAll _ calls).1, ?_⟩
  rintro before base after rfl
  have hmem := mem_taken_answerAll_new domain before
  set r := (answerAll { domain } before).2 with hr
  have hdomain : r.domain = domain := answerAll_domain _ before
  refine ⟨(r.answer (.synthesize base)).1, ((r.answer (.synthesize base)).2.answerAll after).1,
    length_answerAll _ after, ?_, ?_, ?_, ?_⟩
  · rw [answerAll_append, answerAll_cons]
  · intro result
    simp only [answer_eq_ok_iff, firstFree_congr hmem]
  · intro e
    rw [answer_eq_error_iff, exhausted_congr hmem, hdomain]
  · intro e he
    have hsame := answer_snd_of_error he
    constructor
    · rw [answerAll_append, answerAll_cons]
      exact hsame
    · rw [answerAll_append, answerAll_append, answerAll_cons, hsame]

/-- `A2` is given for `A` and then is itself a base, so that `A` gets `A3` the next time. -/
theorem gives_first_free_interfering :
    (answerAll { domain := "Page" }
        [.reserve "A", .synthesize "A", .synthesize "A2", .synthesize "A"]).1 =
      [.ok none, .ok (some "A2"), .ok (some "A22"), .ok (some "A3")] ∧
    FirstFree ["A", "A2", "A22"] "A" "A3" := by
  obtain ⟨answer, answers, -, hrun, hok, -⟩ := (gives_first_free "Page"
    [.reserve "A", .synthesize "A", .synthesize "A2", .synthesize "A"]).2
    [.reserve "A", .synthesize "A", .synthesize "A2"] "A" [] rfl
  have hbefore : (answerAll { domain := "Page" }
      [.reserve "A", .synthesize "A", .synthesize "A2"]).1 =
        [.ok none, .ok (some "A2"), .ok (some "A22")] := by cbv
  have hall : (answerAll { domain := "Page" }
      [.reserve "A", .synthesize "A", .synthesize "A2", .synthesize "A"]).1 =
        [.ok none, .ok (some "A2"), .ok (some "A22"), .ok (some "A3")] := by cbv
  refine ⟨hall, ?_⟩
  rw [hall, hbefore] at hrun
  rw [hbefore] at hok
  simp only [List.cons_append, List.nil_append, List.cons.injEq, true_and] at hrun
  obtain ⟨name, hname, hfirst⟩ := (hok (some "A3")).1 hrun.1.symm
  rw [Option.some.inj hname]
  exact hfirst

end WireBindings.Binding.NameRegistry
