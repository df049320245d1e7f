import WireBindings.CommandLine.Arguments
import WireBindings.Proofs.Outcome

/-!
# An operand behind the arguments

Arguments that ask for a task without operands are read with one more argument behind them as the
same task with that operand, unless it looks like an option. Arguments that are refused stay refused
with it, unless it can be what they lack.
-/

namespace WireBindings.CommandLine

variable {level : Level} {arguments : List String} {operand : String}
  {words : List (String × Word)} {task : Task} {g g' : Given} {i i' : Invocation} {run : Run}
  {stop : Stop}

def Given.withOperand (g : Given) (operand : String) : Given := { g with operands := [operand] }

def Invocation.withOperand (i : Invocation) (operand : String) : Invocation :=
  { i with task := i.task.map fun (task, g) => (task, g.withOperand operand) }

/-- Whether one more argument may let reading go on. It can be the value that an option lacks, or
name the task. -/
def Stop.isOpen : Stop → Bool
  | .refused _ (.missingValue _) | .refused _ (.unrecognized _) => true
  | .help _ | .refused _ _ => false

/-! ## Words -/

theorem Level.word_eq_plain (h : operand.toList.head? ≠ some '-') :
    level.word operand = .ok .plain := by
  have hdashes : operand ≠ "--" := by
    rintro rfl
    exact h rfl
  unfold Level.word
  simp [hdashes, h]

/-- Whatever the words before it, an argument that is plain on its own is plain behind them. -/
theorem Level.words_concat (h : operand.toList.head? ≠ some '-')
    (hwords : level.words arguments = .ok words) :
    level.words (arguments ++ [operand]) = .ok (words ++ [(operand, .plain)]) := by
  have hplain : level.word operand = .ok .plain := Level.word_eq_plain h
  induction arguments generalizing words with
  | nil =>
      obtain rfl := Except.ok.inj hwords
      rw [List.nil_append, Level.words, hplain]
      rfl
  | cons argument arguments ih =>
      rw [Level.words] at hwords
      obtain ⟨word, hword, hwords⟩ := Outcome.bind_eq_ok.1 hwords
      rw [List.cons_append, Level.words, hword, Outcome.ok_bind]
      split at hwords
      · rename_i hseparator
        obtain rfl := Outcome.pure_eq_ok.1 hwords
        rw [if_pos hseparator, List.map_append]
        rfl
      · rename_i hseparator
        obtain ⟨rest, hrest, hwords⟩ := Outcome.bind_eq_ok.1 hwords
        obtain rfl := Outcome.pure_eq_ok.1 hwords
        rw [if_neg hseparator, ih hrest, Outcome.ok_bind]
        rfl

theorem Level.words_concat_of_error {refusal : Refusal}
    (hwords : level.words arguments = .error refusal) :
    level.words (arguments ++ [operand]) = .error refusal := by
  induction arguments with
  | nil => cases hwords
  | cons argument arguments ih =>
      rw [Level.words] at hwords
      rw [List.cons_append, Level.words]
      rcases Outcome.bind_eq_error.1 hwords with hword | ⟨word, hword, hwords⟩
      · rw [hword]
        rfl
      · rw [hword, Outcome.ok_bind]
        split at hwords
        · cases hwords
        · rename_i hseparator
          rcases Outcome.bind_eq_error.1 hwords with hrest | ⟨rest, -, hwords⟩
          · rw [if_neg hseparator, ih hrest]
            rfl
          · cases hwords

/-- What follows two dashes is plain. -/
def PlainBehindDashes (words : List (String × Word)) : Prop :=
  words.Pairwise fun x y => x.2 = .separator → y.2 = .plain

theorem Level.plainBehindDashes_words (hwords : level.words arguments = .ok words) :
    PlainBehindDashes words := by
  induction arguments generalizing words with
  | nil =>
      obtain rfl := Except.ok.inj hwords
      exact .nil
  | cons argument arguments ih =>
      rw [Level.words] at hwords
      obtain ⟨word, hword, hwords⟩ := Outcome.bind_eq_ok.1 hwords
      split at hwords
      · obtain rfl := Outcome.pure_eq_ok.1 hwords
        refine List.pairwise_cons.2 ⟨fun x hx _ => ?_, ?_⟩
        · obtain ⟨a, -, rfl⟩ := List.mem_map.1 hx
          rfl
        · exact List.pairwise_map.2 (List.pairwise_of_forall fun _ _ => nofun)
      · rename_i hseparator
        obtain ⟨rest, hrest, hwords⟩ := Outcome.bind_eq_ok.1 hwords
        obtain rfl := Outcome.pure_eq_ok.1 hwords
        exact List.pairwise_cons.2 ⟨fun _ _ heq => absurd heq hseparator, ih hrest⟩

/-! ## Words of a task -/

theorem Given.operands_of_set {key : Key} {value : String} (h : g.set level key value = .ok g') :
    g'.operands = g.operands := by
  unfold Given.set at h
  split at h
  · obtain rfl := Except.ok.inj h
    rfl
  · split at h
    · cases h
    · obtain rfl := Except.ok.inj h
      rfl

theorem operands_isPrefix_of_takeTask (h : takeTask level g run words = .ok g') :
    g.operands <+: g'.operands := by
  fun_induction takeTask level g run words generalizing g' with
  | case1 g run =>
      obtain rfl := Except.ok.inj h
      exact List.prefix_rfl
  | case2 g argument words ih => exact ih h
  | case3 g run argument words hrun ih => exact (List.prefix_append _ _).trans (ih h)
  | case4 g argument words ih => exact ih h
  | case5 g run argument words hrun ih => exact ih h
  | case6 g run _ key hvalue value words ih =>
      obtain ⟨g₁, hset, h⟩ := Outcome.bind_eq_ok.1 h
      exact Given.operands_of_set hset ▸ ih g₁ h
  | case7 => cases h
  | case8 g run _ key words hvalue ih =>
      obtain ⟨-, -, h⟩ := Outcome.bind_eq_ok.1 h
      exact ih h
  | case9 g run _ key value words hvalue ih =>
      obtain ⟨g₁, hset, h⟩ := Outcome.bind_eq_ok.1 h
      exact Given.operands_of_set hset ▸ ih g₁ h
  | case10 g run _ key value words hvalue ih =>
      obtain ⟨-, -, h⟩ := Outcome.bind_eq_ok.1 h
      exact ih h
  | case11 => cases h
  | case12 g run argument words ih => exact ih h

theorem operands_ne_nil_of_takeTask {argument : String}
    (h : takeTask level { g with operands := g.operands ++ [argument] } .inside words = .ok g') :
    g'.operands ≠ [] := by
  intro hnone
  have hprefix := operands_isPrefix_of_takeTask h
  rw [hnone, List.prefix_nil] at hprefix
  exact List.append_ne_nil_of_right_ne_nil _ (List.cons_ne_nil _ _) hprefix

/-- Words that are taken leave a run in which the words behind them are taken. Without an operand
among them, that run is still ahead, or has been opened by two dashes at their end. -/
theorem exists_takeTask_append (h : takeTask level g run words = .ok g') :
    ∃ run', (PlainBehindDashes words → run = .ahead → g'.operands = [] → run' ≠ .past) ∧
      ∀ rest, takeTask level g run (words ++ rest) = takeTask level g' run' rest := by
  fun_induction takeTask level g run words generalizing g' with
  | case1 g run =>
      obtain rfl := Except.ok.inj h
      exact ⟨run, fun _ hrun _ => by simp [hrun], fun _ => rfl⟩
  | case2 g argument words ih | case4 g argument words ih =>
      obtain ⟨run', -, hrest⟩ := ih h
      refine ⟨run', fun _ => nofun, fun rest => ?_⟩
      rw [List.cons_append, takeTask, if_pos rfl, hrest]
  | case3 g run argument words hpast ih =>
      obtain ⟨run', -, hrest⟩ := ih h
      refine ⟨run', fun _ _ hnone => ?_, fun rest => ?_⟩
      · exact absurd hnone (operands_ne_nil_of_takeTask h)
      · rw [List.cons_append, takeTask, if_neg hpast, hrest]
  | case5 g run argument words hpast ih =>
      obtain ⟨run', -, hrest⟩ := ih h
      have hstep (rest : List (String × Word)) :
          takeTask level g run ((argument, .separator) :: words ++ rest) =
            takeTask level g' run' rest := by
        rw [List.cons_append, takeTask, if_neg hpast, hrest]
      -- nothing follows the two dashes, since it would be an operand
      cases words with
      | nil =>
          obtain rfl := Except.ok.inj h
          refine ⟨.inside, fun _ _ _ => by simp, fun rest => ?_⟩
          rw [List.cons_append, takeTask, if_neg hpast, List.nil_append]
      | cons word words =>
          obtain ⟨argument', word⟩ := word
          refine ⟨run', fun hplain _ hnone => ?_, hstep⟩
          obtain rfl := (List.pairwise_cons.1 hplain).1 _ List.mem_cons_self rfl
          rw [takeTask, if_neg (by simp)] at h
          exact absurd hnone (operands_ne_nil_of_takeTask h)
  | case6 g run _ key hvalue value words ih =>
      obtain ⟨g₁, hset, h⟩ := Outcome.bind_eq_ok.1 h
      obtain ⟨run', hopen, hrest⟩ := ih g₁ h
      refine ⟨run', fun hplain hrun => ?_, fun rest => ?_⟩
      · exact hopen (List.Pairwise.tail (List.Pairwise.tail hplain)) (congrArg Run.interrupt hrun)
      · rw [List.cons_append, List.cons_append, takeTask, if_pos hvalue, hset, Outcome.ok_bind,
          hrest]
  | case7 => cases h
  | case8 g run _ key words hvalue ih =>
      obtain ⟨⟨⟩, hflag, h⟩ := Outcome.bind_eq_ok.1 h
      obtain ⟨run', hopen, hrest⟩ := ih h
      refine ⟨run', fun hplain hrun => ?_, fun rest => ?_⟩
      · exact hopen (List.Pairwise.tail hplain) (congrArg Run.interrupt hrun)
      · rw [List.cons_append, takeTask.eq_def]
        dsimp only
        rw [if_neg hvalue, hflag, Outcome.ok_bind, hrest]
  | case9 g run _ key value words hvalue ih =>
      obtain ⟨g₁, hset, h⟩ := Outcome.bind_eq_ok.1 h
      obtain ⟨run', hopen, hrest⟩ := ih g₁ h
      refine ⟨run', fun hplain hrun => ?_, fun rest => ?_⟩
      · exact hopen (List.Pairwise.tail hplain) (congrArg Run.interrupt hrun)
      · rw [List.cons_append, takeTask, if_pos hvalue, hset, Outcome.ok_bind, hrest]
  | case10 g run _ key value words hvalue ih =>
      obtain ⟨⟨⟩, hflag, h⟩ := Outcome.bind_eq_ok.1 h
      obtain ⟨run', hopen, hrest⟩ := ih h
      refine ⟨run', fun hplain hrun => ?_, fun rest => ?_⟩
      · exact hopen (List.Pairwise.tail hplain) (congrArg Run.interrupt hrun)
      · rw [List.cons_append, takeTask, if_neg hvalue, hflag, Outcome.ok_bind, hrest]
  | case11 => cases h
  | case12 g run argument words ih =>
      obtain ⟨run', hopen, hrest⟩ := ih h
      refine ⟨run', fun hplain hrun => ?_, fun rest => ?_⟩
      · exact hopen (List.Pairwise.tail hplain) (congrArg Run.interrupt hrun)
      · rw [List.cons_append, takeTask, hrest]

theorem takeTask_concat (hplain : PlainBehindDashes words)
    (h : takeTask level g .ahead words = .ok g') (hnone : g'.operands = []) (operand : String) :
    takeTask level g .ahead (words ++ [(operand, .plain)]) = .ok (g'.withOperand operand) := by
  obtain ⟨run', hopen, hrest⟩ := exists_takeTask_append h
  rw [hrest, takeTask, if_neg (hopen hplain rfl hnone), takeTask, hnone]
  rfl

theorem exists_takeTask_concat (h : takeTask level g run words = .ok g') (operand : String) :
    ∃ g'', takeTask level g run (words ++ [(operand, .plain)]) = .ok g'' ∧
      g''.settings = g'.settings := by
  obtain ⟨run', -, hrest⟩ := exists_takeTask_append h
  rw [hrest, takeTask]
  split
  · exact ⟨_, rfl, rfl⟩
  · exact ⟨_, rfl, rfl⟩

theorem takeTask_concat_of_error (h : takeTask level g run words = .error stop)
    (hstop : stop.isOpen = false) (operand : String) :
    takeTask level g run (words ++ [(operand, .plain)]) = .error stop := by
  fun_induction takeTask level g run words with
  | case1 => cases h
  | case2 g argument words ih | case4 g argument words ih =>
      rw [List.cons_append, takeTask, if_pos rfl]
      exact ih h
  | case3 g run argument words hrun ih | case5 g run argument words hrun ih =>
      rw [List.cons_append, takeTask, if_neg hrun]
      exact ih h
  | case6 g run _ key hvalue value words ih =>
      rw [List.cons_append, List.cons_append, takeTask, if_pos hvalue]
      refine Outcome.bind_eq_error.2 ((Outcome.bind_eq_error.1 h).imp_right ?_)
      exact fun ⟨g₁, hset, h⟩ => ⟨g₁, hset, ih g₁ h⟩
  | case7 =>
      obtain rfl := Except.error.inj h
      cases hstop
  | case8 g run _ key words hvalue ih =>
      rw [List.cons_append, takeTask.eq_def]
      dsimp only
      rw [if_neg hvalue]
      refine Outcome.bind_eq_error.2 ((Outcome.bind_eq_error.1 h).imp_right ?_)
      exact fun ⟨done, hflag, h⟩ => ⟨done, hflag, ih h⟩
  | case9 g run _ key value words hvalue ih =>
      rw [List.cons_append, takeTask, if_pos hvalue]
      refine Outcome.bind_eq_error.2 ((Outcome.bind_eq_error.1 h).imp_right ?_)
      exact fun ⟨g₁, hset, h⟩ => ⟨g₁, hset, ih g₁ h⟩
  | case10 g run _ key value words hvalue ih =>
      rw [List.cons_append, takeTask, if_neg hvalue]
      refine Outcome.bind_eq_error.2 ((Outcome.bind_eq_error.1 h).imp_right ?_)
      exact fun ⟨done, hflag, h⟩ => ⟨done, hflag, ih h⟩
  | case11 =>
      rw [List.cons_append, takeTask]
      exact h
  | case12 g run argument words ih =>
      rw [List.cons_append, takeTask]
      exact ih h

theorem Given.has_congr {key : Key} (h : g'.settings = g.settings) : g'.has key = g.has key := by
  unfold Given.has Given.setting?
  rw [h]

theorem readTask_concat_of_error (hdash : operand.toList.head? ≠ some '-')
    (h : readTask task arguments = .error stop) (hstop : stop.isOpen = false) :
    readTask task (arguments ++ [operand]) = .error stop := by
  unfold readTask at h ⊢
  dsimp only at h ⊢
  cases hwords : (Level.task task).words arguments with
  | error refusal =>
      rw [hwords] at h
      rw [Level.words_concat_of_error hwords]
      exact h
  | ok words =>
      rw [hwords, Except.mapError, Outcome.ok_bind] at h
      rw [Level.words_concat hdash hwords, Except.mapError, Outcome.ok_bind]
      refine Outcome.bind_eq_error.2 ?_
      rcases Outcome.bind_eq_error.1 h with htake | ⟨g, htake, h⟩
      · exact .inl (takeTask_concat_of_error htake hstop operand)
      · obtain ⟨g', htake', hsettings⟩ := exists_takeTask_concat htake operand
        refine .inr ⟨g', htake', ?_⟩
        simp only [Given.has_congr hsettings]
        split at h
        · cases h
        · exact h

theorem readTask_concat (hdash : operand.toList.head? ≠ some '-')
    (h : readTask task arguments = .ok g) (hnone : g.operands = []) :
    readTask task (arguments ++ [operand]) = .ok (g.withOperand operand) := by
  unfold readTask at h ⊢
  dsimp only at h ⊢
  cases hwords : (Level.task task).words arguments with
  | error refusal =>
      rw [hwords] at h
      cases h
  | ok words =>
      rw [hwords, Except.mapError, Outcome.ok_bind] at h
      obtain ⟨g₁, htake, h⟩ := Outcome.bind_eq_ok.1 h
      have hg : g₁ = g := by
        split at h
        · exact Outcome.pure_eq_ok.1 h
        · cases h
      rw [hg] at htake h
      rw [Level.words_concat hdash hwords, Except.mapError, Outcome.ok_bind,
        takeTask_concat (Level.plainBehindDashes_words hwords) htake hnone operand,
        Outcome.ok_bind]
      have hhas (key : Key) : (g.withOperand operand).has key = g.has key := rfl
      simp only [hhas]
      split at h
      · rfl
      · cases h

/-! ## Words of the program -/

theorem Invocation.choose_concat (hdash : operand.toList.head? ≠ some '-') {name : String}
    (h : i.choose name arguments = .ok i') (htask : i'.task = some (task, g))
    (hnone : g.operands = []) :
    i.choose name (arguments ++ [operand]) = .ok (i'.withOperand operand) := by
  unfold Invocation.choose at h ⊢
  split at h
  · cases h
  · obtain ⟨g₁, hread, h⟩ := Outcome.bind_eq_ok.1 h
    obtain rfl := Outcome.pure_eq_ok.1 h
    obtain ⟨rfl, rfl⟩ := Prod.mk.inj (Option.some.inj htask)
    rw [readTask_concat hdash hread hnone]
    rfl

theorem takeTop_concat (hdash : operand.toList.head? ≠ some '-')
    (h : takeTop i words = .ok i') (hopen : i.task = none) (htask : i'.task = some (task, g))
    (hnone : g.operands = []) :
    takeTop i (words ++ [(operand, .plain)]) = .ok (i'.withOperand operand) := by
  fun_induction takeTop i words with
  | case1 i =>
      obtain rfl := Except.ok.inj h
      cases hopen.symm.trans htask
  | case2 i name words =>
      rw [List.cons_append, takeTop, List.map_append]
      exact Invocation.choose_concat hdash h htask hnone
  | case3 i argument =>
      obtain rfl := Except.ok.inj h
      cases hopen.symm.trans htask
  | case4 i argument words hne =>
      rw [List.cons_append, takeTop, List.map_append]
      · exact Invocation.choose_concat hdash h htask hnone
      · simp
  | case5 i _ key value words ih =>
      obtain ⟨⟨⟩, hflag, h⟩ := Outcome.bind_eq_ok.1 h
      rw [List.cons_append, takeTop, hflag, Outcome.ok_bind]
      exact ih h hopen
  | case6 => cases h
  | case7 i argument words ih =>
      rw [List.cons_append, takeTop]
      exact ih h hopen

theorem Invocation.choose_concat_of_error (hdash : operand.toList.head? ≠ some '-') {name : String}
    (h : i.choose name arguments = .error stop) (hstop : stop.isOpen = false) :
    i.choose name (arguments ++ [operand]) = .error stop := by
  unfold Invocation.choose at h ⊢
  split at h
  · exact h
  · refine Outcome.bind_eq_error.2 (.inl ?_)
    rcases Outcome.bind_eq_error.1 h with hread | ⟨g, -, h⟩
    · exact readTask_concat_of_error hdash hread hstop
    · cases h

theorem takeTop_concat_of_error (hdash : operand.toList.head? ≠ some '-')
    (h : takeTop i words = .error stop) (hstop : stop.isOpen = false) :
    takeTop i (words ++ [(operand, .plain)]) = .error stop := by
  fun_induction takeTop i words with
  | case1 => cases h
  | case2 i name words =>
      rw [List.cons_append, takeTop, List.map_append]
      exact Invocation.choose_concat_of_error hdash h hstop
  | case3 => cases h
  | case4 i argument words hne =>
      rw [List.cons_append, takeTop, List.map_append]
      · exact Invocation.choose_concat_of_error hdash h hstop
      · simp
  | case5 i _ key value words ih =>
      rw [List.cons_append, takeTop]
      refine Outcome.bind_eq_error.2 ((Outcome.bind_eq_error.1 h).imp_right ?_)
      exact fun ⟨done, hflag, h⟩ => ⟨done, hflag, ih h⟩
  | case6 =>
      rw [List.cons_append, takeTop]
      exact h
  | case7 i argument words ih =>
      rw [List.cons_append, takeTop]
      exact ih h

/-- Arguments that ask for a task without operands ask for it with one that is put behind them. -/
theorem readArguments_concat (hdash : operand.toList.head? ≠ some '-')
    (h : readArguments arguments = .ok i) (htask : i.task = some (task, g))
    (hnone : g.operands = []) :
    readArguments (arguments ++ [operand]) = .ok (i.withOperand operand) := by
  unfold readArguments at h ⊢
  cases hwords : Level.top.words arguments with
  | error refusal =>
      rw [hwords] at h
      cases h
  | ok words =>
      rw [hwords, Except.mapError, Outcome.ok_bind] at h
      obtain ⟨i₁, htake, h⟩ := Outcome.bind_eq_ok.1 h
      split at h
      · rename_i hrecognized
        obtain rfl := Outcome.pure_eq_ok.1 h
        rw [Level.words_concat hdash hwords, Except.mapError, Outcome.ok_bind,
          takeTop_concat hdash htake rfl htask hnone, Outcome.ok_bind]
        exact if_pos hrecognized
      · cases h

/-- Arguments that are refused, or ask for help, do so with one more argument behind them. -/
theorem readArguments_concat_of_error (hdash : operand.toList.head? ≠ some '-')
    (h : readArguments arguments = .error stop) (hstop : stop.isOpen = false) :
    readArguments (arguments ++ [operand]) = .error stop := by
  unfold readArguments at h ⊢
  cases hwords : Level.top.words arguments with
  | error refusal =>
      rw [hwords] at h
      rw [Level.words_concat_of_error hwords]
      exact h
  | ok words =>
      rw [hwords, Except.mapError, Outcome.ok_bind] at h
      rw [Level.words_concat hdash hwords, Except.mapError, Outcome.ok_bind]
      refine Outcome.bind_eq_error.2 (.inl ?_)
      rcases Outcome.bind_eq_error.1 h with htake | ⟨i, -, h⟩
      · exact takeTop_concat_of_error hdash htake hstop
      · split at h
        · cases h
        · obtain rfl := Except.error.inj h
          cases hstop

end WireBindings.CommandLine
