import WireBindings.Proofs.Compilation.Agreement
import WireBindings.Proofs.Compilation.Runs
import WireBindings.Proofs.Schema.RoundTrip

/-!
# Runs that can be stopped

A run asks before each domain whether to stop, and not before everything is planned. A record of the
questions and of what is printed between them shows when a run asks, and that its answers decide
nothing but where it ends.
-/

namespace WireBindings.Compilation

open Schema (Document)
open Target (File)

/-! ## Runs on record -/

inductive Step
  | asked (stopped : Bool)
  | printed (domain : String)
  deriving DecidableEq, Repr

def Step.isQuestion : Step → Bool
  | .asked _ => true
  | .printed _ => false

def questions (record : List Step) : Nat := record.countP Step.isQuestion

abbrev Recorded := ExceptT Failure (StateM (List Step))

namespace Recorded

def ofExcept {α : Type} (result : Except Failure α) : Recorded α := fun record => (result, record)

def note (step : Step) : Recorded Unit := fun record => (.ok (), record ++ [step])

/-- Asks whether to stop; the answer depends on how often it has been asked before. -/
def ask (stop : Cancellation) : Recorded Bool := fun record =>
  let answer := stop (questions record)
  (.ok answer, record ++ [.asked answer])

end Recorded

def emitRecorded (emit : Plan.Domain → Except Failure File) (stop : Cancellation) :
    List Plan.Domain → Recorded (List File)
  | [] => pure []
  | d :: domains => do
    if ← Recorded.ask stop then throw (.compilation (.cancelled d.domain.name))
    let file ← Recorded.ofExcept (emit d)
    Recorded.note (.printed d.domain.name)
    let rest ← emitRecorded emit stop domains
    return file :: rest

def compileRecorded (o : Options) (stop : Cancellation) (doc : Document) :
    Recorded (List File) := do
  let (language, policy) ← Recorded.ofExcept o.choice
  let plan ← Recorded.ofExcept (plan policy.name doc)
  let version := doc.versionText
  let units ← emitRecorded (domainFile language o version) stop plan.domains
  return collect (units ++ supportFiles language o version plan)

/-- The record of domains that are printed without a stop. -/
def passed (names : List String) : List Step :=
  names.flatMap fun name => [.asked false, .printed name]

theorem questions_append (record record' : List Step) :
    questions (record ++ record') = questions record + questions record' :=
  List.countP_append

theorem questions_passed (names : List String) : questions (passed names) = names.length := by
  induction names with
  | nil => rfl
  | cons name names ih =>
      have hcons : passed (name :: names) = [.asked false, .printed name] ++ passed names := rfl
      rw [hcons, questions_append, ih, List.length_cons, Nat.add_comm]
      rfl

section

variable {emit : Plan.Domain → Except Failure File} {stop : Cancellation} {record : List Step}

/-! ## One domain -/

theorem emitRecorded_stopped (d : Plan.Domain) (domains : List Plan.Domain)
    (h : stop (questions record) = true) :
    emitRecorded emit stop (d :: domains) record =
      (.error (.compilation (.cancelled d.domain.name)), record ++ [.asked true]) := by
  have hask : Recorded.ask stop record = (.ok true, record ++ [.asked true]) := by
    rw [Recorded.ask, h]
  rw [emitRecorded, Outcome.bind_run_of_ok hask]
  rfl

theorem emitRecorded_failed {d : Plan.Domain} {f : Failure} (domains : List Plan.Domain)
    (h : stop (questions record) = false) (hemit : emit d = .error f) :
    emitRecorded emit stop (d :: domains) record = (.error f, record ++ [.asked false]) := by
  have hask : Recorded.ask stop record = (.ok false, record ++ [.asked false]) := by
    rw [Recorded.ask, h]
  rw [emitRecorded, Outcome.bind_run_of_ok hask, hemit]
  rfl

theorem emitRecorded_printed {d : Plan.Domain} {file : File} (domains : List Plan.Domain)
    (h : stop (questions record) = false) (hemit : emit d = .ok file) :
    emitRecorded emit stop (d :: domains) record =
      (emitRecorded emit stop domains >>= fun rest => pure (file :: rest))
        (record ++ [.asked false, .printed d.domain.name]) := by
  have hask : Recorded.ask stop record = (.ok false, record ++ [.asked false]) := by
    rw [Recorded.ask, h]
  have hrecord : record ++ [.asked false, .printed d.domain.name] =
      record ++ [.asked false] ++ [.printed d.domain.name] := by simp
  rw [emitRecorded, Outcome.bind_run_of_ok hask, hemit, hrecord]
  rfl

/-! ## All domains -/

theorem emitRecorded_fst (emit : Plan.Domain → Except Failure File) (stop : Cancellation)
    (domains : List Plan.Domain) (record : List Step) :
    (emitRecorded emit stop domains record).1 =
      emitDomains emit stop (questions record) domains := by
  induction domains generalizing record with
  | nil => rfl
  | cons d domains ih =>
      rw [emitDomains]
      cases hstop : stop (questions record) with
      | true =>
          rw [emitRecorded_stopped d domains hstop]
          rfl
      | false =>
          cases hemit : emit d with
          | error f =>
              rw [emitRecorded_failed domains hstop hemit]
              rfl
          | ok file =>
              have hrest := ih (record ++ [.asked false, .printed d.domain.name])
              have hasked : questions (record ++ [.asked false, .printed d.domain.name]) =
                  questions record + 1 := questions_append _ _
              rw [emitRecorded_printed domains hstop hemit, Outcome.bind_run, if_neg (by simp),
                ← hasked, ← hrest]
              rcases emitRecorded emit stop domains _ with ⟨_ | rest, record'⟩ <;> rfl

theorem emitRecorded_append {before : List Plan.Domain} {files : List File}
    (hfiles : List.Forall₂ (fun d file => emit d = .ok file) before files)
    (after : List Plan.Domain) (record : List Step)
    (hstop : ∀ i < before.length, stop (questions record + i) = false) :
    emitRecorded emit stop (before ++ after) record =
      (emitRecorded emit stop after >>= fun rest => pure (files ++ rest))
        (record ++ passed (before.map fun d => d.domain.name)) := by
  induction hfiles generalizing record with
  | nil =>
      rw [List.nil_append, List.map_nil, passed, List.flatMap_nil, List.append_nil]
      simp only [List.nil_append, bind_pure]
  | @cons d file before files hemit _ ih =>
      have hfirst : stop (questions record) = false := hstop 0 (Nat.succ_pos _)
      have hasked : questions (record ++ [.asked false, .printed d.domain.name]) =
          questions record + 1 := questions_append _ _
      have hrest := ih (record ++ [.asked false, .printed d.domain.name]) (by
        intro i hi
        rw [hasked, Nat.add_assoc, Nat.add_comm 1 i]
        exact hstop (i + 1) (Nat.succ_lt_succ hi))
      have hpassed : passed ((d :: before).map fun d => d.domain.name) =
          [.asked false, .printed d.domain.name] ++ passed (before.map fun d => d.domain.name) :=
        rfl
      rw [List.cons_append, emitRecorded_printed _ hfirst hemit, Outcome.bind_run, hrest, hpassed,
        ← List.append_assoc, ← Outcome.bind_run, bind_assoc]
      simp only [pure_bind, List.cons_append]

end

/-! ## Compilations -/

section

variable {o : Options} {doc : Document} {language : Language} {policy : Plan.Overloads}

theorem compileRecorded_of_plan_error (hchoice : o.choice = .ok (language, policy)) {f : Failure}
    (h : plan policy.name doc = .error f) (stop : Cancellation) (record : List Step) :
    compileRecorded o stop doc record = (.error f, record) := by
  have hoptions : Recorded.ofExcept o.choice record = (.ok (language, policy), record) := by
    rw [Recorded.ofExcept, hchoice]
  rw [compileRecorded, Outcome.bind_run_of_ok hoptions]
  exact Outcome.bind_run_of_error (by rw [Recorded.ofExcept, h])

theorem compileRecorded_of_plan (hchoice : o.choice = .ok (language, policy)) {p : Plan.Protocol}
    (h : plan policy.name doc = .ok p) (stop : Cancellation) (record : List Step) :
    compileRecorded o stop doc record =
      (emitRecorded (domainFile language o doc.versionText) stop p.domains >>= fun units =>
        pure (collect (units ++ supportFiles language o doc.versionText p))) record := by
  have hoptions : Recorded.ofExcept o.choice record = (.ok (language, policy), record) := by
    rw [Recorded.ofExcept, hchoice]
  rw [compileRecorded, Outcome.bind_run_of_ok hoptions]
  exact Outcome.bind_run_of_ok (by rw [Recorded.ofExcept, h])

theorem compileRecorded_fst (stop : Cancellation) :
    (compileRecorded o stop doc []).1 = compile o stop doc := by
  cases hchoice : o.choice with
  | error f =>
      rw [compileRecorded, compile, hchoice]
      rfl
  | ok choice =>
      obtain ⟨language, policy⟩ := choice
      cases hplan : plan policy.name doc with
      | error f =>
          rw [compileRecorded_of_plan_error hchoice hplan, compile_of_plan_error hchoice hplan]
      | ok p =>
          have hunits := emitRecorded_fst (domainFile language o doc.versionText) stop p.domains []
          rw [compileRecorded_of_plan hchoice hplan, Outcome.bind_run, compile, hchoice,
            Outcome.ok_bind]
          simp only [hplan, Outcome.ok_bind]
          have hnone : questions [] = 0 := rfl
          rw [← hnone, ← hunits]
          rcases emitRecorded _ stop p.domains [] with ⟨_ | units, record⟩ <;> rfl

/-- A run that is stopped asks before each domain up to the one that it is stopped at. -/
theorem compileRecorded_stopped (hchoice : o.choice = .ok (language, policy)) {p : Plan.Protocol}
    (h : plan policy.name doc = .ok p) {stop : Cancellation}
    {before after : List Schema.Domain} {d : Schema.Domain}
    (hdomains : doc.domains = before ++ d :: after)
    (hbefore : ∀ i < before.length, stop i = false) (hstop : stop before.length = true) :
    compileRecorded o stop doc [] = (.error (.compilation (.cancelled d.name)),
      passed (before.map Schema.Domain.name) ++ [.asked true]) := by
  have hnames := (names_of_plan h).1
  rw [hdomains, List.map_append, List.map_cons] at hnames
  obtain ⟨planned, others, hplanned, hbeforeNames, hothers⟩ := List.map_eq_append_iff.1 hnames
  obtain ⟨e, rest, rfl, hname, -⟩ := List.map_eq_cons_iff.1 hothers
  have hlength : planned.length = before.length := by
    simpa using congrArg List.length hbeforeNames
  have hcomplete := complete_of_plan h
  have hprinted : ∀ x ∈ planned, ∃ file, domainFile language o doc.versionText x = .ok file :=
    fun x hx => exists_domainFile language o doc.versionText
      (hcomplete x (hplanned ▸ List.mem_append_left _ hx))
  obtain ⟨files, hfiles⟩ := Outcome.exists_mapM hprinted
  have hquestions : questions (passed (before.map Schema.Domain.name)) = before.length := by
    rw [questions_passed, List.length_map]
  have hunasked : ∀ i < planned.length, stop (questions [] + i) = false := fun i hi =>
    (congrArg stop (Nat.zero_add i)).trans (hbefore i (hlength ▸ hi))
  have hstopped := emitRecorded_append (Outcome.mapM_eq_ok.1 hfiles) (e :: rest) [] hunasked
  rw [hbeforeNames, List.nil_append] at hstopped
  rw [compileRecorded_of_plan hchoice h, Outcome.bind_run, hplanned, hstopped,
    Outcome.bind_run_of_error (emitRecorded_stopped e rest (hquestions ▸ hstop)), hname]

/-- A run that is not stopped asks before each domain and compiles what it compiles unasked. -/
theorem compileRecorded_passed (hchoice : o.choice = .ok (language, policy)) {p : Plan.Protocol}
    (h : plan policy.name doc = .ok p) {files : List File}
    (hfiles : compile o .never doc = .ok files) {stop : Cancellation}
    (hstop : ∀ i < doc.domains.length, stop i = false) :
    compileRecorded o stop doc [] = (.ok files, passed (doc.domains.map Schema.Domain.name)) := by
  have hnames := (names_of_plan h).1
  have hlength : p.domains.length = doc.domains.length := by
    simpa using congrArg List.length hnames
  have hprinted : ∀ d ∈ p.domains, ∃ file, domainFile language o doc.versionText d = .ok file :=
    fun d hd => exists_domainFile language o doc.versionText (complete_of_plan h d hd)
  obtain ⟨units, hunits⟩ := Outcome.exists_mapM hprinted
  have hrun (stop : Cancellation) (hstop : ∀ i < p.domains.length, stop i = false) :
      compileRecorded o stop doc [] =
        (.ok (collect (units ++ supportFiles language o doc.versionText p)),
          passed (doc.domains.map Schema.Domain.name)) := by
    have hunasked : ∀ i < p.domains.length, stop (questions [] + i) = false := fun i hi =>
      (congrArg stop (Nat.zero_add i)).trans (hstop i hi)
    have hemitted := emitRecorded_append (Outcome.mapM_eq_ok.1 hunits) [] [] hunasked
    rw [List.append_nil, hnames, List.nil_append] at hemitted
    rw [compileRecorded_of_plan hchoice h, Outcome.bind_run, hemitted]
    simp only [emitRecorded, pure_bind, List.append_nil]
    rfl
  have hnever : (compileRecorded o .never doc []).1 = compile o .never doc :=
    compileRecorded_fst .never
  rw [hrun .never fun _ _ => rfl, hfiles] at hnever
  rw [hrun stop (hlength ▸ hstop), Except.ok.inj hnever]

theorem compileFiles_of_compile_error {given : Options} {stop : Cancellation} {paths : List String}
    {t : FileTree} {f : Failure} (hoptions : given.forInputs paths = .ok o)
    (hload : (Schema.load paths t).1 = .ok doc) (h : compile o stop doc = .error f) (out : String) :
    compileFiles given stop paths out t = (.error f, t) := by
  have hread : Schema.load paths t = (.ok doc, t) := Prod.ext hload (Schema.load_snd paths t)
  have hchosen : Session.ofExcept (given.forInputs paths) t = (.ok o, t) := by
    rw [Session.ofExcept, hoptions]
  rw [compileFiles, Outcome.bind_run_of_ok hchosen, Outcome.bind_run_of_ok hread]
  exact Outcome.bind_run_of_error (by rw [Session.ofExcept, h])

end

/-- What is wrong with a document is reported before the first question. After that a run asks once
before each domain, ends at the first yes with nothing written, and without a yes compiles what it
compiles unasked. -/
theorem cancellation_cooperative {o : Options} {language : Language} {policy : Plan.Overloads}
    (hchoice : o.choice = .ok (language, policy)) (doc : Document) (stop : Cancellation) :
    (compileRecorded o stop doc []).1 = compile o stop doc ∧
      (∀ f, plan policy.name doc = .error f → compileRecorded o stop doc [] = (.error f, [])) ∧
      ∀ p, plan policy.name doc = .ok p →
        (∀ before d after, doc.domains = before ++ d :: after →
          (∀ i < before.length, stop i = false) → stop before.length = true →
          compileRecorded o stop doc [] = (.error (.compilation (.cancelled d.name)),
            passed (before.map Schema.Domain.name) ++ [.asked true]) ∧
          ∀ given paths out t, Options.forInputs given paths = .ok o →
            (Schema.load paths t).1 = .ok doc →
            compileFiles given stop paths out t =
              (.error (.compilation (.cancelled d.name)), t)) ∧
        ((∀ i < doc.domains.length, stop i = false) → ∃ files,
          compile o .never doc = .ok files ∧
          compileRecorded o stop doc [] =
            (.ok files, passed (doc.domains.map Schema.Domain.name))) := by
  refine ⟨compileRecorded_fst stop, fun f hf => ?_, fun p hp => ⟨?_, fun hstop => ?_⟩⟩
  · exact compileRecorded_of_plan_error hchoice hf stop []
  · intro before d after hdomains hbefore hstop
    have hstopped := compileRecorded_stopped hchoice hp hdomains hbefore hstop
    refine ⟨hstopped, fun given paths out t hoptions hload => ?_⟩
    refine compileFiles_of_compile_error hoptions hload ?_ out
    rw [← compileRecorded_fst, hstopped]
  · obtain ⟨files, hfiles⟩ := exists_compile hchoice hp
    exact ⟨files, hfiles, compileRecorded_passed hchoice hp hfiles hstop⟩

def pairOfDomains : Document where
  domains := [{ name := "DOM" }, { name := "CSS" }]

theorem isDirect_pairOfDomains : pairOfDomains.IsDirect := by
  intro d hd t ht
  rcases List.mem_pair.1 hd with rfl | rfl <;> cases ht

def pairFile : FileTree where
  entries := [(["p.json"], .file pairOfDomains.fileText.toUTF8)]

theorem load_pairFile : (Schema.load ["p.json"] pairFile).1 = .ok pairOfDomains := by
  have hresolve : pairFile.resolve "p.json" = .ok ["p.json"] :=
    Outcome.toOption_eq_some.1 (by decide +kernel)
  have hread : pairFile.read "p.json" = .ok pairOfDomains.fileText.toUTF8 :=
    FileTree.read_of_find? hresolve rfl (by decide +kernel)
  rw [Schema.load_singleton hread (isDirect_pairOfDomains.ofContent_fileText _)]

/-- A run that is stopped at the second question, and one that would be stopped at the third. -/
theorem cancellation_cooperative_pair :
    (Schema.load ["p.json"] pairFile).1 = .ok pairOfDomains ∧
      compileRecorded { target := "python" } (· == 1) pairOfDomains [] =
        (.error (.compilation (.cancelled "CSS")), [.asked false, .printed "DOM", .asked true]) ∧
      compileFiles { target := "python" } (· == 1) ["p.json"] "out" pairFile =
        (.error (.compilation (.cancelled "CSS")), pairFile) ∧
      ∃ files, compile { target := "python" } .never pairOfDomains = .ok files ∧
        compileRecorded { target := "python" } (· == 2) pairOfDomains [] =
          (.ok files, [.asked false, .printed "DOM", .asked false, .printed "CSS"]) := by
  have hok : (plan "full" pairOfDomains).isOk = true := by decide +kernel
  obtain ⟨p, hp⟩ := Outcome.exists_eq_ok_of_isOk hok
  have hchoice : Options.choice { target := "python" } = .ok (.python, .full) := rfl
  have hcooperates (stop : Cancellation) := cancellation_cooperative hchoice pairOfDomains stop
  obtain ⟨-, -, hplanned⟩ := hcooperates (· == 1)
  obtain ⟨hstopped, hwritten⟩ := (hplanned p hp).1 [{ name := "DOM" }] { name := "CSS" } [] rfl
    (by decide) (by decide)
  obtain ⟨-, -, hfinished⟩ := hcooperates (· == 2)
  exact ⟨load_pairFile, hstopped, hwritten _ _ _ _ rfl load_pairFile,
    (hfinished p hp).2 (by decide)⟩

end WireBindings.Compilation
