import WireBindings.Proofs.CommandLine.Arguments
import WireBindings.Proofs.CommandLine.Jobs
import WireBindings.Proofs.Compilation.Cancellation
import WireBindings.Proofs.Schema.RoundTrip

/-!
# Standard input for a file

A run on the standard input does what the run on a file with the same name and text does, and leaves
no file of the standard input behind.
-/

namespace WireBindings.CommandLine

open FileTree Output Compilation

variable {path path' : String} {p r : Place} {t u : FileTree} {job job' : Job}

/-! ## The file of the standard input -/

/-- A path at which a file is to be made: in a proper tree, by a name that nothing has yet. -/
structure FreshFile (path : String) (p : Place) (t : FileTree) : Prop where
  proper : t.Proper
  resolve : t.resolve path = .ok p
  vacant : t.find? p = none
  neverUp : NeverUp path
  named : Path.baseName path ≠ ""

namespace FreshFile

theorem not_directory (h : FreshFile path p t) : t.find? p ≠ some .directory := by
  simp [h.vacant]

theorem set (h : FreshFile path p t) (content : ByteArray) :
    HasFile p content (t.set p (.file content)) :=
  ⟨h.proper.set h.resolve h.not_directory _,
    find?_set_self (isFixed_eq_false h.not_directory) t _⟩

theorem write_eq_ok (h : FreshFile path p t) (content : ByteArray) :
    t.write path content = .ok (t.set p (.file content)) :=
  FileTree.write_eq_ok.2
    ⟨p, h.resolve, h.not_directory, namesDirectory_eq_false h.named, rfl⟩

theorem resolve_set (h : FreshFile path p t) (content : ByteArray) :
    (t.set p (.file content)).resolve path = .ok p :=
  (h.set content).proper.wellFormed.resolve_eq h.resolve h.not_directory h.neverUp
    (h.set content).file

theorem rewrite_eq_ok (h : FreshFile path p t) (content content' : ByteArray) :
    (t.set p (.file content)).write path content' = .ok (t.set p (.file content')) := by
  have hfile := (h.set content).file
  refine FileTree.write_eq_ok.2
    ⟨p, h.resolve_set content, by simp [hfile], namesDirectory_eq_false h.named, ?_⟩
  rw [set_set]

theorem load_set (h : FreshFile path p t) {d : Schema.Document} (hd : d.IsDirect) :
    (Schema.load [path] (t.set p (.file d.fileText.toUTF8))).1 = .ok d := by
  rw [Schema.load_singleton (read_of_write (h.write_eq_ok _)) (hd.ofContent_fileText _)]

/-- The file is removed, if it is there. Nothing else is touched. -/
theorem removeInput_cases (h : FreshFile path p t) {v : FileTree} (hwell : v.WellFormed)
    (outcome : Outcome) :
    (∃ content, v.find? p = some (.file content) ∧
        removeInput path outcome v = (outcome, v.erase p)) ∨
      v.file? p = none ∧ ∃ e, removeInput path outcome v =
        ({ outcome with output := outcome.output ++ notRemoved path e }, v) := by
  unfold removeInput
  cases hremove : v.remove path with
  | ok v' =>
      obtain ⟨q, content, hresolve, hfile, -, rfl⟩ := remove_eq_ok.1 hremove
      obtain rfl : q = p :=
        (eq_place_of_resolve hresolve).trans (eq_place_of_resolve h.resolve).symm
      refine .inl ⟨content, hfile, ?_⟩
      rw [FileM.remove, FileM.change_eq_ok.2 hremove]
  | error fault =>
      have hnone : v.file? p = none := by
        refine file?_eq_none.2 fun content hfile => ?_
        have hresolve := hwell.resolve_eq h.resolve h.not_directory h.neverUp hfile
        rw [remove_eq_ok.2 ⟨p, content, hresolve, hfile, namesDirectory_eq_false h.named, rfl⟩]
          at hremove
        cases hremove
      refine .inr ⟨hnone, { fault, path }, ?_⟩
      rw [FileM.remove, FileM.change_of_error hremove]

theorem spool_eq (h : FreshFile path p t) {input : ByteArray} (content : ByteArray) :
    spool path input (t.set p (.file content)) = match Text.readable input with
      | .ok text => (.ok (), t.set p (.file text.toUTF8))
      | .error fault => (.error (.notText fault), t.set p (.file content)) := by
  unfold spool
  cases hread : Text.readable input with
  | error fault => rfl
  | ok text =>
      have hwrite : FileM.write path text.toUTF8 (t.set p (.file content)) =
          (.ok (), t.set p (.file text.toUTF8)) :=
        FileM.write_eq_ok.2 (h.rewrite_eq_ok content text.toUTF8)
      have hspooled : Session.ofFiles (FileM.write path text.toUTF8) (t.set p (.file content)) =
          (.ok (), t.set p (.file text.toUTF8)) := by
        rw [Session.ofFiles, hwrite]
        rfl
      exact hspooled

/-- A job on the standard input runs on a tree that has its text in a file, unless it is no text. -/
theorem runOnInput_eq (h : FreshFile path p t) (input : ByteArray) (verbose : Bool) (job : Job) :
    job.runOnInput path input verbose t = match Text.readable input with
      | .ok text =>
        let after := job.run verbose (t.set p (.file text.toUTF8))
        removeInput path after.1 after.2
      | .error fault => removeInput path (.failed (.notText fault)) (t.set p (.file .empty)) := by
  have hwrite : FileM.write path .empty t = (.ok (), t.set p (.file .empty)) :=
    FileM.write_eq_ok.2 (h.write_eq_ok .empty)
  unfold Job.runOnInput
  rw [hwrite]
  dsimp only
  rw [h.spool_eq]
  cases Text.readable input <;> rfl

end FreshFile

/-! ## What a job leaves -/

theorem Job.proper_run (ht : t.Proper) (verbose : Bool) (job : Job) :
    (job.run verbose t).2.Proper :=
  (Alike.run_agrees lockstep_proper ⟨rfl, ht⟩ (Alike.refl job t) (fun _ _ _ _ =>
    ⟨fun _ _ => trivial, fun _ => clears_proper _, fun _ _ => clears_proper _⟩) verbose).2.2

/-- The output of a job does not lead through some places. -/
def Job.OutputAvoids (hidden : Place → Prop) (job : Job) (t : FileTree) : Prop :=
  job.Writes t fun files => ∀ path, Uses job.out files path → Avoids hidden path

/-- A name that no part of the output has keeps it away from all places with that name in them. -/
theorem Job.outputAvoids_of_name {hidden : Place → Prop} {name : String} (hslash : name ≠ "/")
    (hhidden : ∀ x, hidden x → name ∈ x) (hstaging : ∀ n, stagingName n ≠ name)
    (hout : name ∉ parts job.out)
    (hfiles : job.Writes t fun files => ∀ f ∈ files, name ∉ parts f.path) :
    job.OutputAvoids hidden t := by
  intro language files hlanguage hcompiled
  have hfiles := hfiles language files hlanguage hcompiled
  have hstage (n : Nat) : name ∉ parts (stagingPath job.out n) := by
    intro hmem
    rcases mem_parts_join hmem with hmem | hmem
    · exact hout hmem
    · rw [parts_stagingName, List.mem_singleton] at hmem
      exact hstaging n hmem.symm
  intro path huses
  refine avoids_of_notMem hslash hhidden ?_
  cases huses with
  | output => exact hout
  | staging n => exact hstage n
  | staged n hf => exact fun hmem => (mem_parts_join hmem).elim (hstage n) (hfiles _ hf)
  | moved hf => exact fun hmem => (mem_parts_join hmem).elim hout (hfiles _ hf)

/-- The output directory of a job is taken for new although it holds a place, since its path leads
up from a directory that is missing. -/
def Job.MistakesForNew (job : Job) (t : FileTree) (p : Place) : Prop :=
  t.pathExists job.out = false ∧ ¬ NeverUp job.out ∧ Below (place job.out) p

theorem Job.hasFile_run {content : ByteArray} (hfile : HasFile p content t)
    (hwrites : job.Writes t fun files =>
      (∀ path, Uses job.out files path → Avoids (· = p) path) ∧ ¬ job.MistakesForNew t p)
    (verbose : Bool) : HasFile p content (job.run verbose t).2 := by
  refine (Alike.run_agrees (lockstep_hasFile p content) ⟨rfl, hfile⟩ (Alike.refl job t) ?_
    verbose).2.2
  intro language files hlanguage hcompiled
  obtain ⟨havoids, hnew⟩ := hwrites language files hlanguage hcompiled
  exact ⟨havoids, removable_hasFile hfile havoids hnew⟩

/-- The file of the standard input is gone after every run. -/
theorem FreshFile.file?_runOnInput (h : FreshFile path p t) (input : ByteArray) (verbose : Bool)
    (job : Job) : (job.runOnInput path input verbose t).2.file? p = none := by
  have hremoved {v : FileTree} (hv : v.Proper) (outcome : Outcome) :
      (removeInput path outcome v).2.file? p = none := by
    rcases h.removeInput_cases hv.wellFormed outcome with ⟨content, -, hrun⟩ | ⟨hnone, e, hrun⟩
    · rw [hrun]
      exact file?_of_none (find?_erase_self (isFixed_eq_false h.not_directory) v)
    · rw [hrun]
      exact hnone
  rw [h.runOnInput_eq]
  split
  · exact hremoved (job.proper_run (h.set _).proper verbose) _
  · exact hremoved (h.set _).proper _

/-! ## The run on a file -/

/-- Texts that are the same but for one place, where each shows a path of its own. -/
def SameUpTo (path path' text text' : String) : Prop :=
  text = text' ∨ ∃ before after, text = before ++ path ++ after ∧ text' = before ++ path' ++ after

theorem SameUpTo.append {text text' : String} (h : SameUpTo path path' text text')
    (printed : String) : SameUpTo path path' (text ++ printed) (text' ++ printed) := by
  rcases h with rfl | ⟨before, after, rfl, rfl⟩
  · exact .inl rfl
  · exact .inr ⟨before, after ++ printed, by simp only [String.append_assoc],
      by simp only [String.append_assoc]⟩

theorem SameUpTo.symm {text text' : String} (h : SameUpTo path path' text text') :
    SameUpTo path' path text' text := by
  rcases h with rfl | ⟨before, after, h, h'⟩
  · exact .inl rfl
  · exact .inr ⟨before, after, h', h⟩

theorem SameUpTo.length_le {text text' : String} (h : SameUpTo path path' text text') :
    text.length ≤ text'.length + path.length := by
  rcases h with rfl | ⟨before, after, rfl, rfl⟩
  · omega
  · simp only [String.length_append]
    omega

/-- A line longer than both paths cannot be what sets two such texts apart. -/
theorem SameUpTo.not_append {text text' line : String} (h : SameUpTo path path' text text')
    (hline : path.length + path'.length < line.length) :
    ¬ SameUpTo path path' (text ++ line) text' := by
  intro happend
  have hlong := happend.length_le
  have hshort := h.symm.length_le
  rw [String.length_append] at hlong
  omega

theorem le_length_notRemoved (path : String) (e : FileError) :
    45 + path.length ≤ (notRemoved path e).length := by
  have hwords : "Error: Could not delete temporary input file ".length = 45 := by decide +kernel
  have hlonger (a b c d e : String) : a.length + b.length ≤ (a ++ b ++ c ++ d ++ e).length := by
    simp only [String.length_append]
    omega
  rw [← hwords]
  exact hlonger _ _ _ _ _

/-- A file of the standard input that has gone before its time makes a run print more. -/
theorem FreshFile.removeInput_not_sameUpTo (h : FreshFile path p t) {after : Outcome × FileTree}
    (hproper : after.2.Proper) (hgone : after.2.file? p = none) (hshort : path'.length < 45)
    {text : String} (hsame : SameUpTo path path' after.1.output text) :
    ¬ SameUpTo path path' (removeInput path after.1 after.2).1.output text := by
  rcases h.removeInput_cases hproper.wellFormed after.1 with ⟨content, hfile, -⟩ | ⟨-, e, hkept⟩
  · rw [file?_eq_some.2 hfile] at hgone
    cases hgone
  · have hlong := le_length_notRemoved path e
    rw [hkept]
    exact hsame.not_append (by omega)

theorem announcement_sameUpTo (hinputs : job.inputs = [path]) (hinputs' : job'.inputs = [path'])
    (htask : job'.task = job.task) (hout : job'.out = job.out) :
    SameUpTo path path' job.announcement job'.announcement := by
  unfold Job.announcement
  rw [htask, hout, hinputs, hinputs']
  split
  · exact .inl rfl
  · have hsingle (s : String) : ", ".intercalate [s] = s := rfl
    refine .inr ⟨"Executing " ++ job.task.description ++ " with input ",
      " and output " ++ job.out ++ "\n", ?_, ?_⟩
    · simp only [hsingle, String.append_assoc]
    · simp only [hsingle, String.append_assoc]

/-- Runs that end alike: what they print is the same up to a path that each of them shows, and what
they leave is the same but for some places. -/
structure EndsAlike (path path' : String) (hidden : Place → Prop) (a b : Outcome × FileTree) :
    Prop where
  status : a.1.status = b.1.status
  output : SameUpTo path path' a.1.output b.1.output
  errors : a.1.errors = b.1.errors
  tree : SameBut hidden a.2 b.2

namespace EndsAlike

variable {hidden : Place → Prop} {a b : Outcome × FileTree}

theorem erase (h : EndsAlike path path' hidden a b) (hp : hidden p) :
    EndsAlike path path' hidden (a.1, a.2.erase p) b := by
  refine ⟨h.status, h.output, h.errors, fun x hx => ?_⟩
  have hne : x ≠ p := by
    rintro rfl
    exact hx hp
  exact (find?_erase_of_ne hne _).trans (h.tree x hx)

theorem append (h : EndsAlike path path' hidden a b) (line : String) :
    EndsAlike path path' hidden ({ a.1 with output := a.1.output ++ line }, a.2)
      ({ b.1 with output := b.1.output ++ line }, b.2) :=
  ⟨h.status, h.output.append line, h.errors, h.tree⟩

end EndsAlike

section

variable {s : String} {task : Task} {given : Given}

theorem FreshFile.alike (h : FreshFile path p t) (hname : Path.baseName path' = Path.baseName path)
    (hresolve : u.resolve path' = .ok r) (hfile : u.find? r = some (.file s.toUTF8))
    (hoperands : given.operands = []) {text : String} (hread : Text.readable s.toUTF8 = .ok text) :
    Job.Alike (jobOf path task (given.withOperand path')) (jobOf path task given) u
      (t.set p (.file text.toUTF8)) where
  task := rfl
  settings := rfl
  package o := by
    have hpackage : Path.packageName path = Path.packageName path' := by
      rw [Path.packageName, Path.packageName, hname]
    simp [jobOf, hoperands, Given.withOperand, Options.forInputs, defaultPackage, hpackage]
  document := by
    have hcontent : Schema.Document.ofContent (Path.baseName path) text.toUTF8 =
        Schema.Document.ofContent (Path.baseName path') s.toUTF8 := by
      unfold Schema.Document.ofContent
      rw [Json.readable_of_readable hread, hread, hname]
    have hnames : namesDirectory path' = false := namesDirectory_eq_false (hname ▸ h.named)
    simp only [jobOf, hoperands, Given.withOperand, List.isEmpty_nil, List.isEmpty_cons, if_true,
      Bool.false_eq_true, if_false]
    rw [Schema.load_of_read (read_of_write (h.write_eq_ok text.toUTF8)),
      Schema.load_of_read (read_of_find? hresolve hfile hnames), hcontent]

section

variable (h : FreshFile path p t) (hname : Path.baseName path' = Path.baseName path)
  (hresolve : u.resolve path' = .ok r) (hfile : u.find? r = some (.file s.toUTF8))
  (hoperands : given.operands = []) (hwrites : Job.OutputAvoids (fun x => x = p ∨ x = r)
    (jobOf path task (given.withOperand path')) u)

include h hname hresolve hfile hoperands hwrites

theorem FreshFile.hasFile_run {text : String} (hread : Text.readable s.toUTF8 = .ok text)
    (hnew : ¬ (jobOf path task given).MistakesForNew t p) (verbose : Bool) :
    HasFile p text.toUTF8
      ((jobOf path task given).run verbose (t.set p (.file text.toUTF8))).2 := by
  have halike : Job.Alike (jobOf path task (given.withOperand path')) (jobOf path task given) u _ :=
    h.alike hname hresolve hfile hoperands hread
  refine Job.hasFile_run (h.set _) (fun language files hlanguage hcompiled => ?_) verbose
  rw [compiled_congr (halike.package _) halike.document] at hcompiled
  have havoids := hwrites language files hlanguage hcompiled
  have hset : SameBut (· = p) (t.set p (.file text.toUTF8)) t := fun x hx => find?_set_of_ne hx t _
  have hout : Avoids (· = p) (jobOf path task given).out :=
    fun x hx heq => havoids _ .output x hx (.inl heq)
  refine ⟨fun w hw x hx heq => havoids w hw x hx (.inl heq), ?_⟩
  rwa [Job.MistakesForNew, (lockstep_sameBut (· = p)).pathExists hset hout]

variable (hsame : SameBut (fun x => x = p ∨ x = r) t u)

include hsame

theorem FreshFile.run_endsAlike {text : String} (hread : Text.readable s.toUTF8 = .ok text)
    (verbose : Bool) :
    EndsAlike path path' (fun x => x = p ∨ x = r)
      ((jobOf path task given).run verbose (t.set p (.file text.toUTF8)))
      ((jobOf path task (given.withOperand path')).run verbose u) := by
  have halike : Job.Alike (jobOf path task (given.withOperand path')) (jobOf path task given) u _ :=
    h.alike hname hresolve hfile hoperands hread
  have hspooled : SameBut (fun x => x = p ∨ x = r) u (t.set p (.file text.toUTF8)) := fun x hx =>
    ((find?_set_of_ne (fun heq => hx (.inl heq)) t _).trans (hsame x hx)).symm
  obtain ⟨⟨status, printed, errors, hb, ha⟩, htree⟩ := halike.run_agrees (lockstep_sameBut _)
    hspooled (fun language files hlanguage hcompiled => by
      have havoids := hwrites language files hlanguage hcompiled
      exact ⟨havoids, removable_sameBut havoids⟩) verbose
  have hinputs : (jobOf path task given).inputs = [path] := by simp [jobOf, hoperands]
  have hinputs' : (jobOf path task (given.withOperand path')).inputs = [path'] := by
    simp [jobOf, Given.withOperand]
  refine ⟨by rw [ha, hb], ?_, by rw [ha, hb], fun x hx => (htree x hx).symm⟩
  rw [ha, hb]
  exact (announcement_sameUpTo hinputs hinputs' rfl rfl).append printed

/-- A job on the standard input ends as the job on a file does, but for a line about the file of the
standard input if that has gone before its time. This takes an output directory that holds the file
and is taken for new. -/
theorem FreshFile.runOnInput_endsAlike (verbose : Bool) :
    let a := (jobOf path task given).runOnInput path s.toUTF8 verbose t
    let b := (jobOf path task (given.withOperand path')).run verbose u
    (¬ (jobOf path task given).MistakesForNew t p →
      EndsAlike path path' (fun x => x = p ∨ x = r) a b) ∧
    (EndsAlike path path' (fun x => x = p ∨ x = r) a b ∨
      ∃ e, EndsAlike path path' (fun x => x = p ∨ x = r) a
        ({ b.1 with output := b.1.output ++ notRemoved path e }, b.2)) := by
  intro a b
  obtain ⟨text, hread⟩ : ∃ text, Text.readable s.toUTF8 = .ok text :=
    ⟨_, Json.readable_toUTF8_eq s⟩
  obtain ⟨after, hafter⟩ : ∃ after,
      after = (jobOf path task given).run verbose (t.set p (.file text.toUTF8)) := ⟨_, rfl⟩
  have hends : EndsAlike path path' (fun x => x = p ∨ x = r) after b :=
    hafter ▸ h.run_endsAlike hname hresolve hfile hoperands hwrites hsame hread verbose
  have hrun : a = removeInput path after.1 after.2 := by
    simp only [a]
    rw [h.runOnInput_eq, hread, hafter]
  have hproper : after.2.Proper := hafter ▸ Job.proper_run (h.set _).proper verbose _
  rcases h.removeInput_cases hproper.wellFormed after.1 with ⟨content, -, hremoved⟩ |
      ⟨hnone, e, hkept⟩
  · have herased := hends.erase (.inl rfl)
    rw [hrun, hremoved]
    exact ⟨fun _ => herased, .inl herased⟩
  · refine ⟨fun hnew => ?_, .inr ⟨e, ?_⟩⟩
    · have hstays : HasFile p text.toUTF8 after.2 :=
        hafter ▸ h.hasFile_run hname hresolve hfile hoperands hwrites hread hnew verbose
      rw [file?_eq_some.2 hstays.file] at hnone
      cases hnone
    · rw [hrun, hkept]
      exact hends.append (notRemoved path e)

end

end

theorem run_of_stop {arguments : List String} {stop : Stop}
    (hread : readArguments arguments = .error stop) (input : ByteArray) (t : FileTree) :
    run path arguments input t = (stop.outcome, t) := by
  unfold run
  rw [hread]
  rfl

theorem run_eq {arguments : List String} {i : Invocation} {task : Task} {given : Given}
    {input : ByteArray} (hread : readArguments arguments = .ok i)
    (htask : i.task = some (task, given)) :
    run path arguments input t = if i.version then ({ output := versionText ++ "\n" }, t)
      else runTask path input i.verbose task given t := by
  unfold run
  rw [hread]
  dsimp only
  split
  · rfl
  · rw [htask]

theorem run_eq_runOnInput (path : String) {arguments : List String} {i : Invocation} {task : Task}
    {given : Given} (hread : readArguments arguments = .ok i)
    (htask : i.task = some (task, given)) (hoperands : given.operands = []) (input : ByteArray)
    (t : FileTree) :
    run path arguments input t = if i.version then ({ output := versionText ++ "\n" }, t)
      else (jobOf path task given).runOnInput path input i.verbose t := by
  rw [run_eq hread htask, runTask, hoperands, List.isEmpty_nil]
  rfl

theorem run_eq_run {arguments : List String} {verbose : Bool} {task : Task} {given : Given}
    (hread : readArguments arguments = .ok { verbose, task := some (task, given) })
    (hoperands : given.operands ≠ []) (input : ByteArray) (t : FileTree) :
    run path arguments input t = (jobOf path task given).run verbose t := by
  rw [run_eq hread rfl, if_neg Bool.false_ne_true, runTask, List.isEmpty_eq_false_iff.2 hoperands]
  rfl

/-- A document on the standard input is worked on from its file, which is then removed. -/
theorem FreshFile.run_eq (h : FreshFile path p t) {arguments : List String} {verbose : Bool}
    {task : Task} {given : Given}
    (hread : readArguments arguments = .ok { verbose, task := some (task, given) })
    (hoperands : given.operands = []) (d : Schema.Document) :
    ∃ after, after = (jobOf path task given).run verbose (t.set p (.file d.fileText.toUTF8)) ∧
      run path arguments d.fileText.toUTF8 t = removeInput path after.1 after.2 := by
  rw [run_eq_runOnInput path hread rfl hoperands, if_neg Bool.false_ne_true, h.runOnInput_eq,
    d.readable_fileText]
  exact ⟨_, rfl, rfl⟩

def spoolTree : FileTree where
  entries := [(["/", "tmp"], .directory)]

def givenTree (d : Schema.Document) : FileTree :=
  spoolTree.set ["p.json"] (.file d.fileText.toUTF8)

theorem proper_spoolTree : spoolTree.Proper := by
  refine ⟨by decide +kernel, fun x hx => .inr ⟨["/"], "tmp", ?_⟩⟩
  obtain rfl := List.mem_singleton.1 hx
  exact ⟨rfl, by decide, by decide⟩

theorem freshFile_spoolTree : FreshFile "/tmp/p.json" ["/", "tmp", "p.json"] spoolTree where
  proper := proper_spoolTree
  resolve := Outcome.toOption_eq_some.1 (by decide +kernel)
  vacant := by decide +kernel
  neverUp := by
    unfold NeverUp
    decide +kernel
  named := by decide +kernel

theorem freshFile_working : FreshFile "p.json" ["p.json"] spoolTree where
  proper := proper_spoolTree
  resolve := Outcome.toOption_eq_some.1 (by decide +kernel)
  vacant := by decide +kernel
  neverUp := by
    unfold NeverUp
    decide +kernel
  named := by decide +kernel

/-- A job of whose paths no part is named like the input keeps away from both files. -/
theorem outputAvoids_givenTree {d : Schema.Document} (hd : d.IsDirect) {job : Job} {o : Options}
    {paths : List String} (hinputs : job.inputs = ["p.json"]) (hout : "p.json" ∉ parts job.out)
    (hoptions : ∀ language, job.language? = some language →
      (job.options language).forInputs ["p.json"] = .ok o)
    (hpaths : (compile o .never d).toOption.map (List.map Target.File.path) = some paths)
    (hnone : ∀ path ∈ paths, "p.json" ∉ parts path) :
    job.OutputAvoids (fun x => x = ["/", "tmp", "p.json"] ∨ x = ["p.json"]) (givenTree d) := by
  have hload : (Schema.load ["p.json"] (givenTree d)).1 = .ok d := freshFile_working.load_set hd
  have hwrites : job.Writes (givenTree d) fun files => ∀ f ∈ files, "p.json" ∉ parts f.path := by
    intro language files hlanguage hcompiled f hf
    rw [compiled_fst, hinputs, hoptions language hlanguage, Outcome.ok_bind, hload,
      Outcome.ok_bind] at hcompiled
    rw [hcompiled] at hpaths
    have hmem := List.mem_map_of_mem (f := Target.File.path) hf
    rw [Option.some.inj hpaths] at hmem
    exact hnone _ hmem
  refine Job.outputAvoids_of_name (by decide) ?_ (fun n hn => ?_) hout hwrites
  · rintro x (rfl | rfl) <;> decide
  · have hhead := congrArg String.toList hn
    rw [toList_stagingName] at hhead
    cases hhead

theorem sameBut_givenTree (d : Schema.Document) :
    SameBut (fun x => x = ["/", "tmp", "p.json"] ∨ x = ["p.json"]) spoolTree (givenTree d) :=
  fun _ hx => (find?_set_of_ne (fun heq => hx (.inr heq)) _ _).symm

/-- Two domains, of which the second goes to a file below that of the first. -/
def domainBelowFile : Schema.Document where
  domains := [{ name := "A" }, { name := "A.java/B" }]

theorem isDirect_domainBelowFile : domainBelowFile.IsDirect := by
  intro d hd t ht
  rcases List.mem_pair.1 hd with rfl | rfl <;> cases ht

/-- An output directory that is taken for new although the file of the standard input is in it. -/
def mistaken : Given where
  settings := [(.out, some "/new/../tmp")]

def mistakenOptions : Options where
  target := "java"
  package := "p"
  overloads := .named "tiered"

theorem avoids_mistaken :
    Job.OutputAvoids (fun x => x = ["/", "tmp", "p.json"] ∨ x = ["p.json"])
      (jobOf "/tmp/p.json" .java (mistaken.withOperand "p.json")) (givenTree domainBelowFile) := by
  have hpaths : (compile mistakenOptions .never domainBelowFile).toOption.map
      (List.map Target.File.path) =
      some ["src/main/java/p/A.java", "src/main/java/p/A.java/B.java",
        "src/main/java/p/ChromeDevTools.java", "src/main/java/p/support/ParamName.java",
        "src/main/java/p/support/EventName.java", "src/main/java/p/support/Optional.java",
        "src/main/java/p/support/Experimental.java", "src/main/java/p/support/EventHandler.java",
        "src/main/java/p/support/EventListener.java", "pom.xml"] := by decide +kernel
  refine outputAvoids_givenTree isDirect_domainBelowFile rfl (by decide +kernel) ?_ hpaths
    (by decide +kernel)
  rintro language ⟨⟩
  exact Outcome.toOption_eq_some.1 (by decide +kernel)

/-- The refusal of the second file takes the file of the standard input away. -/
theorem file?_mistaken (verbose : Bool) :
    ((jobOf "/tmp/p.json" .java mistaken).run verbose (spoolTree.set ["/", "tmp", "p.json"]
      (.file domainBelowFile.fileText.toUTF8))).2.file? ["/", "tmp", "p.json"] = none := by
  have hok : (compile mistakenOptions .never domainBelowFile).isOk = true := by decide +kernel
  have hfiles : compile mistakenOptions .never domainBelowFile =
      .ok ((compile mistakenOptions .never domainBelowFile).toOption.getD []) := by
    obtain ⟨files, hfiles⟩ := Outcome.exists_eq_ok_of_isOk hok
    rw [hfiles]
    rfl
  have hoptions : (Job.options (jobOf "/tmp/p.json" .java mistaken) .java).forInputs
      ["/tmp/p.json"] = .ok mistakenOptions := Outcome.toOption_eq_some.1 (by decide +kernel)
  have hcompiled := compiled_fst (Job.options (jobOf "/tmp/p.json" .java mistaken) .java) .never
    ["/tmp/p.json"] (spoolTree.set ["/", "tmp", "p.json"] (.file domainBelowFile.fileText.toUTF8))
  rw [hoptions, Outcome.ok_bind, freshFile_spoolTree.load_set isDirect_domainBelowFile,
    Outcome.ok_bind, hfiles] at hcompiled
  rw [Job.run_snd_of_compiled rfl hcompiled]
  exact file?_of_none (by decide +kernel)

end WireBindings.CommandLine
