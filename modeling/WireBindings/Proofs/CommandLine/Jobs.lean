import WireBindings.CommandLine
import WireBindings.Proofs.Compilation.Runs
import WireBindings.Proofs.Output.Lockstep

/-!
# Jobs in step

What a job reads of the files is the document at its input paths, and what it changes is the output.
So jobs of the same task with the same document come to the same on trees that look alike through
the paths of the output.
-/

namespace WireBindings

open FileTree Output
open Target (File)

variable {R : FileTree → FileTree → Prop} {seen : String → Prop} {t u : FileTree}

namespace Compilation

variable {o : Options} {stop : Cancellation} {paths paths' : List String} {out : String}

theorem Options.forInputs_idem {chosen : Options} (h : o.forInputs paths = .ok chosen) :
    chosen.forInputs paths = .ok chosen := by
  unfold forInputs at h ⊢
  split at h
  · obtain ⟨package, hpackage, h⟩ := Outcome.bind_eq_ok.1 h
    obtain rfl := Outcome.pure_eq_ok.1 h
    rw [hpackage]
    split <;> rfl
  · rename_i hgiven
    obtain rfl := Outcome.pure_eq_ok.1 h
    exact if_neg hgiven

theorem compiled_congr (hpackage : o.forInputs paths' = o.forInputs paths)
    (hdocument : (Schema.load paths' u).1 = (Schema.load paths t).1) :
    (compiled o stop paths' u).1 = (compiled o stop paths t).1 := by
  rw [compiled_fst, compiled_fst, hpackage, hdocument]

theorem compileFiles_agrees (h : Lockstep R seen) (htu : R t u)
    (hsame : (compiled o stop paths' u).1 = (compiled o stop paths t).1)
    (hwrites : ∀ files, (compiled o stop paths t).1 = .ok files →
      (∀ path, Uses out files path → seen path) ∧ Removable R out t) :
    (compileFiles o stop paths out t).1 = (compileFiles o stop paths' out u).1 ∧
      R (compileFiles o stop paths out t).2 (compileFiles o stop paths' out u).2 := by
  rw [compileFiles_run, compileFiles_run, hsame]
  cases hfiles : (compiled o stop paths t).1 with
  | error failure => exact ⟨rfl, htu⟩
  | ok files =>
      obtain ⟨hseen, hremove⟩ := hwrites files hfiles
      obtain ⟨hresult, hleft⟩ := writeAll_agrees h hseen hremove htu
      exact ⟨congrArg (Except.mapError Failure.file) hresult, hleft⟩

theorem checkFiles_run (policy : String) (paths : List String) (t : FileTree) :
    checkFiles policy paths t = ((Schema.load paths t).1 >>= check policy, t) := by
  have hsame := Schema.load_snd paths t
  unfold checkFiles
  rcases hload : Schema.load paths t with ⟨failure | d, u⟩ <;> rw [hload] at hsame <;>
    obtain rfl : u = t := hsame
  · rw [Outcome.bind_run_of_error hload]
    rfl
  · rw [Outcome.bind_run_of_ok hload]
    rfl

end Compilation

namespace CommandLine.Job

open Compilation

variable {job job' : Job}

/-- Jobs of the same task with the same options, whose inputs are the same document and stand for
the same package. -/
structure Alike (job job' : Job) (t u : FileTree) : Prop where
  task : job'.task = job.task
  settings : job'.given.settings = job.given.settings
  package (o : Options) : o.forInputs job'.inputs = o.forInputs job.inputs
  document : (Schema.load job'.inputs u).1 = (Schema.load job.inputs t).1

/-- Something holds of the files that the job writes, if it gets as far as writing files. -/
def Writes (job : Job) (t : FileTree) (holds : List File → Prop) : Prop :=
  ∀ language files, job.language? = some language →
    (compiled (job.options language) .never job.inputs t).1 = .ok files → holds files

theorem Alike.refl (job : Job) (t : FileTree) : Alike job job t t :=
  ⟨rfl, rfl, fun _ => rfl, rfl⟩

theorem Alike.out_eq (h : Alike job job' t u) : job'.out = job.out := by
  unfold out Given.value? Given.setting?
  rw [h.settings]

theorem Alike.language?_eq (h : Alike job job' t u) : job'.language? = job.language? := by
  unfold language?
  rw [h.task]

theorem Alike.options_eq (h : Alike job job' t u) (language : Language) :
    job'.options language = job.options language := by
  unfold options Given.has Given.value? Given.setting?
  rw [h.settings]

section

variable (h : Lockstep R seen) (htu : R t u) (halike : Alike job job' t u)
  (hwrites : job.Writes t fun files =>
    (∀ path, Uses job.out files path → seen path) ∧ Removable R job.out t)

include h htu halike hwrites

theorem Alike.compileFiles_agrees {language : Language}
    (hlanguage : job.language? = some language) :
    (compileFiles (job.options language) .never job.inputs job.out t).1 =
        (compileFiles (job'.options language) .never job'.inputs job'.out u).1 ∧
      R (compileFiles (job.options language) .never job.inputs job.out t).2
        (compileFiles (job'.options language) .never job'.inputs job'.out u).2 := by
  rw [halike.out_eq, halike.options_eq]
  exact Compilation.compileFiles_agrees h htu (compiled_congr (halike.package _) halike.document)
    fun files => hwrites language files hlanguage

theorem Alike.perform_agrees :
    (job.perform t).1 = (job'.perform u).1 ∧ R (job.perform t).2 (job'.perform u).2 := by
  unfold perform
  rw [halike.language?_eq]
  cases hlanguage : job.language? with
  | some language =>
      obtain ⟨hresult, hleft⟩ := Alike.compileFiles_agrees h htu halike hwrites hlanguage
      dsimp only
      rw [Outcome.bind_run, Outcome.bind_run]
      rcases ht : compileFiles (job.options language) .never job.inputs job.out t with ⟨result, t'⟩
      rcases hu : compileFiles (job'.options language) .never job'.inputs job'.out u with
        ⟨result', u'⟩
      rw [ht, hu] at hresult hleft
      obtain rfl : result = result' := hresult
      cases result with
      | error failure => exact ⟨rfl, hleft⟩
      | ok written => exact ⟨rfl, hleft⟩
  | none =>
      dsimp only
      rw [Outcome.bind_run, Outcome.bind_run, checkFiles_run, checkFiles_run, halike.document]
      cases (Schema.load job.inputs t).1 >>= check checkPolicy with
      | error failure => exact ⟨rfl, htu⟩
      | ok summary => exact ⟨rfl, htu⟩

theorem Alike.trace_eq : job.trace t = job'.trace u := by
  unfold trace
  rw [halike.document, halike.language?_eq]
  cases hlanguage : job.language? with
  | none => rfl
  | some language =>
      simp only [halike.options_eq, halike.package, halike.out_eq]
      cases (Schema.load job.inputs t).1 with
      | error failure => rfl
      | ok d =>
          cases hoptions : (job.options language).forInputs job.inputs with
          | error failure => rfl
          | ok o =>
              -- the options are filled in by now, which makes no difference to what is compiled
              have hfilled : (compiled o .never job.inputs t).1 =
                  (compiled (job.options language) .never job.inputs t).1 := by
                rw [compiled_fst, compiled_fst, Options.forInputs_idem hoptions, hoptions]
              have hresult : (compileFiles o .never job.inputs job.out t).1 =
                  (compileFiles o .never job'.inputs job.out u).1 :=
                (Compilation.compileFiles_agrees h htu
                  (compiled_congr (halike.package o) halike.document) fun files hfiles =>
                    hwrites language files hlanguage (hfilled ▸ hfiles)).1
              simp only [hresult]

/-- Jobs that are alike print the same behind their announcements. -/
theorem Alike.run_agrees (verbose : Bool) :
    (∃ status printed errors,
      (job.run verbose t).1 = { status, output := job.announcement ++ printed, errors } ∧
      (job'.run verbose u).1 = { status, output := job'.announcement ++ printed, errors }) ∧
    R (job.run verbose t).2 (job'.run verbose u).2 := by
  have htrace := Alike.trace_eq h htu halike hwrites
  obtain ⟨hresult, hleft⟩ := Alike.perform_agrees h htu halike hwrites
  unfold run
  rw [← htrace]
  generalize String.join ((Trace.shown verbose (job.trace t)).map (· ++ "\n")) = errors
  rcases ht : job.perform t with ⟨result, t'⟩
  rcases hu : job'.perform u with ⟨result', u'⟩
  rw [ht, hu] at hresult hleft
  obtain rfl : result = result' := hresult
  cases result with
  | error failure =>
      refine ⟨⟨1, "Error:  " ++ failure.message ++ "\n", errors, ?_, ?_⟩, hleft⟩
      · simp only [String.append_assoc]
      · simp only [String.append_assoc]
  | ok printed => exact ⟨⟨0, printed, errors, rfl, rfl⟩, hleft⟩

end

theorem run_snd (job : Job) (verbose : Bool) (t : FileTree) :
    (job.run verbose t).2 = (job.perform t).2 := by
  unfold run
  rcases job.perform t with ⟨failure | printed, t'⟩ <;> rfl

theorem run_snd_of_compiled {language : Language} {files : List File}
    (hlanguage : job.language? = some language)
    (hcompiled : (compiled (job.options language) .never job.inputs t).1 = .ok files)
    (verbose : Bool) : (job.run verbose t).2 = (writeAll job.out files t).2 := by
  rw [run_snd, perform, hlanguage]
  dsimp only
  rw [Outcome.bind_run, compileFiles_run, hcompiled]
  dsimp only [Session.ofFiles]
  rcases writeAll job.out files t with ⟨e | written, t'⟩ <;> rfl

end CommandLine.Job

end WireBindings
