import WireBindings.Compilation.Files
import WireBindings.Proofs.Output.Refusal

/-!
# Failed runs

Reading and compiling touch no file, so a run that fails leaves the files as a refused write leaves
them.
-/

namespace WireBindings

namespace FileM

theorem read_snd (path : String) (t : FileTree) : (read path t).2 = t := by
  unfold read
  split <;> rfl

end FileM

namespace Schema

theorem readFile_snd (path : String) (t : FileTree) : (readFile path t).2 = t :=
  Outcome.bind_run_snd (FileM.read_snd path t) fun _ => rfl

theorem load_snd (paths : List String) (t : FileTree) : (load paths t).2 = t :=
  Outcome.bind_run_snd (Outcome.mapM_run_snd (fun path => readFile_snd path t) paths) fun _ => rfl

end Schema

namespace Compilation

open FileTree Output
open Target (File)

def compiled (o : Options) (stop : Cancellation) (paths : List String) : Session (List File) := do
  let o ← Session.ofExcept (o.forInputs paths)
  let d ← Schema.load paths
  Session.ofExcept (compile o stop d)

theorem compiled_snd (o : Options) (stop : Cancellation) (paths : List String) (t : FileTree) :
    (compiled o stop paths t).2 = t :=
  Outcome.bind_run_snd rfl fun _ => Outcome.bind_run_snd (Schema.load_snd paths t) fun _ => rfl

theorem compileFiles_eq (o : Options) (stop : Cancellation) (paths : List String) (out : String) :
    compileFiles o stop paths out =
      (compiled o stop paths >>= fun files => Session.ofFiles (writeAll out files)) := by
  simp only [compileFiles, compiled, bind_assoc]

theorem compiled_fst (o : Options) (stop : Cancellation) (paths : List String) (t : FileTree) :
    (compiled o stop paths t).1 =
      (o.forInputs paths >>= fun o => (Schema.load paths t).1 >>= compile o stop) := by
  unfold compiled
  cases hoptions : o.forInputs paths with
  | error failure => rfl
  | ok chosen =>
      have hchosen :
          Session.ofExcept (.ok chosen : Except Failure Options) t = (.ok chosen, t) := rfl
      rw [Outcome.bind_run_of_ok hchosen, Outcome.ok_bind]
      rcases hload : Schema.load paths t with ⟨failure | d, u⟩
      · rw [Outcome.bind_run_of_error hload]
        rfl
      · rw [Outcome.bind_run_of_ok hload]
        rfl

/-- What is compiled is written, and nothing else happens to the tree. -/
theorem compileFiles_run (o : Options) (stop : Cancellation) (paths : List String) (out : String)
    (t : FileTree) :
    compileFiles o stop paths out t = match (compiled o stop paths t).1 with
      | .error failure => (.error failure, t)
      | .ok files => Session.ofFiles (writeAll out files) t := by
  have hsame := compiled_snd o stop paths t
  rw [compileFiles_eq]
  rcases hrun : compiled o stop paths t with ⟨failure | files, u⟩ <;> rw [hrun] at hsame <;>
    obtain rfl : u = t := hsame
  · rw [Outcome.bind_run_of_error hrun]
  · rw [Outcome.bind_run_of_ok hrun]

/-- A run fails before it touches a file, or when its files are written. -/
theorem compileFiles_eq_error {o : Options} {stop : Cancellation} {paths : List String}
    {out : String} {t t' : FileTree} {failure : Failure}
    (h : compileFiles o stop paths out t = (.error failure, t')) :
    t' = t ∨ ∃ files e, (compiled o stop paths t).1 = .ok files ∧ failure = .file e ∧
      writeAll out files t = (.error e, t') := by
  have hsame := compiled_snd o stop paths t
  rw [compileFiles_eq] at h
  rcases Outcome.bind_run_eq_error h with herror | ⟨files, u, hok, hwrite⟩
  · rw [herror] at hsame
    exact .inl hsame
  · rw [hok] at hsame ⊢
    obtain rfl : u = t := hsame
    rcases hrun : writeAll out files u with ⟨e | written, u'⟩ <;>
      rw [Session.ofFiles, hrun] at hwrite <;> obtain ⟨hresult, rfl⟩ := Prod.mk.inj hwrite
    · exact .inr ⟨files, e, rfl, (Except.error.inj hresult).symm, hrun⟩
    · cases hresult

/-- A write that the system refuses changes no file but those that it has moved to their places
before it met an obstruction. So it keeps every file if nothing is obstructed, and a run that fails
does too. -/
theorem failed_run_keeps_files {t : FileTree} {out : String} (hwell : t.WellFormed)
    (hdown : t.pathExists out = true ∨ NeverUp out) :
    (∀ files e t', Separate files → e.fault.number?.isSome = true →
      writeAll out files t = (.error e, t') →
      MovedUpTo (place out) files t t' ∧
        ((∀ f ∈ files, ¬ Obstructed t (place out) f.path) → SameFiles t t')) ∧
    ∀ o stop paths failure t', compileFiles o stop paths out t = (.error failure, t') →
      (∀ e, failure = .file e → e.fault.number?.isSome = true) →
      (∀ files, (compiled o stop paths t).1 = .ok files →
        Separate files ∧ ∀ f ∈ files, ¬ Obstructed t (place out) f.path) →
      SameFiles t t' := by
  have hwrite (files : List File) (e : FileError) (t' : FileTree) (hseparate : Separate files)
      (hsystem : e.fault.number?.isSome = true) (hrun : writeAll out files t = (.error e, t')) :
      MovedUpTo (place out) files t t' :=
    movedUpTo_of_writeAll hwell hdown hseparate hsystem hrun
  refine ⟨fun files e t' hseparate hsystem hrun => ?_, ?_⟩
  · have hmoved := hwrite files e t' hseparate hsystem hrun
    exact ⟨hmoved, hmoved.sameFiles⟩
  · intro o stop paths failure t' hrun hsystem hfiles
    rcases compileFiles_eq_error hrun with rfl | ⟨files, e, hok, rfl, hrefused⟩
    · exact fun _ => rfl
    · obtain ⟨hseparate, hclear⟩ := hfiles files hok
      exact (hwrite files e t' hseparate (hsystem e rfl) hrefused).sameFiles hclear

def nested : FileTree where
  entries := [(["o"], .directory), (["o", "b"], .directory),
    (["o", "b", "x"], .file "1".toUTF8)]

/-- A file below another one cannot be staged. -/
theorem failed_run_keeps_files_nested :
    ∃ e t', writeAll "o" [⟨"a", "1"⟩, ⟨"a/c", "2"⟩] nested = (.error e, t') ∧
      SameFiles nested t' := by
  obtain ⟨e, he, hsystem⟩ : ∃ e, (writeAll "o" [⟨"a", "1"⟩, ⟨"a/c", "2"⟩] nested).1 = .error e ∧
      e.fault.number?.isSome = true :=
    ⟨⟨.alreadyThere, "o/.cdpgen-00000000/a", none⟩, by decide +kernel, rfl⟩
  have hseparate : Separate [⟨"a", "1"⟩, ⟨"a/c", "2"⟩] := by
    refine ⟨by decide +kernel, by decide, fun f hf n hname => ?_⟩
    have hhead : ∀ f ∈ [(⟨"a", "1"⟩ : File), ⟨"a/c", "2"⟩],
        (parts f.path).head? = some "a" := by decide +kernel
    have heq := Option.some.inj ((hhead f hf).symm.trans hname)
    have hlist := congrArg String.toList heq
    rw [toList_stagingName] at hlist
    cases hlist
  refine ⟨e, (writeAll "o" [⟨"a", "1"⟩, ⟨"a/c", "2"⟩] nested).2, Prod.ext he rfl, ?_⟩
  exact ((failed_run_keeps_files (by decide +kernel) (.inl (by decide +kernel))).1 _ _ _ hseparate
    hsystem (Prod.ext he rfl)).2 (by decide +kernel)

/-- A file that was moved before an obstruction stays. -/
theorem failed_run_leaves_file :
    ∃ e t', writeAll "o" [⟨"a", "1"⟩, ⟨"b", "2"⟩] nested = (.error e, t') ∧
      e.fault.number?.isSome = true ∧ nested.file? ["o", "a"] = none ∧
      t'.file? ["o", "a"] = some "1".toUTF8 := by
  have hrun : (writeAll "o" [⟨"a", "1"⟩, ⟨"b", "2"⟩] nested).1 =
        .error ⟨.isDirectory, "o/.cdpgen-00000000/b", some "o/b"⟩ ∧
      (writeAll "o" [⟨"a", "1"⟩, ⟨"b", "2"⟩] nested).2.find? ["o", "a"] =
        some (.file "1".toUTF8) := by decide +kernel
  exact ⟨_, _, Prod.ext hrun.1 rfl, rfl, rfl, file?_eq_some.2 hrun.2⟩

end Compilation

end WireBindings
