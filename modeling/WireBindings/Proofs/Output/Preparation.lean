import WireBindings.Proofs.FileTree.Containment
import WireBindings.Proofs.Output.Moving

/-!
# Prepared writes

A write makes its output directory and a new staging directory there. Whatever is staged after that
is gone with the staging directory, and what was moved out of it stays.
-/

namespace WireBindings.Output

open FileTree
open Target (File)

variable {out : String} {n : Nat} {o : Place} {t t' b u v : FileTree}
  {files moved rest : List File} {e : FileError}

/-! ## Runs of a write -/

def withOutput (out : String) (t : FileTree) : FileTree := (FileM.makeDirectories out.toList t).2

def stagingOf (out : String) (t : FileTree) : String := freshStaging out (withOutput out t)

/-- A write gets as far as its staging directory, with which the tree is `u`. -/
structure Begins (out : String) (t u : FileTree) : Prop where
  output : (FileM.makeDirectories out.toList t).1 = .ok ()
  staging : (withOutput out t).makeDirectory (stagingOf out t) = .ok u

theorem writeVia_run (staging out : String) (isNew : Bool) (files : List File) (t : FileTree) :
    writeVia staging out isNew files t = match t.makeDirectory staging with
      | .error fault => (.error { fault, path := staging }, t)
      | .ok u => match stageAll staging files u with
        | (.error e, v) => (.error e, if e.fault.number?.isSome then
            if isNew then (v.removeTree staging).removeTree out else v.removeTree staging
          else v)
        | (.ok _, v) => match moveAll staging out files v with
          | (result, w) => (result, w.removeTree staging) := by
  unfold writeVia
  cases hmade : t.makeDirectory staging with
  | error fault =>
      have hrun : FileM.makeDirectory staging t = (.error { fault, path := staging }, t) :=
        FileM.change_of_error hmade
      rw [Outcome.bind_run_of_error hrun]
  | ok u =>
      have hrun : FileM.makeDirectory staging t = (.ok (), u) := FileM.change_eq_ok.2 hmade
      rw [Outcome.bind_run_of_ok hrun, Outcome.bind_run_of_ok (FileM.attempt_run _ u)]
      dsimp only
      rcases stageAll staging files u with ⟨e | ⟨⟩, v⟩
      · dsimp only
        cases e.fault.number?.isSome with
        | true => cases isNew <;> rfl
        | false => rfl
      · dsimp only
        rw [Outcome.bind_run_of_ok (FileM.attempt_run _ v)]
        rcases moveAll staging out files v with ⟨e | written, w⟩ <;> rfl

theorem writeAll_run (out : String) (files : List File) (t : FileTree) :
    writeAll out files t = match FileM.makeDirectories out.toList t with
      | (.error e, b) => (.error e, b)
      | (.ok _, b) => writeVia (freshStaging out b) out (!t.pathExists out) files b := by
  unfold writeAll
  rw [Outcome.bind_run_of_ok (FileM.ask_run _ t)]
  rcases hmade : FileM.makeDirectories out.toList t with ⟨e | ⟨⟩, b⟩
  · rw [Outcome.bind_run_of_error hmade]
  · rw [Outcome.bind_run_of_ok hmade, Outcome.bind_run_of_ok (FileM.ask_run _ b)]

/-- A write is refused before there is a staging directory, or goes on from there. -/
theorem writeAll_cases (out : String) (files : List File) (t : FileTree) :
    ((∀ u, ¬ Begins out t u) ∧ ∃ e, writeAll out files t = (.error e, withOutput out t)) ∨
      ∃ u, Begins out t u ∧ out ≠ "" ∧ writeAll out files t =
        writeVia (stagingOf out t) out (!t.pathExists out) files (withOutput out t) := by
  rw [writeAll_run]
  rcases hmade : FileM.makeDirectories out.toList t with ⟨e | ⟨⟩, b⟩
  · obtain rfl : withOutput out t = b := congrArg Prod.snd hmade
    refine .inl ⟨fun u hu => ?_, e, rfl⟩
    cases (congrArg Prod.fst hmade).symm.trans hu.output
  · obtain rfl : withOutput out t = b := congrArg Prod.snd hmade
    dsimp only
    rw [← stagingOf]
    cases hmake : (withOutput out t).makeDirectory (stagingOf out t) with
    | error fault =>
        refine .inl ⟨fun u hu => ?_, { fault, path := stagingOf out t }, ?_⟩
        · cases hmake.symm.trans hu.staging
        · rw [writeVia_run, hmake]
    | ok u =>
        refine .inr ⟨u, ⟨congrArg Prod.fst hmade, hmake⟩, ?_, rfl⟩
        rintro rfl
        exact FileM.makeDirectories_nil t (congrArg Prod.fst hmade)

/-! ## The staging directory -/

theorem place_stagingPath (out : String) (n : Nat) :
    place (stagingPath out n) = stagingPlace (place out) n := by
  rw [stagingPath, place_join_plain (isPlain_stagingName n), parts_stagingName, stagingPlace]

theorem admissible_of_stagingPath (hout : out ≠ "") (h : Admissible (stagingPath out n)) :
    Admissible out := by
  obtain ⟨slash, hjoin⟩ := exists_join_eq out
  obtain ⟨hzero, -, hsize⟩ := h
  rw [stagingPath, hjoin _ (isPlain_stagingName n).isRelative] at hzero hsize
  simp only [String.toList_append, List.mem_append, not_or] at hzero
  simp only [String.utf8ByteSize_append] at hsize
  exact ⟨hzero.1.1, hout, by omega⟩

theorem find?_set_stagingPlace {q : Place} (hq : ¬ Below (stagingPlace o n) q) :
    (b.set (stagingPlace o n) .directory).find? q = b.find? q := by
  refine find?_set_of_ne ?_ b _
  rintro rfl
  exact hq (Below.refl _)

/-- The output directory is there, and the staging directory is new in it. -/
structure Prepared (out : String) (n : Nat) (t b : FileTree) : Prop where
  gains : Gains (fun _ => True) (OnWay out) t b
  wellFormed : b.WellFormed
  leads : Leads b (start out) (parts out) (place out)
  fresh : b.find? (stagingPlace (place out) n) = none
  staging : Staging out n (place out) (b.set (stagingPlace (place out) n) .directory)

theorem gains_withOutput (out : String) (t : FileTree) :
    Gains (fun _ => True) (OnWay out) t (withOutput out t) := by
  have hgains := FileM.gainsOnWay_makeDirectories out.toList t
  rwa [String.ofList_toList] at hgains

theorem Begins.exists_prepared (h : Begins out t u) (hwell : t.WellFormed) :
    ∃ n, stagingOf out t = stagingPath out n ∧
      u = (withOutput out t).set (stagingPlace (place out) n) .directory ∧
      Prepared out n t (withOutput out t) := by
  obtain ⟨n, hname⟩ := exists_freshStaging_eq out (withOutput out t)
  have hmade := h.staging
  rw [stagingOf, hname] at hmade
  obtain ⟨o, hlead, hfresh, rfl, hstaging⟩ := exists_staging_of_makeDirectory hmade
  obtain rfl : o = place out := hlead.eq_foldl
  exact ⟨n, hname, rfl, gains_withOutput out t, FileM.wellFormed_makeDirectories _ hwell, hlead,
    hfresh, hstaging⟩

theorem strictlyBelow_of_staging {q : Place} (h : Below (stagingPlace o n) q) :
    StrictlyBelow o q := by
  have hstaging : Below o (stagingPlace o n) :=
    Below.names o (List.forall_mem_singleton.2 (isName_stagingName n))
  refine ⟨hstaging.trans h, ?_⟩
  obtain ⟨xs, rfl, -⟩ := h
  simp [stagingPlace]

theorem find?_eraseBelow_staging {q : Place} (hq : Below (stagingPlace o n) q) :
    (v.eraseBelow (stagingPlace o n)).find? q = none :=
  find?_eraseBelow_of_isBelow (isBelow_eq_true.2 hq)
    (strictlyBelow_of_staging hq).isFixed_eq_false v

namespace Prepared

theorem find?_below (h : Prepared out n t b) {q : Place} (hq : Below (stagingPlace (place out) n) q) :
    b.find? q = none :=
  h.wellFormed.find?_below h.fresh hq

/-- Staging leaves nothing behind when its directory goes. -/
theorem find?_of_staging (h : Prepared out n t b)
    (hinside : Inside (stagingPlace (place out) n)
      (b.set (stagingPlace (place out) n) .directory) v) (q : Place) :
    (v.eraseBelow (stagingPlace (place out) n)).find? q = b.find? q := by
  by_cases hq : Below (stagingPlace (place out) n) q
  · rw [find?_eraseBelow_staging hq, h.find?_below hq]
  · rw [find?_eraseBelow_of_not_isBelow (isBelow_eq_false.2 hq), hinside.outside q hq,
      find?_set_stagingPlace hq]

/-- Files that are refused while they are staged leave the tree as it was before. -/
theorem find?_of_stageAll_error (h : Prepared out n t b) (hplain : ∀ f ∈ files, IsPlain f.path)
    (hstage : stageAll (stagingPath out n) files
      (b.set (stagingPlace (place out) n) .directory) = (.error e, v)) (q : Place) :
    (v.removeTree (stagingPath out n)).find? q = b.find? q := by
  have hinside := (stageAll_spec h.staging hplain).1.inside
  rw [hstage] at hinside
  rw [(h.staging.mono hinside.directories).removeTree_eq]
  exact h.find?_of_staging hinside q

/-- Files that were all staged can be moved one by one. -/
theorem moving_of_stageAll (h : Prepared out n t b) (hseparate : SeparateFrom n files)
    (hstage : stageAll (stagingPath out n) files
      (b.set (stagingPlace (place out) n) .directory) = (.ok (), v)) :
    Moving out n (place out) b [] files v ∧ Apart files := by
  obtain ⟨hkeeps, hstaged⟩ := stageAll_spec h.staging hseparate.plain
  rw [hstage] at hkeeps hstaged
  have hall := hstaged rfl hseparate.nodup
  refine ⟨⟨h.staging.mono hkeeps.inside.directories, hall,
    fun _ hf => absurd hf List.not_mem_nil, fun q hq => .inl ?_⟩, fun f hf g hg => ?_⟩
  · exact (hkeeps.inside.outside q hq).trans (find?_set_stagingPlace hq)
  · exact (hall f hf).not_isPrefix (hseparate.plain f hf) (hall g hg)

/-- Files that were moved have gained directories on their ways only. -/
theorem gains_of_moving (h : Prepared out n t b) (hseparate : SeparateFrom n (moved ++ rest))
    (hmoving : Moving out n (place out) b moved rest u)
    (hgains : Gains (fun _ => True) (OnWays (place out) (moved ++ rest)) u v) :
    Gains (fun _ => True) (OnWays (place out) (moved ++ rest)) (put (place out) moved b)
      (v.removeTree (stagingPath out n)) := by
  have hsubset := List.subset_append_left moved rest
  rw [(hmoving.staging.of_gains hgains.directories).removeTree_eq]
  intro q _
  by_cases hq : Below (stagingPlace (place out) n) q
  · left
    rw [find?_eraseBelow_staging hq, hseparate.find?_put hsubset hq, h.find?_below hq]
  · rw [find?_eraseBelow_of_not_isBelow (isBelow_eq_false.2 hq)]
    have hbefore := hmoving.outside.mono (fun _ hq => hq) fun _ hq => hq.mono hsubset
    exact hbefore.trans (hgains.mono (fun _ _ => trivial) fun _ hq => hq) q hq

end Prepared

end WireBindings.Output
