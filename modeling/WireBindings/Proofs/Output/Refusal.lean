import WireBindings.Proofs.Output.Preparation

/-!
# Refused writes

A write that is refused leaves the files of the tree as they were, unless files had been moved to
their places when one of them met an obstruction.
-/

namespace WireBindings.Output

open FileTree
open Target (File)

variable {out : String} {n : Nat} {o : Place} {t t' b u v : FileTree} {f : File}
  {files moved rest : List File} {e : FileError}

/-! ## The output directory -/

/-- An output directory that is there or is not reached by leading up is made with directories on
the way to it, and before it is made nothing stands at its place. -/
theorem Prepared.gains_output (h : Prepared out n t (withOutput out t)) (hout : out ≠ "")
    (hwell : t.WellFormed) (hdown : t.pathExists out = true ∨ NeverUp out) :
    Gains (fun _ => True) (fun q => Below q (place out)) t (withOutput out t) ∧
      (t.pathExists out = false → t.find? (place out) = none) := by
  have hplace := h.leads.isDirectory (find?_start out _)
  cases hexists : t.pathExists out with
  | true =>
      obtain ⟨p, e, hresolve, hp⟩ := exists_of_pathExists hexists
      obtain rfl := eq_place_of_resolve hresolve
      -- a file at the path would still be there; with a directory there is nothing to make
      cases e with
      | file content => cases ((h.gains.find?_file trivial).2 hp).symm.trans hplace
      | directory =>
          have hthere : Leads t (start (String.ofList out.toList)) (segments out.toList)
              (place out) := by
            rw [String.ofList_toList]
            exact leads_of_resolve hresolve hp
          have hsame : withOutput out t = t := FileM.makeDirectories_of_leads hthere
          rw [hsame]
          exact ⟨Gains.refl _ _ t, nofun⟩
  | false =>
      have hdown := hdown.resolve_left (by simp [hexists])
      refine ⟨h.gains.mono (fun _ => id) fun _ hq => hq.below hdown, fun _ => ?_⟩
      -- a directory at its place would lead there without the ones that were made
      rcases h.gains (place out) trivial with heq | ⟨hnone, -, -⟩
      · rw [hplace] at heq
        have hthere := h.leads.of_wellFormed (fun part hpart => hdown.of_mem hpart) hwell heq.symm
        have hadmissible := admissible_of_stagingPath hout h.staging.admissible
        have hresolve : t.resolve out = .ok (place out) :=
          resolve_eq_ok.2 ⟨hadmissible, hthere.descend⟩
        rw [pathExists_of_directory hresolve heq.symm] at hexists
        cases hexists
      · exact hnone

/-- Making the output directory obstructs no file. -/
theorem obstructed_iff_of_gains (hgains : Gains (fun _ => True) (fun q => Below q o) t b)
    {path : String} (hplain : IsPlain path) : Obstructed b o path ↔ Obstructed t o path := by
  have hsame (ys : List String) (hne : ys ≠ []) : b.find? (o ++ ys) = t.find? (o ++ ys) := by
    rcases hgains (o ++ ys) trivial with heq | ⟨-, -, rest, heq, -⟩
    · exact heq
    · have hlength := congrArg List.length heq
      have hpos := List.length_pos_iff.2 hne
      simp only [List.length_append] at hlength
      omega
  exact obstructed_congr (hsame _ hplain.parts_ne_nil) fun ys hne _ content => by rw [hsame ys hne]

/-! ## What is left of a refused write -/

theorem sameFiles_removeTree (hwell : t.WellFormed) (hsame : SameFiles t u)
    (hnone : t.find? (place out) = none) : SameFiles t (u.removeTree out) := by
  intro q
  rcases file?_removeTree u out q with heq | ⟨hbelow, hgone⟩
  · rw [heq, hsame q]
  · rw [hgone, file?_of_none (hwell.find?_below hnone hbelow)]

theorem file?_put_congr {q : Place} (h : t'.file? q = t.file? q) :
    (put o files t').file? q = (put o files t).file? q := by
  induction files using List.reverseRecOn with
  | nil => exact h
  | append_singleton files f ih =>
      rw [put_concat, put_concat]
      by_cases hq : q = o ++ parts f.path
      · rw [hq]
        cases hfixed : isFixed (o ++ parts f.path) with
        | true => rw [file?_of_isFixed hfixed, file?_of_isFixed hfixed]
        | false => exact file?_congr (by rw [find?_set_self hfixed, find?_set_self hfixed])
      · rw [file?_congr (find?_set_of_ne hq _ _), file?_congr (find?_set_of_ne hq _ _), ih]

/-- From one tree to another, files were moved to their places, up to one that is obstructed if
there are any, and no other file has changed. -/
def MovedUpTo (o : Place) (files : List File) (t t' : FileTree) : Prop :=
  ∃ moved rest, files = moved ++ rest ∧ SameFiles (put o moved t) t' ∧
    (moved ≠ [] → (∀ f ∈ moved, ¬ Obstructed t o f.path) ∧
      ∃ f, rest.head? = some f ∧ Obstructed t o f.path)

theorem MovedUpTo.of_sameFiles (o : Place) (files : List File) (h : SameFiles t t') :
    MovedUpTo o files t t' := ⟨[], files, rfl, h, fun hne => absurd rfl hne⟩

theorem MovedUpTo.sameFiles (h : MovedUpTo o files t t')
    (hclear : ∀ f ∈ files, ¬ Obstructed t o f.path) : SameFiles t t' := by
  obtain ⟨moved, rest, rfl, hsame, hmoved⟩ := h
  by_cases hne : moved = []
  · rw [hne] at hsame
    exact hsame
  · obtain ⟨-, f, hf, hobstructed⟩ := hmoved hne
    exact absurd hobstructed (hclear f (List.mem_append_right _ (List.mem_of_head? hf)))

/-- Files that were all staged are moved up to one that is obstructed. -/
theorem Prepared.movedUpTo_of_moveAll (h : Prepared out n t b)
    (hgains : Gains (fun _ => True) (fun q => Below q (place out)) t b) (hout : out ≠ "")
    (hseparate : SeparateFrom n files)
    (hstage : stageAll (stagingPath out n) files
      (b.set (stagingPlace (place out) n) .directory) = (.ok (), v))
    (hrun : moveAll (stagingPath out n) out files v = (.error e, u)) :
    MovedUpTo (place out) files t (u.removeTree (stagingPath out n)) := by
  have hiff (f : File) (hf : f ∈ files) := obstructed_iff_of_gains hgains (hseparate.plain f hf)
  obtain ⟨hmoving, hapart⟩ := h.moving_of_stageAll hseparate hstage
  obtain ⟨moved, left, w, rfl, hclear, hmoved, hresult⟩ :=
    hmoving.moveAll_cases hseparate hapart hout
  rcases hresult with ⟨-, hok⟩ | ⟨f, e', w', hf, hobstructed, hlast, herror⟩
  · cases hok.symm.trans hrun
  · obtain rfl : w' = u := (Prod.mk.inj (herror.symm.trans hrun)).2
    have hmem := List.mem_append_right moved (List.mem_of_head? hf)
    have hleft := h.gains_of_moving hseparate hmoved
      (hlast.mono (fun _ => id) fun _ hq => ⟨f, hmem, hq⟩)
    refine ⟨moved, left, rfl, fun q => ?_, fun _ => ⟨fun g hg => ?_, f, hf, ?_⟩⟩
    · rw [hleft.file? trivial]
      exact file?_put_congr (h.gains.file? trivial)
    · exact mt (hiff g (List.mem_append_left _ hg)).2 (hclear g hg)
    · exact (hiff f hmem).1 hobstructed

/-- A refused write changes no file but those it has moved, and the next one was obstructed. -/
theorem movedUpTo_of_writeAll (hwell : t.WellFormed)
    (hdown : t.pathExists out = true ∨ NeverUp out) (hseparate : Separate files)
    (hsystem : e.fault.number?.isSome = true) (hrun : writeAll out files t = (.error e, t')) :
    MovedUpTo (place out) files t t' := by
  rcases writeAll_cases out files t with ⟨-, e', hcase⟩ | ⟨u, hbegins, hout, hcase⟩
  · obtain rfl : withOutput out t = t' := (Prod.mk.inj (hcase.symm.trans hrun)).2
    exact .of_sameFiles _ _ (gains_withOutput out t).directories.sameFiles
  · rw [hcase, writeVia_run, hbegins.staging] at hrun
    obtain ⟨n, hname, rfl, h⟩ := hbegins.exists_prepared hwell
    have hseparate := hseparate.separateFrom n
    obtain ⟨hgains, hnone⟩ := h.gains_output hout hwell hdown
    rw [hname] at hrun
    dsimp only at hrun
    rcases hstage : stageAll (stagingPath out n) files
      ((withOutput out t).set (stagingPlace (place out) n) .directory) with ⟨e' | ⟨⟩, v⟩ <;>
      rw [hstage] at hrun <;> dsimp only at hrun
    · obtain ⟨he, rfl⟩ := Prod.mk.inj hrun
      obtain rfl := Except.error.inj he
      have hsame : SameFiles t (v.removeTree (stagingPath out n)) := fun q =>
        (file?_congr (h.find?_of_stageAll_error hseparate.plain hstage q)).trans
          (h.gains.file? trivial)
      apply MovedUpTo.of_sameFiles
      rw [if_pos hsystem]
      cases hexists : t.pathExists out with
      | true =>
          rw [Bool.not_true, if_neg Bool.false_ne_true]
          exact hsame
      | false =>
          rw [Bool.not_false, if_pos rfl]
          exact sameFiles_removeTree hwell hsame (hnone hexists)
    · rcases hmove : moveAll (stagingPath out n) out files v with ⟨result, w⟩
      rw [hmove] at hrun
      obtain ⟨rfl, rfl⟩ := Prod.mk.inj hrun
      exact h.movedUpTo_of_moveAll hgains hout hseparate hstage hmove

end WireBindings.Output
