import Mathlib.Data.Prod.Basic
import WireBindings.Proofs.Output.Preparation

/-!
# What a write leaves

A write that is not refused leaves its files with their texts, and no other file or directory has
changed but for directories on the way to them. The staging directory goes in any case, and if the
files cannot be staged, so does an output directory that was not there before.
-/

namespace WireBindings.Output

open FileTree
open Target (File)

variable {out : String} {n : Nat} {o : Place} {t t' b u v w : FileTree} {f : File}
  {files moved rest : List File} {e : FileError} {result : Except FileError (List String)}

/-- The files are there with their texts, and nothing that was there before has changed
otherwise. -/
structure Written (out : String) (files : List File) (t t' : FileTree) : Prop where
  texts : ∀ f ∈ files, t'.read (Path.join out f.path) = .ok f.text.toUTF8
  others : ∀ q, (∀ f ∈ files, q ≠ place (Path.join out f.path)) → t'.file? q = t.file? q
  directories : ∀ q, t.find? q = some .directory → t'.find? q = some .directory

/-- The directories that are new are on the way of the output directory or on those from there to
the files. -/
def MakesOnly (out : String) (files : List File) (t t' : FileTree) : Prop :=
  ∀ q, t'.find? q = some .directory →
    t.find? q = some .directory ∨ OnWay out q ∨ OnWays (place out) files q

/-- The output directory is gone with all that was below it, unless its path names it by an entry of
its own: then it is left empty. -/
def Undone (out : String) (t : FileTree) : Prop :=
  (t.find? (place out) = if endsInDots out then some .directory else none) ∧
    ∀ q, StrictlyBelow (place out) q → t.find? q = none

/-- How a write ends. A write that returns has written its files. In any case the directories that
are new are some that it may make, and nothing is left of the staging directory. If the files could
not be staged, an output directory that was not there before is not there afterwards. -/
structure Effect (out : String) (files : List File) (t : FileTree)
    (result : Except FileError (List String)) (t' : FileTree) : Prop where
  written : ∀ paths, result = .ok paths →
    paths = files.map (fun f => Path.join out f.path) ∧ Written out files t t'
  makesOnly : MakesOnly out files t t'
  cleared : ∀ u, Begins out t u → ∀ q, Below (place (stagingOf out t)) q → t'.find? q = none
  undone : ∀ u e v, Begins out t u → stageAll (stagingOf out t) files u = (.error e, v) →
    result = .error e ∧ (t.pathExists out = false → Undone out t')

/-! ## New directories -/

theorem makesOnly_of_subset (hgains : Gains (fun _ => True) (OnWay out) t b)
    (hsubset : ∀ q, t'.find? q = some .directory → b.find? q = some .directory) :
    MakesOnly out files t t' := by
  intro q hq
  rcases hgains q trivial with heq | ⟨-, -, hway⟩
  · exact .inl (heq ▸ hsubset q hq)
  · exact .inr (.inl hway)

/-- Where a file was put there is no directory, so the others are on the ways of the files. -/
theorem makesOnly_of_put (hgains : Gains (fun _ => True) (OnWay out) t b)
    (hmoved : SeparateFrom n moved)
    (hgains' : Gains (fun _ => True) (OnWays (place out) files) (put (place out) moved b) t') :
    MakesOnly out files t t' := by
  have hput : MakesOnly out files t (put (place out) moved b) := by
    refine makesOnly_of_subset hgains fun q hq => ?_
    by_cases hplace : ∃ f ∈ moved, q = place out ++ parts f.path
    · obtain ⟨f, hf, rfl⟩ := hplace
      cases (hmoved.find?_put_of_mem hf (place out) b).symm.trans hq
    · rwa [find?_put_of_ne fun f hf heq => hplace ⟨f, hf, heq⟩] at hq
  intro q hq
  rcases hgains' q trivial with heq | ⟨-, -, hway⟩
  · exact hput q (heq ▸ hq)
  · exact .inr (.inr hway)

/-! ## Ends of a prepared write -/

/-- Nothing is left of the staging directory, and no other directory is new but those that a write
may make. -/
structure Ended (out : String) (n : Nat) (files : List File) (t t' : FileTree) : Prop where
  makesOnly : MakesOnly out files t t'
  cleared : ∀ q, Below (stagingPlace (place out) n) q → t'.find? q = none

namespace Prepared

theorem ended_of_same (h : Prepared out n t b) (hsame : ∀ q, t'.find? q = b.find? q) :
    Ended out n files t t' where
  makesOnly := makesOnly_of_subset h.gains fun q hq => hsame q ▸ hq
  cleared q hq := (hsame q).trans (h.find?_below hq)

theorem find?_removeTree_output (h : Prepared out n t b) (hout : out ≠ "")
    (hexists : t.pathExists out = false) (hsame : ∀ q, w.find? q = b.find? q) :
    ((w.removeTree out).find? (place out) = if endsInDots out then some .directory else none) ∧
      (∀ q, StrictlyBelow (place out) q → (w.removeTree out).find? q = none) ∧
      ∀ q, ¬ Below (place out) q → (w.removeTree out).find? q = b.find? q := by
  have hadmissible := admissible_of_stagingPath hout h.staging.admissible
  have hlead : Leads w (start out) (parts out) (place out) :=
    h.leads.mono fun q hq => (hsame q).trans hq
  have hplace := hlead.isDirectory (find?_start out w)
  -- the start of a path is always there, so this path has parts
  have hparts : parts out ≠ [] := by
    intro hnil
    have hresolve : t.resolve out = .ok (start out) :=
      resolve_eq_ok.2 ⟨hadmissible, by rw [hnil, descend]⟩
    rw [pathExists_of_directory hresolve (find?_start out t)] at hexists
    cases hexists
  obtain ⟨hself, hbelow, houtside⟩ := FileTree.find?_removeTree
    (resolve_eq_ok.2 ⟨hadmissible, hlead.descend⟩) hplace (isFixed_place_of_name hparts)
  exact ⟨hself, hbelow, fun q hq => (houtside q hq).trans (hsame q)⟩

theorem ended_of_removeTree (h : Prepared out n t b) (hout : out ≠ "")
    (hexists : t.pathExists out = false) (hsame : ∀ q, w.find? q = b.find? q) :
    Ended out n files t (w.removeTree out) ∧ Undone out (w.removeTree out) := by
  obtain ⟨hself, hbelow, houtside⟩ := h.find?_removeTree_output hout hexists hsame
  refine ⟨⟨makesOnly_of_subset h.gains fun q hq => ?_, fun q hq => ?_⟩, hself, hbelow⟩
  · by_cases hq' : Below (place out) q
    · by_cases hplace : q = place out
      · rw [hplace]
        exact h.leads.isDirectory (find?_start out b)
      · cases (hbelow q ⟨hq', hplace⟩).symm.trans hq
    · rwa [houtside q hq'] at hq
  · exact hbelow q (strictlyBelow_of_staging hq)

/-- If the files cannot be staged, a new output directory goes as well. -/
theorem ended_of_stageAll_error (h : Prepared out n t b) (hout : out ≠ "")
    (hplain : ∀ f ∈ files, IsPlain f.path)
    (hstage : stageAll (stagingPath out n) files
      (b.set (stagingPlace (place out) n) .directory) = (.error e, v))
    (hleft : (if !t.pathExists out then (v.removeTree (stagingPath out n)).removeTree out
      else v.removeTree (stagingPath out n)) = t') :
    Ended out n files t t' ∧ (t.pathExists out = false → Undone out t') := by
  have hsame := h.find?_of_stageAll_error hplain hstage
  cases hexists : t.pathExists out with
  | false =>
      rw [hexists, Bool.not_false, if_pos rfl] at hleft
      obtain ⟨hended, hundone⟩ := h.ended_of_removeTree hout hexists hsame
      rw [← hleft]
      exact ⟨hended, fun _ => hundone⟩
  | true =>
      rw [hexists, Bool.not_true, if_neg Bool.false_ne_true] at hleft
      rw [← hleft]
      exact ⟨h.ended_of_same hsame, nofun⟩

theorem ended_of_moving (h : Prepared out n t b) (hseparate : SeparateFrom n (moved ++ rest))
    (hmoving : Moving out n (place out) b moved rest u)
    (hgains : Gains (fun _ => True) (OnWays (place out) (moved ++ rest)) u v) :
    Ended out n (moved ++ rest) t (v.removeTree (stagingPath out n)) where
  makesOnly := makesOnly_of_put h.gains hseparate.of_append
    (h.gains_of_moving hseparate hmoving hgains)
  cleared q hq := by
    rw [(hmoving.staging.of_gains hgains.directories).removeTree_eq, find?_eraseBelow_staging hq]

/-- Files that were all moved are there, and everything else is as it was. -/
theorem written (h : Prepared out n t b) (hseparate : SeparateFrom n files)
    (hclear : ∀ f ∈ files, ¬ Obstructed b (place out) f.path)
    (hmoving : Moving out n (place out) b files [] u)
    (hgains : Gains (fun _ => True) (OnWays (place out) files) (put (place out) files b)
      (u.removeTree (stagingPath out n))) :
    Written out files t (u.removeTree (stagingPath out n)) := by
  have hkeep (q : Place) (hq : b.find? q = some .directory) :
      (u.removeTree (stagingPath out n)).find? q = some .directory := by
    refine hgains.find?_directory trivial ?_
    rw [find?_put_of_ne, hq]
    rintro f hf rfl
    exact hclear f hf (.inl hq)
  refine ⟨fun f hf => ?_, fun q hq => ?_, fun q hq => ?_⟩
  · have hplain := hseparate.plain f hf
    have harrived := hmoving.arrived f hf
    have hdirectories : DirectoriesAlong (u.removeTree (stagingPath out n)) (place out)
        (parts f.path).dropLast := by
      intro ys hne hys
      have hnot := hseparate.not_below hf hne (hys.trans (List.dropLast_prefix _)) (place out)
      rw [hmoving.staging.removeTree_eq, find?_eraseBelow_of_not_isBelow (isBelow_eq_false.2 hnot)]
      exact harrived.directories ys hne hys
    exact read_of_find?
      (resolve_join harrived.admissible (h.leads.mono hkeep) hplain harrived.sizes hdirectories)
      ((hgains.find?_file trivial).2 (hseparate.find?_put_of_mem hf _ b))
      (namesDirectory_join hplain _)
  · have hput : (put (place out) files b).find? q = b.find? q := by
      refine find?_put_of_ne fun f hf => ?_
      rw [← place_join_plain (hseparate.plain f hf)]
      exact hq f hf
    rw [hgains.file? trivial, file?_congr hput, h.gains.file? trivial]
  · exact hkeep q (h.gains.find?_directory trivial hq)

/-- Files that were all staged are moved, up to one that is obstructed. -/
theorem ended_of_moveAll (h : Prepared out n t b) (hout : out ≠ "")
    (hseparate : SeparateFrom n files)
    (hstage : stageAll (stagingPath out n) files
      (b.set (stagingPlace (place out) n) .directory) = (.ok (), v))
    (hmove : moveAll (stagingPath out n) out files v = (result, u)) :
    Ended out n files t (u.removeTree (stagingPath out n)) ∧
      ∀ paths, result = .ok paths → paths = files.map (fun f => Path.join out f.path) ∧
        Written out files t (u.removeTree (stagingPath out n)) := by
  obtain ⟨hmoving, hapart⟩ := h.moving_of_stageAll hseparate hstage
  obtain ⟨moved, left, w, rfl, hclear, hmoved, hresult⟩ :=
    hmoving.moveAll_cases hseparate hapart hout
  rw [List.nil_append] at hmoved
  rcases hresult with ⟨rfl, hok⟩ | ⟨f, e, w', hf, -, hlast, herror⟩
  · obtain ⟨rfl, rfl⟩ := Prod.mk.inj (hmove.symm.trans hok)
    refine ⟨h.ended_of_moving hseparate hmoved (Gains.refl _ _ _), fun paths hpaths => ?_⟩
    obtain rfl := Except.ok.inj hpaths
    have hgains := h.gains_of_moving hseparate hmoved (Gains.refl _ _ _)
    rw [List.append_nil] at hseparate hgains ⊢
    exact ⟨rfl, h.written hseparate hclear hmoved hgains⟩
  · obtain ⟨rfl, rfl⟩ := Prod.mk.inj (hmove.symm.trans herror)
    refine ⟨h.ended_of_moving hseparate hmoved (hlast.mono (fun _ => id) fun q hq => ?_), nofun⟩
    exact ⟨f, List.mem_append_right _ (List.mem_of_head? hf), hq⟩

end Prepared

/-! ## Effects of a write -/

/-- A write that does not get as far as its staging directory makes the output directory at most. -/
theorem effect_of_not_begins (hnot : ∀ u, ¬ Begins out t u) :
    Effect out files t (.error e) (withOutput out t) where
  written := nofun
  makesOnly := makesOnly_of_subset (gains_withOutput out t) fun _ => id
  cleared u hu := absurd hu (hnot u)
  undone u _ _ hu := absurd hu (hnot u)

theorem separateFrom_of_fresh (hplain : ∀ f ∈ files, IsPlain f.path)
    (hnodup : (files.map (·.path)).Nodup)
    (hfresh : ∀ f ∈ files, ¬ Below (stagingPlace (place out) n) (place (Path.join out f.path))) :
    SeparateFrom n files where
  plain := hplain
  nodup := hnodup
  unstaged := by
    intro f hf hhead
    obtain ⟨xs, hxs⟩ := List.head?_eq_some_iff.1 hhead
    refine hfresh f hf ⟨xs, ?_, fun x hx => ?_⟩
    · rw [place_join_plain (hplain f hf), hxs, stagingPlace, List.append_assoc,
        List.singleton_append]
    · exact ((hplain f hf).isName (hxs ▸ List.mem_cons_of_mem _ hx)).2

end WireBindings.Output
