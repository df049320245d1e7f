import WireBindings.Proofs.FileTree.Lockstep
import WireBindings.Proofs.Output.Refusal
import Mathlib.Data.List.Nodup
import Mathlib.Data.List.Perm.Subperm
import Mathlib.Data.Nat.Find

/-!
# Writing in step

A write keeps to the paths of its output, so it goes alike on trees that look alike through those.
The one thing that is taken from a tree as a whole is how far to look for a name for the staging
directory, and that is far enough in every tree.
-/

namespace WireBindings.Output

open FileTree FileM
open Target (File)

variable {out : String} {n m : Nat} {t u : FileTree}

/-! ## The name of the staging directory -/

/-- Whether nothing stands at the path of a staging directory. -/
def isFree (out : String) (t : FileTree) (n : Nat) : Bool := !t.pathExists (stagingPath out n)

theorem stagingName_inj : stagingName n = stagingName m ↔ n % 16 ^ 8 = m % 16 ^ 8 := by
  rw [← String.toList_inj, toList_stagingName, toList_stagingName, List.append_cancel_left_eq,
    Text.hexDigits_inj]

theorem exists_stagingName_eq (n : Nat) : ∃ m < 16 ^ 8, stagingName m = stagingName n :=
  ⟨n % 16 ^ 8, Nat.mod_lt _ (by decide), stagingName_inj.2 (Nat.mod_mod _ _)⟩

theorem eq_of_stagingName_eq (hn : n < 16 ^ 8) (hm : m < 16 ^ 8)
    (h : stagingName n = stagingName m) : n = m := by
  have hmod := stagingName_inj.1 h
  rwa [Nat.mod_eq_of_lt hn, Nat.mod_eq_of_lt hm] at hmod

theorem mem_entries_of_taken (h : isFree out t n = false) :
    stagingPlace (place out) n ∈ t.entries.map Prod.fst := by
  obtain ⟨p, e, hresolve, hp⟩ := exists_of_pathExists (by simpa [isFree] using h)
  rw [eq_place_of_resolve hresolve, place_stagingPath] at hp
  exact List.mem_map_of_mem
    (mem_entries_of_find? hp (isFixed_of_below (isName_stagingName n).2))

/-- If any name is free, one of the first is: more names than entries cannot all be taken. -/
theorem exists_isFree_le (h : isFree out t n = true) :
    ∃ m ≤ t.entries.length, isFree out t m = true := by
  by_contra hnone
  have htaken : ∀ m ≤ t.entries.length, isFree out t m = false := fun m hm =>
    Bool.eq_false_iff.2 fun hfree => hnone ⟨m, hm, hfree⟩
  obtain ⟨a, ha, hname⟩ := exists_stagingName_eq n
  have hlong : t.entries.length < a := by
    have hsame : isFree out t a = isFree out t n := by
      rw [isFree, isFree, stagingPath, stagingPath, hname]
    refine Nat.lt_of_not_le fun hle => Bool.eq_false_iff.1 (htaken a hle) ?_
    rw [hsame, h]
  have hnodup : ((List.range (t.entries.length + 1)).map (stagingPlace (place out))).Nodup := by
    refine List.Nodup.map_on (fun b hb c hc heq => ?_) List.nodup_range
    rw [List.mem_range] at hb hc
    exact eq_of_stagingName_eq (by omega) (by omega)
      (List.singleton_inj.1 (List.append_cancel_left heq))
  have hsubset : (List.range (t.entries.length + 1)).map (stagingPlace (place out)) ⊆
      t.entries.map Prod.fst := by
    intro p hp
    obtain ⟨b, hb, rfl⟩ := List.mem_map.1 hp
    exact mem_entries_of_taken (htaken b (Nat.lt_succ_iff.1 (List.mem_range.1 hb)))
  have hlength := (List.subperm_of_subset hnodup hsubset).length_le
  rw [List.length_map, List.length_range, List.length_map] at hlength
  omega

/-- The fresh staging directory is at the first free name, or at the first of all. -/
theorem freshStaging_cases (out : String) (t : FileTree) :
    (∃ n, isFree out t n = true ∧ (∀ m < n, isFree out t m = false) ∧
        freshStaging out t = stagingPath out n) ∨
      (∀ n, isFree out t n = false) ∧ freshStaging out t = stagingPath out 0 := by
  have hrun : freshStaging out t = (((List.range (t.entries.length + 1)).find? (isFree out t)).map
      (stagingPath out)).getD (stagingPath out 0) := by
    have hpath : stagingPath out = fun n => Path.join out (stagingName n) := rfl
    have hfree : isFree out t = (fun path => !t.pathExists path) ∘ stagingPath out := by
      funext n
      rw [isFree, Function.comp_apply]
    simp only [freshStaging, List.find?_map, hfree, hpath]
  rw [hrun]
  by_cases h : ∃ n, isFree out t n = true
  · obtain ⟨m, hm, hfree⟩ := exists_isFree_le (Nat.find_spec h)
    have hbefore (a : Nat) (ha : a < Nat.find h) : isFree out t a = false :=
      Bool.eq_false_iff.2 (Nat.find_min h ha)
    have hfirst : (List.range (t.entries.length + 1)).find? (isFree out t) =
        some (Nat.find h) := by
      rw [List.find?_range_eq_some, List.mem_range, Nat.lt_succ_iff]
      exact ⟨Nat.find_spec h, (Nat.find_min' h hfree).trans hm, by simpa using hbefore⟩
    rw [hfirst, Option.map_some, Option.getD_some]
    exact .inl ⟨Nat.find h, Nat.find_spec h, hbefore, rfl⟩
  · have htaken : ∀ n, isFree out t n = false := fun n =>
      Bool.eq_false_iff.2 fun hn => h ⟨n, hn⟩
    have hnone : (List.range (t.entries.length + 1)).find? (isFree out t) = none :=
      List.find?_eq_none.2 fun a _ => Bool.eq_false_iff.1 (htaken a)
    rw [hnone, Option.map_none, Option.getD_none]
    exact .inr ⟨htaken, rfl⟩

theorem freshStaging_congr
    (h : ∀ n, t.pathExists (stagingPath out n) = u.pathExists (stagingPath out n)) :
    freshStaging out t = freshStaging out u := by
  have hfree : isFree out t = isFree out u := by
    funext n
    rw [isFree, isFree, h]
  rcases freshStaging_cases out t with ⟨n, hn, hfirst, hrun⟩ | ⟨htaken, hrun⟩ <;>
    rcases freshStaging_cases out u with ⟨m, hm, hfirst', hrun'⟩ | ⟨htaken', hrun'⟩ <;>
    rw [← hfree] at *
  · have hnm : n = m := by
      refine Nat.le_antisymm (Nat.le_of_not_lt fun hlt => ?_) (Nat.le_of_not_lt fun hlt => ?_)
      · exact Bool.eq_false_iff.1 (hfirst m hlt) hm
      · exact Bool.eq_false_iff.1 (hfirst' n hlt) hn
    rw [hrun, hrun', hnm]
  · exact absurd hn (Bool.eq_false_iff.1 (htaken' n))
  · exact absurd hm (Bool.eq_false_iff.1 (htaken m))
  · rw [hrun, hrun']

/-! ## Writes in step -/

variable {R : FileTree → FileTree → Prop} {seen : String → Prop} {path staging : String}
  {files : List File}

/-- The paths that writing files below `out` may use. -/
inductive Uses (out : String) (files : List File) : String → Prop
  | output : Uses out files out
  | staging (n : Nat) : Uses out files (stagingPath out n)
  | staged (n : Nat) {f : File} (hf : f ∈ files) :
      Uses out files (Path.join (stagingPath out n) f.path)
  | moved {f : File} (hf : f ∈ files) : Uses out files (Path.join out f.path)

theorem agrees_makeParent (h : Lockstep R seen) (hpath : seen path) :
    Agrees R (makeParent path) := by
  refine agrees_makeDirectories h (h.initial hpath ?_ ?_)
  · exact segments_parentPart_isPrefix path.toList
  · rw [start_parentPart, String.ofList_toList]

theorem agrees_stageAll (h : Lockstep R seen)
    (hseen : ∀ f ∈ files, seen (Path.join staging f.path)) :
    Agrees R (stageAll staging files) := by
  induction files with
  | nil => exact .pure ()
  | cons f files ih =>
      obtain ⟨hf, hfiles⟩ := List.forall_mem_cons.1 hseen
      exact (agrees_makeParent h hf).bind fun _ => (agrees_write h hf _).bind fun _ => ih hfiles

theorem agrees_moveAll (h : Lockstep R seen)
    (hstaged : ∀ f ∈ files, seen (Path.join staging f.path))
    (hmoved : ∀ f ∈ files, seen (Path.join out f.path)) :
    Agrees R (moveAll staging out files) := by
  induction files with
  | nil => exact .pure []
  | cons f files ih =>
      obtain ⟨hstaged, hrest⟩ := List.forall_mem_cons.1 hstaged
      obtain ⟨hmoved, hrest'⟩ := List.forall_mem_cons.1 hmoved
      refine (agrees_makeParent h hmoved).bind fun _ => ?_
      refine (agrees_move h hstaged hmoved).bind fun _ => ?_
      exact (ih hrest hrest').bind fun _ => .pure _

/-- The directories that a write may remove again, once it has begun: that of its staging, and that
of the output if it is taken for new. -/
structure Removable (R : FileTree → FileTree → Prop) (out : String) (t : FileTree) : Prop where
  staging {b : FileTree} (h : Begins out t b) : Clears R (stagingOf out t)
  output {b : FileTree} (h : Begins out t b) (hnew : t.pathExists out = false) : Clears R out

theorem writeVia_agrees (h : Lockstep R seen) (hstaging : seen staging)
    (hstaged : ∀ f ∈ files, seen (Path.join staging f.path))
    (hmoved : ∀ f ∈ files, seen (Path.join out f.path)) {isNew : Bool}
    (hclear : ∀ b, t.makeDirectory staging = .ok b → Clears R staging)
    (hnew : ∀ b, t.makeDirectory staging = .ok b → isNew = true → Clears R out) (htu : R t u) :
    (writeVia staging out isNew files t).1 = (writeVia staging out isNew files u).1 ∧
      R (writeVia staging out isNew files t).2 (writeVia staging out isNew files u).2 := by
  refine (agrees_makeDirectory h hstaging).bind_at htu fun _ hmade => ?_
  obtain ⟨b, hb⟩ : ∃ b, t.makeDirectory staging = .ok b := by
    cases hb : t.makeDirectory staging with
    | ok b => exact ⟨b, rfl⟩
    | error fault =>
        rw [FileM.makeDirectory, change_of_error hb] at hmade
        cases hmade
  refine (agrees_stageAll h hstaged).attempt.bind fun result => ?_
  cases result with
  | error e =>
      dsimp only
      split
      · refine (agrees_removeTree (hclear b hb)).bind fun _ => ?_
        split
        · rename_i hundo
          exact (agrees_removeTree (hnew b hb hundo)).bind fun _ => .throw e
        · exact .throw e
      · exact .throw e
  | ok _ =>
      refine (agrees_moveAll h hstaged hmoved).attempt.bind fun moved => ?_
      refine (agrees_removeTree (hclear b hb)).bind fun _ => ?_
      cases moved with
      | error e => exact .throw e
      | ok written => exact .pure written

/-- A write comes to the same on trees that look alike through the paths it uses. -/
theorem writeAll_agrees (h : Lockstep R seen) (hseen : ∀ path, Uses out files path → seen path)
    (hremove : Removable R out t) (htu : R t u) :
    (writeAll out files t).1 = (writeAll out files u).1 ∧
      R (writeAll out files t).2 (writeAll out files u).2 := by
  have hout : seen out := hseen out .output
  have hmade := agrees_makeDirectories h (by rwa [String.ofList_toList]) t u htu
  rw [writeAll_run, writeAll_run, ← h.pathExists htu hout]
  rcases ht : makeDirectories out.toList t with ⟨result, b⟩
  rcases hu : makeDirectories out.toList u with ⟨result', b'⟩
  rw [ht, hu] at hmade
  obtain ⟨hresult, hleft⟩ := hmade
  obtain rfl : result = result' := hresult
  cases result with
  | error e => exact ⟨rfl, hleft⟩
  | ok _ =>
      obtain rfl : withOutput out t = b := congrArg Prod.snd ht
      have hbegins (v : FileTree)
          (hv : (withOutput out t).makeDirectory (stagingOf out t) = .ok v) : Begins out t v :=
        ⟨congrArg Prod.fst ht, hv⟩
      have hname : freshStaging out b' = stagingOf out t :=
        (freshStaging_congr fun n => h.pathExists hleft (hseen _ (.staging n))).symm
      obtain ⟨n, hn⟩ : ∃ n, stagingOf out t = stagingPath out n := exists_freshStaging_eq out _
      dsimp only
      rw [hname, ← stagingOf]
      refine writeVia_agrees h (hn ▸ hseen _ (.staging n)) (fun f hf => ?_)
        (fun _ hf => hseen _ (.moved hf)) (fun v hv => hremove.staging (hbegins v hv))
        (fun v hv hnew => hremove.output (hbegins v hv) (by simpa using hnew)) hleft
      rw [hn]
      exact hseen _ (.staged n hf)

theorem removable_sameBut {hidden : Place → Prop}
    (havoids : ∀ path, Uses out files path → Avoids hidden path) :
    Removable (SameBut hidden) out t where
  staging _ := by
    obtain ⟨n, hn⟩ : ∃ n, stagingOf out t = stagingPath out n := exists_freshStaging_eq out _
    rw [hn]
    exact clears_sameBut (havoids _ (.staging n))
  output _ _ := clears_sameBut (havoids out .output)

/-- A write that does not lead through a file does not remove it either, unless its output is taken
for new although it holds the file. Then the path of the output leads up. -/
theorem removable_hasFile {p : Place} {content : ByteArray} (hfile : HasFile p content t)
    (havoids : ∀ path, Uses out files path → Avoids (· = p) path)
    (hnew : ¬ (t.pathExists out = false ∧ ¬ NeverUp out ∧ Below (place out) p)) :
    Removable (fun t u => t = u ∧ HasFile p content t) out t := by
  have hwell := hfile.proper.wellFormed
  constructor
  · intro b hbegins
    obtain ⟨n, hname, -, hprepared⟩ := hbegins.exists_prepared hwell
    rw [hname]
    refine clears_hasFile fun hbelow => ?_
    have hout : Avoids (· = p) (String.ofList out.toList) := by
      rw [String.ofList_toList]
      exact havoids out .output
    have hstays := (agrees_makeDirectories (lockstep_hasFile p content) hout t t ⟨rfl, hfile⟩).2.2
    rw [place_stagingPath] at hbelow
    cases (hprepared.find?_below hbelow).symm.trans hstays.file
  · intro b hbegins hmissing
    obtain ⟨n, -, -, hprepared⟩ := hbegins.exists_prepared hwell
    refine clears_hasFile fun hbelow => hnew ⟨hmissing, fun hdown => ?_, hbelow⟩
    have hout : out ≠ "" := by
      rintro rfl
      exact makeDirectories_nil t hbegins.output
    have hnone := (hprepared.gains_output hout hwell (.inr hdown)).2 hmissing
    have hthere := hwell.find?_above hfile.file hbelow
      (Ne.symm (havoids out .output _ (onWay_place out)))
    cases hnone.symm.trans hthere

end WireBindings.Output
