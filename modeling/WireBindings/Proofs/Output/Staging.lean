import WireBindings.Output
import WireBindings.Proofs.FileTree.Descent

/-!
# Staged files

Staging files touches nothing outside the staging directory. When it ends without a refusal, every
file stands there with its text, and no file stands in the way of another.
-/

namespace WireBindings.Output

open FileTree
open Target (File)

/-! ## The staging directory -/

theorem toList_stagingName (n : Nat) : (stagingName n).toList =
    ['.', 'c', 'd', 'p', 'g', 'e', 'n', '-'] ++ Text.hexDigits 8 n := by
  simp [stagingName]

theorem notMem_stagingName (n : Nat) : '/' ∉ (stagingName n).toList := by
  have hall : ∀ d < 16, Nat.digitChar d ≠ '/' := by decide
  have hdigits : '/' ∉ Text.hexDigits 8 n := by
    intro hmem
    obtain ⟨d, hd, heq⟩ := Text.exists_of_mem_hexDigits hmem
    exact hall d hd heq.symm
  rw [toList_stagingName]
  simp [hdigits]

theorem isPlain_stagingName (n : Nat) : IsPlain (stagingName n) := by
  intro segment hsegment
  rw [List.splitOnP_eq_singleton fun c hc => ?_, List.mem_singleton] at hsegment
  · rw [hsegment, toList_stagingName]
    simp
  · rw [beq_eq_false_iff_ne]
    exact fun heq => notMem_stagingName n (heq ▸ hc)

theorem parts_stagingName (n : Nat) : parts (stagingName n) = [stagingName n] := by
  have hne : (stagingName n).toList ≠ [] := by simp [toList_stagingName]
  rw [parts_eq, segments_of_notMem (notMem_stagingName n) hne, String.ofList_toList]

theorem isName_stagingName (n : Nat) : IsName (stagingName n) :=
  (isPlain_stagingName n).isName (by rw [parts_stagingName]; exact List.mem_cons_self)

def stagingPath (out : String) (n : Nat) : String := Path.join out (stagingName n)

def stagingPlace (o : Place) (n : Nat) : Place := o ++ [stagingName n]

theorem parts_stagingPath (out : String) (n : Nat) :
    parts (stagingPath out n) = parts out ++ [stagingName n] := by
  rw [stagingPath, parts_join out (isPlain_stagingName n).isRelative, parts_stagingName]

theorem start_stagingPath (out : String) (n : Nat) : start (stagingPath out n) = start out :=
  start_join out (isPlain_stagingName n).isRelative

theorem exists_freshStaging_eq (out : String) (t : FileTree) :
    ∃ n, freshStaging out t = stagingPath out n := by
  unfold freshStaging
  simp only
  cases hfind : ((List.range (t.entries.length + 1)).map fun n =>
      Path.join out (stagingName n)).find? fun p => !t.pathExists p with
  | none => exact ⟨0, rfl⟩
  | some path =>
      obtain ⟨n, -, hn⟩ := List.mem_map.1 (List.mem_of_find?_eq_some hfind)
      exact ⟨n, hn.symm⟩

structure Staging (out : String) (n : Nat) (o : Place) (t : FileTree) : Prop where
  admissible : Admissible (stagingPath out n)
  size_le : (stagingName n).utf8ByteSize ≤ maxNameBytes
  leads : Leads t (start out) (parts out) o
  isDirectory : t.find? (stagingPlace o n) = some .directory

section

variable {out : String} {n : Nat} {o : Place} {t t' u u' : FileTree}

theorem exists_staging_of_makeDirectory
    (h : t.makeDirectory (stagingPath out n) = .ok t') :
    ∃ o, Leads t (start out) (parts out) o ∧ t.find? (stagingPlace o n) = none ∧
      t' = t.set (stagingPlace o n) .directory ∧ Staging out n o t' := by
  obtain ⟨p, hresolve, hp, rfl⟩ := makeDirectory_eq_ok.1 h
  obtain ⟨hadmissible, hdescend⟩ := resolve_eq_ok.1 hresolve
  rw [parts_stagingPath, start_stagingPath] at hdescend
  obtain ⟨o, hlead, hstep⟩ := exists_leads_of_descend hdescend
  obtain ⟨hsize, rfl⟩ := (step_name (isName_stagingName n)).1 hstep
  have hgains : GainsDirectories t (t.set (o ++ [stagingName n]) .directory) :=
    Gains.set hp trivial
  exact ⟨o, hlead, hp, rfl, hadmissible, hsize, hlead.mono fun _ => hgains.find?_directory trivial,
    find?_set_self (isFixed_eq_false (t := t) (by simp [hp])) t _⟩

namespace Staging

theorem mono (h : Staging out n o t)
    (hkeep : ∀ q, t.find? q = some .directory → t'.find? q = some .directory) :
    Staging out n o t' :=
  ⟨h.admissible, h.size_le, h.leads.mono hkeep, hkeep _ h.isDirectory⟩

theorem of_gains (h : Staging out n o t) (hgains : GainsDirectories t t') : Staging out n o t' :=
  h.mono fun _ => hgains.find?_directory trivial

theorem leads_stagingPlace (h : Staging out n o t) :
    Leads t (start (stagingPath out n)) (parts (stagingPath out n)) (stagingPlace o n) := by
  rw [parts_stagingPath, start_stagingPath]
  exact h.leads.concat ((step_name (isName_stagingName n)).2 ⟨h.size_le, rfl⟩) h.isDirectory

theorem removeTree_eq (h : Staging out n o t) :
    t.removeTree (stagingPath out n) = t.eraseBelow (stagingPlace o n) := by
  have hresolve : t.resolve (stagingPath out n) = .ok (stagingPlace o n) :=
    resolve_eq_ok.2 ⟨h.admissible, h.leads_stagingPlace.descend⟩
  have hdots : endsInDots (stagingPath out n) = false := by
    have hname := isName_stagingName n
    unfold endsInDots
    rw [parts_stagingPath, List.getLast?_concat]
    simp [hname.1, hname.2.1]
  unfold removeTree
  rw [hresolve]
  simp [h.isDirectory, hdots]

end Staging

/-! ## The directory of a file -/

variable {base path : String} {b : Place}

theorem leads_parentPart (hlead : Leads t (start base) (parts base) b) (hplain : IsPlain path) :
    Leads t (start (String.ofList (Path.parentPart (Path.join base path).toList))) (parts base)
      b := by
  rw [start_parentPart, String.ofList_toList, start_join base hplain.isRelative]
  exact hlead

theorem isName_of_mem_dropLast (hplain : IsPlain path) :
    ∀ x ∈ (parts path).dropLast, IsName x :=
  fun _ hx => hplain.isName (List.mem_of_mem_dropLast hx)

/-- Where a staged path is taken, that of the file is. -/
theorem admissible_of_staging (h : Admissible (Path.join (stagingPath out n) path))
    (hplain : IsPlain path) : Admissible (Path.join out path) := by
  obtain ⟨slash, hjoin⟩ := exists_join_eq out
  obtain ⟨slash', hjoin'⟩ := exists_join_eq (stagingPath out n)
  obtain ⟨hzero, -, hsize⟩ := h
  rw [hjoin' path hplain.isRelative, stagingPath,
    hjoin _ (isPlain_stagingName n).isRelative] at hzero hsize
  simp only [String.toList_append, List.mem_append, not_or] at hzero
  simp only [String.utf8ByteSize_append] at hsize
  rw [hjoin path hplain.isRelative]
  refine ⟨?_, ?_, ?_⟩
  · simp only [String.toList_append, List.mem_append, not_or]
    exact ⟨hzero.1.1.1, hzero.2⟩
  · simp [String.append_eq_empty_iff, hplain.ne_empty]
  · simp only [String.utf8ByteSize_append]
    omega

theorem eq_of_resolve_join {p : Place} (hlead : Leads t (start base) (parts base) b)
    (hplain : IsPlain path) (h : t.resolve (Path.join base path) = .ok p) :
    p = b ++ parts path ∧ (∀ x ∈ parts path, x.utf8ByteSize ≤ maxNameBytes) ∧
      DirectoriesAlong t b (parts path).dropLast :=
  eq_of_resolve (parts_join base hplain.isRelative)
    (by rw [start_join base hplain.isRelative]; exact hlead) (fun _ hx => hplain.isName hx) h

theorem resolve_join (hadmissible : Admissible (Path.join base path))
    (hlead : Leads t (start base) (parts base) b) (hplain : IsPlain path)
    (hsizes : ∀ x ∈ parts path, x.utf8ByteSize ≤ maxNameBytes)
    (hdirectories : DirectoriesAlong t b (parts path).dropLast) :
    t.resolve (Path.join base path) = .ok (b ++ parts path) :=
  resolve_names hadmissible (parts_join base hplain.isRelative)
    (by rw [start_join base hplain.isRelative]; exact hlead) (fun _ hx => hplain.isName hx) hsizes
    hdirectories

theorem gainsAlong_makeParent (hlead : Leads t (start base) (parts base) b)
    (hplain : IsPlain path) :
    GainsAlong b (parts path).dropLast t (makeParent (Path.join base path) t).2 :=
  FileM.gainsAlong_makeDirectories (segments_parentPart_join base hplain)
    (leads_parentPart hlead hplain) (isName_of_mem_dropLast hplain)

theorem makeParent_ok (hadmissible : Admissible (Path.join base path)) (hbase : base ≠ "")
    (hlead : Leads t (start base) (parts base) b) (hplain : IsPlain path)
    (hsizes : ∀ x ∈ parts path, x.utf8ByteSize ≤ maxNameBytes)
    (hclear : ClearAlong t b (parts path).dropLast) :
    (makeParent (Path.join base path) t).1 = .ok () ∧
      DirectoriesAlong (makeParent (Path.join base path) t).2 b (parts path).dropLast := by
  rw [← String.ofList_toList (s := Path.join base path)] at hadmissible
  exact FileM.makeDirectories_ok
    (hadmissible.of_isPrefix (parentPart_isPrefix _)
      (parentPart_join_ne_nil hbase hplain.isRelative))
    (segments_parentPart_join base hplain) (leads_parentPart hlead hplain)
    (isName_of_mem_dropLast hplain) (fun x hx => hsizes x (List.mem_of_mem_dropLast hx)) hclear

/-! ## What staging keeps -/

/-- Nothing changes but below a place, and no directory goes. -/
structure Inside (s : Place) (t t' : FileTree) : Prop where
  outside : ∀ q, ¬ Below s q → t'.find? q = t.find? q
  directories : ∀ q, t.find? q = some .directory → t'.find? q = some .directory

namespace Inside

variable {s p : Place} {t'' : FileTree}

theorem refl (s : Place) (t : FileTree) : Inside s t t := ⟨fun _ _ => rfl, fun _ => id⟩

theorem trans (h : Inside s t t') (h' : Inside s t' t'') : Inside s t t'' :=
  ⟨fun q hq => (h'.outside q hq).trans (h.outside q hq),
    fun q hq => h'.directories q (h.directories q hq)⟩

theorem of_gainsAlong {xs : List String} (h : GainsAlong s xs t t') (hnames : ∀ x ∈ xs, IsName x) :
    Inside s t t' where
  outside := by
    intro q hq
    rcases h q trivial with heq | ⟨-, -, ys, -, hys, rfl⟩
    · exact heq
    · exact absurd (Below.names s fun x hx => hnames x (hys.subset hx)) hq
  directories := fun _ => h.find?_directory trivial

theorem set {content : ByteArray} (hp : Below s p) (hfind : t.find? p ≠ some .directory) :
    Inside s t (t.set p (.file content)) where
  outside := by
    intro q hq
    have hne : q ≠ p := by
      rintro rfl
      exact hq hp
    exact find?_set_of_ne hne t _
  directories := by
    intro q hq
    have hne : q ≠ p := by
      rintro rfl
      exact hfind hq
    rw [find?_set_of_ne hne, hq]

end Inside

/-! ## Staged files -/

structure Staged (out : String) (n : Nat) (o : Place) (t : FileTree) (f : File) : Prop where
  admissible : Admissible (Path.join (stagingPath out n) f.path)
  sizes : ∀ x ∈ parts f.path, x.utf8ByteSize ≤ maxNameBytes
  directories : DirectoriesAlong t (stagingPlace o n) (parts f.path).dropLast
  file : t.find? (stagingPlace o n ++ parts f.path) = some (.file f.text.toUTF8)

namespace Staged

variable {f g : File}

theorem mono (h : Staged out n o t f)
    (hkeep : ∀ q, t.find? q = some .directory → t'.find? q = some .directory)
    (hfile : t'.find? (stagingPlace o n ++ parts f.path) =
      t.find? (stagingPlace o n ++ parts f.path)) : Staged out n o t' f :=
  ⟨h.admissible, h.sizes, fun ys hne hys => hkeep _ (h.directories ys hne hys),
    hfile.trans h.file⟩

theorem of_gains (h : Staged out n o t f) (hgains : GainsDirectories t t') :
    Staged out n o t' f := by
  refine h.mono (fun _ => hgains.find?_directory trivial) ?_
  rw [h.file]
  exact (hgains.find?_file trivial).2 h.file

/-- Where a file stands, no directory of another one does. -/
theorem not_isPrefix (hf : Staged out n o t f) (hplain : IsPlain f.path)
    (hg : Staged out n o t g) : ¬ parts f.path <+: (parts g.path).dropLast := by
  intro hpre
  have hdirectory := hg.directories _ hplain.parts_ne_nil hpre
  rw [hf.file] at hdirectory
  cases hdirectory

end Staged

/-- What a run of staging keeps: everything outside the staging directory, and what is staged of
files that are not among those of the run. -/
structure Keeps (out : String) (n : Nat) (o : Place) (files : List File) (t t' : FileTree) :
    Prop where
  inside : Inside (stagingPlace o n) t t'
  staged : ∀ f, IsPlain f.path → f.path ∉ files.map (·.path) → Staged out n o t f →
    Staged out n o t' f

namespace Keeps

variable {files files' : List File} {t'' : FileTree}

theorem refl (files : List File) (t : FileTree) : Keeps out n o files t t :=
  ⟨Inside.refl _ t, fun _ _ _ => id⟩

theorem trans (h : Keeps out n o files t t') (h' : Keeps out n o files t' t'') :
    Keeps out n o files t t'' :=
  ⟨h.inside.trans h'.inside,
    fun f hplain hnew hstaged => h'.staged f hplain hnew (h.staged f hplain hnew hstaged)⟩

theorem mono (h : Keeps out n o files t t') (hsubset : files ⊆ files') :
    Keeps out n o files' t t' :=
  ⟨h.inside, fun f hplain hnew => h.staged f hplain fun hf => hnew (List.map_subset _ hsubset hf)⟩

end Keeps

theorem keeps_makeParent {f : File} (files : List File) (hstaging : Staging out n o t)
    (hplain : IsPlain f.path) :
    Keeps out n o files t (makeParent (Path.join (stagingPath out n) f.path) t).2 where
  inside := Inside.of_gainsAlong (gainsAlong_makeParent hstaging.leads_stagingPlace hplain)
    (isName_of_mem_dropLast hplain)
  staged := fun _ _ _ hg =>
    hg.of_gains (gainsAlong_makeParent hstaging.leads_stagingPlace hplain).directories

theorem keeps_write {f : File} (hstaging : Staging out n o t) (hplain : IsPlain f.path)
    (h : t.write (Path.join (stagingPath out n) f.path) f.text.toUTF8 = .ok t') :
    Keeps out n o [f] t t' ∧ Staged out n o t' f := by
  obtain ⟨p, hresolve, hp, -, rfl⟩ := write_eq_ok.1 h
  obtain ⟨rfl, hsizes, hdirectories⟩ :=
    eq_of_resolve_join hstaging.leads_stagingPlace hplain hresolve
  have hinside : Inside (stagingPlace o n) t
      (t.set (stagingPlace o n ++ parts f.path) (.file f.text.toUTF8)) :=
    Inside.set (Below.names _ fun _ hx => hplain.isName hx) hp
  refine ⟨⟨hinside, ?_⟩, (resolve_eq_ok.1 hresolve).1, hsizes,
    fun ys hne hys => hinside.directories _ (hdirectories ys hne hys),
    find?_set_self (isFixed_eq_false hp) t _⟩
  intro g hplain' hnew hg
  have hne : stagingPlace o n ++ parts g.path ≠ stagingPlace o n ++ parts f.path := by
    intro heq
    have hpath := hplain'.eq_of_parts_eq hplain (List.append_cancel_left heq)
    exact hnew (by rw [hpath]; exact List.mem_cons_self)
  exact hg.mono hinside.directories (find?_set_of_ne hne t _)

/-! ## Runs of staging -/

def stageFile (staging : String) (f : File) : FileM Unit := do
  let path := Path.join staging f.path
  makeParent path
  FileM.write path f.text.toUTF8

theorem stageAll_cons (staging : String) (f : File) (files : List File) :
    stageAll staging (f :: files) =
      (stageFile staging f >>= fun _ => stageAll staging files) := by
  rw [stageAll, stageFile, bind_assoc]

theorem stageFile_spec {f : File} (hstaging : Staging out n o t) (hplain : IsPlain f.path) :
    Keeps out n o [f] t (stageFile (stagingPath out n) f t).2 ∧
      ((stageFile (stagingPath out n) f t).1 = .ok () →
        Staged out n o (stageFile (stagingPath out n) f t).2 f) := by
  have hkeeps := keeps_makeParent [f] hstaging hplain
  unfold stageFile
  rcases hmade : makeParent (Path.join (stagingPath out n) f.path) t with ⟨e | ⟨⟩, u⟩
  · rw [hmade] at hkeeps
    rw [Outcome.bind_run_of_error hmade]
    exact ⟨hkeeps, fun h => nomatch h⟩
  · rw [hmade] at hkeeps
    rw [Outcome.bind_run_of_ok hmade]
    cases hwrite : u.write (Path.join (stagingPath out n) f.path) f.text.toUTF8 with
    | error fault =>
        rw [FileM.write, FileM.change_of_error hwrite]
        exact ⟨hkeeps, fun h => nomatch h⟩
    | ok u' =>
        rw [FileM.write_eq_ok.2 hwrite]
        have hwritten := keeps_write (hstaging.mono hkeeps.inside.directories) hplain hwrite
        exact ⟨hkeeps.trans hwritten.1, fun _ => hwritten.2⟩

/-- Staging changes nothing outside the staging directory, and a run that is not refused leaves
every file there. -/
theorem stageAll_spec {files : List File} (hstaging : Staging out n o t)
    (hplain : ∀ f ∈ files, IsPlain f.path) :
    Keeps out n o files t (stageAll (stagingPath out n) files t).2 ∧
      ((stageAll (stagingPath out n) files t).1 = .ok () → (files.map (·.path)).Nodup →
        ∀ f ∈ files, Staged out n o (stageAll (stagingPath out n) files t).2 f) := by
  -- a file that is staged has another path than those after it, which keep it
  induction files generalizing t with
  | nil => exact ⟨Keeps.refl [] t, fun _ _ f hf => absurd hf List.not_mem_nil⟩
  | cons f files ih =>
      obtain ⟨hf, hfiles⟩ := List.forall_mem_cons.1 hplain
      obtain ⟨hkeeps, hstaged⟩ := stageFile_spec hstaging hf
      have hkeeps := hkeeps.mono (List.cons_subset_cons f (List.nil_subset files))
      rw [stageAll_cons]
      rcases hrun : stageFile (stagingPath out n) f t with ⟨e | ⟨⟩, u⟩
      · rw [hrun] at hkeeps
        rw [Outcome.bind_run_of_error hrun]
        exact ⟨hkeeps, fun h => nomatch h⟩
      · rw [hrun] at hkeeps hstaged
        rw [Outcome.bind_run_of_ok hrun]
        obtain ⟨hrest, hall⟩ := ih (hstaging.mono hkeeps.inside.directories) hfiles
        refine ⟨hkeeps.trans (hrest.mono (List.subset_cons_self f files)), ?_⟩
        intro hok hnodup
        obtain ⟨hnew, hnodup⟩ := List.nodup_cons.1 hnodup
        exact List.forall_mem_cons.2 ⟨hrest.staged f hf hnew (hstaged rfl), hall hok hnodup⟩

end

end WireBindings.Output
