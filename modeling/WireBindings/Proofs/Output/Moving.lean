import WireBindings.Proofs.Output.Staging

/-!
# Moved files

Staged files go to their places one after another. Only a directory at its place or a file above it
keeps a staged file from being moved, and those before it stay where they were moved to.
-/

namespace WireBindings.Output

open FileTree
open Target (File)

/-! ## Files at their places -/

def put (o : Place) (files : List File) (t : FileTree) : FileTree :=
  files.foldl (fun t f => t.set (o ++ parts f.path) (.file f.text.toUTF8)) t

/-- Something is in the way of a file: a directory at its place, or a file above it. -/
def Obstructed (t : FileTree) (o : Place) (path : String) : Prop :=
  t.find? (o ++ parts path) = some .directory ∨ ¬ ClearAlong t o (parts path).dropLast

instance (t : FileTree) (o : Place) (path : String) : Decidable (Obstructed t o path) :=
  inferInstanceAs (Decidable (_ ∨ _))

/-- Files with plain paths of their own, none of them in a staging directory. -/
structure Separate (files : List File) : Prop where
  plain : ∀ f ∈ files, IsPlain f.path
  nodup : (files.map (·.path)).Nodup
  unstaged : ∀ f ∈ files, ∀ n, (parts f.path).head? ≠ some (stagingName n)

/-- Files with plain paths of their own, none of them in the staging directory of this number. -/
structure SeparateFrom (n : Nat) (files : List File) : Prop where
  plain : ∀ f ∈ files, IsPlain f.path
  nodup : (files.map (·.path)).Nodup
  unstaged : ∀ f ∈ files, (parts f.path).head? ≠ some (stagingName n)

theorem Separate.separateFrom {files : List File} (h : Separate files) (n : Nat) :
    SeparateFrom n files :=
  ⟨h.plain, h.nodup, fun f hf => h.unstaged f hf n⟩

theorem SeparateFrom.of_append {n : Nat} {moved rest : List File}
    (h : SeparateFrom n (moved ++ rest)) : SeparateFrom n moved where
  plain f hf := h.plain f (List.mem_append_left rest hf)
  nodup := by
    have hnodup := h.nodup
    rw [List.map_append] at hnodup
    exact (List.nodup_append.1 hnodup).1
  unstaged f hf := h.unstaged f (List.mem_append_left rest hf)

def Apart (files : List File) : Prop :=
  ∀ f ∈ files, ∀ g ∈ files, ¬ parts f.path <+: (parts g.path).dropLast

section

variable {out : String} {n : Nat} {o : Place} {t b v : FileTree} {f g : File}
  {files moved rest : List File}

theorem put_concat (o : Place) (files : List File) (f : File) (t : FileTree) :
    put o (files ++ [f]) t = (put o files t).set (o ++ parts f.path) (.file f.text.toUTF8) := by
  rw [put, List.foldl_concat]
  rfl

theorem find?_put_of_ne {q : Place} (h : ∀ f ∈ files, q ≠ o ++ parts f.path) :
    (put o files t).find? q = t.find? q := by
  induction files using List.reverseRecOn with
  | nil => rfl
  | append_singleton files f ih =>
      rw [List.forall_mem_append, List.forall_mem_singleton] at h
      rw [put_concat, find?_set_of_ne h.2, ih h.1]

theorem isFixed_place (o : Place) (hplain : IsPlain f.path) :
    isFixed (o ++ parts f.path) = false := by
  rw [← List.dropLast_append_getLast hplain.parts_ne_nil, ← List.append_assoc]
  exact isFixed_of_below (hplain.isName (List.getLast_mem hplain.parts_ne_nil)).2

theorem SeparateFrom.not_below {ys : List String} (h : SeparateFrom n files) (hf : f ∈ files)
    (hne : ys ≠ []) (hys : ys <+: parts f.path) (o : Place) :
    ¬ Below (stagingPlace o n) (o ++ ys) := by
  rintro ⟨rest, heq, -⟩
  rw [stagingPlace, List.append_assoc] at heq
  obtain rfl := List.append_cancel_left heq
  rw [List.singleton_append] at hys
  exact h.unstaged f hf (head?_eq_of_isPrefix hys hne).symm

theorem SeparateFrom.find?_put {q : Place} (h : SeparateFrom n files) (hsubset : moved ⊆ files)
    (hq : Below (stagingPlace o n) q) (t : FileTree) : (put o moved t).find? q = t.find? q := by
  refine find?_put_of_ne ?_
  rintro f hf rfl
  exact h.not_below (hsubset hf) (h.plain f (hsubset hf)).parts_ne_nil List.prefix_rfl o hq

theorem SeparateFrom.ne_of_cons (h : SeparateFrom n (moved ++ f :: rest)) (hg : g ∈ rest) :
    parts g.path ≠ parts f.path := by
  intro hparts
  have hpath := (h.plain g (List.mem_append_right _ (List.mem_cons_of_mem f hg))).eq_of_parts_eq
    (h.plain f (List.mem_append_right _ List.mem_cons_self)) hparts
  have hnodup := h.nodup
  rw [List.map_append, List.map_cons, List.nodup_append] at hnodup
  exact (List.nodup_cons.1 hnodup.2.1).1 (List.mem_map.2 ⟨g, hg, hpath⟩)

theorem SeparateFrom.ne_of_append (h : SeparateFrom n (moved ++ f :: rest)) (hg : g ∈ moved) :
    parts f.path ≠ parts g.path := by
  intro hparts
  have hpath := (h.plain f (List.mem_append_right _ List.mem_cons_self)).eq_of_parts_eq
    (h.plain g (List.mem_append_left _ hg)) hparts
  have hnodup := h.nodup
  rw [List.map_append, List.nodup_append] at hnodup
  exact hnodup.2.2 _ (List.mem_map_of_mem hg) _ (by simp) hpath.symm

theorem SeparateFrom.find?_put_of_mem (h : SeparateFrom n files) (hf : f ∈ files) (o : Place)
    (t : FileTree) : (put o files t).find? (o ++ parts f.path) = some (.file f.text.toUTF8) := by
  obtain ⟨moved, rest, rfl⟩ := List.append_of_mem hf
  have hplain := h.plain f hf
  have hlast : ∀ g ∈ rest, o ++ parts f.path ≠ o ++ parts g.path := fun g hg heq =>
    h.ne_of_cons hg (List.append_cancel_left heq).symm
  calc (put o (moved ++ f :: rest) t).find? (o ++ parts f.path)
      = (put o rest (put o (moved ++ [f]) t)).find? (o ++ parts f.path) := by
        rw [List.append_cons, put, put, put, List.foldl_append]
    _ = (put o (moved ++ [f]) t).find? (o ++ parts f.path) := find?_put_of_ne hlast
    _ = some (.file f.text.toUTF8) := by
        rw [put_concat, find?_set_self (isFixed_place o hplain)]

theorem obstructed_congr {t' : FileTree} {path : String}
    (hplace : t.find? (o ++ parts path) = t'.find? (o ++ parts path))
    (habove : ∀ ys, ys ≠ [] → ys <+: (parts path).dropLast → ∀ content,
      t.find? (o ++ ys) = some (.file content) ↔ t'.find? (o ++ ys) = some (.file content)) :
    Obstructed t o path ↔ Obstructed t' o path := by
  have hclear : ClearAlong t o (parts path).dropLast ↔ ClearAlong t' o (parts path).dropLast :=
    forall₄_congr fun ys hne hys content => not_congr (habove ys hne hys content)
  rw [Obstructed, Obstructed, hplace, hclear]

/-- Further directories do not clear the way of a file. -/
theorem Obstructed.of_gains {t' : FileTree} {path : String} (h : Obstructed t o path)
    (hgains : GainsDirectories t t') : Obstructed t' o path := by
  rcases h with hplace | hfile
  · exact .inl (hgains.find?_directory trivial hplace)
  · refine .inr fun hclear => hfile fun ys hne hys content hcontent => ?_
    exact hclear ys hne hys content ((hgains.find?_file trivial).2 hcontent)

/-! ## Moving one file -/

def OnWays (o : Place) (files : List File) (q : Place) : Prop :=
  ∃ f ∈ files, Along o (parts f.path).dropLast q

theorem OnWays.mono {files' : List File} {q : Place} (h : OnWays o files q)
    (hsubset : files ⊆ files') : OnWays o files' q := by
  obtain ⟨f, hf, hq⟩ := h
  exact ⟨f, hsubset hf, hq⟩

structure Arrived (out : String) (o : Place) (t : FileTree) (f : File) : Prop where
  admissible : Admissible (Path.join out f.path)
  sizes : ∀ x ∈ parts f.path, x.utf8ByteSize ≤ maxNameBytes
  directories : DirectoriesAlong t o (parts f.path).dropLast

theorem Arrived.mono {t' : FileTree} (h : Arrived out o t f)
    (hkeep : ∀ q, t.find? q = some .directory → t'.find? q = some .directory) :
    Arrived out o t' f :=
  ⟨h.admissible, h.sizes, fun ys hne hys => hkeep _ (h.directories ys hne hys)⟩

/-- What stands while files are moved: the staging directory with the files that remain, and
otherwise the files that were moved, in directories of their own. -/
structure Moving (out : String) (n : Nat) (o : Place) (b : FileTree) (moved rest : List File)
    (v : FileTree) : Prop where
  staging : Staging out n o v
  staged : ∀ f ∈ rest, Staged out n o v f
  arrived : ∀ f ∈ moved, Arrived out o v f
  outside : Gains (fun q => ¬ Below (stagingPlace o n) q) (OnWays o moved) (put o moved b) v

/-- Files that were moved obstruct no other, and neither do their directories. -/
theorem Moving.obstructed_iff (h : Moving out n o b moved (f :: rest) v)
    (hseparate : SeparateFrom n (moved ++ f :: rest)) (hapart : Apart (moved ++ f :: rest)) :
    Obstructed v o f.path ↔ Obstructed b o f.path := by
  have hf : f ∈ moved ++ f :: rest := List.mem_append_right _ List.mem_cons_self
  have hmoved (g : File) (hg : g ∈ moved) : g ∈ moved ++ f :: rest := List.mem_append_left _ hg
  refine obstructed_congr ?_ ?_
  · have hne : ∀ g ∈ moved, o ++ parts f.path ≠ o ++ parts g.path := fun g hg heq =>
      hseparate.ne_of_append hg (List.append_cancel_left heq)
    rcases h.outside _ (hseparate.not_below hf (hseparate.plain f hf).parts_ne_nil
      List.prefix_rfl o) with heq | ⟨-, -, g, hg, ys, -, hys, heq⟩
    · rw [heq, find?_put_of_ne hne]
    · obtain rfl := List.append_cancel_left heq
      exact absurd hys (hapart f hf g (hmoved g hg))
  · intro ys hne hys content
    have hplace : ∀ g ∈ moved, o ++ ys ≠ o ++ parts g.path := by
      intro g hg heq
      obtain rfl := List.append_cancel_left heq
      exact hapart g (hmoved g hg) f hf hys
    rw [h.outside.find?_file (hseparate.not_below hf hne (hys.trans (List.dropLast_prefix _)) o),
      find?_put_of_ne hplace]

def moveFile (staging out : String) (f : File) : FileM Unit := do
  let path := Path.join out f.path
  makeParent path
  FileM.move (Path.join staging f.path) path

theorem moveAll_cons (staging out : String) (f : File) (files : List File) :
    moveAll staging out (f :: files) = (moveFile staging out f >>= fun _ => do
      return Path.join out f.path :: (← moveAll staging out files)) := by
  rw [moveAll, moveFile, bind_assoc]

/-- Moving a staged file changes what stands at its two places only. -/
theorem find?_of_move {u u' : FileTree} (hstaging : Staging out n o u)
    (hstaged : Staged out n o u f) (hplain : IsPlain f.path)
    (h : u.move (Path.join (stagingPath out n) f.path) (Path.join out f.path) = .ok u') :
    ¬ Obstructed u o f.path ∧ DirectoriesAlong u o (parts f.path).dropLast ∧
      u'.find? (o ++ parts f.path) = some (.file f.text.toUTF8) ∧
      ∀ q, q ≠ stagingPlace o n ++ parts f.path → q ≠ o ++ parts f.path →
        u'.find? q = u.find? q := by
  obtain ⟨p, q, content, hsource, hdestination, hp, hq, -, -, rfl⟩ := move_eq_ok.1 h
  obtain ⟨rfl, -, -⟩ := eq_of_resolve_join hstaging.leads_stagingPlace hplain hsource
  obtain ⟨rfl, -, hdirectories⟩ := eq_of_resolve_join hstaging.leads hplain hdestination
  refine ⟨?_, hdirectories, ?_, fun q hq hq' => ?_⟩
  · rintro (hplace | hclear)
    · exact hq hplace
    · refine hclear fun ys hne hys content' hfile => ?_
      have hdirectory := hdirectories ys hne hys
      rw [hfile] at hdirectory
      cases hdirectory
  · rw [find?_set_self (isFixed_place o hplain), ← hp, hstaged.file]
  · rw [find?_set_of_ne hq', find?_erase_of_ne hq]

theorem Moving.of_gainsAlong {u : FileTree} (h : Moving out n o b moved (f :: rest) v)
    (hgains : GainsAlong o (parts f.path).dropLast v u) :
    Staging out n o u ∧ (∀ g ∈ f :: rest, Staged out n o u g) ∧
      Gains (fun q => ¬ Below (stagingPlace o n) q) (OnWays o (moved ++ [f])) (put o moved b)
        u := by
  refine ⟨h.staging.of_gains hgains.directories,
    fun g hg => (h.staged g hg).of_gains hgains.directories, ?_⟩
  have hbefore := h.outside.mono (fun _ hq => hq) fun _ hq =>
    hq.mono (List.subset_append_left moved [f])
  exact hbefore.trans (hgains.mono (fun _ _ => trivial)
    fun q hq => ⟨f, List.mem_append_right _ List.mem_cons_self, hq⟩)

theorem Moving.of_moveFile {v' : FileTree} (h : Moving out n o b moved (f :: rest) v)
    (hseparate : SeparateFrom n (moved ++ f :: rest))
    (hrun : moveFile (stagingPath out n) out f v = (.ok (), v')) :
    Moving out n o b (moved ++ [f]) rest v' ∧ ¬ Obstructed v o f.path := by
  have hplain := hseparate.plain f (List.mem_append_right _ List.mem_cons_self)
  have hgains := gainsAlong_makeParent h.staging.leads hplain
  obtain ⟨⟨⟩, u, hmade, hmove⟩ := Outcome.bind_run_eq_ok hrun
  rw [hmade] at hgains
  obtain ⟨hstaging, hstaged, houtside⟩ := h.of_gainsAlong hgains
  have hf := hstaged f List.mem_cons_self
  obtain ⟨hclear, hdirectories, hplace, hframe⟩ :=
    find?_of_move hstaging hf hplain (FileM.change_eq_ok.1 hmove)
  -- no directory goes, as the move takes a file and does not replace a directory
  have hkeep (q : Place) (hq : u.find? q = some .directory) : v'.find? q = some .directory := by
    rw [hframe q ?_ ?_, hq]
    · rintro rfl
      rw [hf.file] at hq
      cases hq
    · rintro rfl
      exact hclear (.inl hq)
  have hbelow (g : File) (hg : g ∈ f :: rest) :
      Below (stagingPlace o n) (stagingPlace o n ++ parts g.path) :=
    Below.names _ fun x hx => (hseparate.plain g (List.mem_append_right _ hg)).isName hx
  refine ⟨⟨hstaging.mono hkeep, fun g hg => ?_, fun g hg => ?_, fun q hq => ?_⟩,
    fun hobstructed => hclear (hobstructed.of_gains hgains.directories)⟩
  · have hmem : g ∈ f :: rest := List.mem_cons_of_mem f hg
    refine (hstaged g hmem).mono hkeep (hframe _ ?_ ?_)
    · intro heq
      exact hseparate.ne_of_cons hg (List.append_cancel_left heq)
    · intro heq
      have hnotBelow := hseparate.not_below (List.mem_append_right _ List.mem_cons_self)
        hplain.parts_ne_nil List.prefix_rfl o
      exact hnotBelow (heq ▸ hbelow g hmem)
  · rcases List.mem_append.1 hg with hg | hg
    · exact (h.arrived g hg).mono fun q hq => hkeep q (hgains.find?_directory trivial hq)
    · obtain rfl := List.mem_singleton.1 hg
      have harrived : Arrived out o u g :=
        ⟨admissible_of_staging hf.admissible hplain, hf.sizes, hdirectories⟩
      exact harrived.mono hkeep
  · rw [put_concat]
    by_cases heq : q = o ++ parts f.path
    · rw [heq, hplace, find?_set_self (isFixed_place o hplain)]
      exact .inl rfl
    · have hne : q ≠ stagingPlace o n ++ parts f.path := by
        rintro rfl
        exact hq (hbelow f List.mem_cons_self)
      rw [find?_set_of_ne heq, hframe q hne heq]
      exact houtside q hq

/-- A file that is not moved is obstructed, and only directories have come of it. -/
theorem Moving.of_moveFile_error {v' : FileTree} {e : FileError}
    (h : Moving out n o b moved (f :: rest) v) (hseparate : SeparateFrom n (moved ++ f :: rest))
    (hout : out ≠ "") (hrun : moveFile (stagingPath out n) out f v = (.error e, v')) :
    GainsAlong o (parts f.path).dropLast v v' ∧ Obstructed v o f.path := by
  have hplain := hseparate.plain f (List.mem_append_right _ List.mem_cons_self)
  have hgains := gainsAlong_makeParent h.staging.leads hplain
  have hstaged := h.staged f List.mem_cons_self
  have hadmissible := admissible_of_staging hstaged.admissible hplain
  -- without an obstruction neither the directories nor the move are refused
  rw [Obstructed, or_iff_not_and_not, not_not]
  rcases Outcome.bind_run_eq_error hrun with hmade | ⟨⟨⟩, u, hmade, hmove⟩
  · rw [hmade] at hgains
    refine ⟨hgains, fun ⟨_, hclear⟩ => ?_⟩
    have hok := makeParent_ok hadmissible hout h.staging.leads hplain hstaged.sizes hclear
    rw [hmade] at hok
    cases hok.1
  · rw [hmade] at hgains
    obtain ⟨rfl, hrefused⟩ := FileM.change_eq_error hmove
    refine ⟨hgains, fun ⟨hplace, hclear⟩ => ?_⟩
    have hok := makeParent_ok hadmissible hout h.staging.leads hplain hstaged.sizes hclear
    rw [hmade] at hok
    have hstaging := h.staging.of_gains hgains.directories
    have hsource := resolve_join hstaged.admissible hstaging.leads_stagingPlace hplain
      hstaged.sizes fun ys hne hys =>
        hgains.find?_directory trivial (hstaged.directories ys hne hys)
    have hdestination := resolve_join hadmissible hstaging.leads hplain hstaged.sizes hok.2
    refine hrefused _ (move_eq_ok.2 ⟨_, _, _, hsource, hdestination,
      (hgains.find?_file trivial).2 hstaged.file, ?_, namesDirectory_join hplain _,
      namesDirectory_join hplain _, rfl⟩)
    rcases hgains (o ++ parts f.path) trivial with heq | ⟨-, -, halong⟩
    · rw [heq]
      exact hplace
    · exact absurd halong (not_along_dropLast hplain.parts_ne_nil)

/-! ## Runs of moves -/

/-- Files are moved up to one that is obstructed, if there is one. -/
theorem Moving.moveAll_cases (h : Moving out n o b moved rest v)
    (hseparate : SeparateFrom n (moved ++ rest)) (hapart : Apart (moved ++ rest)) (hout : out ≠ "") :
    ∃ done left u, rest = done ++ left ∧ (∀ f ∈ done, ¬ Obstructed b o f.path) ∧
      Moving out n o b (moved ++ done) left u ∧
      ((left = [] ∧ moveAll (stagingPath out n) out rest v =
          (.ok (rest.map fun f => Path.join out f.path), u)) ∨
        ∃ f e v', left.head? = some f ∧ Obstructed b o f.path ∧
          GainsAlong o (parts f.path).dropLast u v' ∧
          moveAll (stagingPath out n) out rest v = (.error e, v')) := by
  -- with each step a file goes from those that remain to those that were moved
  induction rest generalizing moved v with
  | nil =>
      refine ⟨[], [], v, rfl, fun _ hf => absurd hf List.not_mem_nil, ?_, .inl ⟨rfl, rfl⟩⟩
      rw [List.append_nil]
      exact h
  | cons f rest ih =>
      have hobstructed := h.obstructed_iff hseparate hapart
      rw [moveAll_cons]
      rcases hrun : moveFile (stagingPath out n) out f v with ⟨e | ⟨⟩, v'⟩
      · obtain ⟨hgains, hf⟩ := h.of_moveFile_error hseparate hout hrun
        refine ⟨[], f :: rest, v, rfl, fun _ hf => absurd hf List.not_mem_nil, ?_,
          .inr ⟨f, e, v', rfl, hobstructed.1 hf, hgains, Outcome.bind_run_of_error hrun⟩⟩
        rw [List.append_nil]
        exact h
      · obtain ⟨hmoving, hf⟩ := h.of_moveFile hseparate hrun
        rw [List.append_cons] at hseparate hapart
        obtain ⟨done, left, u, rfl, hdone, hmoving, hresult⟩ := ih hmoving hseparate hapart
        rw [← List.append_cons] at hmoving
        refine ⟨f :: done, left, u, rfl,
          List.forall_mem_cons.2 ⟨mt hobstructed.2 hf, hdone⟩, hmoving, ?_⟩
        rw [Outcome.bind_run_of_ok hrun]
        rcases hresult with ⟨hleft, hok⟩ | ⟨g, e, w, hg, hstop, hgains, herror⟩
        · exact .inl ⟨hleft, Outcome.bind_run_of_ok hok⟩
        · exact .inr ⟨g, e, w, hg, hstop, hgains, Outcome.bind_run_of_error herror⟩

end

end WireBindings.Output
