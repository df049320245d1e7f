import WireBindings.Failure
import Mathlib.Data.List.Forall2
import Mathlib.Data.List.Perm.Basic

/-!
# Outcomes of sequenced steps

A sequence of steps succeeds exactly when every step does. These are the only facts about `Except`,
alone and over a state, that the theory of documents and files needs.
-/

namespace WireBindings.Outcome

variable {ε α β γ : Type}

theorem bind_eq_ok {x : Except ε α} {f : α → Except ε β} {b : β} :
    (x >>= f) = .ok b ↔ ∃ a, x = .ok a ∧ f a = .ok b := by
  cases x with
  | error e => simp [bind, Except.bind]
  | ok a => simp [bind, Except.bind]

theorem bind_eq_error {x : Except ε α} {f : α → Except ε β} {e : ε} :
    (x >>= f) = .error e ↔ x = .error e ∨ ∃ a, x = .ok a ∧ f a = .error e := by
  cases x with
  | error e' => simp [bind, Except.bind]
  | ok a => simp [bind, Except.bind]

@[simp] theorem pure_eq_ok {a b : α} : (pure a : Except ε α) = .ok b ↔ a = b := by
  simp [pure, Except.pure]

@[simp] theorem ok_bind (a : α) (f : α → Except ε β) : (Except.ok a >>= f) = f a := rfl

@[simp] theorem throw_bind (e : ε) (f : α → Except ε β) :
    ((throw e : Except ε α) >>= f) = .error e := rfl

theorem mapM_eq_ok {f : α → Except ε β} {l : List α} {l' : List β} :
    l.mapM f = .ok l' ↔ List.Forall₂ (fun a b => f a = .ok b) l l' := by
  induction l generalizing l' with
  | nil => rw [List.mapM_nil, pure_eq_ok, List.forall₂_nil_left_iff, eq_comm]
  | cons a l ih =>
      rw [List.mapM_cons, List.forall₂_cons_left_iff, bind_eq_ok]
      constructor
      · rintro ⟨b, hb, h⟩
        obtain ⟨bs, hbs, h⟩ := bind_eq_ok.1 h
        exact ⟨b, bs, hb, ih.1 hbs, (pure_eq_ok.1 h).symm⟩
      · rintro ⟨b, bs, hb, hbs, rfl⟩
        exact ⟨b, hb, bind_eq_ok.2 ⟨bs, ih.2 hbs, rfl⟩⟩

theorem exists_mapM_of_forall {f : α → Except ε β} {R : α → β → Prop} {l : List α}
    (h : ∀ a ∈ l, ∃ b, f a = .ok b ∧ R a b) :
    ∃ l', l.mapM f = .ok l' ∧ List.Forall₂ R l l' := by
  induction l with
  | nil => exact ⟨[], rfl, .nil⟩
  | cons a l ih =>
      obtain ⟨b, hb, hab⟩ := h a (by simp)
      obtain ⟨bs, hbs, hall⟩ := ih fun x hx => h x (by simp [hx])
      exact ⟨b :: bs, mapM_eq_ok.2 (.cons hb (mapM_eq_ok.1 hbs)), .cons hab hall⟩

theorem exists_mapM {f : α → Except ε β} {l : List α} (h : ∀ a ∈ l, ∃ b, f a = .ok b) :
    ∃ l', l.mapM f = .ok l' := by
  obtain ⟨l', hl', -⟩ := exists_mapM_of_forall (R := fun a b => f a = .ok b) fun a ha => by
    obtain ⟨b, hb⟩ := h a ha
    exact ⟨b, hb, hb⟩
  exact ⟨l', hl'⟩

theorem exists_of_mapM_eq_error {f : α → Except ε β} {l : List α} {e : ε}
    (h : l.mapM f = .error e) : ∃ a ∈ l, f a = .error e := by
  induction l with
  | nil => cases h
  | cons a l ih =>
      rw [List.mapM_cons] at h
      cases hfa : f a with
      | error e' =>
          rw [hfa] at h
          obtain rfl := Except.error.inj h
          exact ⟨a, by simp, hfa⟩
      | ok b =>
          rw [hfa, ok_bind] at h
          cases hrest : l.mapM f with
          | error e' =>
              rw [hrest] at h
              obtain rfl := Except.error.inj h
              obtain ⟨x, hx, hfx⟩ := ih hrest
              exact ⟨x, List.mem_cons_of_mem _ hx, hfx⟩
          | ok bs =>
              rw [hrest] at h
              cases h

theorem forM_eq_error {f : α → Except ε Unit} {l : List α} {e : ε} :
    forM l f = .error e ↔ ∃ before a after, l = before ++ a :: after ∧
      (∀ x ∈ before, f x = .ok ()) ∧ f a = .error e := by
  induction l with
  | nil =>
      constructor
      · intro h
        cases h
      · rintro ⟨before, a, after, h, -, -⟩
        simp at h
  | cons a l ih =>
      rw [List.forM_cons]
      cases hfa : f a with
      | error e' =>
          constructor
          · intro h
            obtain rfl := Except.error.inj h
            exact ⟨[], a, l, rfl, by simp, hfa⟩
          · rintro ⟨before, x, after, h, hbefore, hx⟩
            cases before with
            | nil =>
                obtain ⟨rfl, rfl⟩ := List.cons.inj h
                exact hfa.symm.trans hx
            | cons b before =>
                obtain ⟨rfl, rfl⟩ := List.cons.inj h
                cases hfa.symm.trans (hbefore a (by simp))
      | ok u =>
          rw [ok_bind]
          constructor
          · intro h
            obtain ⟨before, x, after, rfl, hbefore, hx⟩ := ih.1 h
            exact ⟨a :: before, x, after, rfl, List.forall_mem_cons.2 ⟨hfa, hbefore⟩, hx⟩
          · rintro ⟨before, x, after, h, hbefore, hx⟩
            cases before with
            | nil =>
                obtain ⟨rfl, rfl⟩ := List.cons.inj h
                cases hfa.symm.trans hx
            | cons b before =>
                obtain ⟨rfl, rfl⟩ := List.cons.inj h
                exact ih.2 ⟨before, x, after, rfl, (List.forall_mem_cons.1 hbefore).2, hx⟩

theorem forM_eq_ok {f : α → Except ε Unit} {l : List α} :
    forM l f = .ok () ↔ ∀ x ∈ l, f x = .ok () := by
  induction l with
  | nil => simp [pure, Except.pure]
  | cons a l ih =>
      rw [List.forM_cons, bind_eq_ok, List.forall_mem_cons, ← ih]
      constructor
      · rintro ⟨⟨⟩, ha, hl⟩
        exact ⟨ha, hl⟩
      · rintro ⟨ha, hl⟩
        exact ⟨(), ha, hl⟩

theorem forM_flatMap {f : β → Except ε Unit} {g : α → List β} (l : List α) :
    forM (l.flatMap g) f = forM l fun a => forM (g a) f := by
  induction l with
  | nil => rfl
  | cons a l ih => rw [List.flatMap_cons, List.forM_append, List.forM_cons, ih]

/-- Steps that check something and then go on in a fixed way check everything first. -/
theorem mapM_check {f : α → Except ε Unit} {g : α → β} (l : List α) :
    (l.mapM fun a => do f a; return g a) = (do forM l f; return l.map g) := by
  induction l with
  | nil => rfl
  | cons a l ih =>
      rw [List.mapM_cons, ih, List.forM_cons]
      cases f a with
      | error e => rfl
      | ok u =>
          cases hl : forM l f with
          | error e => rfl
          | ok u => rfl

theorem exists_eq_ok_of_isOk {x : Except ε α} (h : x.isOk = true) : ∃ a, x = .ok a := by
  cases x with
  | error e => cases h
  | ok a => exact ⟨a, rfl⟩

theorem toOption_eq_some {x : Except ε α} {a : α} : x.toOption = some a ↔ x = .ok a := by
  cases x with
  | error e => simp [Except.toOption]
  | ok b => simp [Except.toOption]

/-- Outcomes that agree after a map are failures of one kind or results that the map identifies. -/
theorem cases_of_map_eq_map {x : Except ε α} {y : Except ε β} {g : α → γ} {g' : β → γ}
    (h : x.map g = y.map g') :
    (∃ e, x = .error e ∧ y = .error e) ∨ ∃ a b, x = .ok a ∧ y = .ok b ∧ g a = g' b := by
  cases x with
  | error e =>
      cases y with
      | error e' => exact .inl ⟨e, rfl, congrArg Except.error (Except.error.inj h).symm⟩
      | ok b => cases h
  | ok a =>
      cases y with
      | error e' => cases h
      | ok b => exact .inr ⟨a, b, rfl, rfl, Except.ok.inj h⟩

/-! ## Lists matched item by item -/

theorem exists_right_of_forall₂ {R : α → β → Prop} {l : List α} {l' : List β}
    (h : List.Forall₂ R l l') {a : α} (ha : a ∈ l) : ∃ b ∈ l', R a b := by
  induction h with
  | nil => cases ha
  | cons hab _ ih =>
      rcases List.mem_cons.1 ha with rfl | ha
      · exact ⟨_, List.mem_cons_self, hab⟩
      · obtain ⟨b, hb, hr⟩ := ih ha
        exact ⟨b, List.mem_cons_of_mem _ hb, hr⟩

theorem exists_left_of_forall₂ {R : α → β → Prop} {l : List α} {l' : List β}
    (h : List.Forall₂ R l l') {b : β} (hb : b ∈ l') : ∃ a ∈ l, R a b :=
  exists_right_of_forall₂ (List.Forall₂.flip h) hb

theorem forall₂_imp_of_mem {R S : α → β → Prop} {l : List α} {l' : List β}
    (h : List.Forall₂ R l l') (hRS : ∀ a ∈ l, ∀ b, R a b → S a b) : List.Forall₂ S l l' := by
  refine ((List.forall₂_and_left l l').2 ⟨fun _ ha => ha, h⟩).imp ?_
  rintro a b ⟨ha, hab⟩
  exact hRS a ha b hab

theorem forall₂_and_mem {R : α → β → Prop} {l : List α} {l' : List β} (h : List.Forall₂ R l l') :
    List.Forall₂ (fun a b => R a b ∧ b ∈ l') l l' :=
  List.Forall₂.flip (forall₂_imp_of_mem (List.Forall₂.flip h) fun _ hb _ hab => ⟨hab, hb⟩)

theorem map_eq_map_of_forall₂ {R : α → β → Prop} {l : List α} {l' : List β} {f : α → γ}
    {g : β → γ} (h : List.Forall₂ R l l') (hfg : ∀ a ∈ l, ∀ b, R a b → f a = g b) :
    l.map f = l'.map g := by
  rw [← List.forall₂_eq_eq_eq, List.forall₂_map_left_iff, List.forall₂_map_right_iff]
  exact forall₂_imp_of_mem h hfg

theorem map_eq_map_of_related {α' β' : Type} {S : α → α' → Prop} {R : α → β → Prop}
    {R' : α' → β' → Prop} {g : β → γ} {g' : β' → γ} {l : List α} {l' : List α'} {k : List β}
    {k' : List β'} (hS : List.Forall₂ S l l') (hR : List.Forall₂ R l k)
    (hR' : List.Forall₂ R' l' k')
    (hg : ∀ a ∈ l, ∀ a' b b', S a a' → R a b → R' a' b' → g b = g' b') : k.map g = k'.map g' := by
  induction hS generalizing k k' with
  | nil =>
      cases hR
      cases hR'
      rfl
  | cons ha _ ih =>
      cases hR with
      | cons hb hR =>
          cases hR' with
          | cons hb' hR' =>
              have hrest := ih hR hR' fun a hmem => hg a (List.mem_cons_of_mem _ hmem)
              rw [List.map_cons, List.map_cons, hrest, hg _ List.mem_cons_self _ _ _ ha hb hb']

theorem map_eq_map_of_forall₂_map {α' β' : Type} {m : α → α'} {R : α → β → Prop}
    {R' : α' → β' → Prop} {g : β → γ} {g' : β' → γ} {l : List α} {k : List β} {k' : List β'}
    (hR : List.Forall₂ R l k) (hR' : List.Forall₂ R' (l.map m) k')
    (hg : ∀ a ∈ l, ∀ b b', R a b → R' (m a) b' → g b = g' b') : k.map g = k'.map g' := by
  have hm : List.Forall₂ (fun a a' => a' = m a) l (l.map m) :=
    List.forall₂_map_right_iff.2 (List.forall₂_same.2 fun _ _ => rfl)
  refine map_eq_map_of_related hm hR hR' ?_
  rintro a ha _ b b' rfl hb hb'
  exact hg a ha b b' hb hb'

theorem forall₂_append {R : α → β → Prop} {l k : List α} {l' k' : List β}
    (h : List.Forall₂ R l l') (hk : List.Forall₂ R k k') : List.Forall₂ R (l ++ k) (l' ++ k') :=
  List.rel_append h hk

theorem forall₂_flatMap_flatten {R : α → β → Prop} {f : γ → List α} {cs : List γ}
    {ls : List (List β)} (h : List.Forall₂ (fun c l => List.Forall₂ R (f c) l) cs ls) :
    List.Forall₂ R (cs.flatMap f) ls.flatten := by
  induction h with
  | nil => exact .nil
  | cons hc _ ih => exact forall₂_append hc ih

theorem forall₂_flatMap_map {α' β' : Type} {R : β → β' → Prop} {m : α → α'} {g : α → List β}
    {g' : α' → List β'} {l : List α} (h : ∀ a ∈ l, List.Forall₂ R (g a) (g' (m a))) :
    List.Forall₂ R (l.flatMap g) ((l.map m).flatMap g') := by
  induction l with
  | nil => exact .nil
  | cons a l ih =>
      rw [List.map_cons, List.flatMap_cons, List.flatMap_cons]
      exact forall₂_append (h a (by simp)) (ih fun x hx => h x (by simp [hx]))

theorem exists_perm_of_forall₂ {R : α → β → Prop} {l k : List α} {l' : List β} (hlk : l.Perm k)
    (h : List.Forall₂ R l l') : ∃ k', List.Forall₂ R k k' ∧ l'.Perm k' := by
  have hcomp := List.perm_comp_forall₂ hlk.symm h
  obtain ⟨k', hk, hperm⟩ := hcomp
  exact ⟨k', hk, hperm.symm⟩

theorem exists_sublist_of_forall₂ {R : α → β → Prop} {l k : List α} {k' : List β}
    (hlk : l.Sublist k) (h : List.Forall₂ R k k') : ∃ l', List.Forall₂ R l l' ∧ l'.Sublist k' := by
  induction hlk generalizing k' with
  | slnil =>
      cases h
      exact ⟨[], .nil, .slnil⟩
  | cons a _ ih =>
      cases h with
      | cons _ hk =>
          obtain ⟨l', hl, hsub⟩ := ih hk
          exact ⟨l', hl, hsub.cons _⟩
  | cons_cons a _ ih =>
      cases h with
      | cons hab hk =>
          obtain ⟨l', hl, hsub⟩ := ih hk
          exact ⟨_ :: l', .cons hab hl, hsub.cons_cons _⟩

theorem map_filter_eq_flatMap (p : α → Bool) (f : α → β) (l : List α) :
    (l.filter p).map f = l.flatMap fun a => if p a then [f a] else [] := by
  induction l with
  | nil => rfl
  | cons a l ih =>
      rw [List.flatMap_cons, ← ih, List.filter_cons]
      split <;> rfl

/-! ## Steps on a state -/

variable {σ : Type}

theorem bind_run (x : ExceptT ε (StateM σ) α) (f : α → ExceptT ε (StateM σ) β) (s : σ) :
    (x >>= f) s = match x s with
      | (.ok a, s') => f a s'
      | (.error e, s') => (.error e, s') := by
  have hbind : (x >>= f) s = ExceptT.bindCont f (x s).1 (x s).2 := rfl
  rw [hbind]
  rcases x s with ⟨_ | a, s'⟩ <;> rfl

theorem bind_run_of_ok {x : ExceptT ε (StateM σ) α} {f : α → ExceptT ε (StateM σ) β} {s s' : σ}
    {a : α} (h : x s = (.ok a, s')) : (x >>= f) s = f a s' := by
  rw [bind_run, h]

theorem bind_run_of_error {x : ExceptT ε (StateM σ) α} {f : α → ExceptT ε (StateM σ) β}
    {s s' : σ} {e : ε} (h : x s = (.error e, s')) : (x >>= f) s = (.error e, s') := by
  rw [bind_run, h]

theorem bind_run_eq_ok {x : ExceptT ε (StateM σ) α} {f : α → ExceptT ε (StateM σ) β} {s s' : σ}
    {b : β} (h : (x >>= f) s = (.ok b, s')) : ∃ a s₁, x s = (.ok a, s₁) ∧ f a s₁ = (.ok b, s') := by
  rcases hx : x s with ⟨e | a, s₁⟩
  · rw [bind_run_of_error hx] at h
    cases h
  · exact ⟨a, s₁, rfl, (bind_run_of_ok hx).symm.trans h⟩

theorem bind_run_eq_error {x : ExceptT ε (StateM σ) α} {f : α → ExceptT ε (StateM σ) β}
    {s s' : σ} {e : ε} (h : (x >>= f) s = (.error e, s')) :
    x s = (.error e, s') ∨ ∃ a s₁, x s = (.ok a, s₁) ∧ f a s₁ = (.error e, s') := by
  rcases hx : x s with ⟨e' | a, s₁⟩
  · rw [bind_run_of_error hx] at h
    cases h
    exact .inl rfl
  · exact .inr ⟨a, s₁, rfl, (bind_run_of_ok hx).symm.trans h⟩

theorem bind_run_snd {x : ExceptT ε (StateM σ) α} {f : α → ExceptT ε (StateM σ) β} {s : σ}
    (hx : (x s).2 = s) (hf : ∀ a, (f a s).2 = s) : ((x >>= f) s).2 = s := by
  rcases hrun : x s with ⟨e | a, s'⟩ <;> rw [hrun] at hx <;> obtain rfl : s' = s := hx
  · rw [bind_run_of_error hrun]
  · rw [bind_run_of_ok hrun]
    exact hf a

theorem mapM_run_snd {f : α → ExceptT ε (StateM σ) β} {s : σ} (hf : ∀ a, (f a s).2 = s)
    (l : List α) : (l.mapM f s).2 = s := by
  induction l with
  | nil =>
      rw [List.mapM_nil]
      rfl
  | cons a l ih =>
      rw [List.mapM_cons]
      exact bind_run_snd (hf a) fun b => bind_run_snd ih fun bs => rfl

/-! ## Refusals among failures -/

theorem liftM_eq_ok {x : Except CompileError α} {a : α} :
    (liftM x : Except Failure α) = .ok a ↔ x = .ok a := by
  cases x with
  | error e => simp [liftM, monadLift, MonadLift.monadLift, Except.mapError]
  | ok b => simp [liftM, monadLift, MonadLift.monadLift, Except.mapError]

theorem liftM_eq_error {x : Except CompileError α} {f : Failure} :
    (liftM x : Except Failure α) = .error f ↔ ∃ e, x = .error e ∧ f = .compilation e := by
  cases x with
  | error e => simp [liftM, monadLift, MonadLift.monadLift, Except.mapError, eq_comm]
  | ok b => simp [liftM, monadLift, MonadLift.monadLift, Except.mapError]

theorem liftM_map (x : Except CompileError α) (g : α → β) :
    (liftM x : Except Failure α).map g = liftM (x.map g) := by
  cases x with
  | error e => rfl
  | ok a => rfl

end WireBindings.Outcome
