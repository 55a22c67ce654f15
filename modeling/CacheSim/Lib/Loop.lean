import Mathlib.Data.List.Basic
import Mathlib.Data.List.Induction
import Mathlib.Order.Basic

/-!
# Loops and runs that may fail

`none` stands for every way in which C code does not return: a failed assertion, a null
pointer that is followed, or a loop that goes round more often than its fuel allows.
-/

namespace CacheSim.Lib

open Option

variable {σ α : Type}

variable {α' β β' τ : Type} {o : Option α} {o' : Option α'} {R : α → α' → Prop} {cond : σ → Bool} {body : σ → Option σ} {s t : σ}
  {k : Nat} {ok : σ → α → Prop} {l : List α}

variable {k' : α' → Option β'}

theorem map_bind_eq {f : α → α'} {k : α → Option β} {g : β → β'}
    (ho : o.map f = o') (hk : ∀ a, (k a).map g = k' (f a)) : (o.bind k).map g = o'.bind k' := by
  subst ho
  cases o with
  | none => rfl
  | some a => exact hk a

variable {step : σ → α → Option σ} {step' : τ → α → Option τ}

theorem bind_rel {Q : β → β' → Prop} {k : α → Option β}
    (ho : Option.Rel R o o') (hk : ∀ a a', R a a' → Option.Rel Q (k a) (k' a')) :
    Option.Rel Q (o.bind k) (o'.bind k') := by
  cases ho with
  | none => exact .none
  | some h => exact hk _ _ h

theorem rel_none_iff (ho : Option.Rel R o o') : o = none ↔ o' = none := by
  cases ho <;> simp

theorem rel_some {a : α} (ho : Option.Rel R (some a) o') : ∃ a', o' = some a' ∧ R a a' := by
  cases ho with
  | some h => exact ⟨_, rfl, h⟩

theorem rel_imp {Q : α → α' → Prop} (ho : Option.Rel R o o') (himp : ∀ a a', R a a' → Q a a') : Option.Rel Q o o' := by
  cases ho with
  | none => exact .none
  | some h => exact .some (himp _ _ h)

theorem map_rel {Q : β → β' → Prop} {f : α → β} {g : α' → β'}
    (ho : Option.Rel R o o') (hf : ∀ a a', R a a' → Q (f a) (g a')) : Option.Rel Q (o.map f) (o'.map g) := by
  cases ho with
  | none => exact .none
  | some h => exact .some (hf _ _ h)

theorem exists_some {P Q : α → Prop} (h : ∃ a, o = some a ∧ P a) (hQ : ∀ a, o = some a → P a → Q a) : ∃ a, o = some a ∧ Q a :=
  h.imp fun a ha => ⟨ha.1, hQ a ha.1 ha.2⟩

/-! ## The `while` loop -/

def whileLoop (cond : σ → Bool) (body : σ → Option σ) : Nat → σ → Option σ
  | 0, s => if cond s then none else some s
  | n + 1, s => if cond s then (body s).bind (whileLoop cond body n) else some s

theorem whileLoop_stop (cond : σ → Bool) (body : σ → Option σ) (n : Nat) (s : σ)
    (h : cond s = false) : whileLoop cond body n s = some s := by
  cases n <;> simp [whileLoop, h]

theorem whileLoop_inv (I : σ → Prop)
    (hbody : ∀ s s', I s → cond s = true → body s = some s' → I s') :
    ∀ n s t, I s → whileLoop cond body n s = some t → I t ∧ cond t = false := by
  intro n
  induction n with
  | zero =>
    intro s t hs ht
    by_cases hc : cond s = true
    · simp [whileLoop, hc] at ht
    · simp only [whileLoop, hc, Bool.false_eq_true, if_false, some.injEq] at ht
      exact ht ▸ ⟨hs, by simpa using hc⟩
  | succ n ih =>
    intro s t hs ht
    by_cases hc : cond s = true
    · simp only [whileLoop, hc, if_true, bind_eq_some_iff] at ht
      obtain ⟨s', hs', ht⟩ := ht
      exact ih s' t (hbody s s' hs hc hs') ht
    · simp only [whileLoop, hc, Bool.false_eq_true, if_false, some.injEq] at ht
      exact ht ▸ ⟨hs, by simpa using hc⟩

theorem whileLoop_total (I : σ → Prop) (μ : σ → Nat)
    (hbody : ∀ s, I s → cond s = true → ∃ s', body s = some s' ∧ I s' ∧ μ s' < μ s) :
    ∀ n s, I s → μ s ≤ n → ∃ t, whileLoop cond body n s = some t ∧ I t ∧ cond t = false := by
  intro n
  induction n with
  | zero =>
    intro s hs hμ
    by_cases hc : cond s = true
    · obtain ⟨s', -, -, hlt⟩ := hbody s hs hc
      omega
    · exact ⟨s, by simp [whileLoop, hc], hs, by simpa using hc⟩
  | succ n ih =>
    intro s hs hμ
    by_cases hc : cond s = true
    · obtain ⟨s', hs', hI, hlt⟩ := hbody s hs hc
      obtain ⟨t, ht, hIt, hct⟩ := ih s' hI (by omega)
      exact ⟨t, by simp [whileLoop, hc, hs', ht], hIt, hct⟩
    · exact ⟨s, by simp [whileLoop, hc], hs, by simpa using hc⟩

variable {body' : τ → Option τ} {cond' : τ → Bool}

theorem whileLoop_map (f : σ → τ)
    (hcond : ∀ s, cond s = cond' (f s)) (hbody : ∀ s, (body s).map f = body' (f s)) (n : Nat) (s : σ) :
    (whileLoop cond body n s).map f = whileLoop cond' body' n (f s) := by
  induction n generalizing s with
  | zero =>
    unfold whileLoop
    rw [hcond]
    split_ifs <;> rfl
  | succ n ih =>
    unfold whileLoop
    rw [hcond, ← hbody]
    split_ifs
    · exact map_bind_eq rfl ih
    · rfl

theorem whileLoop_rel {R : σ → τ → Prop}
    (hcond : ∀ s a, R s a → cond s = cond' a) (hbody : ∀ s a, R s a → Option.Rel R (body s) (body' a)) (n : Nat) {a : τ}
    (h : R s a) : Option.Rel R (whileLoop cond body n s) (whileLoop cond' body' n a) := by
  induction n generalizing s a with
  | zero =>
    unfold whileLoop
    rw [hcond s a h]
    split_ifs
    · exact .none
    · exact .some h
  | succ n ih =>
    unfold whileLoop
    rw [hcond s a h]
    split_ifs
    · exact bind_rel (hbody s a h) fun _ _ h => ih h
    · exact .some h

theorem whileLoop_commute (f : σ → σ) (I : σ → Prop) (hcond : ∀ s, cond (f s) = cond s)
    (hbody : ∀ s s', I s → cond s = true → body s = some s' → body (f s) = some (f s') ∧ I s') :
    ∀ n s t, I s → whileLoop cond body n s = some t → whileLoop cond body n (f s) = some (f t) := by
  intro n
  induction n with
  | zero =>
    intro s t _ ht
    unfold whileLoop at ht ⊢
    rw [hcond]
    split_ifs at ht ⊢
    cases ht
    rfl
  | succ n ih =>
    intro s t hs ht
    unfold whileLoop at ht ⊢
    rw [hcond]
    split_ifs at ht ⊢ with hc
    · obtain ⟨s', hs', ht⟩ := bind_eq_some_iff.1 ht
      obtain ⟨hmoved, hI⟩ := hbody s s' hs hc hs'
      exact bind_eq_some_iff.2 ⟨f s', hmoved, ih s' t hI ht⟩
    · cases ht
      rfl

inductive Rounds (cond : σ → Bool) (body : σ → Option σ) : Nat → σ → σ → Prop
  | refl (s : σ) : Rounds cond body 0 s s
  | head {k : Nat} {s t u : σ} : cond s = true → body s = some t → Rounds cond body k t u → Rounds cond body (k + 1) s u

theorem Rounds.trans {j : Nat} {u : σ} (h1 : Rounds cond body j s t)
    (h2 : Rounds cond body k t u) : Rounds cond body (j + k) s u := by
  induction h1 with
  | refl => simpa using h2
  | @head j _ _ _ hc hb _ ih =>
    rw [show j + 1 + k = j + k + 1 by omega]
    exact .head hc hb (ih h2)

theorem Rounds.result {n : Nat} {u : σ} (h : Rounds cond body k s t)
    (ht : cond t = false) (hu : whileLoop cond body n s = some u) : u = t := by
  induction h generalizing n with
  | refl =>
    rw [whileLoop_stop cond body n _ ht] at hu
    exact (some.inj hu).symm
  | head hc hb _ ih =>
    cases n with
    | zero => simp [whileLoop, hc] at hu
    | succ n =>
      simp only [whileLoop, hc, hb] at hu
      exact ih ht hu

theorem Rounds.loop_eq (h : Rounds cond body k s t)
    (ht : cond t = false) (n : Nat) : whileLoop cond body n s = if k ≤ n then some t else none := by
  induction h generalizing n with
  | refl s => simp [whileLoop_stop cond body n s ht]
  | head hc hb _ ih =>
    cases n with
    | zero => simp [whileLoop, hc]
    | succ n => simp only [whileLoop, hc, if_true, hb, bind_some, ih ht n, Nat.add_le_add_iff_right]

inductive Trail (R : σ → α → σ → Prop) (s : σ) : List α → σ → Prop
  | refl : Trail R s [] s
  | step {l : List α} {t u : σ} {a : α} : Trail R s l t → R t a u → Trail R s (l ++ [a]) u

theorem whileLoop_trail {R : σ → α → σ → Prop} (I : σ → Prop) (μ : σ → Nat)
    (hbody : ∀ s, I s → cond s = true → ∃ a s', body s = some s' ∧ R s a s' ∧ I s' ∧ μ s' < μ s) (hs : I s) :
    ∃ l t, whileLoop cond body (μ s) s = some t ∧ Trail R s l t ∧ I t ∧ cond t = false := by
  have hstep (t : σ) (ht : I t ∧ ∃ l, Trail R s l t) (hcond : cond t = true) :
      ∃ u, body t = some u ∧ (I u ∧ ∃ l, Trail R s l u) ∧ μ u < μ t := by
    obtain ⟨hinv, l, hl⟩ := ht
    obtain ⟨a, u, hu, hR, hinv', hlt⟩ := hbody t hinv hcond
    exact ⟨u, hu, ⟨hinv', _, .step hl hR⟩, hlt⟩
  obtain ⟨t, ht, ⟨hinv, l, hl⟩, hstop⟩ := whileLoop_total _ μ hstep _ s ⟨hs, _, .refl⟩ (Nat.le_refl _)
  exact ⟨l, t, ht, hl, hinv, hstop⟩

/-! ## Runs -/

def runs (step : σ → α → Option σ) : σ → List α → Option σ
  | s, [] => some s
  | s, a :: as => (step s a).bind fun s' => runs step s' as

@[simp] theorem runs_nil (step : σ → α → Option σ) (s : σ) : runs step s [] = some s := rfl

theorem runs_cons (step : σ → α → Option σ) (s : σ) (a : α) (as : List α) :
    runs step s (a :: as) = (step s a).bind fun s' => runs step s' as := rfl

theorem runs_append (step : σ → α → Option σ) (s : σ) (as bs : List α) :
    runs step s (as ++ bs) = (runs step s as).bind fun s' => runs step s' bs := by
  induction as generalizing s with
  | nil => rfl
  | cons a as ih => simp only [List.cons_append, runs_cons, ih, bind_assoc]

theorem foldlM_eq_runs (step : σ → α → Option σ) (s : σ) (as : List α) : as.foldlM step s = runs step s as := by
  induction as generalizing s with
  | nil => rfl
  | cons a as ih =>
    exact congrArg _ (funext ih)

theorem runs_inv (I : σ → Prop) (ok : α → Prop)
    (hstep : ∀ s a s', I s → ok a → step s a = some s' → I s') :
    ∀ as s t, (∀ a ∈ as, ok a) → I s → runs step s as = some t → I t := by
  intro as
  induction as with
  | nil =>
    intro s t _ hs ht
    cases ht
    exact hs
  | cons a as ih =>
    intro s t hok hs ht
    simp only [runs_cons, bind_eq_some_iff] at ht
    obtain ⟨s', hs', ht⟩ := ht
    exact ih s' t (fun b hb => hok b (by simp [hb])) (hstep s a s' hs (hok a (by simp)) hs') ht

theorem runs_total (I : σ → Prop) (ok : α → Prop)
    (hstep : ∀ s a, I s → ok a → ∃ s', step s a = some s' ∧ I s') :
    ∀ as s, (∀ a ∈ as, ok a) → I s → ∃ t, runs step s as = some t ∧ I t := by
  intro as
  induction as with
  | nil => intro s _ hs; exact ⟨s, rfl, hs⟩
  | cons a as ih =>
    intro s hok hs
    obtain ⟨s', hs', hI⟩ := hstep s a hs (hok a (by simp))
    obtain ⟨t, ht, hIt⟩ := ih s' (fun b hb => hok b (by simp [hb])) hI
    exact ⟨t, by simp [runs_cons, hs', ht], hIt⟩

theorem runs_rel {R : σ → τ → Prop}
    (hstep : ∀ s a c, R s a → Option.Rel R (step s c) (step' a c)) (cs : List α) {a : τ} (h : R s a) :
    Option.Rel R (runs step s cs) (runs step' a cs) := by
  induction cs generalizing s a with
  | nil => exact .some h
  | cons c cs ih => exact bind_rel (hstep s a c h) fun _ _ h => ih h

/-- `t` is reached from `s` by calls each of which meets `ok` in the state it is made in. -/
inductive Reach (step : σ → α → Option σ) (ok : σ → α → Prop) (s : σ) : σ → Prop
  | refl : Reach step ok s s
  | step {t u : σ} (a : α) : Reach step ok s t → ok t a → step t a = some u → Reach step ok s u

theorem Reach.inv (I : σ → Prop)
    (hstep : ∀ s a s', I s → ok s a → step s a = some s' → I s') (hs : I s)
    (hr : Reach step ok s t) : I t := by
  induction hr with
  | refl => exact hs
  | step a _ hok hst ih => exact hstep _ a _ ih hok hst

theorem Reach.imp {ok' : σ → α → Prop} (himp : ∀ s a, ok s a → ok' s a) (hr : Reach step ok s t) : Reach step ok' s t := by
  induction hr with
  | refl => exact .refl
  | step a _ hok hst ih => exact .step a ih (himp _ a hok) hst

variable {as : List α}

theorem Reach.of_runs (hok : ∀ a ∈ as, ∀ s, ok s a) (hr : runs step s as = some t) : Reach step ok s t := by
  induction as using List.reverseRecOn generalizing t with
  | nil =>
    cases hr
    exact .refl
  | append_singleton as a ih =>
    simp only [runs_append, runs_cons, bind_eq_some_iff] at hr
    obtain ⟨u, hu, v, hv, hv'⟩ := hr
    cases hv'
    exact .step a (ih (fun b hb => hok b (by simp [hb])) hu) (hok a (by simp) u) hv

theorem Reach.of_checked [∀ s a, Decidable (ok s a)]
    (hr : runs (fun s a => if ok s a then step s a else none) s as = some t) : Reach step ok s t := by
  induction as using List.reverseRecOn generalizing t with
  | nil =>
    cases hr
    exact .refl
  | append_singleton as a ih =>
    simp only [runs_append, runs_cons, bind_eq_some_iff, ite_none_right_eq_some] at hr
    obtain ⟨u, hu, v, ⟨hok, hv⟩, hv'⟩ := hr
    cases hv'
    exact .step a (ih hu) hok hv

/-! ## Reading to the end -/

/-- Repeated reads from `s` give `l` and then report the end. -/
inductive Reads (read : σ → Option (σ × Option α)) : σ → List α → Prop
  | done {s t : σ} : read s = some (t, none) → Reads read s []
  | more {s t : σ} {a : α} {l : List α} : read s = some (t, some a) → Reads read t l → Reads read s (a :: l)

variable {read : σ → Option (σ × Option α)}

theorem Reads.of_eq (h : read t = read s) (hr : Reads read s l) : Reads read t l := by
  cases hr with
  | done hd => exact .done (h.trans hd)
  | more hm hl => exact .more (h.trans hm) hl

theorem Reads.unique {l' : List α} (h : Reads read s l) (h' : Reads read s l') : l = l' := by
  induction h generalizing l' with
  | done hread =>
    cases h' with
    | done => rfl
    | more hread' => cases hread.symm.trans hread'
  | more hread _ ih =>
    cases h' with
    | done hread' => cases hread.symm.trans hread'
    | more hread' hl =>
      cases hread.symm.trans hread'
      rw [ih hl]

def read_all (read : σ → Option (σ × Option α)) : Nat → σ → Option (List α)
  | 0, _ => none
  | n + 1, s => do
    let (t, a) ← read s
    match a with
    | none => return []
    | some a => return a :: (← read_all read n t)

theorem Reads.of_read_all {n : Nat} (h : read_all read n s = some l) : Reads read s l := by
  induction n generalizing s l with
  | zero => cases h
  | succ n ih =>
    simp only [read_all, bind, bind_eq_some_iff, Prod.exists] at h
    obtain ⟨t, _ | a, hread, h⟩ := h
    · cases h
      exact .done hread
    · simp only [bind_eq_some_iff] at h
      obtain ⟨l', hl', h⟩ := h
      cases h
      exact .more hread (ih hl')

end CacheSim.Lib
