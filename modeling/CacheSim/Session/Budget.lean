import CacheSim.Session.Turns
import CacheSim.Lib.Double
import CacheSim.Lib.Rotation

/-!
# The rounds of `select_victim` in session S3FIFO

The loop first empties the small queue of sessions that proved themselves, and then, unless it has found its
victim, turns the main queue until a session without a life comes up.
-/

namespace CacheSim.Session.SessionS3FIFO

open Lib Prefixsim List

variable (rnd : ℚ → ℚ)

/-! ## The loop as a loop -/

def offered (w : SessionS3FIFO × Sessions) : Option SessionId :=
  (if prefer_small rnd w.1 then w.1.small.head? else none).or w.1.main.head?

def moves (w : SessionS3FIFO × Sessions) : Bool :=
  match (if prefer_small rnd w.1 then w.1.small.head? else none) with
  | some s => (w.2.lookup s).any (·.freq > promote_threshold)
  | none => w.1.main.head?.any fun s => (w.2.lookup s).any (·.freq > 0)

def moved (w : SessionS3FIFO × Sessions) : SessionS3FIFO × Sessions :=
  match (if prefer_small rnd w.1 then w.1.small.head? else none) with
  | some s => (to_main w.1 s, w.2)
  | none =>
    match w.1.main.head? with
    | none => w
    | some s =>
      match w.2.lookup s with
      | none => w
      | some m => (to_main w.1 s, w.2.insert s { m with freq := m.freq - 1 })

theorem select_loop_succ (rounds : Nat) (w : SessionS3FIFO × Sessions) :
    select_loop rnd (rounds + 1) w.1 w.2 =
      if moves rnd w then select_loop rnd rounds (moved rnd w).1 (moved rnd w).2 else (w.1, w.2, offered rnd w) := by
  obtain ⟨p, ss⟩ := w
  conv_lhs => unfold select_loop
  unfold moves moved offered
  rcases (if prefer_small rnd p then p.small.head? else none) with _ | s
  · rcases p.main.head? with _ | s
    · rfl
    · rcases hm : ss.lookup s with _ | m
      · simp [hm]
      · rcases em (m.freq > 0) with hpos | hpos <;> simp [hm]
  · rfl

theorem select_loop_inv {J : SessionS3FIFO × Sessions → Prop} (hJ : ∀ w, J w → moves rnd w = true → J (moved rnd w))
    (rounds : Nat) : ∀ w, J w → J ((select_loop rnd rounds w.1 w.2).1, (select_loop rnd rounds w.1 w.2).2.1) := by
  induction rounds with
  | zero => exact fun w hw => hw
  | succ rounds ih =>
    intro w hw
    rw [select_loop_succ]
    split_ifs with hmoves
    · exact ih _ (hJ w hw hmoves)
    · exact hw

theorem select_loop_eq (rounds : Nat) : ∀ w w', whileLoop (moves rnd) (fun w => some (moved rnd w)) rounds w = some w' →
    select_loop rnd (rounds + 1) w.1 w.2 = (w'.1, w'.2, offered rnd w') := by
  induction rounds with
  | zero =>
    intro w w' h
    rw [select_loop_succ]
    unfold whileLoop at h
    split_ifs at h ⊢
    cases h
    rfl
  | succ rounds ih =>
    intro w w' h
    rw [select_loop_succ]
    unfold whileLoop at h
    split_ifs at h ⊢
    · exact ih _ w' h
    · cases h
      rfl

/-! ## What the policy knows -/

def freq (ss : Sessions) (s : SessionId) : Int := ((ss.lookup s).getD {}).freq

structure Known (p : SessionS3FIFO) (ss : Sessions) : Prop extends Inv p (keySet ss) where
  lives : ∀ s, 0 ≤ freq ss s

variable {p : SessionS3FIFO} {ss : Sessions} {s : SessionId}

theorem Known.small_lookup (h : Known p ss)
    (hs : p.small.head? = some s) : ∃ m, ss.lookup s = some m := mem_keySet_lookup.1 (h.small_head hs)

theorem Known.main_lookup (h : Known p ss)
    (hs : p.main.head? = some s) : ∃ m, ss.lookup s = some m := mem_keySet_lookup.1 (h.main_head hs)

theorem freq_insert (ss : Sessions) (s : SessionId) (m : SessionMeta) (t : SessionId) :
    freq (ss.insert s m) t = if t = s then m.freq else freq ss t := by
  unfold freq
  split_ifs with ht
  · rw [ht, AList.lookup_insert]
    rfl
  · rw [AList.lookup_insert_ne ht]

theorem freq_eq {m : SessionMeta} (h : ss.lookup s = some m) : freq ss s = m.freq := by
  unfold freq
  rw [h]
  rfl

theorem Known.insert (h : Known p ss) {m m' : SessionMeta}
    (hm : ss.lookup s = some m) (hm' : 0 ≤ m'.freq) : Known p (ss.insert s m') := by
  have hkey : keySet (ss.insert s m') = keySet ss := by
    rw [keySet_insert]
    exact Finset.insert_eq_of_mem (mem_keySet_lookup.2 ⟨m, hm⟩)
  refine ⟨hkey ▸ h.toInv, fun t => ?_⟩
  rw [freq_insert]
  split_ifs
  · exact hm'
  · exact h.lives t

theorem Known.to_main (h : Known p ss) (hs : s ∈ keySet ss) :
    Known (to_main p s) ss := ⟨h.toInv.to_main hs, h.lives⟩

variable {w : SessionS3FIFO × Sessions}

theorem Known.moved (h : Known w.1 w.2) (hmoves : moves rnd w = true) : Known (moved rnd w).1 (moved rnd w).2 := by
  unfold moves at hmoves
  unfold SessionS3FIFO.moved
  rcases hpick : (if prefer_small rnd w.1 then w.1.small.head? else none) with _ | s
  · rcases hmain : w.1.main.head? with _ | s
    · exact h
    · obtain ⟨m, hm⟩ := h.main_lookup hmain
      have hpos : m.freq > 0 := by simpa [hpick, hmain, hm] using hmoves
      simp only [hm]
      apply (h.to_main (h.main_head hmain)).insert hm
      show 0 ≤ m.freq - 1
      omega
  · split_ifs at hpick
    exact h.to_main (h.small_head hpick)

theorem known_keeps : Keeps (hooks rnd) fun _ p ss => Known p ss where
  init := ⟨(sound rnd).init, fun s => by simp [freq]⟩
  touch := by
    intro now p ss t m _ h hm
    have hinv := (sound rnd).touch p (ss.insert t m) t (keySet ss) h.toInv (keySet_insert _ _ _)
    rw [← keySet_insert] at hinv
    refine ⟨hinv, fun s => ?_⟩
    rw [freq_insert]
    have hold := h.lives t
    split_ifs
    · rw [hm.freq]
      unfold next_freq
      unfold freq at hold
      split_ifs <;> omega
    · exact h.lives s
  bill := by
    intro now p ss t m cost h hm
    apply h.insert hm
    exact freq_eq hm ▸ h.lives t
  select := by
    intro now p ss p' ss' v h hsel
    have heq : select_loop rnd (2 * (p.small.length + p.main.length) + 8 + 1) p ss = (p', ss', v) :=
      Option.some.inj hsel
    have hknown := select_loop_inv rnd (J := fun w => Known w.1 w.2) (fun w hw hmoves => hw.moved rnd hmoves)
      (2 * (p.small.length + p.main.length) + 8 + 1) (p, ss) h
    have hturns := (select_loop_spec rnd (2 * (p.small.length + p.main.length) + 8 + 1) p ss h.toInv).2.1
    rw [heq] at hknown hturns
    exact ⟨hknown, hturns⟩
  removed := by
    intro now p ss t p' h ht hrem
    obtain ⟨p'', hp'', hinv⟩ := (sound rnd).removed p t (keySet ss) h.toInv ht
    cases hp''.symm.trans hrem
    rw [← keySet_erase] at hinv
    refine ⟨hinv, fun s => ?_⟩
    have hs := h.lives s
    unfold freq at hs ⊢
    rcases eq_or_ne s t with rfl | hne
    · simp
    · rwa [AList.lookup_erase_ne hne]

/-! ## Promotions -/

def prefers (small main : Nat) : Bool :=
  small != 0 && (main == 0 || (small : ℚ) > rnd (rnd (1 / 10) * (small + main : Nat)))

theorem prefer_small_eq (p : SessionS3FIFO) : prefer_small rnd p = prefers rnd p.small.length p.main.length := by
  unfold prefer_small prefers
  cases p.small <;> cases p.main <;> simp

/-- How many sessions at the head of `small` have proved themselves, as long as the queue is
preferred; `main` is the size of the main queue. -/
def promotions (ss : Sessions) : List SessionId → Nat → Nat
  | [], _ => 0
  | s :: small, main =>
    if prefers rnd (small.length + 1) main ∧ freq ss s > promote_threshold then promotions ss small (main + 1) + 1
    else 0

variable {rest : List SessionId} {L : Finset SessionId}

theorem Inv.to_main_small (h : Inv p L)
    (hs : p.small = s :: rest) :
    (p.to_main s).small = rest ∧ (p.to_main s).main = p.main ++ [s] := by
  have htable : p.queues.table s = some .small := Queues.mem_head h.wf (show p.small.head? = some s by rw [hs]; rfl)
  have herase : (p.queues.list .small).erase s = rest := by
    rw [show p.queues.list .small = s :: rest from hs, erase_cons_head]
  simp [SessionS3FIFO.to_main, small, main, Queues.unlink, Queues.place, htable, herase]

theorem Inv.to_main_main (h : Inv p L)
    (hs : p.main = s :: rest) :
    (p.to_main s).small = p.small ∧ (p.to_main s).main = rest ++ [s] := by
  have htable : p.queues.table s = some .main := Queues.mem_head h.wf (show p.main.head? = some s by rw [hs]; rfl)
  have herase : (p.queues.list .main).erase s = rest := by
    rw [show p.queues.list .main = s :: rest from hs, erase_cons_head]
  simp [SessionS3FIFO.to_main, small, main, Queues.unlink, Queues.place, htable, herase]

theorem promotions_spec (small : List SessionId) : ∀ p, Known p ss → p.small = small →
    ∃ p', Rounds (moves rnd) (fun w => some (moved rnd w)) (promotions rnd ss small p.main.length) (p, ss) (p', ss) ∧
      Known p' ss ∧ p'.small = small.drop (promotions rnd ss small p.main.length) ∧
      p'.main = p.main ++ small.take (promotions rnd ss small p.main.length) ∧
      (prefer_small rnd p' = true → moves rnd (p', ss) = false) := by
  induction small with
  | nil =>
    intro p h hp
    refine ⟨p, .refl _, h, hp, by simp, fun hpref => ?_⟩
    simp [prefer_small, hp] at hpref
  | cons s rest ih =>
    intro p h hp
    have hhead : p.small.head? = some s := by rw [hp]; rfl
    obtain ⟨m, hm⟩ := h.small_lookup hhead
    have hfreq : freq ss s = m.freq := freq_eq hm
    have hpref : prefer_small rnd p = prefers rnd (rest.length + 1) p.main.length := by
      rw [prefer_small_eq, hp, length_cons]
    unfold promotions
    split_ifs with hgo
    · have hmoves : moves rnd (p, ss) = true := by
        unfold moves
        simp only [hpref, hgo.1, if_true, hhead, hm, Option.any_some, decide_eq_true_eq]
        exact hfreq ▸ hgo.2
      have hmoved : moved rnd (p, ss) = (p.to_main s, ss) := by
        unfold moved
        simp only [hpref, hgo.1, if_true, hhead]
      obtain ⟨hsmall, hmain⟩ := h.toInv.to_main_small hp
      have hlen : (p.to_main s).main.length = p.main.length + 1 := by simp [hmain]
      obtain ⟨p', hrounds, hknown, hsmall', hmain', hstop⟩ := ih (p.to_main s) (h.to_main (h.small_head hhead)) hsmall
      rw [hlen] at hrounds hsmall' hmain'
      refine ⟨p', .head hmoves (congrArg some hmoved) hrounds, hknown, hsmall', ?_, hstop⟩
      rw [hmain', hmain, append_assoc]
      rfl
    · refine ⟨p, .refl _, h, hp, by simp, fun hpref' => ?_⟩
      have hlow : ¬ freq ss s > promote_threshold := fun hhigh => hgo ⟨hpref ▸ hpref', hhigh⟩
      unfold moves
      simp only [hpref', if_true, hhead, hm, Option.any_some, decide_eq_false_iff_not]
      exact hfreq ▸ hlow

def lives (ss : Sessions) (s : SessionId) : Nat := (freq ss s).toNat

theorem reinsertions_spec (k : Nat) : ∀ p ss, Known p ss → prefer_small rnd p = false → p.main ≠ [] →
    spins (p.main.map (lives ss)) = k →
    ∃ w s, Rounds (moves rnd) (fun w => some (moved rnd w)) k (p, ss) w ∧ Known w.1 w.2 ∧
      prefer_small rnd w.1 = false ∧ w.1.main.head? = some s ∧ freq w.2 s = 0 := by
  induction k with
  | zero =>
    intro p ss h hpref hne hk
    obtain ⟨s, rest, hcons⟩ := exists_cons_of_ne_nil hne
    refine ⟨(p, ss), s, .refl _, h, hpref, by rw [hcons]; rfl, ?_⟩
    show freq ss s = 0
    by_contra hne'
    have hlow := h.lives s
    have hpos' : 0 < lives ss s := by
      unfold lives
      omega
    rw [hcons, map_cons, spins_rotate _ hpos'] at hk
    omega
  | succ k ih =>
    intro p ss h hpref hne hk
    obtain ⟨s, rest, hcons⟩ := exists_cons_of_ne_nil hne
    have hhead : p.main.head? = some s := by rw [hcons]; rfl
    obtain ⟨m, hm⟩ := h.main_lookup hhead
    have hfreq : freq ss s = m.freq := freq_eq hm
    have hpos : 0 < lives ss s := by
      by_contra hzero
      rw [hcons, map_cons, show lives ss s = 0 by omega, spins_of_zero] at hk
      omega
    have hmpos : m.freq > 0 := by
      unfold lives at hpos
      omega
    have hmoves : moves rnd (p, ss) = true := by
      unfold moves
      simp [hpref, hhead, hm, hmpos]
    have hmoved : moved rnd (p, ss) = (p.to_main s, ss.insert s { m with freq := m.freq - 1 }) := by
      unfold moved
      simp [hpref, hhead, hm]
    obtain ⟨hsmall, hmain⟩ := h.toInv.to_main_main hcons
    have hnodup : (s :: rest).Nodup := hcons ▸ (h.wf .main).1
    have hrest : rest.map (lives (ss.insert s { m with freq := m.freq - 1 })) = rest.map (lives ss) := by
      apply map_congr_left
      intro t ht
      have hne' : t ≠ s := by
        rintro rfl
        exact (nodup_cons.1 hnodup).1 ht
      unfold lives
      rw [freq_insert, if_neg hne']
    have hself : lives (ss.insert s { m with freq := m.freq - 1 }) s = lives ss s - 1 := by
      unfold lives
      rw [freq_insert, if_pos rfl, hfreq]
      show (m.freq - 1).toNat = m.freq.toNat - 1
      omega
    have hk' : spins ((p.to_main s).main.map (lives (ss.insert s { m with freq := m.freq - 1 }))) = k := by
      rw [hcons, map_cons, spins_rotate _ hpos] at hk
      rw [hmain, map_append, hrest, map_singleton, hself]
      omega
    have hpref' : prefer_small rnd (p.to_main s) = false := by
      rw [prefer_small_eq, hsmall, hmain, length_append, length_singleton, ← length_cons,
        ← hcons, ← prefer_small_eq]
      exact hpref
    have hknown : Known (p.to_main s) (ss.insert s { m with freq := m.freq - 1 }) := by
      apply (h.to_main (h.main_head hhead)).insert hm
      show 0 ≤ m.freq - 1
      omega
    obtain ⟨w, t, hrounds, hw⟩ := ih _ _ hknown hpref' (by rw [hmain]; simp) hk'
    exact ⟨w, t, .head hmoves (congrArg some hmoved) hrounds, hw⟩

/-! ## The budget -/

def Chosen (w : SessionS3FIFO × Sessions) (s : SessionId) : Prop :=
  (prefer_small rnd w.1 = true ∧ w.1.small.head? = some s ∧ freq w.2 s ≤ promote_threshold) ∨
    (prefer_small rnd w.1 = false ∧ w.1.main.head? = some s ∧ freq w.2 s = 0)

/-- The loop of `select_victim` returns, and what it returns is chosen by the rule. -/
def Genuine (c : State SessionS3FIFO) : Prop :=
  let limit := 2 * (c.policy.small.length + c.policy.main.length) + 8
  ∃ w s, whileLoop (moves rnd) (fun w => some (moved rnd w)) limit (c.policy, c.sessions) = some w ∧
    (hooks rnd).select_victim c.now c.policy c.sessions = some (w.1, w.2, some s) ∧ Chosen rnd w s

/-- After the promotions the small queue is still preferred, or the budget covers them and the
reinsertions that the main queue then needs. -/
def Affordable (p : SessionS3FIFO) (ss : Sessions) : Prop :=
  let promoted := promotions rnd ss p.small p.main.length
  let main := p.main ++ p.small.take promoted
  prefers rnd (p.small.length - promoted) main.length = true ∨
    promoted + spins (main.map (lives ss)) ≤ 2 * (p.small.length + p.main.length) + 8

instance (p : SessionS3FIFO) (ss : Sessions) : Decidable (Affordable rnd p ss) := inferInstanceAs (Decidable (_ ∨ _))

theorem promotions_le (ss : Sessions) (small : List SessionId) (main : Nat) :
    promotions rnd ss small main ≤ small.length := by
  induction small generalizing main with
  | nil => exact le_refl _
  | cons s rest ih =>
    unfold promotions
    have := ih (main + 1)
    rw [length_cons]
    split_ifs <;> omega

variable {c : State SessionS3FIFO}

theorem genuine_iff_of_rounds {k : Nat}
    (hrounds : Rounds (moves rnd) (fun w => some (moved rnd w)) k (c.policy, c.sessions) w)
    (hstop : moves rnd w = false) (hoffer : offered rnd w = some s) (hchosen : Chosen rnd w s) :
    Genuine rnd c ↔ k ≤ 2 * (c.policy.small.length + c.policy.main.length) + 8 := by
  set limit := 2 * (c.policy.small.length + c.policy.main.length) + 8 with hlimit
  have hloop := hrounds.loop_eq hstop limit
  constructor
  · rintro ⟨w', s', hw', -, -⟩
    rw [← hlimit, hloop] at hw'
    split_ifs at hw' with hk
    exact hk
  · intro hk
    rw [if_pos hk] at hloop
    refine ⟨w, s, hloop, ?_, hchosen⟩
    have hsel := select_loop_eq rnd limit _ _ hloop
    rw [hoffer] at hsel
    exact congrArg some hsel

theorem genuine_iff (h : Known c.policy c.sessions) (hlive : (live c).Nonempty) :
    Genuine rnd c ↔ Affordable rnd c.policy c.sessions := by
  obtain ⟨p', hrounds, hknown, hsmall, hmain, hstop⟩ := promotions_spec rnd c.policy.small c.policy h rfl
  set k := promotions rnd c.sessions c.policy.small c.policy.main.length with hk
  have hpref : prefer_small rnd p' = prefers rnd (c.policy.small.length - k) (c.policy.main ++ c.policy.small.take k).length := by
    rw [prefer_small_eq, hsmall, hmain, length_drop]
  unfold Affordable
  rw [← hk]
  dsimp only
  rw [← hpref]
  rcases hp : prefer_small rnd p' with _ | _
  · have hne : p'.main ≠ [] := by
      intro hnil
      have hnone := hknown.toInv.none_left rnd (by rw [hp]; rfl) (head?_eq_none_iff.2 hnil)
      unfold live at hlive
      rw [hnone] at hlive
      simp at hlive
    obtain ⟨w, s, hturns, hw, hpw, hhead, hzero⟩ := reinsertions_spec rnd _ p' c.sessions hknown hp hne rfl
    obtain ⟨m, hm⟩ := hw.main_lookup hhead
    have hoffer : offered rnd w = some s := by simp [offered, hpw, hhead]
    have hstop' : moves rnd w = false := by
      have := freq_eq hm
      simp [moves, hpw, hhead, hm]
      omega
    rw [genuine_iff_of_rounds rnd (hrounds.trans hturns) hstop' hoffer (Or.inr ⟨hpw, hhead, hzero⟩), hmain]
    simp
  · obtain ⟨s, rest, hcons⟩ : ∃ s rest, p'.small = s :: rest := by
      apply exists_cons_of_ne_nil
      intro hnil
      simp [prefer_small, hnil] at hp
    have hhead : p'.small.head? = some s := by rw [hcons]; rfl
    obtain ⟨m, hm⟩ := hknown.small_lookup hhead
    have hoffer : offered rnd (p', c.sessions) = some s := by simp [offered, hp, hhead]
    have hlow : freq c.sessions s ≤ promote_threshold := by
      have := hstop hp
      simpa [moves, hp, hhead, hm, freq_eq hm] using this
    rw [genuine_iff_of_rounds rnd hrounds (hstop hp) hoffer (Or.inl ⟨hp, hhead, hlow⟩)]
    have := promotions_le rnd c.sessions c.policy.small c.policy.main.length
    simp
    omega

/-- Whenever `select_victim` is called while a session is live, its loop returns the session that
the rule chooses exactly if the budget is enough. -/
theorem select_genuine_iff {config : SimulatorConfig} {s : Simulator (State SessionS3FIFO)} {c : State SessionS3FIFO}
    (h : Underway (hooks rnd) config s c) (hlive : (live c).Nonempty) :
    Genuine rnd c ↔ Affordable rnd c.policy c.sessions :=
  genuine_iff rnd ((known_keeps rnd).underway h).inv hlive

theorem select_genuine_iff_after_turns :
    ∃ s, runs (call (hooks to_double) { cache_size_blocks := 2 }) { cache := session_cache_init (hooks to_double) 2 }
        ([1, 2, 1, 1, 3].map fun i => .serve { blocks := [i], session := i }) = some s ∧
      Affordable to_double s.cache.policy s.cache.sessions ∧ Genuine to_double s.cache := by
  refine exists_some (P := fun s => 1 ∈ live s.cache ∧ Affordable to_double s.cache.policy s.cache.sessions) (by decide +kernel)
    fun s hs ⟨hlive, haffordable⟩ => ⟨haffordable, ?_⟩
  have hway : Underway (hooks to_double) { cache_size_blocks := 2 } s s.cache :=
    ⟨Reach.of_runs (fun _ _ _ => trivial) hs, .refl⟩
  exact (select_genuine_iff to_double hway ⟨1, hlive⟩).2 haffordable

/-- Five sessions have three turns each. All are promoted, and the loop ends before any of them has
spent its three lives. -/
theorem select_runs_out :
    ∃ s, runs (serve_ok (SessionCache (hooks to_double)) { cache_size_blocks := 5 })
        { cache := session_cache_init (hooks to_double) 5 }
        (([1, 2, 3, 4, 5, 1, 2, 3, 4, 5, 1, 2, 3, 4, 5] : List Nat).map fun i => { blocks := [i], session := i }) = some s ∧
      (live s.cache).Nonempty ∧ ¬ Genuine to_double s.cache := by
  refine exists_some (P := fun s => 1 ∈ live s.cache ∧ whileLoop (moves to_double) (fun w => some (moved to_double w))
    (2 * (s.cache.policy.small.length + s.cache.policy.main.length) + 8) (s.cache.policy, s.cache.sessions) = none)
    (by decide +kernel) fun s hs ⟨hlive, hend⟩ => ⟨⟨1, hlive⟩, ?_⟩
  rintro ⟨w, v, hw, -⟩
  rw [hend] at hw
  cases hw

end CacheSim.Session.SessionS3FIFO
