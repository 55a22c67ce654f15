import CacheSim.Session.Policies
import CacheSim.Session.Proofs
import CacheSim.Lib.SwapList

/-!
# Each policy knows the live sessions
-/

namespace CacheSim.Session

open Lib List Function Finset Queues

theorem SameTurns.refl (ss : Sessions) : SameTurns ss ss := fun _ => rfl

theorem SameTurns.trans {a b c : Sessions} (h : SameTurns a b) (h' : SameTurns b c) : SameTurns a c :=
  fun t => (h' t).trans (h t)

namespace SessionLRU

structure Inv (p : SessionLRU) (L : Finset SessionId) : Prop where
  nodup : p.order.Nodup
  order : p.order.toFinset = L
  slot : p.slot = L

theorem sound : Sound hooks Inv where
  init := ⟨nodup_nil, rfl, rfl⟩
  select := by
    intro now p ss h
    refine ⟨p, ss, p.order.head?, rfl, h, .refl ss, ?_, ?_⟩
    · intro t ht
      rw [← h.order, mem_toFinset]
      exact mem_of_mem_head? ht
    · intro hnone
      rw [← h.order, head?_eq_none_iff.1 hnone]
      rfl
  touch := by
    intro p ss t L h _
    have hmem : t ∈ p.order ↔ t ∈ L := by rw [← h.order, mem_toFinset]
    show Inv (if decide (t ∉ L) = true then _ else _) _
    split_ifs with hnew hslot
    · have ht : t ∉ L := of_decide_eq_true hnew
      refine ⟨?_, ?_, by rw [h.slot]⟩
      · rw [nodup_append]
        refine ⟨h.nodup, by simp, ?_⟩
        rintro a ha b hb rfl
        rw [List.mem_singleton] at hb
        exact ht (hmem.1 (hb ▸ ha))
      · rw [toFinset_append, h.order, union_comm]
        rfl
    · have ht : t ∈ L := by simpa using hnew
      rw [insert_eq_of_mem ht]
      have hperm : (p.order.erase t ++ [t]).Perm p.order :=
        (perm_append_singleton t _).trans (perm_cons_erase (hmem.2 ht)).symm
      exact ⟨hperm.nodup_iff.2 h.nodup, (toFinset_eq_of_perm _ _ hperm).trans h.order, h.slot⟩
    · have ht : t ∈ L := by simpa using hnew
      exact absurd (h.slot.symm ▸ ht) hslot
  removed := by
    intro p t L h ht
    refine ⟨_, rfl, ?_⟩
    rw [if_pos (h.slot.symm ▸ ht)]
    refine ⟨h.nodup.erase t, ?_, by rw [h.slot]⟩
    ext u
    rw [mem_toFinset, h.nodup.mem_erase_iff, mem_erase, ← h.order, mem_toFinset]

end SessionLRU

namespace SessionBelady

variable {Q : Type} (queue : EntryQueue Q)

theorem push_all_items (entries : List (Sigma fun _ : SessionId => SessionMeta)) (q : Q) :
    ∀ e, e ∈ queue.items (entries.foldl (fun q kv => push_session queue q kv.1 kv.2) q) ↔
      e ∈ queue.items q ∨ ∃ kv ∈ entries, e = ⟨kv.2.next_access, kv.2.last_access, kv.1⟩ := by
  induction entries generalizing q with
  | nil => simp
  | cons kv entries ih =>
    intro e
    rw [foldl_cons, ih]
    have hpush := (queue.items_push q ⟨kv.2.next_access, kv.2.last_access, kv.1⟩).mem_iff (a := e)
    rw [List.mem_cons] at hpush
    simp only [List.mem_cons, exists_eq_or_imp]
    tauto

/-- What is popped is stale, so what is left on top is a live session; with the heap drained it is
one of the sessions that are pushed again. -/
theorem sound : Sound (hooks queue) fun _ _ => True where
  init := trivial
  select := by
    intro now heap ss _
    have hbody : ∀ q, True → (queue.top q).any (stale ss) = true → ∃ q', some (queue.pop q) = some q' ∧
        True ∧ (queue.items q').length < (queue.items q).length := by
      intro q _ htop
      rcases hq : queue.top q with _ | e
      · simp [hq] at htop
      · have := (queue.items_pop q e hq).length_eq
        rw [length_cons] at this
        exact ⟨_, rfl, trivial, by omega⟩
    obtain ⟨q, hloop, -, hend⟩ := whileLoop_total (fun _ => True) (fun q => (queue.items q).length) hbody
      (queue.items heap).length heap trivial le_rfl
    show ∃ p' ss' v, select_victim queue heap ss = some (p', ss', v) ∧ _
    unfold select_victim
    simp only [hloop, Option.bind_eq_bind, Option.bind_some]
    rcases hq : queue.top q with _ | e
    · split_ifs with hempty
      · refine ⟨q, ss, none, rfl, trivial, .refl ss, by simp, fun _ => ?_⟩
        unfold keySet AList.keys
        rw [isEmpty_iff.1 hempty]
        rfl
      · refine ⟨_, ss, _, rfl, trivial, .refl ss, ?_, ?_⟩
        · intro t ht
          rw [Option.map_eq_some_iff] at ht
          obtain ⟨e, he, rfl⟩ := ht
          have hmem := (push_all_items queue ss.entries q e).1 (queue.top_some _ _ he).1
          rw [queue.top_none q hq] at hmem
          rcases hmem with hmem | ⟨kv, hkv, rfl⟩
          · simp at hmem
          · rw [mem_keySet, AList.mem_keys]
            exact mem_map_of_mem hkv
        · intro hnone
          rw [Option.map_eq_none_iff] at hnone
          have hitems := queue.top_none _ hnone
          obtain ⟨kv, hkv⟩ := exists_mem_of_ne_nil ss.entries (by simpa using hempty)
          have := (push_all_items queue ss.entries q _).2 (Or.inr ⟨kv, hkv, rfl⟩)
          rw [hitems] at this
          simp at this
    · refine ⟨q, ss, some e.session, rfl, trivial, .refl ss, ?_, by simp⟩
      rintro t ⟨rfl⟩
      rw [mem_keySet_lookup]
      rcases hlook : ss.lookup e.session with _ | m
      · simp [hq, stale, hlook] at hend
      · exact ⟨m, rfl⟩
  touch := fun _ _ _ _ _ _ => trivial
  removed := fun heap _ _ _ _ => ⟨heap, rfl, trivial⟩

end SessionBelady

namespace SessionRandomCompute

variable (rng : Nat → Nat) (rnd : ℚ → ℚ)

structure Inv (p : SessionRandomCompute) (L : Finset SessionId) : Prop where
  pos : Positions p.pos p.pool
  live : ∀ s, s ∈ L ↔ s ∈ p.pool

theorem samples_spec (now : Int) (ss : Sessions) (pool : List SessionId) (hpool : pool ≠ []) (k : List Nat) :
    ∀ a : Nat × Option (ℚ × SessionId), (∀ b, a.2 = some b → b.2 ∈ pool) →
    ∃ a', k.foldlM (fun a _ => sample rng rnd now ss pool a) a = some a' ∧
      ∀ b, a'.2 = some b → b.2 ∈ pool := by
  induction k with
  | nil =>
    intro a ha
    exact ⟨a, rfl, ha⟩
  | cons i k ih =>
    intro a ha
    have hlt : rng a.1 % pool.length < pool.length := Nat.mod_lt _ (length_pos_iff.2 hpool)
    obtain ⟨a1, h1, hmem⟩ : ∃ a1, sample rng rnd now ss pool a = some a1 ∧ ∀ b, a1.2 = some b → b.2 ∈ pool := by
      unfold sample
      rw [getElem?_eq_getElem hlt]
      simp only [Option.bind_eq_bind, Option.bind_some]
      rcases ss.lookup (pool[rng a.1 % pool.length]) with _ | m
      · exact ⟨_, rfl, ha⟩
      · dsimp only
        split_ifs
        · refine ⟨_, rfl, ?_⟩
          rintro b ⟨rfl⟩
          exact getElem_mem hlt
        · exact ⟨_, rfl, ha⟩
    obtain ⟨a', h', hmem'⟩ := ih a1 hmem
    exact ⟨a', by simp [h1, h'], hmem'⟩

theorem select_spec (now : Int) (p : SessionRandomCompute) (ss : Sessions) :
    ∃ p' v, select_victim rng rnd now p ss = some (p', ss, v) ∧ p'.pool = p.pool ∧ p'.pos = p.pos ∧
      (∀ t, v = some t → t ∈ p.pool) ∧ (v = none → p.pool = []) := by
  unfold select_victim
  rcases hp : p.pool with _ | ⟨s0, rest⟩
  · exact ⟨p, none, rfl, hp, rfl, by simp, by simp⟩
  · obtain ⟨a, ha, hmem⟩ := samples_spec rng rnd now ss (s0 :: rest) (by simp)
      (List.range (min (s0 :: rest).length (max 1 n_sample))) (p.drawn, none) (by simp)
    refine ⟨{ p with drawn := a.1 }, some ((a.2.map (·.2)).getD s0), ?_, hp, rfl, ?_, by simp⟩
    · dsimp only
      rw [ha, hp]
      rfl
    · rintro t ⟨rfl⟩
      rcases hb : a.2 with _ | b
      · simp
      · exact hmem b hb

theorem removed_spec {p : SessionRandomCompute} {L : Finset SessionId} (h : Inv p L) {s : SessionId}
    (hs : s ∈ L) : ∃ p', on_removed p s = some p' ∧ Inv p' (L.erase s) := by
  obtain ⟨i, hpos⟩ := (h.pos.mem_iff s).1 ((h.live s).1 hs)
  have hi := h.pos.lt hpos
  have hlast := getLast?_eq_some_getLast (ne_nil_of_mem ((h.live s).1 hs))
  refine ⟨_, by simp only [on_removed, hpos, hi, hlast, Option.bind_eq_bind]; rfl, h.pos.swapRemove hpos hlast, fun t => ?_⟩
  rw [(h.pos.swapRemove hpos hlast).mem_iff, h.pos.swapRemove_isSome hlast, mem_erase, h.live,
    h.pos.mem_iff]

theorem sound : Sound (hooks rng rnd) Inv where
  init := ⟨fun s i => by simp [hooks], by simp [hooks]⟩
  select := by
    intro now p ss h
    obtain ⟨p', v, hsel, hpool, hpos, hsome, hnone⟩ := select_spec rng rnd now p ss
    refine ⟨p', ss, v, hsel, ⟨by rw [hpool, hpos]; exact h.pos, by rw [hpool]; exact h.live⟩, .refl ss, ?_, ?_⟩
    · intro t ht
      exact (h.live t).2 (hsome t ht)
    · intro hv
      rw [eq_empty_iff_forall_notMem]
      intro t ht
      rw [h.live, hnone hv] at ht
      simp at ht
  touch := by
    intro p ss t L h _
    show Inv (if decide (t ∉ L) = true then _ else _) _
    split_ifs with hnew
    · have ht : t ∉ L := of_decide_eq_true hnew
      have hnone : p.pos t = none := by
        rw [h.live, h.pos.mem_iff] at ht
        simpa [Option.eq_none_iff_forall_ne_some] using ht
      refine ⟨h.pos.push hnone, fun s => ?_⟩
      rw [mem_insert, h.live, mem_append, List.mem_singleton]
      tauto
    · have ht : t ∈ L := by simpa using hnew
      rw [insert_eq_of_mem ht]
      exact h
  removed := fun _ _ _ h hs => removed_spec h hs

end SessionRandomCompute

/-! ## Queues -/

namespace Queues

variable {κ : Type} {q : Queues κ}

theorem empty_wf : (empty : Queues κ).WF id := by
  intro k
  simp [empty]

theorem mem_head {k : κ} (h : q.WF id) {s : SessionId} (hs : (q.list k).head? = some s) : q.table s = some k := by
  obtain ⟨r, hr, rfl⟩ := h.table_of_mem (mem_of_mem_head? hs)
  exact hr

variable [DecidableEq κ]

section

variable (h : q.WF id)
include h

theorem place_sets {s : SessionId} (hs : q.table s = none) (k : κ) :
    Part.Sets id q (q.place s k) s (some k) := by
  refine ⟨rfl, fun k' => ?_⟩
  rw [erase_of_not_mem (h.not_mem hs k')]
  unfold place
  rcases eq_or_ne k k' with rfl | hk
  · simp
  · simp [hk, update_of_ne hk.symm]

theorem unlink_sets (s : SessionId) : Part.Sets id q (q.unlink s) s none := by
  unfold unlink
  rcases hs : q.table s with _ | k
  · refine ⟨?_, fun k' => ?_⟩
    · show q.table = update q.table s none
      rw [← hs, update_eq_self]
    · rw [erase_of_not_mem (h.not_mem hs k')]
      simp
  · refine ⟨rfl, fun k' => ?_⟩
    rcases eq_or_ne k' k with rfl | hk
    · simp
    · have hnot : s ∉ q.list k' := fun hm => h.disjoint hk hm (h.mem_of_table hs)
      simp [update_of_ne hk, erase_of_not_mem hnot]

theorem pop_front_sets {k : κ} {s : SessionId} {l : List SessionId}
    (hl : q.list k = s :: l) : Part.Sets id q (q.pop_front k) s none := by
  unfold pop_front
  rw [hl]
  refine ⟨rfl, fun k' => ?_⟩
  rcases eq_or_ne k' k with rfl | hk
  · simp [hl]
  · have hnot : s ∉ q.list k' := fun hm => h.disjoint hk hm (by simp [hl])
    simp [update_of_ne hk, erase_of_not_mem hnot]

theorem unlink_table (s : SessionId) : (q.unlink s).table = update q.table s none :=
  (unlink_sets h s).table_eq

theorem move_spec (s : SessionId) (k : κ) : ((q.unlink s).place s k).WF id ∧
    ((q.unlink s).place s k).table = update q.table s (some k) := by
  have hwf := h.sets (unlink_sets h s)
  have hs : (q.unlink s).table s = none := by rw [unlink_table h, update_self]
  have hp := place_sets hwf hs k
  refine ⟨hwf.sets hp, ?_⟩
  rw [hp.table_eq, unlink_table h, update_idem]

end

end Queues

namespace SessionS3FIFO

variable (rnd : ℚ → ℚ)

structure Inv (p : SessionS3FIFO) (L : Finset SessionId) : Prop where
  wf : p.queues.WF id
  live : ∀ s, s ∈ L ↔ p.queues.table s ≠ none

variable {p : SessionS3FIFO} {L : Finset SessionId} {s : SessionId}

section

variable (h : Inv p L)
include h

theorem Inv.small_head (hs : p.small.head? = some s) : s ∈ L := by
  rw [h.live, mem_head h.wf hs]
  simp

theorem Inv.main_head (hs : p.main.head? = some s) : s ∈ L := by
  rw [h.live, mem_head h.wf hs]
  simp

theorem Inv.empty (hs : p.small = []) (hm : p.main = []) : L = ∅ := by
  rw [eq_empty_iff_forall_notMem]
  intro s hl
  rw [h.live] at hl
  obtain ⟨k, hk⟩ := Option.ne_none_iff_exists'.1 hl
  have hmem := h.wf.mem_of_table hk
  cases k with
  | small =>
    rw [show p.queues.list (id S3Queue.small) = [] from hs] at hmem
    simp at hmem
  | main =>
    rw [show p.queues.list (id S3Queue.main) = [] from hm] at hmem
    simp at hmem

theorem Inv.to_main (hs : s ∈ L) : Inv (p.to_main s) L := by
  obtain ⟨hwf, htable⟩ := move_spec h.wf s .main
  refine ⟨hwf, fun t => ?_⟩
  show _ ↔ ((p.queues.unlink s).place s .main).table t ≠ none
  rw [htable]
  rcases eq_or_ne t s with rfl | hne
  · simp [hs]
  · rw [update_of_ne hne, h.live]

theorem Inv.none_left
    (hsmall : (if prefer_small rnd p then p.small.head? else none) = none) (hmain : p.main.head? = none) :
    L = ∅ := by
  have hm := head?_eq_none_iff.1 hmain
  refine h.empty ?_ hm
  by_contra hs
  obtain ⟨s, rest, hcons⟩ := exists_cons_of_ne_nil hs
  simp [prefer_small, hcons, hm] at hsmall

end

theorem select_loop_spec (rounds : Nat) : ∀ (p : SessionS3FIFO) (ss : Sessions), Inv p (keySet ss) →
    Inv (select_loop rnd rounds p ss).1 (keySet ss) ∧ SameTurns ss (select_loop rnd rounds p ss).2.1 ∧
      (∀ t, (select_loop rnd rounds p ss).2.2 = some t → t ∈ keySet ss) ∧
      ((select_loop rnd rounds p ss).2.2 = none → keySet ss = ∅) := by
  induction rounds with
  | zero =>
    intro p ss h
    refine ⟨h, .refl ss, ?_, ?_⟩
    · intro t ht
      rcases Option.or_eq_some_iff.1 ht with ht | ⟨-, ht⟩
      · exact h.small_head ht
      · exact h.main_head ht
    · intro hnone
      obtain ⟨h1, h2⟩ := Option.or_eq_none_iff.1 hnone
      exact h.empty (head?_eq_none_iff.1 h1) (head?_eq_none_iff.1 h2)
  | succ rounds ih =>
    intro p ss h
    unfold select_loop
    rcases hpick : (if prefer_small rnd p then p.small.head? else none) with _ | s
    · rcases hmain : p.main.head? with _ | s
      · exact ⟨h, .refl ss, by simp, fun _ => h.none_left rnd hpick hmain⟩
      · dsimp only
        have hlive := h.main_head hmain
        obtain ⟨m, hm⟩ := mem_keySet_lookup.1 hlive
        rw [hm]
        dsimp only
        split_ifs
        · -- one life spent, nothing else about the session changes
          have hturns : SameTurns ss (ss.insert s { m with freq := m.freq - 1 }) := by
            intro t
            rcases eq_or_ne t s with rfl | hne
            · rw [AList.lookup_insert, hm]
              rfl
            · rw [AList.lookup_insert_ne hne]
          obtain ⟨h1, h2, h3, h4⟩ := ih (p.to_main s) (ss.insert s { m with freq := m.freq - 1 })
            (by rw [hturns.keySet]; exact h.to_main hlive)
          rw [hturns.keySet] at h1 h3 h4
          exact ⟨h1, hturns.trans h2, h3, h4⟩
        · refine ⟨h, .refl ss, ?_, by simp⟩
          rintro t ⟨rfl⟩
          exact hlive
    · dsimp only
      have hlive : s ∈ keySet ss := by
        split_ifs at hpick
        exact h.small_head hpick
      split_ifs
      · exact ih (p.to_main s) ss (h.to_main hlive)
      · refine ⟨h, .refl ss, ?_, by simp⟩
        rintro t ⟨rfl⟩
        exact hlive

theorem Inv.place (h : Inv p L) (hs : s ∉ L)
    (k : S3Queue) {p' : SessionS3FIFO} (hp : p'.queues = p.queues.place s k) : Inv p' (insert s L) := by
  have hnone : p.queues.table s = none := by
    rw [h.live] at hs
    simpa using hs
  have hsets := place_sets h.wf hnone k
  refine ⟨hp ▸ h.wf.sets hsets, fun t => ?_⟩
  rw [hp, hsets.table_eq, mem_insert, h.live]
  rcases eq_or_ne t s with rfl | hne
  · simp
  · simp [hne]

theorem sound : Sound (hooks rnd) Inv where
  init := ⟨empty_wf, by simp [hooks, Queues.empty]⟩
  select := by
    intro now p ss h
    obtain ⟨h1, h2, h3, h4⟩ := select_loop_spec rnd (2 * (p.small.length + p.main.length) + 8 + 1) p ss h
    exact ⟨_, _, _, rfl, h1, h2, h3, h4⟩
  touch := by
    intro p ss t L h _
    show Inv (if (!decide (t ∉ L)) = true then _ else _) _
    split_ifs with hold hghost
    · have ht : t ∈ L := by simpa using hold
      rw [insert_eq_of_mem ht]
      exact h
    · exact h.place (by simpa using hold) .main rfl
    · exact h.place (by simpa using hold) .small rfl
  removed := by
    intro p t L h _
    have hinv : ∀ p' : SessionS3FIFO, p'.queues = p.queues.unlink t → Inv p' (L.erase t) := by
      intro p' hp
      have hsets := unlink_sets h.wf t
      refine ⟨hp ▸ h.wf.sets hsets, fun u => ?_⟩
      rw [hp, hsets.table_eq, mem_erase, h.live]
      rcases eq_or_ne u t with rfl | hne
      · simp
      · simp [hne]
    refine ⟨_, rfl, hinv _ ?_⟩
    split_ifs
    · rfl
    · rfl

end SessionS3FIFO

namespace SessionARC

variable (rnd : ℚ → ℚ)

structure Inv (a : SessionARC) (L : Finset SessionId) : Prop where
  wf : a.queues.WF id
  live : ∀ s, s ∈ L ↔ a.queues.table s = some .t1 ∨ a.queues.table s = some .t2

theorem pop_ghost {q : Queues ARCList} (h : q.WF id) {k : ARCList} (hk : k = .b1 ∨ k = .b2)
    (hne : q.list k ≠ []) : (q.pop_front k).WF id ∧ ∀ s,
      ((q.pop_front k).table s = some .t1 ∨ (q.pop_front k).table s = some .t2) ↔
        (q.table s = some .t1 ∨ q.table s = some .t2) := by
  obtain ⟨g, l, hl⟩ := exists_cons_of_ne_nil hne
  have hsets := pop_front_sets h hl
  have hg : q.table g = some k := mem_head h (by rw [hl]; rfl)
  refine ⟨h.sets hsets, fun s => ?_⟩
  rw [hsets.table_eq]
  rcases eq_or_ne s g with rfl | hs
  · rw [update_self, hg]
    rcases hk with rfl | rfl <;> simp
  · rw [update_of_ne hs]

theorem trim_loop_spec (c : Nat) (rounds : Nat) : ∀ q : Queues ARCList, q.WF id →
    (trim_loop c rounds q).WF id ∧ ∀ s,
      ((trim_loop c rounds q).table s = some .t1 ∨ (trim_loop c rounds q).table s = some .t2) ↔
        (q.table s = some .t1 ∨ q.table s = some .t2) := by
  induction rounds with
  | zero =>
    intro q h
    exact ⟨h, fun _ => Iff.rfl⟩
  | succ rounds ih =>
    intro q h
    unfold trim_loop
    split_ifs with hmore hb1 hb2
    · obtain ⟨hwf, hlive⟩ := pop_ghost h (Or.inl rfl) (by simpa using hb1)
      obtain ⟨hwf', hlive'⟩ := ih _ hwf
      exact ⟨hwf', fun s => (hlive' s).trans (hlive s)⟩
    · obtain ⟨hwf, hlive⟩ := pop_ghost h (Or.inr rfl) (by simpa using hb2)
      obtain ⟨hwf', hlive'⟩ := ih _ hwf
      exact ⟨hwf', fun s => (hlive' s).trans (hlive s)⟩
    · exact ⟨h, fun _ => Iff.rfl⟩
    · exact ⟨h, fun _ => Iff.rfl⟩

theorem Inv.trim {a : SessionARC} {L : Finset SessionId} (h : Inv a L) : Inv a.trim_ghosts L := by
  obtain ⟨hwf, hlive⟩ := trim_loop_spec (a.size .t1 + a.size .t2 + 1) (a.size .b1 + a.size .b2) a.queues h.wf
  exact ⟨hwf, fun s => (h.live s).trans (hlive s).symm⟩

theorem Inv.moved {a : SessionARC} {L : Finset SessionId} (h : Inv a L) {s : SessionId} {k : ARCList}
    {b : SessionARC} (hwf : b.queues.WF id)
    (htable : b.queues.table = update a.queues.table s (some k)) :
    Inv b (if k = .t1 ∨ k = .t2 then insert s L else L.erase s) := by
  refine ⟨hwf, fun t => ?_⟩
  rw [htable]
  rcases eq_or_ne t s with rfl | hne
  · split_ifs with hk <;> simp [hk]
  · rw [update_of_ne hne, ← h.live]
    split_ifs <;> simp [hne]

theorem sound : Sound (hooks rnd) Inv where
  init := ⟨empty_wf, by simp [hooks, Queues.empty]⟩
  select := by
    intro now a ss h
    refine ⟨a, ss, a.select_victim, rfl, h, .refl ss, ?_, ?_⟩
    · intro t ht
      rw [h.live]
      unfold select_victim at ht
      dsimp only at ht
      split_ifs at ht
      · exact Or.inl (mem_head h.wf ht)
      · exact Or.inr (mem_head h.wf ht)
    · intro hnone
      rw [eq_empty_iff_forall_notMem]
      intro t ht
      unfold select_victim at hnone
      rcases (h.live t).1 ht with hl | hl
      · have hmem := h.wf.mem_of_table hl
        obtain ⟨x, l, hx⟩ := exists_cons_of_ne_nil (ne_nil_of_mem hmem)
        rcases h2 : a.queues.list .t2 with _ | ⟨y, l'⟩
        · simp_all
        · simp only [id] at hx
          simp only [hx, h2, isEmpty_cons, Bool.false_and, Bool.false_eq_true, if_false,
            head?_cons] at hnone
          split_ifs at hnone
      · have hmem := h.wf.mem_of_table hl
        obtain ⟨x, l, hx⟩ := exists_cons_of_ne_nil (ne_nil_of_mem hmem)
        simp only [id] at hx
        simp only [hx, isEmpty_cons, Bool.and_false, Bool.false_eq_true, if_false,
          head?_cons] at hnone
        split_ifs at hnone with hcond
        rw [head?_eq_none_iff] at hnone
        simp [hnone] at hcond
  touch := by
    intro a ss t L h _
    have hmove : ∀ p : ℚ, Inv ({ a with p := p }.move t .t2) (insert t L) := by
      intro p
      obtain ⟨hwf, htable⟩ := move_spec h.wf t .t2
      have := h.moved (b := { a with p := p }.move t .t2) hwf htable
      simpa using this
    apply Inv.trim
    rcases ht : a.queues.table t with _ | k
    · have hsets := place_sets h.wf ht .t1
      have := h.moved (b := { a with queues := a.queues.place t .t1 }) (h.wf.sets hsets) hsets.table_eq
      simpa using this
    · cases k with
      | t1 => exact hmove a.p
      | t2 => exact hmove a.p
      | b1 => exact hmove _
      | b2 => exact hmove _
  removed := by
    intro a t L h ht
    refine ⟨on_removed a t, rfl, ?_⟩
    apply Inv.trim
    rcases (h.live t).1 ht with hk | hk
    · obtain ⟨hwf, htable⟩ := move_spec h.wf t .b1
      have := h.moved (b := { a with queues := (a.queues.unlink t).place t .b1 }) hwf htable
      simpa [hk] using this
    · obtain ⟨hwf, htable⟩ := move_spec h.wf t .b2
      have := h.moved (b := { a with queues := (a.queues.unlink t).place t .b2 }) hwf htable
      simpa [hk] using this

end SessionARC

end CacheSim.Session
