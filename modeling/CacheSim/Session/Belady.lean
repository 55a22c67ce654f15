import CacheSim.Session.Turns

/-!
# Session Belady evicts the session that returns last

Heap entries are never taken back.
-/

namespace CacheSim.Session.SessionBelady

open Lib Prefixsim AList

variable {Q : Type} (queue : EntryQueue Q)

/-- Every live session has an entry for its latest turn, and no entry that passes for one of that
turn says anything else. -/
structure Current (now : Int) (heap : Q) (ss : Sessions) : Prop where
  entry : ∀ t m, ss.lookup t = some m → ⟨m.next_access, m.last_access, t⟩ ∈ queue.items heap
  fresh : ∀ e ∈ queue.items heap, ∀ m, ss.lookup e.session = some m → m.last_access = e.snapshot →
    m.next_access = e.next_access
  past : ∀ e ∈ queue.items heap, e.snapshot ≤ now

variable {queue} {heap : Q} {m : SessionMeta} {e : Entry}

theorem mem_push {s : SessionId} :
    e ∈ queue.items (push_session queue heap s m) ↔
      e = ⟨m.next_access, m.last_access, s⟩ ∨ e ∈ queue.items heap := by
  unfold push_session
  rw [(queue.items_push heap _).mem_iff, List.mem_cons]

variable {now : Int} {ss : Sessions}

theorem Current.touch {t : SessionId}
    (h : Current queue now heap ss) (hm : m.last_access = now + 1) :
    Current queue (now + 1) (push_session queue heap t m) (ss.insert t m) := by
  constructor
  · intro u m' hu
    rw [mem_push]
    rcases eq_or_ne u t with rfl | hne
    · rw [lookup_insert, Option.some.injEq] at hu
      exact Or.inl (by rw [hu])
    · rw [lookup_insert_ne hne] at hu
      exact Or.inr (h.entry u m' hu)
  · intro e he m' hu hlast
    rw [mem_push] at he
    rcases eq_or_ne e.session t with heq | hne
    · rw [heq, lookup_insert, Option.some.injEq] at hu
      rcases he with rfl | he
      · rw [hu]
      · -- an older entry of `t` has an older time
        have := h.past e he
        rw [← hu] at hlast
        omega
    · rw [lookup_insert_ne hne] at hu
      rcases he with rfl | he
      · exact absurd rfl hne
      · exact h.fresh e he m' hu hlast
  · intro e he
    rw [mem_push] at he
    rcases he with rfl | he
    · exact hm.le
    · have := h.past e he
      omega

theorem Current.congr {ss ss' : Sessions} (h : Current queue now heap ss)
    (hs : ∀ t m', ss'.lookup t = some m' → ∃ m, ss.lookup t = some m ∧ m.last_access = m'.last_access ∧
      m.next_access = m'.next_access) : Current queue now heap ss' := by
  refine ⟨fun t m' hm' => ?_, fun e he m' hm' hlast => ?_, h.past⟩
  · obtain ⟨m, hm, hlast, hnext⟩ := hs t m' hm'
    rw [← hlast, ← hnext]
    exact h.entry t m hm
  · obtain ⟨m, hm, hlast', hnext⟩ := hs e.session m' hm'
    rw [← hnext]
    exact h.fresh e he m hm (hlast'.trans hlast)

section

variable (h : Current queue now heap ss)
include h

theorem Current.erase (v : SessionId) : Current queue now heap (ss.erase v) := by
  apply h.congr
  intro t m hm
  rcases eq_or_ne t v with rfl | hne
  · simp at hm
  · rw [lookup_erase_ne hne] at hm
    exact ⟨m, hm, rfl, rfl⟩

/-! ## The loop -/

theorem Current.pop
    (htop : queue.top heap = some e) (hstale : stale ss e = true) : Current queue now (queue.pop heap) ss := by
  have hitems := queue.items_pop heap e htop
  have hsub : ∀ x ∈ queue.items (queue.pop heap), x ∈ queue.items heap := by
    intro x hx
    exact hitems.mem_iff.2 (List.mem_cons_of_mem _ hx)
  refine ⟨fun t m hm => ?_, fun x hx => h.fresh x (hsub x hx), fun x hx => h.past x (hsub x hx)⟩
  rcases List.mem_cons.1 (hitems.mem_iff.1 (h.entry t m hm)) with rfl | hx
  · simp [stale, hm] at hstale
  · exact hx

theorem select_spec :
    ∃ heap' v, select_victim queue heap ss = some (heap', ss, v) ∧ Current queue now heap' ss ∧
      (v = none ↔ keySet ss = ∅) ∧
      ∀ t, v = some t → ∃ m, ss.lookup t = some m ∧
        ∀ u m', ss.lookup u = some m' → m'.next_access ≤ m.next_access := by
  have hbody : ∀ q, Current queue now q ss → (queue.top q).any (stale ss) = true →
      ∃ q', some (queue.pop q) = some q' ∧ Current queue now q' ss ∧
        (queue.items q').length < (queue.items q).length := by
    intro q hq htop
    rcases he : queue.top q with _ | e
    · simp [he] at htop
    · rw [he, Option.any_some] at htop
      have hlength := (queue.items_pop q e he).length_eq
      rw [List.length_cons] at hlength
      exact ⟨_, rfl, hq.pop he htop, by omega⟩
  obtain ⟨q, hloop, hq, hend⟩ := whileLoop_total (Current queue now · ss) (fun q => (queue.items q).length) hbody
    (queue.items heap).length heap h le_rfl
  unfold select_victim
  simp only [hloop, Option.bind_eq_bind, Option.bind_some]
  rcases hq' : queue.top q with _ | e
  · -- the heap is drained, so no session is live
    have hnone : keySet ss = ∅ := by
      rw [Finset.eq_empty_iff_forall_notMem]
      intro t ht
      obtain ⟨m, hm⟩ := mem_keySet_lookup.1 ht
      have hmem := hq.entry t m hm
      rw [queue.top_none q hq'] at hmem
      simp at hmem
    have hempty : ss.entries.isEmpty = true := by
      rw [List.isEmpty_iff, ← List.map_eq_nil_iff (f := Sigma.fst), ← List.toFinset_eq_empty_iff]
      exact hnone
    refine ⟨q, none, ?_, hq, by simp [hnone], by simp⟩
    simp only [hempty]
    rfl
  · rw [hq', Option.any_some] at hend
    obtain ⟨m, hm, hlast⟩ : ∃ m, ss.lookup e.session = some m ∧ m.last_access = e.snapshot := by
      unfold stale at hend
      rcases hm : ss.lookup e.session with _ | m
      · simp [hm] at hend
      · exact ⟨m, rfl, by simpa [hm] using hend⟩
    obtain ⟨hin, hmax⟩ := queue.top_some q e hq'
    have hnext := hq.fresh e hin m hm hlast
    refine ⟨q, some e.session, rfl, hq, ?_, ?_⟩
    · have hlive : e.session ∈ keySet ss := mem_keySet_lookup.2 ⟨m, hm⟩
      simp [Finset.ne_empty_of_mem hlive]
    · rintro t ⟨rfl⟩
      refine ⟨m, hm, fun u m' hu => ?_⟩
      rw [hnext]
      exact hmax _ (hq.entry u m' hu)

end

theorem keeps (queue : EntryQueue Q) : Keeps (hooks queue) (Current queue) where
  init := by
    constructor <;> simp [hooks, queue.items_empty]
  touch := by
    intro now heap ss t m _ h hm
    have hlook : ((ss.insert t m).lookup t).getD {} = m := by
      rw [lookup_insert]
      rfl
    show Current queue (now + 1) (push_session queue heap t (((ss.insert t m).lookup t).getD {})) _
    rw [hlook]
    exact h.touch hm.last_access
  bill := by
    intro now heap ss t m cost h hm
    apply h.congr
    intro u m' hu
    rcases eq_or_ne u t with rfl | hne
    · rw [lookup_insert, Option.some.injEq] at hu
      exact ⟨m, hm, by rw [← hu], by rw [← hu]⟩
    · rw [lookup_insert_ne hne] at hu
      exact ⟨m', hu, rfl, rfl⟩
  select := by
    intro now heap ss heap' ss' v h hsel
    obtain ⟨q, v', hsel', hq, -⟩ := select_spec h
    cases hsel'.symm.trans hsel
    exact ⟨hq, .refl ss⟩
  removed := by
    intro now heap ss t heap' h _ hrem
    cases hrem
    exact h.erase t

/-- `select_victim` finds a session exactly if one is live, and no live session has its next turn
later than the one found. -/
def PicksLast (queue : EntryQueue Q) (c : State Q) : Prop :=
  ∃ heap v, (hooks queue).select_victim c.now c.policy c.sessions = some (heap, c.sessions, v) ∧
    (v.isSome = true ↔ (live c).Nonempty) ∧
    ∀ t, v = some t → ∃ m, c.sessions.lookup t = some m ∧
      ∀ u m', c.sessions.lookup u = some m' → m'.next_access ≤ m.next_access

theorem victim_returns_last {config : SimulatorConfig} {s : Simulator (State Q)} {c : State Q}
    (h : Underway (hooks queue) config s c) : PicksLast queue c := by
  obtain ⟨heap, v, hsel, -, hnone, hmax⟩ := select_spec ((keeps queue).underway h).inv
  refine ⟨heap, v, hsel, ?_, hmax⟩
  rw [Finset.nonempty_iff_ne_empty, live, ne_eq, ← hnone, ← Option.ne_none_iff_isSome]

/-- Session 1 is dropped and comes back with an earlier next turn than before; the heap still holds
its old entries. -/
theorem victim_returns_last_after_return :
    ∃ s, runs (call (hooks listEntries) { cache_size_blocks := 4 }) { cache := session_cache_init (hooks listEntries) 4 }
        [.serve { blocks := [1], session := 1, session_next_access := 9 },
          .serve { blocks := [1], session := 1, session_next_access := 20 }, .evict_n 1,
          .serve { blocks := [2], session := 2, session_next_access := 7 },
          .serve { blocks := [1], session := 1, session_next_access := 5 }] = some s ∧
      PicksLast listEntries s.cache := by
  obtain ⟨s, hs⟩ : ∃ s, runs (call (hooks listEntries) { cache_size_blocks := 4 })
      { cache := session_cache_init (hooks listEntries) 4 }
      [.serve { blocks := [1], session := 1, session_next_access := 9 },
        .serve { blocks := [1], session := 1, session_next_access := 20 }, .evict_n 1,
        .serve { blocks := [2], session := 2, session_next_access := 7 },
        .serve { blocks := [1], session := 1, session_next_access := 5 }] = some s := ⟨_, rfl⟩
  have hway : Underway (hooks listEntries) { cache_size_blocks := 4 } s s.cache :=
    ⟨Reach.of_runs (fun _ _ _ => trivial) hs, .refl⟩
  exact ⟨s, hs, victim_returns_last hway⟩

end CacheSim.Session.SessionBelady
