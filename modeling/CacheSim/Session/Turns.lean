import CacheSim.Session.Algorithms
import CacheSim.Prefixsim.Calls

/-!
# What the hooks see of a run

A policy learns of turns, of new costs and of removals, and nothing else.
-/

namespace CacheSim.Session

open Lib Prefixsim Option

variable {π : Type} {H : Hooks π}

inductive Move
  | op (o : Op)
  | round

def move (H : Hooks π) (s : State π) : Move → Option (State π)
  | .op o => op (SessionCache H) s o
  | .round => (evict_victim H { s := s }).map (·.s)

structure Clocked (now : Int) (ss : Sessions) : Prop where
  nonneg : 0 ≤ now
  turns : ∀ t m, ss.lookup t = some m → 0 < m.last_access ∧ m.last_access ≤ now

def next_freq (freq : Int) : Int := if freq < 3 then freq + 1 else freq

structure Turned (now : Int) (ss : Sessions) (t : SessionId) (m : SessionMeta) : Prop where
  last_access : m.last_access = now + 1
  freq : m.freq = next_freq ((ss.lookup t).getD {}).freq

/-- The contract for an invariant of a subclass that lasts while no turn is taken. -/
structure Calm (H : Hooks π) (I : Int → π → Sessions → Prop) : Prop where
  bill : ∀ now p ss t m cost, I now p ss → ss.lookup t = some m →
    I now p (ss.insert t { m with cost_sum := cost })
  select : ∀ now p ss p' ss' v, I now p ss → H.select_victim now p ss = some (p', ss', v) →
    I now p' ss' ∧ SameTurns ss ss'
  removed : ∀ now p ss t p', I now p ss → t ∈ keySet ss → H.on_removed p t = some p' → I now p' (ss.erase t)

structure Keeps (H : Hooks π) (I : Int → π → Sessions → Prop) : Prop extends Calm H I where
  init : I 0 H.init ∅
  touch : ∀ now p ss t m, Clocked now ss → I now p ss → Turned now ss t m →
    I (now + 1) (H.on_touch p (ss.insert t m) t (decide (t ∉ keySet ss))) (ss.insert t m)

structure Holds (I : Int → π → Sessions → Prop) (s : State π) : Prop where
  clock : Clocked s.now s.sessions
  inv : I s.now s.policy s.sessions

variable {I : Int → π → Sessions → Prop} {s s' : State π} {now : Int} {ss : Sessions}

theorem Holds.of_same (h : Holds I s) (hs : SameSessions s s') : Holds I s' := by
  obtain ⟨hc, hi⟩ := h
  rw [← hs.now, ← hs.sessions] at hc hi
  rw [← hs.policy] at hi
  exact ⟨hc, hi⟩

theorem SameSessions.refl (s : State π) : SameSessions s s := ⟨rfl, rfl, rfl, rfl, rfl, rfl⟩

theorem free_block_same (s : State π) (id : ObjId) : SameSessions s (free_block s id) := by
  unfold free_block
  rcases s.hashtable.lookup id with _ | size
  · exact .refl s
  · exact ⟨rfl, rfl, rfl, rfl, rfl, rfl⟩

theorem take_back_same (s : State π) (id : ObjId) : SameSessions s (take_back s id) := by
  unfold take_back unclaim
  rcases s.blocks id with _ | b
  · exact .refl s
  · have h := free_block_same s id
    dsimp only
    split_ifs
    · exact { h with }
    · exact ⟨rfl, rfl, rfl, rfl, rfl, rfl⟩

theorem take_back_all_same (xs : List ObjId) (s : State π) : SameSessions s (xs.foldl take_back s) := by
  induction xs generalizing s with
  | nil => exact .refl s
  | cons id xs ih => exact (take_back_same s id).trans (ih _)

theorem claim_all_same (ids : List ObjId) (w : State π × SessionMeta) :
    SameSessions w.1 (ids.foldl claim w).1 ∧ (ids.foldl claim w).2.freq = w.2.freq := by
  induction ids generalizing w with
  | nil => exact ⟨.refl _, rfl⟩
  | cons id ids ih =>
    obtain ⟨hs, hf⟩ := ih (claim w id)
    have hstep : SameSessions w.1 (claim w id).1 := ⟨rfl, rfl, rfl, rfl, rfl, rfl⟩
    exact ⟨hstep.trans hs, hf⟩

theorem release_all_freq (xs : List ObjId) (w : State π × SessionMeta) : (xs.foldl release w).2.freq = w.2.freq := by
  induction xs generalizing w with
  | nil => rfl
  | cons id xs ih =>
    rw [List.foldl_cons, ih]
    unfold release
    rcases w.1.blocks id with _ | b <;> rfl

/-! ## Turns -/

variable {t : SessionId}

theorem Clocked.insert {m : SessionMeta} (h : Clocked now ss)
    (hm : m.last_access = now + 1) : Clocked (now + 1) (ss.insert t m) := by
  have hnow := h.nonneg
  refine ⟨by omega, fun u m' hu => ?_⟩
  rcases eq_or_ne u t with rfl | hne
  · rw [AList.lookup_insert, some.injEq] at hu
    subst hu
    omega
  · rw [AList.lookup_insert_ne hne] at hu
    have := h.turns u m' hu
    omega

theorem Clocked.same_turns {ss' : Sessions} (h : Clocked now ss) (hs : SameTurns ss ss') : Clocked now ss' := by
  refine ⟨h.nonneg, fun t m hm => ?_⟩
  obtain ⟨m0, hm0, hlast⟩ := hs.last_access hm
  rw [← hlast]
  exact h.turns t m0 hm0

theorem Clocked.erase (h : Clocked now ss) (t : SessionId) : Clocked now (ss.erase t) := by
  refine ⟨h.nonneg, fun u m hu => ?_⟩
  rcases eq_or_ne u t with rfl | hne
  · simp at hu
  · rw [AList.lookup_erase_ne hne] at hu
    exact h.turns u m hu

theorem SameTurns.bill {m m' : SessionMeta} (hm : ss.lookup t = some m)
    (hpath : m'.path = m.path) (hlast : m'.last_access = m.last_access) : SameTurns ss (ss.insert t m') := by
  intro u
  rcases eq_or_ne u t with rfl | hne
  · rw [AList.lookup_insert, hm, map_some, map_some, hpath, hlast]
  · rw [AList.lookup_insert_ne hne]

theorem Clocked.is_new (h : Clocked now ss) (t : SessionId) :
    (((ss.lookup t).getD {}).path.isEmpty && ((ss.lookup t).getD {}).last_access == 0) = decide (t ∉ keySet ss) := by
  rcases hm : ss.lookup t with _ | m
  · have hnot : t ∉ keySet ss := by
      rw [mem_keySet_lookup]
      simp [hm]
    simp [hnot]
  · have hin : t ∈ keySet ss := mem_keySet_lookup.2 ⟨m, hm⟩
    have hne : m.last_access ≠ 0 := by
      have := h.turns t m hm
      omega
    simp [hin, hne]

theorem record_turned (hs : Clocked s.now s.sessions) (ids : List ObjId) :
    ∃ m, Turned s.now s.sessions s.cur_session m ∧ m.next_access = s.cur_next_access ∧ (record H s ids).now = s.now + 1 ∧
      (record H s ids).sessions = s.sessions.insert s.cur_session m ∧
      (record H s ids).policy = H.on_touch s.policy (s.sessions.insert s.cur_session m) s.cur_session
        (decide (s.cur_session ∉ live s)) := by
  set m := (s.sessions.lookup s.cur_session).getD {} with hm
  set w := ids.foldl claim ({ s with now := s.now + 1 }, m) with hw
  set w' := m.path.foldl release w with hw'
  obtain ⟨hsame, hfreq⟩ := claim_all_same ids (({ s with now := s.now + 1 } : State π), m)
  have hsame' : SameSessions w.1 w'.1 := by
    rw [hw', foldl_release]
    exact take_back_all_same _ _
  have hfreq' : w'.2.freq = m.freq := (release_all_freq _ _).trans hfreq
  let m' : SessionMeta := { w'.2 with
    path := ids
    last_access := s.now + 1
    next_access := s.cur_next_access
    freq := if w'.2.freq < 3 then w'.2.freq + 1 else w'.2.freq }
  have hlast : m'.last_access = s.now + 1 := rfl
  have hbumped : m'.freq = next_freq m.freq := by
    show (if w'.2.freq < 3 then w'.2.freq + 1 else w'.2.freq) = _
    rw [hfreq']
    rfl
  have hpolicy : (record H s ids).policy = H.on_touch s.policy (s.sessions.insert s.cur_session m') s.cur_session
      (decide (s.cur_session ∉ live s)) := by
    unfold live
    rw [← hs.is_new s.cur_session]
    rfl
  exact ⟨m', ⟨hlast, hbumped⟩, rfl, (hsame.trans hsame').now, rfl, hpolicy⟩

theorem record_holds (hH : Keeps H I) (hs : Holds I s) (ids : List ObjId) : Holds I (record H s ids) := by
  obtain ⟨m, hturned, -, hnow, hsessions, hpolicy⟩ := record_turned hs.clock ids
  refine ⟨?_, ?_⟩
  · rw [hnow, hsessions]
    exact hs.clock.insert hturned.last_access
  · rw [hnow, hsessions, hpolicy]
    exact hH.touch _ _ _ _ m hs.clock hs.inv hturned

/-! ## Inserts and evictions -/

section

variable (hH : Calm H I)
include hH

theorem note_insert_holds (hs : Holds I s) (id : ObjId) (cost : Int) : Holds I (note_insert s id cost) := by
  unfold note_insert
  rcases s.blocks id with _ | b
  · exact hs
  · dsimp only
    rcases hm : s.sessions.lookup s.cur_session with _ | m
    · exact ⟨hs.clock, hs.inv⟩
    · exact ⟨hs.clock.same_turns (.bill hm rfl rfl), hH.bill _ _ _ _ m _ hs.inv hm⟩

theorem drop_session_holds {v : SessionId} {freed : Int} (hs : Holds I s)
    (h : drop_session H s v = some (s', freed)) : Holds I s' := by
  unfold drop_session at h
  rcases hm : s.sessions.lookup v with _ | m
  · rw [hm] at h
    cases h
    exact hs
  · simp only [hm, bind, bind_eq_some_iff] at h
    obtain ⟨p, hp, rfl, -⟩ := h
    have hsame : SameSessions s (m.path.foldl drop_block (s, 0)).1 := by
      rw [(foldl_drop_block m.path (s, 0)).1]
      exact take_back_all_same _ _
    obtain ⟨hclock, hinv⟩ := hs.of_same hsame
    have hv : v ∈ keySet (m.path.foldl drop_block (s, 0)).1.sessions := by
      rw [hsame.sessions, mem_keySet_lookup]
      exact ⟨m, hm⟩
    exact ⟨hclock.erase v, hH.removed _ _ _ v p hinv hv hp⟩

theorem evict_victim_holds {e e' : Evicting π} (he : Holds I e.s) (h : evict_victim H e = some e') : Holds I e'.s := by
  simp only [evict_victim, bind, bind_eq_some_iff, Prod.exists] at h
  obtain ⟨p, ss, v, hsel, h⟩ := h
  obtain ⟨hinv, hsame⟩ := hH.select _ _ _ _ _ _ he.inv hsel
  have hmid : Holds I { e.s with policy := p, sessions := ss } := ⟨he.clock.same_turns hsame, hinv⟩
  rcases v with _ | v
  · cases h
    exact hmid
  · simp only [bind_eq_some_iff, Prod.exists, pure, some.injEq] at h
    obtain ⟨s, freed, hdrop, rfl⟩ := h
    exact drop_session_holds hH hmid hdrop

theorem evict_n_holds {n freed : Int} (hs : Holds I s) (h : evict_n H s n = some (s', freed)) : Holds I s' := by
  simp only [evict_n, bind, bind_eq_some_iff] at h
  obtain ⟨e, hloop, rfl, -⟩ := h
  exact (whileLoop_inv (fun e => Holds I e.s) (fun _ _ he _ hb => evict_victim_holds hH he hb) _ _ _ hs hloop).1

theorem evict_holds (hs : Holds I s) (h : SessionCache_evict H s = some s') : Holds I s' := by
  simp only [SessionCache_evict, bind, bind_eq_some_iff, Prod.exists, pure, some.injEq] at h
  obtain ⟨t, freed, hev, -, -, rfl⟩ := h
  exact evict_n_holds hH hs hev

theorem get_holds {req : Request} (hs : Holds I s) (h : SessionCache_get H s req = some s') : Holds I s' := by
  simp only [SessionCache_get, map_eq_some_iff, Prod.exists] at h
  obtain ⟨t, hit, hget, rfl⟩ := h
  refine CacheOps.cache_get_base_inv (Holds I) (Holds I) (Holds I) ?_ ?_ ?_ ?_ hs hget
  · intro c c' hit hc hf
    cases hf
    have hcount : Holds I ((ops H).count_req c) := ⟨hc.clock, hc.inv⟩
    simpa using hcount
  · intro c c' admitted hc hf
    cases hf
    simpa using hc
  · exact fun c c' hc _ hev => evict_holds hH hc hev
  · intro c c' hc _ hins
    cases hins
    apply note_insert_holds hH
    exact ⟨hc.clock, hc.inv⟩

end

theorem reporting_holds {f : State π → Option (State π)} (hf : ∀ s s', Holds I s → f s = some s' → Holds I s')
    {vs : List ObjId} (hs : Holds I s) (h : reporting f s = some (s', vs)) : Holds I s' := by
  simp only [reporting, bind, bind_eq_some_iff] at h
  obtain ⟨t, ht, rfl, -⟩ := h
  have hclear : Holds I { s with victims := [] } := ⟨hs.clock, hs.inv⟩
  exact (hf _ t hclear ht).of_same ⟨rfl, rfl, rfl, rfl, rfl, rfl⟩

theorem Calm.move_holds (hH : Calm H I) {a : Move} (hs : Holds I s)
    (hrecord : ∀ ids, a = .op (.record_request ids) → Holds I (record H s ids)) (h : move H s a = some s') :
    Holds I s' := by
  cases a with
  | round =>
    simp only [move, map_eq_some_iff] at h
    obtain ⟨e, hev, rfl⟩ := h
    exact evict_victim_holds hH hs hev
  | op o =>
    cases o with
    | set_request_ctx ctx =>
      cases h
      show Holds I (set_ctx s ctx)
      unfold set_ctx
      split_ifs
      · exact ⟨hs.clock, hs.inv⟩
      · exact ⟨hs.clock, hs.inv⟩
    | record_request ids =>
      cases h
      exact (hrecord ids rfl).of_same ⟨rfl, rfl, rfl, rfl, rfl, rfl⟩
    | get req =>
      simp only [move, op, map_eq_some_iff, Prod.exists] at h
      obtain ⟨t, vs, hget, rfl⟩ := h
      exact reporting_holds (fun _ _ hc hg => get_holds hH hc hg) hs hget
    | evict pin req =>
      simp only [move, op, map_eq_some_iff, Prod.exists] at h
      obtain ⟨t, vs, hev, rfl⟩ := h
      exact reporting_holds (fun _ _ hc hg => evict_holds hH hc hg) hs hev
    | evict_n pin req n =>
      simp only [move, op, SessionCache, bind_some, map_eq_some_iff, Prod.exists] at h
      obtain ⟨t, vs, hev, rfl⟩ := h
      refine reporting_holds (fun c c' hc hg => ?_) hs hev
      obtain ⟨⟨c1, freed⟩, hn, rfl⟩ := map_eq_some_iff.1 hg
      exact evict_n_holds hH hc hn

theorem move_holds (hH : Keeps H I) {a : Move} (hs : Holds I s) (h : move H s a = some s') : Holds I s' :=
  hH.toCalm.move_holds hs (fun ids _ => record_holds hH hs ids) h

theorem init_holds (hH : Keeps H I) (cache_size : Int) : Holds I (session_cache_init H cache_size) := by
  refine ⟨⟨le_refl _, fun t m h => ?_⟩, hH.init⟩
  simp [session_cache_init] at h

theorem Keeps.holds (hH : Keeps H I) {ok : State π → Move → Prop} {c : State π} (hs : Holds I s)
    (hr : Reach (move H) ok s c) : Holds I c :=
  hr.inv (Holds I) (fun _ _ _ hs _ h => move_holds hH hs h) hs

variable {config : SimulatorConfig}

theorem call_holds (hH : Keeps H I) {s s' : Simulator (State π)} {c : Call}
    (hs : Holds I s.cache) (h : call H config s c = some s') : Holds I s'.cache := by
  cases c with
  | serve request =>
    simp only [call, serve_ok] at h
    split at h
    · rename_i hserve
      cases h
      exact serve_keeps (J := Holds I) (fun _ o _ hs h => move_holds (a := .op o) hH hs h) hs hserve
    · cases h
  | set_request_ctx ctx =>
    cases h
    exact move_holds (a := .op (.set_request_ctx ctx)) hH hs rfl
  | evict_n n =>
    simp only [call, bind, bind_eq_some_iff, Prod.exists, pure, some.injEq] at h
    obtain ⟨t, freed, hev, rfl⟩ := h
    exact evict_n_holds hH.toCalm hs hev

/-- A state between two calls of the hooks in a run of the simulator: `s` is the one in which the
request or the eviction that is under way began. -/
structure Underway (H : Hooks π) (config : SimulatorConfig) (s : Simulator (State π)) (c : State π) : Prop where
  calls : Reach (call H config) (fun _ _ => True) { cache := session_cache_init H config.cache_size_blocks } s
  moves : Reach (move H) (fun _ _ => True) s.cache c

theorem Keeps.underway (hH : Keeps H I) {s : Simulator (State π)} {c : State π} (h : Underway H config s c) : Holds I c := by
  have hs : Holds I s.cache := h.calls.inv (fun s : Simulator (State π) => Holds I s.cache)
    (fun _ _ _ hs _ hc => call_holds hH hs hc) (init_holds hH _)
  exact hH.holds hs h.moves

end CacheSim.Session
