import CacheSim.Session.Serve
import CacheSim.Session.Sound

/-!
# The session policies under `prefixsim`
-/

namespace CacheSim.Session

open Lib Prefixsim List

/-- The entries of `kAlgos` that are session-level. -/
inductive Algorithm where
  | session_lru | session_belady | session_arc | session_s3fifo | session_random_compute
deriving DecidableEq, Repr

/-- What the policies take from the C++ library: rounding to `double`, the numbers of the seeded
generator, and the priority queue. -/
structure Env (Q : Type) where
  rnd : ℚ → ℚ
  rng : Nat → Nat
  queue : EntryQueue Q

namespace Algorithm

def Fields (Q : Type) : Algorithm → Type
  | session_lru => SessionLRU
  | session_belady => Q
  | session_arc => SessionARC
  | session_s3fifo => SessionS3FIFO
  | session_random_compute => SessionRandomCompute

variable {Q : Type} (env : Env Q)

def hooks : (alg : Algorithm) → Hooks (alg.Fields Q)
  | session_lru => SessionLRU.hooks
  | session_belady => SessionBelady.hooks env.queue
  | session_arc => SessionARC.hooks env.rnd
  | session_s3fifo => SessionS3FIFO.hooks env.rnd
  | session_random_compute => SessionRandomCompute.hooks env.rng env.rnd

def Inv : (alg : Algorithm) → alg.Fields Q → Finset SessionId → Prop
  | session_lru => SessionLRU.Inv
  | session_belady => fun _ _ => True
  | session_arc => SessionARC.Inv
  | session_s3fifo => SessionS3FIFO.Inv
  | session_random_compute => SessionRandomCompute.Inv

theorem sound (alg : Algorithm) : Sound (alg.hooks env) alg.Inv := by
  cases alg with
  | session_lru => exact SessionLRU.sound
  | session_belady => exact SessionBelady.sound env.queue
  | session_arc => exact SessionARC.sound env.rnd
  | session_s3fifo => exact SessionS3FIFO.sound env.rnd
  | session_random_compute => exact SessionRandomCompute.sound env.rng env.rnd

def start (config : SimulatorConfig) (alg : Algorithm) : Simulator (State (alg.Fields Q)) where
  cache := session_cache_init (alg.hooks env) config.cache_size_blocks

end Algorithm

/-! ## Claims -/

variable {π : Type}

def claimCount (s : State π) (id : ObjId) : Int := ((s.blocks id).map (·.claims)).getD 0

/-- Each claim is an occurrence on a live session's path, and the claimed blocks are those of the
hash table; so each of these is on the path of a session that can be evicted. -/
structure ClaimsExact (s : State π) : Prop where
  count : ∀ id, claimCount s id = occurrences s.sessions id
  resident : ∀ id, (s.hashtable.lookup id).isSome = true ↔ 1 ≤ claimCount s id
  evictable : ∀ id, (s.hashtable.lookup id).isSome = true → ∃ t m, s.sessions.lookup t = some m ∧ id ∈ m.path

variable {Inv : π → Finset SessionId → Prop} {s : State π}

theorem Exact.claims_exact {K : Int} (h : Exact K Inv s) : ClaimsExact s := by
  have hcount : ∀ id, claimCount s id = occurrences s.sessions id := by
    intro id
    unfold claimCount
    rcases hb : s.blocks id with _ | b
    · simp [h.counts.absent hb]
    · simp [(h.counts.entry hb).1]
  have hfind : ∀ id, (s.hashtable.lookup id).isSome = true ↔ 0 < occurrences s.sessions id := by
    intro id
    rw [AList.lookup_isSome, ← mem_keySet]
    exact h.held id
  refine ⟨hcount, fun id => ?_, fun id hid => ?_⟩
  · rw [hfind, hcount]
    omega
  · obtain ⟨t, ht, hin⟩ := mem_named.1 (refs_pos.1 ((hfind id).1 hid))
    obtain ⟨m, hm⟩ := mem_keySet_lookup.1 ht
    exact ⟨t, m, hm, pathOf_lookup hm ▸ hin⟩

def listEntries : EntryQueue (List Entry) where
  items q := q
  empty := []
  push q e := e :: q
  top q := q.maxOn? Entry.next_access
  pop q := (q.maxOn? Entry.next_access).elim [] q.erase
  items_empty := rfl
  items_push _ _ := List.Perm.refl _
  top_none q h := by
    by_contra hq
    simpa [h] using (List.isSome_maxOn?_iff (f := Entry.next_access)).2 hq
  top_some q a h := ⟨List.maxOn?_mem h, fun m hm => by
    simpa [h] using List.le_apply_get_maxOn?_of_mem (f := Entry.next_access) hm⟩
  items_pop _ _ h := by
    rw [h]
    exact perm_cons_erase (List.maxOn?_mem h)

def plainEnv : Env (List Entry) where
  rnd x := x
  rng n := n
  queue := listEntries

variable {H : Hooks π}

theorem serve_ok_exact (hH : Sound H Inv)
    (config : SimulatorConfig) {s s' : Simulator (State π)} {r : BlockRequest}
    (hs : Exact config.cache_size_blocks Inv s.cache) (h : serve_ok (SessionCache H) config s r = some s') :
    Exact config.cache_size_blocks Inv s'.cache := by
  unfold serve_ok at h
  rcases hserve : serve (SessionCache H) config s r with _ | x
  · simp [hserve] at h
  · cases hskip : skips config r with
    | true =>
      obtain ⟨s1, h1, hcache⟩ := serve_skipped (SessionCache H) hskip
      rw [h1, Option.some.injEq] at h
      rw [← h, hcache]
      exact hs
    | false =>
      obtain ⟨s1, h1, hexact⟩ := serve_spec hH config hs hskip (costsFit_of_serve hskip hserve)
      rw [h1, Option.some.injEq] at h
      rw [← h]
      exact hexact

/-- For each session policy, after any served requests, claims count occurrences, and a block is in
the hash table exactly while it is claimed. Every request whose costs fit is served. -/
theorem claims_exact_after_serve {Q : Type} (env : Env Q) (alg : Algorithm) (config : SimulatorConfig)
    (requests : List BlockRequest) :
    (∀ s, runs (serve_ok (SessionCache (alg.hooks env)) config) (alg.start env config) requests = some s →
      ClaimsExact s.cache) ∧
    ((∀ r ∈ requests, skips config r = false → CostsFit config r) →
      ∃ s, runs (serve_ok (SessionCache (alg.hooks env)) config) (alg.start env config) requests = some s) := by
  have hH := alg.sound env
  constructor
  · intro s hrun
    exact (runs_inv (fun s => Exact config.cache_size_blocks alg.Inv s.cache) (fun _ => True)
      (fun _ _ _ hs _ h => serve_ok_exact hH config hs h) requests _ s (fun _ _ => trivial)
      (init_exact hH _) hrun).claims_exact
  · intro hcosts
    obtain ⟨s, hrun, -⟩ := serve_run hH config requests hcosts
    exact ⟨s, hrun⟩

theorem claims_exact_after_three_turns :
    ∃ s, runs (serve_ok (SessionCache (Algorithm.session_lru.hooks plainEnv)) { cache_size_blocks := 4 })
        (Algorithm.session_lru.start plainEnv { cache_size_blocks := 4 })
        [{ blocks := [7, 8, 8], session := 1 }, { blocks := [7, 9], session := 2 },
          { blocks := [7], session := 1 }] = some s ∧ ClaimsExact s.cache := by
  obtain ⟨hexact, hserved⟩ := claims_exact_after_serve plainEnv .session_lru { cache_size_blocks := 4 }
    [{ blocks := [7, 8, 8], session := 1 }, { blocks := [7, 9], session := 2 },
      { blocks := [7], session := 1 }]
  obtain ⟨s, hrun⟩ := hserved (by
    intro r _ _ i _
    show (1 : Int) ≤ INT32_MAX
    decide)
  exact ⟨s, hrun, hexact s hrun⟩

/-! ## The cap of `evict_n` -/

/-- `evict_n` removes at most `n` objects and returns how many it removed. -/
def KeepsCap (H : Hooks π) (s : State π) (n : Int) : Prop :=
  ∃ s' freed, evict_n H s n = some (s', freed) ∧ freed = (resident s \ resident s').card ∧
    ((resident s \ resident s').card : Int) ≤ n

/-- Sessions are dropped in the policy's order until `n` blocks are private to those dropped; the
last one dropped does not take their number past `n`. -/
def LastFits (H : Hooks π) (s : State π) (n : Int) : Prop :=
  let order := eviction_order H s.now (live s).card s.policy s.sessions
  ∀ k, ((private_blocks s.sessions (order.take k)).card : Int) < n →
    ((private_blocks s.sessions (order.take (k + 1))).card : Int) ≤ n

theorem private_blocks_mono (ss : Sessions) {vs ws : List SessionId} (h : vs ⊆ ws) :
    (private_blocks ss vs).card ≤ (private_blocks ss ws).card := by
  apply Finset.card_le_card
  apply Finset.sdiff_subset_sdiff subset_rfl
  apply named_mono
  apply Finset.sdiff_subset_sdiff subset_rfl
  intro t ht
  exact mem_toFinset.2 (h (mem_toFinset.1 ht))

theorem keepsCap_iff {K : Int} (hH : Sound H Inv)
    (hs : Exact K Inv s) {n : Int} (hn : 0 ≤ n) : KeepsCap H s n ↔ LastFits H s n := by
  obtain ⟨e, vs, hev, he, hend⟩ := evict_n_spec hH hs n
  have hfreed := he.freed_eq hs
  have hremoved := he.freed
  unfold KeepsCap LastFits
  simp only [hev, Option.some.injEq, Prod.mk.injEq]
  constructor
  · rintro ⟨s', freed, ⟨rfl, rfl⟩, -, hcap⟩ k hk
    rw [he.order] at hk ⊢
    rcases Nat.lt_or_ge k vs.length with hlt | hge
    · -- up to the last session that goes, the number is at most what went
      rw [take_append_of_le_length (by omega)]
      have := private_blocks_mono s.sessions (take_subset (k + 1) vs)
      omega
    · -- beyond it: too few have gone, so no session is left
      have hge' : vs ⊆ (vs ++ eviction_order H s.now (live e.s).card e.s.policy e.s.sessions).take k := by
        intro t ht
        rw [take_append]
        exact mem_append_left _ (by rwa [take_of_length_le hge])
      have hless := private_blocks_mono s.sessions hge'
      have hnone := hend (by omega)
      rw [hnone, Finset.card_empty, show eviction_order H s.now 0 e.s.policy e.s.sessions = [] from rfl,
        append_nil, take_of_length_le (by omega)]
      omega
  · intro hfits
    refine ⟨e.s, e.freed, ⟨rfl, rfl⟩, hremoved, ?_⟩
    rw [← hremoved, hfreed]
    rcases Nat.eq_zero_or_pos vs.length with hzero | hpos
    · rw [length_eq_zero_iff.1 hzero]
      simpa [private_blocks] using hn
    · have hprev := he.early (vs.length - 1) (by omega)
      have hstep := hfits (vs.length - 1)
      rw [he.order, take_append_of_le_length (by omega), Nat.sub_add_cancel hpos, take_left] at hstep
      exact hstep hprev

/-- The calls that reach the cache in a run of the simulator: whole requests, and the calls that
`serve` makes on the way to `evict_n`. -/
inductive Call where
  | serve (request : BlockRequest)
  | set_request_ctx (ctx : RequestCtx)
  | evict_n (n : Int)

def call (H : Hooks π) (config : SimulatorConfig) (s : Simulator (State π)) : Call → Option (Simulator (State π))
  | .serve request => serve_ok (SessionCache H) config s request
  | .set_request_ctx ctx => some { s with cache := set_ctx s.cache ctx }
  | .evict_n n => do
    let (cache, _) ← evict_n H s.cache n
    return { s with cache := cache }

theorem call_exact (hH : Sound H Inv)
    (config : SimulatorConfig) {s s' : Simulator (State π)} {c : Call}
    (hs : Exact config.cache_size_blocks Inv s.cache) (h : call H config s c = some s') :
    Exact config.cache_size_blocks Inv s'.cache := by
  cases c with
  | serve r => exact serve_ok_exact hH config hs h
  | set_request_ctx ctx =>
    cases h
    exact (set_ctx_spec hs ctx).1
  | evict_n n =>
    obtain ⟨e, vs, hev, he, -⟩ := evict_n_spec hH hs n
    simp only [call, hev, Option.bind_eq_bind, Option.bind_some, Option.pure_def, Option.some.injEq] at h
    rw [← h]
    exact he.exact

/-- In every state that the simulator reaches, `evict_n` keeps its cap exactly if the last session
it drops fits. -/
theorem evict_n_cap_iff {Q : Type} (env : Env Q) (alg : Algorithm) (config : SimulatorConfig)
    (s : Simulator (State (alg.Fields Q)))
    (hreach : Reach (call (alg.hooks env) config) (fun _ _ => True) (alg.start env config) s)
    (n : Int) (hn : 0 ≤ n) : KeepsCap (alg.hooks env) s.cache n ↔ LastFits (alg.hooks env) s.cache n := by
  have hH := alg.sound env
  have hexact : Exact config.cache_size_blocks alg.Inv s.cache :=
    hreach.inv (fun s => Exact config.cache_size_blocks alg.Inv s.cache)
      (fun _ _ _ hs _ h => call_exact hH config hs h) (init_exact hH _)
  exact keepsCap_iff hH hexact hn

/-- Block 2 is held by both sessions: the first one dropped has one block of its own, and the second then has two. -/
theorem evict_n_cap_after_shared_turns :
    ∃ s, runs (call (Algorithm.session_lru.hooks plainEnv) { cache_size_blocks := 3 })
        (Algorithm.session_lru.start plainEnv { cache_size_blocks := 3 })
        [.serve { blocks := [1, 2], session := 1 }, .serve { blocks := [2, 3], session := 2 }] = some s ∧
      KeepsCap (Algorithm.session_lru.hooks plainEnv) s.cache 1 ∧ ¬ KeepsCap (Algorithm.session_lru.hooks plainEnv) s.cache 2 := by
  refine exists_some (P := fun s =>
    (private_blocks s.cache.sessions ((eviction_order (Algorithm.session_lru.hooks plainEnv) s.cache.now (live s.cache).card
      s.cache.policy s.cache.sessions).take (0 + 1))).card = 1 ∧
    (private_blocks s.cache.sessions ((eviction_order (Algorithm.session_lru.hooks plainEnv) s.cache.now (live s.cache).card
      s.cache.policy s.cache.sessions).take (0 + 1 + 1))).card = 3) (by decide +kernel) fun s hs ⟨hone, htwo⟩ => ?_
  have hiff := evict_n_cap_iff plainEnv .session_lru { cache_size_blocks := 3 } s (.of_runs (fun _ _ _ => trivial) hs)
  refine ⟨(hiff 1 (by decide)).2 fun k hk => ?_, fun hkeeps => ?_⟩
  · cases k with
    | zero => omega
    | succ k =>
      have hmono := private_blocks_mono s.cache.sessions (List.take_subset_take_left (eviction_order
        (Algorithm.session_lru.hooks plainEnv) s.cache.now (live s.cache).card s.cache.policy s.cache.sessions)
          (by omega : 0 + 1 ≤ k + 1))
      omega
  · have hfits := (hiff 2 (by decide)).1 hkeeps (0 + 1)
    omega

/-- One live session holds two blocks that nobody else claims: asked for one object, `evict_n`
removes both. -/
theorem evict_n_passes_cap :
    ∃ s, runs (serve_ok (SessionCache (Algorithm.session_lru.hooks plainEnv)) { cache_size_blocks := 2 })
        (Algorithm.session_lru.start plainEnv { cache_size_blocks := 2 })
        [{ blocks := [1, 2], session := 1 }] = some s ∧
      ¬ KeepsCap (Algorithm.session_lru.hooks plainEnv) s.cache 1 := by
  refine ⟨_, rfl, ?_⟩
  rintro ⟨s', freed, hev, -, hcap⟩
  cases hev
  exact absurd hcap (by decide)

end CacheSim.Session
