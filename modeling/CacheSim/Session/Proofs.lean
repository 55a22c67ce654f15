import CacheSim.Session.Claims
import CacheSim.Prefixsim.Phases

/-!
# The books of a session cache

Between requests a block is resident exactly while a live session claims it. Evictions keep that;
`record` runs ahead of it, since it claims blocks that the accesses insert only later.
-/

namespace CacheSim.Session

open Lib Prefixsim List Option Finset

variable {π : Type} {H : Hooks π}

def SameTurns (ss ss' : Sessions) : Prop :=
  ∀ t, (ss'.lookup t).map (fun m => (m.path, m.last_access)) =
    (ss.lookup t).map (fun m => (m.path, m.last_access))

/-- The contract of a subclass: it keeps track of the live sessions, and always finds one of them
to evict. -/
structure Sound (H : Hooks π) (Inv : π → Finset SessionId → Prop) : Prop where
  init : Inv H.init ∅
  select : ∀ now p ss, Inv p (keySet ss) → ∃ p' ss' v, H.select_victim now p ss = some (p', ss', v) ∧
    Inv p' (keySet ss) ∧ SameTurns ss ss' ∧
    (∀ t, v = some t → t ∈ keySet ss) ∧ (v = none → keySet ss = ∅)
  touch : ∀ p ss t L, Inv p L → keySet ss = insert t L →
    Inv (H.on_touch p ss t (decide (t ∉ L))) (insert t L)
  removed : ∀ p t L, Inv p L → t ∈ L → ∃ p', H.on_removed p t = some p' ∧ Inv p' (L.erase t)

/-! ## Paths -/

variable {ss ss' : Sessions} {t : SessionId} {m : SessionMeta}

theorem pathOf_lookup (h : ss.lookup t = some m) : pathOf ss t = m.path := by
  unfold pathOf
  rw [h]
  rfl

variable {v : SessionId}

theorem pathOf_erase (h : t ≠ v) : pathOf (ss.erase v) t = pathOf ss t := by
  unfold pathOf
  rw [AList.lookup_erase_ne h]

theorem occurrences_erase (hv : v ∈ keySet ss) (id : ObjId) :
    occurrences (ss.erase v) id = occurrences ss id - (pathOf ss v).count id := by
  have hsum := refs_erase (pathOf ss) hv id
  unfold occurrences
  rw [keySet_erase, refs_congr (q := pathOf ss)]
  · omega
  · intro t ht
    exact pathOf_erase (ne_of_mem_erase ht)

theorem occurrences_insert (ss : Sessions) (t : SessionId) (m : SessionMeta) (id : ObjId) :
    occurrences (ss.insert t m) id =
      occurrences ss id + m.path.count id - (pathOf ss t).count id := by
  have hself : pathOf (ss.insert t m) t = m.path := pathOf_lookup (AList.lookup_insert ss)
  have hother : ∀ u ≠ t, pathOf (ss.insert t m) u = pathOf ss u := by
    intro u hu
    unfold pathOf
    rw [AList.lookup_insert_ne hu]
  unfold occurrences
  rw [keySet_insert, refs_insert hother, hself]
  rcases em (t ∈ keySet ss) with ht | ht
  · have := refs_erase (pathOf ss) ht id
    omega
  · have hnil : pathOf ss t = [] := by
      rw [mem_keySet, ← AList.lookup_eq_none] at ht
      unfold pathOf
      rw [ht]
      rfl
    rw [erase_eq_of_notMem ht, hnil]
    simp
    omega

theorem count_le_occurrences (ss : Sessions) (t : SessionId) (id : ObjId) : (pathOf ss t).count id ≤ occurrences ss id := by
  rcases h : ss.lookup t with _ | m
  · have : pathOf ss t = [] := by
      unfold pathOf
      rw [h]
      rfl
    simp [this]
  · have := refs_erase (pathOf ss) (mem_keySet_lookup.2 ⟨m, h⟩) id
    unfold occurrences
    omega

section

variable (h : SameTurns ss ss')
include h

theorem SameTurns.keySet : keySet ss' = keySet ss :=
  keySet_eq_of_lookup h

theorem SameTurns.pathOf : pathOf ss' = pathOf ss := by
  funext t
  have := congrArg (fun o => (o.map Prod.fst).getD []) (h t)
  simpa [Session.pathOf, Function.comp_def] using this

theorem SameTurns.occurrences : occurrences ss' = occurrences ss := by
  unfold Session.occurrences
  rw [h.keySet, h.pathOf]

theorem SameTurns.last_access
    (hm : ss'.lookup t = some m) :
    ∃ m0, ss.lookup t = some m0 ∧ m0.last_access = m.last_access := by
  have := h t
  rw [hm] at this
  rcases h0 : ss.lookup t with _ | m0
  · simp [h0] at this
  · refine ⟨m0, rfl, ?_⟩
    simp only [h0, map_some, some.injEq, Prod.mk.injEq] at this
    exact this.2.symm

end

/-! ## The books -/

/-- The books of a cache of `K` blocks: each block has the claims `f`, one for each occurrence on a
live session's path. -/
structure Books (K : Int) (Inv : π → Finset SessionId → Prop) (f : ObjId → Nat) (s : State π) : Prop
    extends UnitSizes s where
  size : s.cache_size = K
  claims : occurrences s.sessions = f
  counts : Counts s.blocks f
  policy : Inv s.policy (live s)
  turns : ∀ t m, s.sessions.lookup t = some m → 0 < m.last_access
  now : 0 ≤ s.now

/-- What holds between requests: the claimed blocks are the resident ones. -/
structure Exact (K : Int) (Inv : π → Finset SessionId → Prop) (s : State π) : Prop
    extends Books K Inv (occurrences s.sessions) s where
  held : ∀ id, id ∈ resident s ↔ 0 < occurrences s.sessions id

variable {K : Int} {Inv : π → Finset SessionId → Prop} {s : State π} {n : Int} {vs : List SessionId} {e : Evicting π}

theorem Exact.of_books {f : ObjId → Nat} (h : Books K Inv f s)
    (hheld : ∀ id, id ∈ resident s ↔ 0 < f id) : Exact K Inv s := by
  cases h.claims
  exact ⟨h, hheld⟩

theorem Exact.resident_eq (h : Exact K Inv s) : resident s = named (live s) (pathOf s.sessions) := by
  ext id
  rw [h.held, ← refs_pos]
  rfl

theorem Exact.clear (h : Exact K Inv s) (vs : List ObjId) : Exact K Inv { s with victims := vs } :=
  .of_books { h with toUnitSizes := ⟨h.sizes, h.occupied⟩, claims := rfl } h.held

theorem init_exact (hH : Sound H Inv) (K : Int) : Exact K Inv (session_cache_init H K) := by
  have hzero : ∀ id, occurrences (session_cache_init H K).sessions id = 0 := by
    intro id
    rfl
  refine .of_books ⟨⟨?_, rfl⟩, rfl, rfl, ?_, hH.init, ?_, le_refl _⟩ ?_
  · intro id size h
    simp [session_cache_init] at h
  · intro id
    exact hzero id
  · intro t m h
    simp [session_cache_init] at h
  · intro id
    rw [hzero id]
    simp [resident, session_cache_init]

/-! ## Eviction -/

structure SameRequest (s s' : State π) : Prop where
  now : s'.now = s.now
  cur_session : s'.cur_session = s.cur_session
  cur_next_access : s'.cur_next_access = s.cur_next_access

theorem drop_session_spec (hH : Sound H Inv) (hs : Exact K Inv s)
    (hv : v ∈ live s) :
    ∃ s', drop_session H s v = some (s', ((resident s \ resident s').card : Int)) ∧ Exact K Inv s' ∧
      s'.sessions = s.sessions.erase v ∧ H.on_removed s.policy v = some s'.policy ∧
      Reported s s' ∧ resident s' ⊆ resident s ∧ SameRequest s s' := by
  obtain ⟨m, hm⟩ := mem_keySet_lookup.1 hv
  obtain ⟨p', hp', hinv⟩ := hH.removed s.policy v (live s) hs.policy hv
  have hpath : pathOf s.sessions v = m.path := pathOf_lookup hm
  have hcount : ∀ id, m.path.count id ≤ occurrences s.sessions id := by
    intro id
    rw [← hpath]
    exact count_le_occurrences _ _ _
  have htb := take_back_all m.path s (occurrences s.sessions) hs.counts hs.toUnitSizes
    (fun id hid => (hs.held id).1 hid) hcount
  obtain ⟨hfold, hfreed⟩ := foldl_drop_block m.path (s, 0)
  set t := m.path.foldl take_back s with ht
  have hocc : (fun id => occurrences s.sessions id - m.path.count id) =
      occurrences (s.sessions.erase v) := by
    funext id
    rw [occurrences_erase hv, hpath]
  rw [hocc] at htb
  have hres : resident t ⊆ resident s := by
    rw [htb.resident]
    exact filter_subset _ _
  refine ⟨{ t with sessions := s.sessions.erase v, policy := p' }, ?_, ?_, rfl, hp', htb.reported, hres, { htb.same with }⟩
  · unfold drop_session
    rw [hm]
    have hpair : m.path.foldl drop_block (s, 0) = (t, ((resident s \ resident t).card : Int)) := by
      refine Prod.ext hfold ?_
      rw [hfreed, ← htb.reported.length]
      exact zero_add _
    simp only [hpair, htb.same.policy, htb.same.sessions, hp']
    rfl
  · refine .of_books (f := occurrences (s.sessions.erase v))
      ⟨⟨htb.units.sizes, htb.units.occupied⟩, htb.same.cache_size.trans hs.size, rfl, htb.counts, ?_, ?_, ?_⟩ ?_
    · show Inv p' (keySet (s.sessions.erase v))
      rw [keySet_erase]
      exact hinv
    · intro u m' hu
      have hne : u ≠ v := by
        rintro rfl
        simp at hu
      exact hs.turns u m' (by rwa [AList.lookup_erase_ne hne] at hu)
    · rw [htb.same.now]
      exact hs.now
    · intro id
      show id ∈ resident t ↔ _
      rw [htb.resident, Finset.mem_filter, hs.held]
      constructor
      · exact fun h => h.2
      · intro h
        rw [occurrences_erase hv] at h
        exact ⟨by omega, by rw [occurrences_erase hv]; exact h⟩

def eviction_order (H : Hooks π) (now : Int) : Nat → π → Sessions → List SessionId
  | 0, _, _ => []
  | n + 1, p, ss =>
    match H.select_victim now p ss with
    | some (p, ss, some v) =>
      match H.on_removed p v with
      | some p => v :: eviction_order H now n p (ss.erase v)
      | none => []
    | _ => []

def private_blocks (ss : Sessions) (vs : List SessionId) : Finset ObjId :=
  named (keySet ss) (pathOf ss) \ named (keySet ss \ vs.toFinset) (pathOf ss)

/-- `evict_n` after it has dropped the sessions `vs`, each of them while fewer than `n` objects
had gone. -/
structure Dropped (H : Hooks π) (K : Int) (Inv : π → Finset SessionId → Prop) (n : Int) (s : State π)
    (vs : List SessionId) (e : Evicting π) : Prop where
  exact : Exact K Inv e.s
  live : live e.s = live s \ vs.toFinset
  paths : ∀ t ∈ Session.live e.s, pathOf e.s.sessions t = pathOf s.sessions t
  sub : resident e.s ⊆ resident s
  freed : e.freed = (resident s \ resident e.s).card
  reported : Reported s e.s
  same : SameRequest s e.s
  order : eviction_order H s.now (Session.live s).card s.policy s.sessions =
    vs ++ eviction_order H s.now (Session.live e.s).card e.s.policy e.s.sessions
  early : ∀ k < vs.length, ((private_blocks s.sessions (vs.take k)).card : Int) < n
  stuck : e.stuck = true → Session.live e.s = ∅

theorem Dropped.resident_eq
    (h : Dropped H K Inv n s vs e) :
    resident e.s = named (keySet s.sessions \ vs.toFinset) (pathOf s.sessions) := by
  rw [h.exact.resident_eq, named_congr h.paths, h.live]
  rfl

theorem Dropped.freed_eq
    (hs : Exact K Inv s) (h : Dropped H K Inv n s vs e) :
    e.freed = (private_blocks s.sessions vs).card := by
  rw [h.freed, h.resident_eq, hs.resident_eq]
  rfl

/-- The state after `select_victim` is as good as the one before. -/
theorem Exact.select {p : π} (hs : Exact K Inv s) (hp : Inv p (live s)) (hturns : SameTurns s.sessions ss) :
    Exact K Inv { s with policy := p, sessions := ss } := by
  have hkey : keySet ss = live s := hturns.keySet
  refine .of_books (f := occurrences s.sessions) ⟨⟨hs.sizes, hs.occupied⟩, hs.size, hturns.occurrences,
    hs.counts, ?_, ?_, hs.now⟩ hs.held
  · show Inv p (keySet ss)
    rw [hkey]
    exact hp
  · intro t m hm
    obtain ⟨m0, hm0, hlast⟩ := hturns.last_access hm
    rw [← hlast]
    exact hs.turns t m0 hm0

theorem eviction_order_drop {now : Int} {p p' q : π} (hsel : H.select_victim now p ss = some (p', ss', some v))
    (hrem : H.on_removed p' v = some q) (k : Nat) :
    eviction_order H now (k + 1) p ss = v :: eviction_order H now k q (ss'.erase v) := by
  rw [eviction_order, hsel]
  simp only [hrem]

theorem evict_victim_spec (hH : Sound H Inv) (hs : Exact K Inv s)
    (he : Dropped H K Inv n s vs e)
    (hgo : e.stuck = false) (hlt : e.freed < n) :
    ∃ e', evict_victim H e = some e' ∧
      ((e'.stuck = true ∧ Dropped H K Inv n s vs e') ∨
        ∃ v, e'.stuck = false ∧ (live e'.s).card < (live e.s).card ∧ Dropped H K Inv n s (vs ++ [v]) e') := by
  obtain ⟨p', ss', v, hsel, hinv, hturns, hsome, hnone⟩ := hH.select e.s.now e.s.policy e.s.sessions
    he.exact.policy
  have hkey : keySet ss' = live e.s := hturns.keySet
  have hsel_exact : Exact K Inv { e.s with policy := p', sessions := ss' } := he.exact.select hinv hturns
  unfold evict_victim
  simp only [hsel, bind_eq_bind]
  rcases v with _ | v
  · have hempty : live e.s = ∅ := hnone rfl
    have hempty' : keySet ss' = ∅ := hkey.trans hempty
    refine ⟨_, rfl, Or.inl ⟨rfl, hsel_exact, ?_, ?_, he.sub, he.freed, he.reported,
      { he.same with }, ?_, he.early, fun _ => ?_⟩⟩
    · exact hkey.trans he.live
    · intro t ht
      rw [show Session.live _ = keySet ss' from rfl, hempty'] at ht
      simp at ht
    · rw [he.order, hempty]
      show _ = vs ++ eviction_order H s.now (keySet ss').card p' ss'
      rw [hempty']
      rfl
    · exact hempty'
  · have hv : v ∈ keySet ss' := by
      rw [hkey]
      exact hsome v rfl
    obtain ⟨s', hdrop, hexact, hsess, hrem, hrep, hsub, hsame⟩ := drop_session_spec hH hsel_exact hv
    have hlive : live s' = (live e.s).erase v := by
      unfold live
      rw [hsess]
      rw [keySet_erase, hkey]
      rfl
    have hcard : (live s').card + 1 = (live e.s).card := by
      rw [hlive]
      exact card_erase_add_one (hkey ▸ hv)
    have hsub' : resident s' ⊆ resident e.s := hsub
    have hgone : resident s \ resident s' =
        (resident s \ resident e.s) ∪ (resident e.s \ resident s') := by
      ext x
      simp only [mem_union, mem_sdiff]
      have := @he.sub x
      tauto
    have hdisj : Disjoint (resident s \ resident e.s) (resident e.s \ resident s') := by
      rw [Finset.disjoint_left]
      intro x hx hx'
      exact (mem_sdiff.1 hx).2 (mem_sdiff.1 hx').1
    simp only [hdrop, bind_some]
    refine ⟨_, rfl, Or.inr ⟨v, hgo, by show (live s').card < _; omega, hexact, ?_, ?_, hsub'.trans he.sub,
      ?_, he.reported.trans hrep he.sub hsub', ?_, ?_, ?_, ?_⟩⟩
    · rw [hlive, he.live, toFinset_append]
      ext t
      simp only [mem_erase, mem_sdiff, mem_union, List.mem_toFinset,
        List.mem_singleton]
      tauto
    · intro t ht
      have ht' : t ∈ (live e.s).erase v := hlive ▸ ht
      rw [hsess]
      rw [pathOf_erase (ne_of_mem_erase ht'), hturns.pathOf]
      exact he.paths t (Finset.mem_of_mem_erase ht')
    · rw [he.freed, hgone, card_union_of_disjoint hdisj]
      rfl
    · exact ⟨hsame.now.trans he.same.now, hsame.cur_session.trans he.same.cur_session,
        hsame.cur_next_access.trans he.same.cur_next_access⟩
    · rw [he.order, append_assoc, ← hcard, ← he.same.now, eviction_order_drop hsel hrem, ← hsess]
      rfl
    · intro k hk
      rw [length_append, length_singleton] at hk
      rcases Nat.lt_or_ge k vs.length with hk' | hk'
      · rw [take_append_of_le_length hk'.le]
        exact he.early k hk'
      · have : k = vs.length := by omega
        rw [this, take_left, ← he.freed_eq hs]
        exact hlt
    · intro h
      rw [hgo] at h
      cases h

/-- `evict_n` drops sessions in the policy's order until `n` objects have gone or no session is
left, and returns how many objects went. -/
theorem evict_n_spec (hH : Sound H Inv) (hs : Exact K Inv s) (n : Int) :
    ∃ e vs, evict_n H s n = some (e.s, e.freed) ∧ Dropped H K Inv n s vs e ∧
      (e.freed < n → live e.s = ∅) := by
  let I : Evicting π → Prop := fun e => ∃ vs, Dropped H K Inv n s vs e
  let μ : Evicting π → Nat := fun e => if e.stuck then 0 else (live e.s).card + 1
  have hbody : ∀ e, I e → (!e.stuck && decide (e.freed < n)) = true →
      ∃ e', evict_victim H e = some e' ∧ I e' ∧ μ e' < μ e := by
    rintro e ⟨vs, he⟩ hcond
    rw [Bool.and_eq_true, Bool.not_eq_true', decide_eq_true_eq] at hcond
    obtain ⟨e', hev, hcase⟩ := evict_victim_spec hH hs he hcond.1 hcond.2
    refine ⟨e', hev, ?_⟩
    rcases hcase with ⟨hstuck, he'⟩ | ⟨v, hgo, hcard, he'⟩
    · exact ⟨⟨vs, he'⟩, by simp [μ, hstuck, hcond.1]⟩
    · exact ⟨⟨_, he'⟩, by simpa [μ, hgo, hcond.1] using hcard⟩
  have hstart : I { s := s } := by
    refine ⟨[], hs, by simp, fun _ _ => rfl, subset_rfl, by simp, .refl rfl rfl, ⟨rfl, rfl, rfl⟩, rfl,
      by simp, by simp⟩
  obtain ⟨e, hloop, ⟨vs, he⟩, hend⟩ := whileLoop_total I μ hbody (s.sessions.keys.length + 1) { s := s }
    hstart (by simp [μ, live, card_keySet])
  refine ⟨e, vs, by simp [evict_n, hloop], he, ?_⟩
  intro hlt
  rw [Bool.and_eq_false_iff, Bool.not_eq_false', decide_eq_false_iff_not] at hend
  rcases hend with hstuck | hge
  · exact he.stuck hstuck
  · exact absurd hlt hge

end CacheSim.Session
