import CacheSim.Merlin.Progress

/-!
# Runs of gets, evictions and removals

A get evicts until its object fits, and no more often than twice for each object that was there.
-/

namespace CacheSim.Merlin

open Lib Multiset

variable {κ : Type} {K : Sketch κ} {s s' : State κ} {C : Limits} {t u : Tier} {x : ObjId} {req : Request}

structure Kept (C : Limits) (s : State κ) : Prop extends Good C s where
  ghost : (s.queue .ghost).occupied_byte ≤ C.ghost_limit
  bytes : s.merlin_get_occupied_byte ≤ C.cache_size

def NoMore (s s' : State κ) : Prop := ∀ t, (s'.queue t).occupied_byte ≤ (s.queue t).occupied_byte

theorem NoMore.bytes (h : NoMore s s') : s'.merlin_get_occupied_byte ≤ s.merlin_get_occupied_byte := by
  unfold State.merlin_get_occupied_byte
  have h1 := h .filter
  have h2 := h .staging
  have h3 := h .core
  omega

theorem NoMore.trans {a b c : State κ} (h : NoMore a b) (h' : NoMore b c) : NoMore a c := fun t => (h' t).trans (h t)

theorem noMore_of_queue (h : s'.queue = s.queue) : NoMore s s' := fun t => by rw [h]

theorem noMore_remove (h : Sized C s) (t : Tier) (x : ObjId) : NoMore s (s.remove t x) := by
  intro u
  rw [queue_remove]
  split_ifs with hu
  · subst hu
    unfold Fifo.FIFO_remove
    rcases ho : (s.queue u).q.lookup x with _ | o
    · exact le_rfl
    · have hsize := h.size u x o ho
      have hmd := h.md u
      have hnonneg := h.md_nonneg
      show (s.queue u).occupied_byte - (o.obj_size + (s.queue u).obj_md_size) ≤ _
      rw [hmd]
      split_ifs <;> omega
  · exact le_rfl

theorem Sized.charge_pos (h : Sized C s) (hne : s.sizes ≠ 0) : 0 < s.merlin_get_occupied_byte := by
  have hlen := card_sizes s
  have hpos := card_pos.2 hne
  have h1 := h.len_le_occupied .filter
  have h2 := h.len_le_occupied .staging
  have h3 := h.len_le_occupied .core
  unfold State.merlin_get_occupied_byte
  omega

theorem Drops.bytes (hs : Sized C s) (hs' : Sized C s') (h : Drops s s') :
    s'.merlin_get_occupied_byte < s.merlin_get_occupied_byte := by
  obtain ⟨n, hn, hout⟩ := h
  have hnonneg := hs.md_nonneg
  rw [hs.bytes_eq, hs'.bytes_eq, hout, map_cons, sum_cons]
  omega

theorem Advances.bytes_le (hs : Sized C s) (hs' : Sized C s') (h : Advances s s') :
    s'.merlin_get_occupied_byte ≤ s.merlin_get_occupied_byte := by
  obtain ⟨-, hdrops | ⟨hsizes, -⟩⟩ := h
  · exact (hdrops.bytes hs hs').le
  · rw [hs.bytes_eq, hs'.bytes_eq, hsizes]

theorem Advances.twice {a b c : State κ} (ha : Sized C a) (hb : Sized C b) (hc : Sized C c) (h : Advances a b)
    (h' : Advances b c) : c.merlin_get_occupied_byte < a.merlin_get_occupied_byte := by
  obtain ⟨-, hdrops | ⟨hsizes, hzero, -⟩⟩ := h
  · exact (h'.bytes_le hb hc).trans_lt (hdrops.bytes ha hb)
  · obtain ⟨-, hdrops | ⟨-, -, hpos⟩⟩ := h'
    · exact (hdrops.of_sizes hsizes).bytes ha hc
    · omega

def residents (s : State κ) : Nat :=
  (s.queue .filter).q.entries.length + (s.queue .staging).q.entries.length + (s.queue .core).q.entries.length

def evictions (s : State κ) : Nat := 2 * s.sizes.card + if s.len .filter = 0 then 0 else 1

theorem Advances.evictions (h : Advances s s') : evictions s' < evictions s := by
  unfold Merlin.evictions
  obtain ⟨-, ⟨n, -, hout⟩ | ⟨hsizes, hzero, hpos⟩⟩ := h
  · rw [hout, card_cons]
    split_ifs <;> omega
  · rw [hsizes, if_pos hzero, if_neg hpos.ne']
    omega

/-! ## The calls -/

theorem Kept.evict (h : Kept C s) (r : Option Request) : ∃ s', merlin_evict K s r = some s' ∧ Kept C s' ∧
    Evicts s s' ∧ (s.sizes ≠ 0 → Advances s s') := by
  obtain ⟨s', hevict, hgood, hempty, hadvances⟩ := merlin_evict_spec h.toGood r
  refine ⟨s', hevict, ?_, (merlin_evict_inv h.toInv hevict).2, fun hne => (hadvances hne).1⟩
  by_cases hne : s.sizes = 0
  · have hqueue := hempty hne
    have hsame := noMore_of_queue hqueue
    exact ⟨hgood, (hsame .ghost).trans h.ghost, hsame.bytes.trans h.bytes⟩
  · obtain ⟨hadv, hghost⟩ := hadvances hne
    exact ⟨hgood, hghost, (hadv.bytes_le h.toSized hgood.toSized).trans h.bytes⟩

theorem touch_occupied {o : FifoObj Md} : ((s.touch t x o).queue u).occupied_byte = (s.queue u).occupied_byte := by
  unfold State.touch
  split_ifs
  · show ((s.set t _).queue u).occupied_byte = _
    rw [queue_set]
    split_ifs with hu
    · rw [hu]
      rfl
    · rfl
  · rfl

theorem merlin_find_sized (h : Sized C s) (req : Request) : Sized C (merlin_find s req).1 ∧
    NoMore s (merlin_find s req).1 := by
  unfold merlin_find
  dsimp only
  set s1 : State κ := { s with ghost_hit := false, promote_ghost_to_core := false, ghost_freq := 0 }
  have h1 : Sized C s1 := h.frame rfl rfl rfl
  rcases hfind : find_in s1 req.obj_id [.filter, .staging, .core] with _ | ⟨t, o⟩
  · rcases hg : (s1.queue .ghost).q.lookup req.obj_id with _ | o
    · exact ⟨h1, fun _ => le_rfl⟩
    · refine ⟨(h1.touch hg).frame rfl rfl rfl, fun u => ?_⟩
      exact touch_occupied.le
  · exact ⟨h1.touch (find_in_some hfind), fun u => touch_occupied.le⟩

structure Filled (C : Limits) (req : Request) (s s' : State κ) : Prop where
  sized : Sized C s'
  bytes : s'.merlin_get_occupied_byte = s.merlin_get_occupied_byte + (req.obj_size + C.obj_md_size)
  ghost : (s'.queue .ghost).occupied_byte ≤ (s.queue .ghost).occupied_byte

theorem insert_filled (h : Sized C s) (m : Md) (ht : t ≠ .ghost) (hsize : 1 ≤ req.obj_size)
    (hmiss : s.md t req.obj_id = none) : Filled C req s (s.insert t req m) := by
  refine ⟨h.insert m hsize hmiss, ?_, ?_⟩
  · rw [(h.insert m hsize hmiss).bytes_eq, h.bytes_eq, sizes_insert hmiss ht, map_cons, sum_cons,
      add_comm]
  · rw [queue_insert, if_neg ht.symm]

theorem Filled.frame {s1 : State κ} (h : Filled C req s s1) (hlimits : s'.limits = s1.limits)
    (hqueue : s'.queue = s1.queue) (hguard : s'.guard_freq = s1.guard_freq) : Filled C req s s' := by
  refine ⟨h.sized.frame hlimits hqueue hguard, ?_, ?_⟩
  · unfold State.merlin_get_occupied_byte
    rw [hqueue]
    exact h.bytes
  · rw [hqueue]
    exact h.ghost

theorem bumps_same (s : State κ) (l : List Nat) : (l.foldl State.bump s).limits = s.limits ∧
    (l.foldl State.bump s).queue = s.queue ∧ (l.foldl State.bump s).guard_freq = s.guard_freq := by
  induction l generalizing s with
  | nil => exact ⟨rfl, rfl, rfl⟩
  | cons i l ih => exact ih (s.bump i)

theorem insert_promoted_filled (h : Sized C s) (hsize : 1 ≤ req.obj_size) (hmiss : s.md .core req.obj_id = none) :
    Filled C req s (insert_promoted s req) := by
  have hin := insert_filled h { freq := s.ghost_freq } (by decide) hsize hmiss
  set s1 := s.insert .core req { freq := s.ghost_freq } with hs1
  have hless := noMore_remove hin.sized .ghost req.obj_id
  have hout : Filled C req s (s1.remove .ghost req.obj_id) := by
    refine ⟨hin.sized.remove .ghost req.obj_id, ?_, (hless .ghost).trans hin.ghost⟩
    rw [← hin.bytes]
    rfl
  unfold insert_promoted
  dsimp only
  split_ifs
  · exact hout
  · obtain ⟨h1, h2, h3⟩ := bumps_same (s1.remove .ghost req.obj_id)
      (List.range ((s1.remove .ghost req.obj_id).ghost_freq + 1))
    exact hout.frame h1 h2 h3

theorem merlin_insert_filled (h : Sized C s) (hsize : 1 ≤ req.obj_size) (habsent : Absent s req.obj_id) :
    Filled C req s (merlin_insert K s req) := by
  unfold merlin_insert
  split_ifs
  · exact (insert_filled h {} (by decide) hsize habsent.core).frame rfl rfl rfl
  · have hsame : Sized C { s with ghost_hit := false, promote_ghost_to_core := false } := h.frame rfl rfl rfl
    exact ⟨(insert_promoted_filled hsame hsize habsent.core).sized, (insert_promoted_filled hsame hsize habsent.core).bytes,
      (insert_promoted_filled hsame hsize habsent.core).ghost⟩
  · set s1 := State.sketch_add K { s with ghost_hit := false } req.obj_id
    have hsame : Sized C s1 := h.frame rfl rfl rfl
    have hin := insert_filled hsame { inghost := true } (by decide) hsize habsent.staging
    exact { hin with sized := hin.sized.frame rfl rfl rfl }
  · exact (insert_filled h {} (by decide) hsize habsent.filter).frame rfl rfl rfl

theorem remove_from_sized (id : ObjId) (w : State κ × Bool) (h : Sized C w.1) (t : Tier) :
    Sized C (remove_from id w t).1 ∧ NoMore w.1 (remove_from id w t).1 := by
  unfold remove_from
  rcases (w.1.queue t).q.lookup id with _ | o
  · exact ⟨h, fun _ => le_rfl⟩
  · have hsame : Sized C (w.1.decrease o.md.freq (-1)) := h.frame rfl rfl rfl
    exact ⟨hsame.remove t id, noMore_remove hsame t id⟩

theorem Kept.remove (h : Kept C s) (id : ObjId) : Kept C (merlin_remove s id).1 := by
  have hstep : ∀ (l : List Tier) (w : State κ × Bool), Sized C w.1 →
      Sized C (l.foldl (remove_from id) w).1 ∧ NoMore w.1 (l.foldl (remove_from id) w).1 := by
    intro l
    induction l with
    | nil => exact fun _ hw => ⟨hw, fun _ => le_rfl⟩
    | cons t l ih =>
      intro w hw
      obtain ⟨h1, h2⟩ := remove_from_sized id w hw t
      obtain ⟨h3, h4⟩ := ih _ h1
      exact ⟨h3, h2.trans h4⟩
  obtain ⟨hsized, hless⟩ := hstep [.filter, .staging, .core, .ghost] (s, false) h.toSized
  have hinv := merlin_remove_inv h.toInv id
  unfold merlin_remove at hinv ⊢
  generalize [Tier.filter, .staging, .core, .ghost].foldl (remove_from id) (s, false) = w at hinv hsized hless ⊢
  exact ⟨⟨hinv, hsized.frame rfl rfl rfl⟩, (hless .ghost).trans h.ghost, hless.bytes.trans h.bytes⟩

structure Missed (C : Limits) (req : Request) (s : State κ) : Prop where
  kept : Kept C s
  pending : Pending s req.obj_id

variable {fuel : State κ → Nat}

theorem Kept.get (allows : Int → Request → Bool)
    (hfuel : ∀ s : State κ, 2 * residents s + 1 ≤ fuel s) (h : Kept C s) (req : Request) :
    ∃ s' hit, merlin_get K allows fuel s req = some (s', hit) ∧ Kept C s' := by
  apply CacheOps.cache_get_base_total (Kept C) (Missed C req)
    (fun v => Missed C req v ∧ 1 ≤ req.obj_size ∧ req.obj_size + C.obj_md_size ≤ C.cache_size) (Kept C) evictions
    ?_ ?_ ?_ ?_ ?_ h
  · intro v _
    have hmost : 2 * v.sizes.card + 1 ≤ fuel v := by
      rw [card_sizes]
      exact hfuel v
    unfold evictions
    split_ifs <;> omega
  · intro v hv
    have hcount : Kept C { v with n_req := v.n_req + 1 } :=
      { hv with toGood := ⟨hv.toInv.frame rfl rfl, hv.toSized.frame rfl rfl rfl⟩ }
    obtain ⟨hinv, hmiss⟩ := merlin_find_inv hcount.toInv req
    obtain ⟨hsized, hsame⟩ := merlin_find_sized hcount.toSized req
    have hkept : Kept C (merlin_find { v with n_req := v.n_req + 1 } req).1 :=
      ⟨⟨hinv, hsized⟩, (hsame .ghost).trans hv.ghost, hsame.bytes.trans hv.bytes⟩
    refine ⟨_, _, rfl, ?_⟩
    split_ifs with hhit
    · exact hkept
    · exact ⟨hkept, hmiss (Bool.eq_false_iff.2 hhit)⟩
  · intro v hv
    refine ⟨_, _, rfl, ?_⟩
    have hmd : v.obj_md_size = C.obj_md_size := congrArg Limits.obj_md_size hv.kept.limits
    have hcap : v.cache_size = C.cache_size := congrArg Limits.cache_size hv.kept.limits
    split_ifs with hadmit
    · unfold merlin_can_insert at hadmit
      simp only [Bool.and_eq_true, decide_eq_true_eq, Bool.not_eq_true', decide_eq_false_iff_not] at hadmit
      exact ⟨hv, by omega, by omega⟩
    · exact hv.kept
  · rintro v ⟨hv, hsize, hroom⟩ hfull
    have hmd : v.obj_md_size = C.obj_md_size := congrArg Limits.obj_md_size hv.kept.limits
    have hcap : v.cache_size = C.cache_size := congrArg Limits.cache_size hv.kept.limits
    rw [CacheOps.full_for_iff] at hfull
    have hover : v.cache_size < v.merlin_get_occupied_byte + req.obj_size + v.obj_md_size := hfull
    have hne : v.sizes ≠ 0 := by
      intro hzero
      have hbytes := hv.kept.bytes_eq
      rw [hzero] at hbytes
      simp at hbytes
      omega
    obtain ⟨v', hevict, hkept, hev, hadvances⟩ := hv.kept.evict (some req)
    exact ⟨v', hevict, ⟨⟨hkept, hv.pending.evict hkept.toInv hev⟩, hsize, hroom⟩, (hadvances hne).evictions⟩
  · rintro v ⟨hv, hsize, hroom⟩ hfits
    have hmd : v.obj_md_size = C.obj_md_size := congrArg Limits.obj_md_size hv.kept.limits
    have hcap : v.cache_size = C.cache_size := congrArg Limits.cache_size hv.kept.limits
    rw [CacheOps.full_for_false_iff] at hfits
    have hunder : v.merlin_get_occupied_byte + req.obj_size + v.obj_md_size ≤ v.cache_size := hfits
    have hfilled := merlin_insert_filled (K := K) hv.kept.toSized hsize hv.pending.absent
    refine ⟨_, rfl, ⟨merlin_insert_inv hv.pending, hfilled.sized⟩, hfilled.ghost.trans hv.kept.ghost, ?_⟩
    rw [hfilled.bytes]
    omega

/-! ## Runs -/

inductive Step where
  | get (req : Request)
  | evict (req : Option Request)
  | remove (id : ObjId)

def step (K : Sketch κ) (allows : Int → Request → Bool) (fuel : State κ → Nat) (s : State κ) : Step → Option (State κ)
  | .get req => (merlin_get K allows fuel s req).map (·.1)
  | .evict req => merlin_evict K s req
  | .remove id => some (merlin_remove s id).1

theorem init_kept (cache_size obj_md_size filter_size staging_size ghost_size : Int) (sketch : κ) (epoch_update : Int)
    (hcache : 0 ≤ cache_size) (hmd : 0 ≤ obj_md_size) (hghost : 0 ≤ ghost_size) :
    Kept (merlin_init cache_size obj_md_size filter_size staging_size ghost_size sketch epoch_update).limits
      (merlin_init cache_size obj_md_size filter_size staging_size ghost_size sketch epoch_update) := by
  have hguard : 1 ≤ 2 ∧ 2 ≤ kMaxFrequency := by decide
  refine ⟨⟨init_inv .., rfl, hmd, ?_, hghost, fun t => ?_, fun t x o ho => ?_, fun t => ?_, hguard.1, hguard.2⟩,
    hghost, hcache⟩
  · show 0 ≤ cache_size - _ - _
    omega
  · cases t <;> exact ⟨rfl, rfl⟩
  · cases t <;> cases ho
  · cases t <;> rfl

variable {allows : Int → Request → Bool}

section

variable (hfuel : ∀ s : State κ, 2 * residents s + 1 ≤ fuel s)
include hfuel

theorem step_kept {a : Step} (h : Kept C s)
    (hs : step K allows fuel s a = some s') : Kept C s' := by
  cases a with
  | get req =>
    obtain ⟨v, hit, hget, hkept⟩ := h.get (K := K) allows hfuel req
    simp only [step, hget, Option.map_some, Option.some.injEq] at hs
    exact hs ▸ hkept
  | evict req =>
    obtain ⟨v, hevict, hkept, -⟩ := h.evict (K := K) req
    rw [step, hevict, Option.some.injEq] at hs
    exact hs ▸ hkept
  | remove id =>
    cases hs
    exact h.remove id

theorem reach_kept {s0 : State κ} (h : Kept C s0)
    (hr : Reach (step K allows fuel) (fun _ _ => True) s0 s) : Kept C s :=
  hr.inv (Kept C) (fun _ _ _ hk _ hs => step_kept hfuel hk hs) h

end

theorem Kept.evict_twice (h : Kept C s) (hne : s.sizes ≠ 0) (r : Option Request) :
    ∃ s1, merlin_evict K s r = some s1 ∧ Kept C s1 ∧ ∃ s2, merlin_evict K s1 r = some s2 ∧
      s2.merlin_get_occupied_byte < s.merlin_get_occupied_byte := by
  obtain ⟨s1, hevict1, hkept1, -, hadv1⟩ := h.evict r
  obtain ⟨s2, hevict2, hkept2, -, hadv2⟩ := hkept1.evict r
  refine ⟨s1, hevict1, hkept1, s2, hevict2, ?_⟩
  by_cases hnone : s1.sizes = 0
  · -- the first call took the last object
    have hbytes := h.charge_pos hne
    have hzero : s1.merlin_get_occupied_byte = 0 := by
      rw [hkept1.bytes_eq, hnone]
      rfl
    obtain ⟨v, hv, -, hsame, -⟩ := merlin_evict_spec hkept1.toGood r
    obtain rfl : v = s2 := Option.some.inj (hv.symm.trans hevict2)
    have hleft := (noMore_of_queue (hsame hnone)).bytes
    omega
  · exact (hadv1 hne).twice h.toSized hkept1.toSized hkept2.toSized (hadv2 hnone)

/-- Merlin's evictions make progress: each one returns, with a guard in its range and the ghost within
its limit, and no two in a row leave all objects in. So every get returns, and the objects fit. -/
theorem evict_progresses (K : Sketch κ) (allows : Int → Request → Bool) (fuel : State κ → Nat)
    (hfuel : ∀ s : State κ, 2 * residents s + 1 ≤ fuel s)
    (cache_size obj_md_size filter_size staging_size ghost_size : Int) (sketch : κ) (epoch_update : Int)
    (hcache : 0 ≤ cache_size) (hmd : 0 ≤ obj_md_size) (hghost : 0 ≤ ghost_size) (s : State κ)
    (hreach : Reach (step K allows fuel) (fun _ _ => True)
      (merlin_init cache_size obj_md_size filter_size staging_size ghost_size sketch epoch_update) s) :
    (0 < s.merlin_get_n_obj → ∀ req : Option Request, ∃ s₁, merlin_evict K s req = some s₁ ∧
      (1 ≤ s₁.guard_freq ∧ s₁.guard_freq ≤ 7) ∧ (s₁.queue .ghost).occupied_byte ≤ ghost_size ∧
      ∃ s₂, merlin_evict K s₁ req = some s₂ ∧ s₂.merlin_get_occupied_byte < s.merlin_get_occupied_byte) ∧
    (∀ req, ∃ s' hit, merlin_get K allows fuel s req = some (s', hit)) ∧
    s.merlin_get_occupied_byte ≤ cache_size := by
  have hinit := init_kept cache_size obj_md_size filter_size staging_size ghost_size sketch epoch_update hcache hmd hghost
  have hkept := reach_kept hfuel hinit hreach
  refine ⟨fun hsome req => ?_, fun req => ?_, hkept.bytes⟩
  · have hne : s.sizes ≠ 0 := by
      rintro hzero
      rw [hkept.n_obj_eq, hzero] at hsome
      exact lt_irrefl 0 hsome
    obtain ⟨s₁, hevict, hkept1, htwice⟩ := hkept.evict_twice hne req
    exact ⟨s₁, hevict, ⟨hkept1.guard_pos, hkept1.guard_le⟩, hkept1.ghost, htwice⟩
  · obtain ⟨s', hit, hget, -⟩ := hkept.get allows hfuel req
    exact ⟨s', hit, hget⟩

def heated : List Step :=
  ([1, 2, 3, 4, 5, 6, 7] ++ List.replicate 7 6 ++ List.replicate 7 7).map fun id => .get { obj_id := id }

theorem evict_progresses_when_heated : ∃ s, runs (step counting (fun _ _ => true) fun s => 2 * residents s + 1)
    (merlin_init 5 0 3 0 3 (fun _ => 0) 32) heated = some s ∧
    ∃ s₁, merlin_evict counting s none = some s₁ ∧ s₁.merlin_get_occupied_byte = s.merlin_get_occupied_byte ∧
    ∃ s₂, merlin_evict counting s₁ none = some s₂ ∧ s₂.merlin_get_occupied_byte < s.merlin_get_occupied_byte := by
  refine exists_some (P := fun s => 0 < s.merlin_get_n_obj ∧ ∃ s₁, merlin_evict counting s none = some s₁ ∧
    s₁.merlin_get_occupied_byte = s.merlin_get_occupied_byte) (by decide +kernel) fun s hs ⟨hsome, s₁, h1, hmoved⟩ => ?_
  have hreach : Reach _ (fun _ _ => True) _ s := Reach.of_runs (fun _ _ _ => trivial) hs
  obtain ⟨hevicts, -⟩ := evict_progresses counting (fun _ _ => true) (fun s => 2 * residents s + 1) (fun _ => le_rfl)
    5 0 3 0 3 (fun _ => 0) 32 (by decide) (by decide) (by decide) s hreach
  obtain ⟨u, hu, -, -, hfrees⟩ := hevicts hsome none
  cases hu.symm.trans h1
  exact ⟨s₁, h1, hmoved, hfrees⟩

end CacheSim.Merlin
