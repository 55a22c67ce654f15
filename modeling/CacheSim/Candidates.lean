import CacheSim.LeCaR.Removal
import CacheSim.WorkloadAware.Proofs
import CacheSim.AsymCache.Proofs

/-!
# Who honours the candidate of `to_evict`
-/

namespace CacheSim

open Lib Option
open AList (mem_keys)

def LeCaR.Reached {W : Type} (E : LeCaR.Experts W) (s : LeCaR.State W) : Prop :=
  ∃ (cache_size : Nat) (consider_obj_metadata : Bool),
    Reach (LeCaR.call E) (fun _ c => LeCaR.Sized c) (LeCaR.LeCaR_init E cache_size consider_obj_metadata) s

def WorkloadAware.Reached {D : Type} [LinearOrder D] (F : WorkloadAware.Doubles D) (s : WorkloadAware.State D) : Prop :=
  ∃ cache_size : Int, Reach (WorkloadAware.call F) (fun _ _ => True) (WorkloadAware.WorkloadAware_init F cache_size) s

def AsymCache.Reached {D P : Type} [LinearOrder D] (F : AsymCache.Doubles D P)
    (order : Table ObjId (AsymCache.BlockMeta D) → List ObjId) (s : AsymCache.State D P) : Prop :=
  ∃ cache_size : Int, Reach (AsymCache.call F order) (fun _ _ => True) (AsymCache.AsymCache_init F cache_size) s

def LeCaR.Agree {W : Type} (E : LeCaR.Experts W) (s : LeCaR.State W) : Prop :=
  (LeCaR.draw E s).1 = true ∨ (LeCaR.get_min_freq_node s).bind (fun node => node.objs.head?) = s.q.getLast?

/-- In every state that holds an object. `order` walks the blocks of AsymCache, each once. -/
theorem to_evict_honoured {W D P : Type} [LinearOrder D] (E : LeCaR.Experts W) (F : WorkloadAware.Doubles D)
    (G : AsymCache.Doubles D P) (order : Table ObjId (AsymCache.BlockMeta D) → List ObjId)
    (horder : ∀ t, (order t).Perm t.keys) :
    (∀ s, LeCaR.Reached E s → s.q ≠ [] →
      (Honoured (LeCaR.LeCaR_to_evict E) (LeCaR.LeCaR_evict E) (fun s x => x ∈ s.q) s ↔ LeCaR.Agree E s)) ∧
    (∀ s, WorkloadAware.Reached F s → s.cache.q.keys ≠ [] →
      (Honoured (WorkloadAware.WorkloadAware_to_evict F) (WorkloadAware.WorkloadAware_evict F) (fun s x => x ∈ s.cache.q) s ↔
        WorkloadAware.SoleClass s)) ∧
    (∀ s, AsymCache.Reached G order s → s.cache.q.keys ≠ [] → s.frozen = false ∨ AsymCache.Calm G s →
      Honoured (AsymCache.AsymCache_to_evict G order) (AsymCache.AsymCache_evict G order) (fun s x => x ∈ s.cache.q) s) := by
  refine ⟨?_, ?_, ?_⟩
  · rintro s ⟨cache_size, md, hreach⟩ hne
    rw [LeCaR.LeCaR_honoured_iff (LeCaR.core_of_reach hreach) hne]
    unfold LeCaR.candidate LeCaR.Agree
    split_ifs with hdraw <;> simp [hdraw]
  · rintro s ⟨cache_size, hreach⟩ hne
    obtain ⟨x, hx⟩ := List.exists_mem_of_ne_nil _ hne
    exact WorkloadAware.WorkloadAware_honoured_iff (WorkloadAware.inv_of_reach hreach) (mem_keys.2 hx)
  · rintro s ⟨cache_size, hreach⟩ hne hcalm
    obtain ⟨x, hx⟩ := List.exists_mem_of_ne_nil _ hne
    exact AsymCache.AsymCache_honoured horder (AsymCache.inv_of_reach horder hreach) (mem_keys.2 hx) hcalm

/-! ## Runs -/

def LeCaR.Experts.even (rand : Nat) : LeCaR.Experts Unit where
  init := ()
  picks_lru r _ := r < 50
  update_lru _ w := w
  update_lfu _ w := w
  next_rand _ := rand

/-- Whole seconds. The reuse probabilities of classes with one mean gap have the order of the idle
times. -/
def WorkloadAware.Doubles.seconds : WorkloadAware.Doubles Int where
  zero := 0
  unset := -1
  kDefaultMeanGap := 600
  sub a b := a - b
  positive gap := 0 < gap
  tick now := now + 1
  ewma mean gap := (19 * mean + gap) / 20
  reuse_prob _ _ idle := -idle

/-- Whole seconds and blocks of cost 1, with a slope ratio of 40. A key is multiplied by `alpha`, and
an expected cost is its logarithm multiplied by `alpha`. -/
def AsymCache.Doubles.seconds : AsymCache.Doubles Int Int where
  zero := 0
  one := 1
  unfitted := 0
  fit gaps := max 1 (gaps.mergeSort.getD (min (gaps.length - 1) (99 * gaps.length / 100)) 180)
  sub a b := a - b
  no_gap gap := gap ≤ 0
  tick now := now + 1
  ofInt n := n
  young L now last_access := max (now - last_access) 0 < L
  key L first last_access _ := if first then last_access else 40 * last_access + 39 * L
  expected_cost L now last_access _ := -max (max (now - last_access) 0) (40 * max (now - last_access) 0 - 39 * L)
  le a b := a ≤ b

/-- LeCaR draws the LFU, whose victim is 2, and evicts 1. WorkloadAware has two classes with a block
each. AsymCache files block 1 to the second heap at second 1000, where it is accessed again, and block
2 comes at second 1001: `to_evict` takes 2 from the first heap before it files 1 there. -/
theorem to_evict_not_honoured :
    (∃ s, LeCaR.Reached (.even 70) s ∧ s.q = [2, 1] ∧
      ¬ Honoured (LeCaR.LeCaR_to_evict (.even 70)) (LeCaR.LeCaR_evict (.even 70)) (fun s x => x ∈ s.q) s) ∧
    (∃ s, WorkloadAware.Reached .seconds s ∧ s.cache.q.keys = [2, 1] ∧
      ¬ Honoured (WorkloadAware.WorkloadAware_to_evict .seconds) (WorkloadAware.WorkloadAware_evict .seconds)
        (fun s x => x ∈ s.cache.q) s) ∧
    ∃ s, AsymCache.Reached .seconds (fun t => t.keys) s ∧ s.cache.q.keys = [2, 1] ∧
      ¬ Honoured (AsymCache.AsymCache_to_evict .seconds fun t => t.keys) (AsymCache.AsymCache_evict .seconds fun t => t.keys)
        (fun s x => x ∈ s.cache.q) s := by
  refine ⟨?_, ?_, ?_⟩
  · obtain ⟨s, hs, hq, hcand⟩ : ∃ s, runs (LeCaR.call (.even 70)) (LeCaR.LeCaR_init (.even 70) 3 false)
        [.get { obj_id := 1 }, .get { obj_id := 1 }, .get { obj_id := 2 }] = some s ∧
        s.q = [2, 1] ∧ LeCaR.candidate (.even 70) s ≠ s.q.getLast? := by decide +kernel
    have hreach : Reach (LeCaR.call (.even 70)) (fun _ c => LeCaR.Sized c) (LeCaR.LeCaR_init (.even 70) 3 false) s :=
      .of_runs (by simp [LeCaR.Sized]) hs
    refine ⟨s, ⟨3, false, hreach⟩, hq, ?_⟩
    rwa [LeCaR.LeCaR_honoured_iff (LeCaR.core_of_reach hreach) (by simp [hq])]
  · obtain ⟨s, hs, hq, hdue⟩ : ∃ s, runs (WorkloadAware.call .seconds) (WorkloadAware.WorkloadAware_init .seconds 3)
        [.get { obj_id := 1 }, .set_request_ctx 1 1, .get { obj_id := 2 }] = some s ∧
        s.cache.q.keys = [2, 1] ∧ ¬ ∀ c ∈ WorkloadAware.due s, WorkloadAware.category_head s c = WorkloadAware.first_head s := by
      decide +kernel
    have hreach : Reach (WorkloadAware.call .seconds) (fun _ _ => True) (WorkloadAware.WorkloadAware_init .seconds 3) s :=
      .of_runs (fun _ _ _ => trivial) hs
    refine ⟨s, ⟨3, hreach⟩, hq, ?_⟩
    have hx : 1 ∈ s.cache.q := mem_keys.2 (by simp [hq])
    rwa [WorkloadAware.WorkloadAware_honoured_iff (WorkloadAware.inv_of_reach hreach) hx]
  · obtain ⟨s, hs, hq, ⟨t, _⟩, hto, rfl, u, hevict, hu⟩ : ∃ s,
        runs (AsymCache.call .seconds fun t => t.keys) (AsymCache.AsymCache_init .seconds 3)
        [.record_request [1], .get { obj_id := 1 }, .to_evict, .set_request_ctx 1000, .to_evict, .record_request [1],
          .set_request_ctx 1001, .record_request [2], .get { obj_id := 2 }] = some s ∧
        s.cache.q.keys = [2, 1] ∧ ∃ r, AsymCache.AsymCache_to_evict .seconds (fun t => t.keys) s = some r ∧
          r.2 = some 2 ∧ ∃ u, AsymCache.AsymCache_evict .seconds (fun t => t.keys) r.1 = some u ∧ u.cache.q.keys = [2] := by
      decide +kernel
    refine ⟨s, ⟨3, .of_runs (fun _ _ _ => trivial) hs⟩, hq, ?_⟩
    have hv : 1 ∈ s.cache.q := mem_keys.2 (by simp [hq])
    have hleft : ∀ x, x ∈ u.cache.q ↔ x ≠ 1 ∧ x ∈ s.cache.q := by
      intro x
      rw [mem_keys, mem_keys, hu, hq]
      simp only [List.mem_cons, List.not_mem_nil, or_false]
      constructor
      · rintro rfl
        exact ⟨by decide, .inl rfl⟩
      · rintro ⟨hne, rfl | rfl⟩
        · rfl
        · exact absurd rfl hne
    rw [Honoured.iff_victim hto hevict hv hleft]
    decide

theorem to_evict_honoured_met :
    (∃ s, LeCaR.Reached (.even 30) s ∧ s.q = [2, 1] ∧
      Honoured (LeCaR.LeCaR_to_evict (.even 30)) (LeCaR.LeCaR_evict (.even 30)) (fun s x => x ∈ s.q) s) ∧
    (∃ s, WorkloadAware.Reached .seconds s ∧ s.cache.q.keys = [2, 1] ∧
      Honoured (WorkloadAware.WorkloadAware_to_evict .seconds) (WorkloadAware.WorkloadAware_evict .seconds)
        (fun s x => x ∈ s.cache.q) s) ∧
    ∃ s, AsymCache.Reached .seconds (fun t => t.keys) s ∧ s.cache.q.keys = [2, 1] ∧
      Honoured (AsymCache.AsymCache_to_evict .seconds fun t => t.keys) (AsymCache.AsymCache_evict .seconds fun t => t.keys)
        (fun s x => x ∈ s.cache.q) s := by
  obtain ⟨hlecar, haware, hasym⟩ := to_evict_honoured (.even 30) .seconds .seconds (fun t => t.keys) fun _ => .refl _
  refine ⟨?_, ?_, ?_⟩
  · obtain ⟨s, hs, hq, hdraw⟩ : ∃ s, runs (LeCaR.call (.even 30)) (LeCaR.LeCaR_init (.even 30) 3 false)
        [.get { obj_id := 1 }, .get { obj_id := 1 }, .get { obj_id := 2 }] = some s ∧
        s.q = [2, 1] ∧ (LeCaR.draw (.even 30) s).1 = true := by decide +kernel
    have hreached : LeCaR.Reached (.even 30) s := ⟨3, false, .of_runs (by simp [LeCaR.Sized]) hs⟩
    exact ⟨s, hreached, hq, (hlecar s hreached (by simp [hq])).2 (.inl hdraw)⟩
  · obtain ⟨s, hs, hq, hdue⟩ : ∃ s, runs (WorkloadAware.call .seconds) (WorkloadAware.WorkloadAware_init .seconds 3)
        [.get { obj_id := 1 }, .get { obj_id := 2 }] = some s ∧
        s.cache.q.keys = [2, 1] ∧ ∀ c ∈ WorkloadAware.due s, WorkloadAware.category_head s c = WorkloadAware.first_head s := by
      decide +kernel
    have hreached : WorkloadAware.Reached .seconds s := ⟨3, .of_runs (fun _ _ _ => trivial) hs⟩
    exact ⟨s, hreached, hq, (haware s hreached (by simp [hq])).2 hdue⟩
  · obtain ⟨s, hs, hq, hfrozen⟩ : ∃ s,
        runs (AsymCache.call .seconds fun t => t.keys) (AsymCache.AsymCache_init .seconds 3)
        [.get { obj_id := 1 }, .get { obj_id := 2 }] = some s ∧ s.cache.q.keys = [2, 1] ∧ s.frozen = false := by
      decide +kernel
    have hreached : AsymCache.Reached .seconds (fun t => t.keys) s := ⟨3, .of_runs (fun _ _ _ => trivial) hs⟩
    exact ⟨s, hreached, hq, hasym s hreached (by simp [hq]) (.inl hfrozen)⟩

end CacheSim
