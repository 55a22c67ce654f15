import CacheSim.Lru
import CacheSim.Shards.Model
import CacheSim.SplayTree.Proofs
import Mathlib.Algebra.Order.BigOperators.Group.Finset

/-!
# SHARDS that samples everything

At rate 1 the tree holds the last time of every object with its size, in the order of recency, so that the sum
from a time on is the byte distance.
-/

namespace CacheSim.Shards

open Lib Splay List Option Finset Nat Profiler

variable {p : Profiler} {size : ObjId → Nat} {past : List ObjId} {s : State} {x : ObjId}

/-! ## The tree -/

def time (past : List ObjId) (x : ObjId) : Int := ((last_idx past x).getD 0 : Nat) + 1

def timeline (size : ObjId → Nat) (past : List ObjId) : List (Int × UInt64) :=
  (recency past).reverse.map fun x => (time past x, UInt64.ofNat (size x))

theorem time_le (past : List ObjId) (hx : x ∈ past) : time past x ≤ past.length := by
  obtain ⟨i, hi⟩ := isSome_iff_exists.1 (last_idx_isSome.2 hx)
  have := last_idx_lt hi
  rw [time, hi, getD_some]
  omega

theorem time_concat (past : List ObjId) (x y : ObjId) :
    time (past ++ [x]) y = if x = y then (past.length : Int) + 1 else time past y := by
  unfold time
  rw [last_idx_concat]
  split_ifs <;> rfl

theorem timeline_split (size : ObjId → Nat) (hx : x ∈ past) : ∃ l1 l2, recency past = l1 ++ x :: l2 ∧ x ∉ l1 ∧ x ∉ l2 ∧
    timeline size past = l2.reverse.map (fun y => (time past y, UInt64.ofNat (size y))) ++
      (time past x, UInt64.ofNat (size x)) :: l1.reverse.map fun y => (time past y, UInt64.ofNat (size y)) := by
  obtain ⟨l1, l2, hl, hx1⟩ := eq_append_cons_of_mem (mem_recency.2 hx)
  have hnodup := nodup_recency past
  rw [hl] at hnodup
  refine ⟨l1, l2, hl, hx1, ?_, ?_⟩
  · exact (nodup_cons.1 (nodup_append.1 hnodup).2.1).1
  · simp [timeline, hl]

theorem timeline_concat (size : ObjId → Nat) (past : List ObjId) (x : ObjId) :
    timeline size (past ++ [x]) = ((recency past).erase x).reverse.map (fun y => (time past y, UInt64.ofNat (size y))) ++
      [((past.length : Int) + 1, UInt64.ofNat (size x))] := by
  unfold timeline
  rw [recency_concat, reverse_cons, map_append, List.map_singleton, time_concat, if_pos rfl]
  congr 1
  apply map_congr_left
  intro y hy
  rw [mem_reverse, (nodup_recency past).mem_erase_iff] at hy
  rw [time_concat, if_neg (Ne.symm hy.1)]

theorem sum_map_ofNat (w : ObjId → Nat) (l : List ObjId) : (l.map fun y => UInt64.ofNat (w y)).sum = UInt64.ofNat (l.map w).sum := by
  induction l with
  | nil => rfl
  | cons y l ih => rw [List.map_cons, List.map_cons, List.sum_cons, List.sum_cons, ih, UInt64.ofNat_add]

variable {tree : SplayTree Int UInt64}

theorem getDistance_timeline (h : tree.Holds (timeline size past)) (hx : x ∈ past) :
    tree.getDistance (time past x) = UInt64.ofNat (∑ y ∈ insert x (since past x).toFinset, size y) := by
  obtain ⟨l1, l2, hl, hx1, -, htimeline⟩ := timeline_split size hx
  have hsorted := h.sorted
  rw [htimeline] at hsorted
  have hsum := sum_takeWhile_recency hx size
  rw [hl, takeWhile_ne_append hx1] at hsum
  obtain ⟨-, -, hlt, hgt⟩ := hsorted.parts
  have hfilter : (timeline size past).filter (fun e => time past x ≤ e.1) =
      (time past x, UInt64.ofNat (size x)) :: l1.reverse.map fun y => (time past y, UInt64.ofNat (size y)) := by
    rw [htimeline, filter_append, List.filter_cons_of_pos (by simp)]
    rw [filter_eq_nil_iff.2 fun a ha => by simpa using hlt a ha, List.filter_eq_self.2 fun a ha => by simpa using (hgt a ha).le]
    rfl
  rw [h.getDistance, hfilter, sum_insert (by simpa using notMem_since past x), ← hsum, List.map_cons, List.sum_cons, List.map_map]
  have hrev : (l1.reverse.map (Prod.snd ∘ fun y => (time past y, UInt64.ofNat (size y)))).sum = UInt64.ofNat (l1.map size).sum := by
    rw [← sum_map_ofNat, map_reverse, sum_reverse]
    rfl
  rw [hrev, UInt64.ofNat_add]

theorem insert_last {l : List ObjId} (hl : ∀ y ∈ l, y ∈ past) {v : UInt64}
    (h : tree.Holds (l.reverse.map fun y => (time past y, UInt64.ofNat (size y)))) :
    (tree.insert ((past.length : Int) + 1) v).Holds
      (l.reverse.map (fun y => (time past y, UInt64.ofNat (size y))) ++ [((past.length : Int) + 1, v)]) := by
  have hlast : ∀ a ∈ l.reverse.map fun y => (time past y, UInt64.ofNat (size y)), a.1 < (past.length : Int) + 1 := by
    intro a ha
    obtain ⟨y, hy, rfl⟩ := mem_map.1 ha
    have := time_le past (hl y (mem_reverse.1 hy))
    omega
  obtain ⟨hb, ha⟩ := below_all hlast
  have hins := h.insert (fun a ha => (hlast a ha).ne) v
  rwa [hb, ha] at hins

theorem insert_new (h : tree.Holds (timeline size past)) (hx : x ∉ past) :
    (tree.insert ((past.length : Int) + 1) (UInt64.ofNat (size x))).Holds (timeline size (past ++ [x])) := by
  have herase : (recency past).erase x = recency past := erase_of_not_mem fun hmem => hx (mem_recency.1 hmem)
  rw [timeline_concat, herase]
  exact insert_last (fun y hy => mem_recency.1 hy) h

theorem insert_again (h : tree.Holds (timeline size past)) (hx : x ∈ past) (hlen : (recency past).length ≤ 2 ^ 32) :
    ∃ t, tree.erase (time past x) = some t ∧
      (t.insert ((past.length : Int) + 1) (UInt64.ofNat (size x))).Holds (timeline size (past ++ [x])) := by
  obtain ⟨l1, l2, hl, hx1, -, htimeline⟩ := timeline_split size hx
  have hmem : (time past x, UInt64.ofNat (size x)) ∈ timeline size past := by
    rw [htimeline]
    simp
  obtain ⟨t, herase, ht⟩ := h.erase hmem (by simpa [timeline] using hlen)
  have hsorted := h.sorted
  rw [htimeline] at ht hsorted
  obtain ⟨hb, ha⟩ := hsorted.split_at
  rw [hb, ha, ← map_append, ← reverse_append] at ht
  have herased : (recency past).erase x = l1 ++ l2 := by
    rw [hl, erase_append_right _ hx1, erase_cons_head]
  refine ⟨t, herase, ?_⟩
  rw [timeline_concat, herased]
  apply insert_last _ ht
  intro y hy
  rw [← herased] at hy
  exact mem_recency.1 (mem_of_mem_erase hy)

/-! ## The arithmetic at rate 1 -/

section

variable (hrate : p.params.sample_rate = 1)
include hrate

theorem scale_natCast (n : Nat) : p.scale n = round53 n := by
  rw [Profiler.scale, hrate, div_one, to_double_natCast, to_double_natCast, round53_round53]

theorem scale_one : p.scale 1 = 1 := by
  have h := scale_natCast hrate 1
  exact_mod_cast h

theorem sampled_all (req : Request) :
    (p.get_hash_value_int_64_with_salt req.obj_id).toNat ≤ p.sample_max := by
  have := (p.get_hash_value_int_64_with_salt req.obj_id).toNat_lt
  rw [Profiler.sample_max, if_pos (by rw [hrate])]
  omega

end

theorem to_size_t_natCast (casts : Casts) {n : Nat} (h : n < 2 ^ 64) : casts.to_size_t n = n := by
  rw [casts.size_t_eq n (cast_nonneg n) (by exact_mod_cast h)]
  simp

theorem to_int64_natCast (casts : Casts) {n : Nat} (h : n < 2 ^ 63) : casts.to_int64 n = n := by
  have hnonneg : (0 : ℚ) ≤ n := cast_nonneg n
  rw [casts.int64_eq n (by linarith) (by exact_mod_cast h), if_pos hnonneg, Int.floor_natCast]

theorem to_double_add_one {n : Nat} (h : n + 1 ≤ 2 ^ 53) : to_double (n + 1) = n + 1 := by
  exact_mod_cast to_double_of_le h

theorem ofInt_natCast (n : Nat) : UInt64.ofInt n = UInt64.ofNat n := by
  rw [UInt64.ofInt, ← UInt64.toNat_inj, UInt64.toNat_ofNat', UInt64.toNat_ofNat']
  omega

/-! ## A request -/

/-- What keeps the counters exact: the counts in `double`, the number of nodes in 32 bits, and the sums in 64 bits with
room for the rounding. -/
structure Bounded (size : ObjId → Nat) (ids : List ObjId) : Prop where
  requests : ids.length ≤ 2 ^ 53
  objects : ids.toFinset.card ≤ 2 ^ 32
  bytes : ∑ x ∈ ids.toFinset, size x < 2 ^ 64 - 2 ^ 10

variable {ids : List ObjId}

theorem Bounded.of_append (h : Bounded size (past ++ ids)) : Bounded size past := by
  have hsub : past.toFinset ⊆ (past ++ ids).toFinset := by simp
  refine ⟨?_, (card_le_card hsub).trans h.objects, (sum_le_sum_of_subset hsub).trans_lt h.bytes⟩
  have := h.requests
  rw [length_append] at this
  omega

theorem Bounded.length_recency (h : Bounded size past) : (recency past).length ≤ 2 ^ 32 := by
  rw [← toFinset_card_of_nodup (nodup_recency past), toFinset_recency]
  exact h.objects

theorem insert_since_subset (hx : x ∈ past) : insert x (since past x).toFinset ⊆ past.toFinset := by
  intro y hy
  rw [mem_insert, List.mem_toFinset] at hy
  rw [List.mem_toFinset]
  rcases hy with rfl | hy
  · exact hx
  · exact mem_reverse.1 ((takeWhile_sublist _).subset hy)

theorem Bounded.dist_lt (h : Bounded size past) (hx : x ∈ past) : ∑ y ∈ insert x (since past x).toFinset, size y < 2 ^ 64 - 2 ^ 10 :=
  (sum_le_sum_of_subset (insert_since_subset hx)).trans_lt h.bytes

def Profiler.bucket (p : Profiler) (dist : Nat) : Nat := lower_bound p.mrc_size_vec (round53 dist)

def Profiler.hits_in (p : Profiler) (dists : List (Option Nat)) (j : Nat) : Nat := dists.countP fun d => d.any fun d => p.bucket d = j

def byte_dists (size : ObjId → Nat) (trace : List ObjId) : List (Option Nat) := along (weighed_dist size) [] trace

structure Inv (p : Profiler) (size : ObjId → Nat) (past : List ObjId) (s : State) : Prop where
  n_req : s.n_req_ = UInt64.ofNat past.length
  sampled_cnt : s.sampled_cnt = past.length
  current_time : s.current_time = past.length
  lookup : ∀ x, s.last_access_time_map.lookup x = (last_idx past x).map fun i : Nat => (i : Int) + 1
  tree : s.rd_tree.Holds (timeline size past)
  hits : s.local_hit_cnt_vec = (List.range p.mrc_size_vec.length).map fun j => (p.hits_in (byte_dists size past) j : ℚ)
  sizes : s.local_hit_size_vec.length = p.mrc_size_vec.length

theorem byte_dists_concat (size : ObjId → Nat) (past : List ObjId) (x : ObjId) :
    byte_dists size (past ++ [x]) = byte_dists size past ++ [weighed_dist size past x] := along_concat _ _ _ _

theorem length_along {β : Type} (f : List ObjId → ObjId → β) (past l : List ObjId) : (along f past l).length = l.length := by
  induction l generalizing past with
  | nil => rfl
  | cons x l ih => simp [along, ih]

theorem hits_in_le (p : Profiler) (size : ObjId → Nat) (past : List ObjId) (j : Nat) :
    p.hits_in (byte_dists size past) j ≤ past.length :=
  countP_le_length.trans (length_along _ _ _).le

theorem hits_in_concat (p : Profiler) (dists : List (Option Nat)) (d : Option Nat) (j : Nat) :
    p.hits_in (dists ++ [d]) j = p.hits_in dists j + if d.any fun d => p.bucket d = j then 1 else 0 := by
  rw [Profiler.hits_in, countP_append, countP_singleton]
  rfl

variable {dists : List (Option Nat)}

theorem modify_hits {d k n : Nat} (hk : p.bucket d = k) (hle : p.hits_in dists k + 1 ≤ 2 ^ 53) :
    ((List.range n).map fun j => (p.hits_in dists j : ℚ)).modify k (fun v => to_double (v + 1)) =
      (List.range n).map fun j => (p.hits_in (dists ++ [some d]) j : ℚ) := by
  apply ext_getElem
  · simp
  intro i h1 h2
  rw [getElem_modify]
  simp only [getElem_map, getElem_range, hits_in_concat, any_some, hk, decide_eq_true_iff]
  split_ifs with hki
  · subst hki
    rw [to_double_add_one hle]
    push_cast
    rfl
  · simp

theorem count_hit_spec (hrate : p.params.sample_rate = 1) (hasc : p.mrc_size_vec.Pairwise (· ≤ ·))
    (hpoints : p.mrc_size_vec.length ≤ 2 ^ 31) (hlen : dists.length + 1 ≤ 2 ^ 53) (d : Nat) (obj_size : Int)
    (hhits : s.local_hit_cnt_vec = (List.range p.mrc_size_vec.length).map fun j => (p.hits_in dists j : ℚ))
    (hsizes : s.local_hit_size_vec.length = p.mrc_size_vec.length) :
    ∃ cnt_vec size_vec, p.count_hit s (round53 d) obj_size = some { s with local_hit_cnt_vec := cnt_vec, local_hit_size_vec := size_vec } ∧
      cnt_vec = (List.range p.mrc_size_vec.length).map (fun j => (p.hits_in (dists ++ [some d]) j : ℚ)) ∧
      size_vec.length = p.mrc_size_vec.length := by
  have hle : lower_bound p.mrc_size_vec (round53 d) ≤ p.mrc_size_vec.length := lower_bound_le_length hasc _
  unfold Profiler.count_hit
  dsimp only
  split_ifs with hend
  · -- the distance is above all sizes
    refine ⟨s.local_hit_cnt_vec, s.local_hit_size_vec, rfl, ?_, hsizes⟩
    rw [hhits]
    apply map_congr_left
    intro j hj
    have hj' : p.bucket d ≠ j := by
      rw [Profiler.bucket, hend]
      exact (List.mem_range.1 hj).ne'
    simp [hits_in_concat, hj']
  · have hlt : lower_bound p.mrc_size_vec (round53 d) < p.mrc_size_vec.length := lt_of_le_of_ne hle hend
    have hidx : ((lower_bound p.mrc_size_vec (round53 d) : Nat) : Int).bmod (2 ^ 32) =
      (lower_bound p.mrc_size_vec (round53 d) : Nat) := by
      apply Int.bmod_eq_of_le <;> omega
    have hcnt : add_at s.local_hit_cnt_vec (lower_bound p.mrc_size_vec (round53 d) : Nat) 1 =
        some (s.local_hit_cnt_vec.modify (lower_bound p.mrc_size_vec (round53 d)) fun v => to_double (v + 1)) := by
      rw [add_at, if_pos ⟨Int.natCast_nonneg _, by rw [hhits, length_map, length_range]; exact_mod_cast hlt⟩, Int.toNat_natCast]
    have hsize : add_at s.local_hit_size_vec (lower_bound p.mrc_size_vec (round53 d) : Nat) (p.scale obj_size) =
        some (s.local_hit_size_vec.modify (lower_bound p.mrc_size_vec (round53 d)) fun v => to_double (v + p.scale obj_size)) := by
      rw [add_at, if_pos ⟨Int.natCast_nonneg _, by rw [hsizes]; exact_mod_cast hlt⟩, Int.toNat_natCast]
    rw [hidx, scale_one hrate, hcnt, hsize]
    refine ⟨_, _, rfl, ?_, ?_⟩
    · rw [hhits]
      have hcount : p.hits_in dists (lower_bound p.mrc_size_vec (round53 d)) ≤ dists.length := countP_le_length
      exact modify_hits rfl (by omega)
    · rw [length_modify, hsizes]

structure Between (p : Profiler) (size : ObjId → Nat) (past : List ObjId) (x : ObjId) (s : State) : Prop where
  n_req : s.n_req_ = UInt64.ofNat (past.length + 1)
  sampled_cnt : s.sampled_cnt = past.length + 1
  current_time : s.current_time = past.length + 1
  lookup : ∀ y, s.last_access_time_map.lookup y = (last_idx (past ++ [x]) y).map fun i : Nat => (i : Int) + 1
  tree : s.rd_tree.Holds (timeline size (past ++ [x]))
  hits : s.local_hit_cnt_vec = (List.range p.mrc_size_vec.length).map fun j => (p.hits_in (byte_dists size past) j : ℚ)
  sizes : s.local_hit_size_vec.length = p.mrc_size_vec.length

theorem Between.inv (h : Between p size past x s) {cnt_vec size_vec : List ℚ}
    (hcnt : cnt_vec = (List.range p.mrc_size_vec.length).map fun j => (p.hits_in (byte_dists size (past ++ [x])) j : ℚ))
    (hsize : size_vec.length = p.mrc_size_vec.length) :
    Inv p size (past ++ [x]) { s with local_hit_cnt_vec := cnt_vec, local_hit_size_vec := size_vec } where
  __ := h
  n_req := by simpa using h.n_req
  sampled_cnt := by simpa using h.sampled_cnt
  current_time := by simpa using h.current_time
  hits := hcnt
  sizes := hsize

theorem Inv.lookup_insert (h : Inv p size past s) (x y : ObjId) :
    (s.last_access_time_map.insert x ((past.length : Int) + 1)).lookup y =
      (last_idx (past ++ [x]) y).map fun i : Nat => (i : Int) + 1 := by
  rw [last_idx_concat]
  split_ifs with hxy
  · rw [hxy, AList.lookup_insert, map_some]
  · rw [AList.lookup_insert_ne (Ne.symm hxy), h.lookup]

theorem Inv.between (h : Inv p size past s) (hrate : p.params.sample_rate = 1) (hlen : past.length + 1 ≤ 2 ^ 53)
    {tree : SplayTree Int UInt64} (htree : tree.Holds (timeline size (past ++ [x]))) (sum_obj_size_req : UInt64) (sampled_size : ℚ) :
    Between p size past x { s with
      n_req_ := s.n_req_ + 1
      sum_obj_size_req := sum_obj_size_req
      current_time := s.current_time + 1
      sampled_cnt := to_double (s.sampled_cnt + p.scale 1)
      sampled_size := sampled_size
      last_access_time_map := s.last_access_time_map.insert x (s.current_time + 1)
      rd_tree := tree } where
  __ := h
  n_req := by
    rw [h.n_req, UInt64.ofNat_add]
    rfl
  sampled_cnt := by
    rw [h.sampled_cnt, scale_one hrate, to_double_add_one hlen]
  current_time := by
    rw [h.current_time]
  lookup := by
    rw [h.current_time]
    exact h.lookup_insert x
  tree := htree

theorem Inv.step (hrate : p.params.sample_rate = 1) (hasc : p.mrc_size_vec.Pairwise (· ≤ ·)) (hpoints : p.mrc_size_vec.length ≤ 2 ^ 31)
    (h : Inv p size past s) {req : Request} (hsize : req.obj_size = size req.obj_id) (hbound : Bounded size (past ++ [req.obj_id])) :
    ∃ s', p.step s req = some s' ∧ Inv p size (past ++ [req.obj_id]) s' := by
  have hlen := hbound.requests
  rw [length_append, length_singleton] at hlen
  have hpast := hbound.of_append
  have hval : UInt64.ofInt req.obj_size = UInt64.ofNat (size req.obj_id) := by rw [hsize, ofInt_natCast]
  unfold Profiler.step
  rw [if_pos (sampled_all hrate req)]
  unfold Profiler.sampled
  dsimp only
  rw [h.lookup, hval, h.current_time]
  by_cases hx : req.obj_id ∈ past
  · obtain ⟨i, hi⟩ := isSome_iff_exists.1 (last_idx_isSome.2 hx)
    have htime : (i : Int) + 1 = time past req.obj_id := by
      rw [time, hi]
      rfl
    obtain ⟨t, herase, htree⟩ := insert_again h.tree hx hpast.length_recency
    have hdist := hpast.dist_lt hx
    have hdist' : p.casts.to_size_t (p.scale (s.rd_tree.getDistance (time past req.obj_id)).toNat) =
        round53 (∑ y ∈ insert req.obj_id (since past req.obj_id).toFinset, size y) := by
      rw [getDistance_timeline h.tree hx, UInt64.toNat_ofNat_of_lt' (by simp only [UInt64.size]; omega), scale_natCast hrate,
        to_size_t_natCast _ (round53_lt hdist)]
    rw [hi, map_some, htime]
    dsimp only
    rw [hdist', herase]
    have hmid := h.between hrate hlen htree (s.sum_obj_size_req + UInt64.ofNat (size req.obj_id))
      (to_double (s.sampled_size + p.scale req.obj_size))
    rw [h.current_time] at hmid
    have hlen' : (byte_dists size past).length + 1 ≤ 2 ^ 53 := by rwa [byte_dists, length_along]
    obtain ⟨cnt_vec, size_vec, hcount, hcnt, hvec⟩ := count_hit_spec hrate hasc hpoints hlen' _ req.obj_size hmid.hits hmid.sizes
    refine ⟨_, hcount, hmid.inv ?_ hvec⟩
    rw [hcnt, byte_dists_concat, weighed_dist, if_pos hx]
  · have hnone : last_idx past req.obj_id = none := by
      rwa [← not_isSome_iff_eq_none, last_idx_isSome]
    rw [hnone, map_none]
    have hmid := h.between hrate hlen (insert_new h.tree hx) (s.sum_obj_size_req + UInt64.ofNat (size req.obj_id))
      (to_double (s.sampled_size + p.scale req.obj_size))
    rw [h.current_time] at hmid
    refine ⟨_, rfl, hmid.inv ?_ hmid.sizes⟩
    rw [byte_dists_concat, weighed_dist, if_neg hx]
    simp only [hits_in_concat]
    exact h.hits

/-! ## A trace -/

theorem init_inv (p : Profiler) (size : ObjId → Nat) : Inv p size [] p.init where
  n_req := rfl
  sampled_cnt := rfl
  current_time := rfl
  lookup := by simp [Profiler.init, last_idx]
  tree := SplayTree.holds_empty
  hits := by
    apply ext_getElem
    · simp [Profiler.init]
    · simp [Profiler.init, Profiler.hits_in, byte_dists, along]
  sizes := length_replicate

theorem runs_step (hrate : p.params.sample_rate = 1) (hasc : p.mrc_size_vec.Pairwise (· ≤ ·))
    (hpoints : p.mrc_size_vec.length ≤ 2 ^ 31)
    (reqs : List Request) (hsize : ∀ r ∈ reqs, r.obj_size = size r.obj_id) (hbound : Bounded size (Lru.ids reqs)) :
    ∃ s, runs p.step p.init reqs = some s ∧ Inv p size (Lru.ids reqs) s := by
  induction reqs using List.reverseRecOn with
  | nil => exact ⟨_, rfl, init_inv p size⟩
  | append_singleton reqs req ih =>
    have hids : Lru.ids (reqs ++ [req]) = Lru.ids reqs ++ [req.obj_id] := by simp [Lru.ids]
    rw [hids] at hbound ⊢
    obtain ⟨s, hrun, hinv⟩ := ih (fun r hr => hsize r (by simp [hr])) hbound.of_append
    obtain ⟨s', hstep, hinv'⟩ := hinv.step hrate hasc hpoints (hsize req (by simp)) hbound
    refine ⟨s', ?_, hinv'⟩
    rw [runs_append, hrun]
    simp [runs_cons, hstep]

theorem accumulate_natCast (p : Profiler) (a : Nat) (ns : List Nat) (h : a + ns.sum ≤ 2 ^ 53) {i : Nat} (hi : i < ns.length) :
    (p.accumulate a (ns.map fun n : Nat => (n : ℚ)))[i]? = some ((a + (ns.take (i + 1)).sum : Nat) : Int) := by
  induction ns generalizing a i with
  | nil => cases hi
  | cons n ns ih =>
    rw [List.sum_cons] at h
    have hacc : p.casts.to_int64 (to_double (to_double ((a : Int) : ℚ) + n)) = (a + n : Nat) := by
      rw [Int.cast_natCast, to_double_of_le (by omega), ← cast_add, to_double_of_le (by omega), to_int64_natCast _ (by omega)]
    rw [List.map_cons, Profiler.accumulate, hacc]
    cases i with
    | zero => simp
    | succ i =>
      rw [getElem?_cons_succ, ih (a + n) (by omega) (lt_of_succ_lt_succ hi), take_succ_cons, List.sum_cons, add_assoc]

theorem sum_range_ite (b k : Nat) : ((List.range k).map fun j => if b = j then 1 else 0).sum = if b < k then 1 else 0 := by
  induction k with
  | zero => rfl
  | succ k ih =>
    rw [range_succ, map_append, List.sum_append_nat, ih, List.map_singleton, List.sum_singleton]
    split_ifs <;> omega

theorem sum_hits_in (p : Profiler) (dists : List (Option Nat)) (k : Nat) :
    ((List.range k).map (p.hits_in dists)).sum = dists.countP fun d => d.any fun d => p.bucket d < k := by
  induction dists with
  | nil =>
    have hzero : p.hits_in [] = fun _ => 0 := rfl
    simp [hzero]
  | cons d dists ih =>
    have hcons : p.hits_in (d :: dists) = fun j => p.hits_in dists j + if d.any fun d => p.bucket d = j then 1 else 0 := by
      funext j
      rw [Profiler.hits_in, countP_cons]
      rfl
    have hone : ((List.range k).map fun j => if d.any fun d => p.bucket d = j then 1 else 0).sum =
        if d.any fun d => p.bucket d < k then 1 else 0 := by
      cases d with
      | none => simp
      | some d =>
        simp only [any_some, decide_eq_true_iff]
        exact sum_range_ite _ _
    rw [hcons, sum_map_add, ih, hone, countP_cons]

theorem add_at_zero {ns : List Nat} (hne : 0 < ns.length) (hle : ∀ n ∈ ns, n ≤ 2 ^ 53) :
    add_at (ns.map fun n : Nat => (n : ℚ)) 0 0 = some (ns.map fun n : Nat => (n : ℚ)) := by
  obtain ⟨n, ns, rfl⟩ := exists_cons_of_length_pos hne
  have hn : to_double n = n := to_double_of_le (hle n mem_cons_self)
  rw [add_at, if_pos (by simp)]
  simp [hn]

theorem hits_of_run (hrate : p.params.sample_rate = 1) (hasc : p.mrc_size_vec.Pairwise (· ≤ ·))
    (hpoints : p.mrc_size_vec.length ≤ 2 ^ 31)
    (first : Request) (rest : List Request) (hsize : ∀ r ∈ first :: rest, r.obj_size = size r.obj_id)
    (hbound : Bounded size (Lru.ids (first :: rest))) (hne : 0 < p.mrc_size_vec.length) :
    ∃ r, p.fixed_sample_rate_run first rest = some r ∧ ∀ i (hi : i < p.mrc_size_vec.length),
      r.hit_cnt_vec[i]? = some (((byte_dists size (Lru.ids (first :: rest))).countP fun d =>
        d.any (round53 · ≤ p.mrc_size_vec[i]) : Nat) : Int) := by
  obtain ⟨s, hrun, hinv⟩ := runs_step hrate hasc hpoints _ hsize hbound
  generalize Lru.ids (first :: rest) = ids at hinv hbound ⊢
  have hlen := hbound.requests
  have hdists : (byte_dists size ids).length = ids.length := length_along _ _ _
  have hvec : s.local_hit_cnt_vec = ((List.range p.mrc_size_vec.length).map
    (p.hits_in (byte_dists size ids))).map fun n : Nat => (n : ℚ) := by
    rw [hinv.hits, List.map_map]
    rfl
  have hadjust : to_double (to_double s.n_req_.toNat - s.sampled_cnt) = 0 := by
    rw [hinv.n_req, hinv.sampled_cnt, UInt64.toNat_ofNat_of_lt' (by simp only [UInt64.size]; omega), to_double_of_le hlen, sub_self]
    exact_mod_cast to_double_of_le (zero_le _)
  have hcnt : add_at s.local_hit_cnt_vec 0 (to_double (to_double s.n_req_.toNat - s.sampled_cnt)) = some s.local_hit_cnt_vec := by
    rw [hadjust, hvec]
    apply add_at_zero
    · simpa using hne
    · intro n hn
      obtain ⟨j, -, rfl⟩ := mem_map.1 hn
      exact (hits_in_le p size ids j).trans hlen
  have hbytes : ∃ vec, add_at s.local_hit_size_vec 0 (to_double (to_double s.sum_obj_size_req.toNat - s.sampled_size)) = some vec := by
    rw [add_at, if_pos ⟨le_rfl, by rw [hinv.sizes]; exact_mod_cast hne⟩]
    exact ⟨_, rfl⟩
  obtain ⟨vec, hbytes⟩ := hbytes
  refine ⟨_, by rw [Profiler.fixed_sample_rate_run, hrun]; simp only [bind_eq_bind, bind_some, hcnt, hbytes]; rfl, ?_⟩
  intro i hi
  have htotal : 0 + ((List.range p.mrc_size_vec.length).map (p.hits_in (byte_dists size ids))).sum ≤ 2 ^ 53 := by
    rw [zero_add, sum_hits_in]
    exact countP_le_length.trans (hdists.le.trans hlen)
  have hget := accumulate_natCast p 0 _ htotal (by simpa using hi)
  rw [← hvec, ← map_take, take_range, min_eq_left hi, sum_hits_in, zero_add] at hget
  refine Eq.trans hget ?_
  congr 2
  apply countP_congr
  intro d _
  cases d with
  | none => rfl
  | some d =>
    simp only [any_some, decide_eq_true_iff, Nat.lt_succ_iff]
    exact lower_bound_le_iff hasc hi

/-! ## The distances -/

theorem countP_round53 {n : Nat} (h : n < 2 ^ 53 ∨ ∀ d, some d ∈ dists → d ≤ 2 ^ 53) :
    (dists.countP fun d => d.any (round53 · ≤ n)) = dists.countP fun d => d.any (· ≤ n) := by
  apply countP_congr
  intro d hd
  cases d with
  | none => rfl
  | some d =>
    simp only [any_some, decide_eq_true_iff]
    rcases h with hn | hd'
    · exact round53_le_iff hn
    · rw [round53_of_le (hd' d hd)]

theorem byte_dists_unit (hunit : ∀ x ∈ ids, size x = 1) :
    byte_dists size ids = (stack_dists ids).map (Option.map (· + 1)) := by
  rw [stack_dists, map_along, byte_dists]
  apply along_eq_iff.2
  intro l1 x l2 hids
  rw [nil_append, weighed_dist, stack_dist]
  split_ifs with hx
  · have hone : ∀ y ∈ insert x (since l1 x).toFinset, size y = 1 := by
      intro y hy
      apply hunit
      rw [hids]
      exact mem_append_left _ (List.mem_toFinset.1 (insert_since_subset hx hy))
    rw [sum_congr rfl hone, ← card_eq_sum_ones, card_insert_of_notMem (by simpa using notMem_since l1 x)]
    rfl
  · rfl

theorem Bounded.stack_dist_lt (h : Bounded size ids) {d : Nat} (hd : some d ∈ stack_dists ids) : d < 2 ^ 32 := by
  obtain ⟨l1, x, l2, hids, hdist⟩ := mem_along.1 hd
  rw [nil_append, stack_dist] at hdist
  split_ifs at hdist with hx
  have hcard := card_le_card (insert_since_subset hx)
  rw [card_insert_of_notMem (by simpa using notMem_since l1 x), some.inj hdist] at hcard
  have hobjects := (hids ▸ h).of_append.objects
  omega

theorem hits_unit (h : Bounded size ids) (hunit : ∀ x ∈ ids, size x = 1) (n : Nat) :
    Lru.hits (Lru.LRU_init n false) ids = some ((byte_dists size ids).countP fun d => d.any (round53 · ≤ n)) := by
  have hsmall : ∀ d, some d ∈ byte_dists size ids → d ≤ 2 ^ 53 := by
    intro d hd
    rw [byte_dists_unit hunit, List.mem_map] at hd
    obtain ⟨k, hk, hkd⟩ := hd
    obtain ⟨k, rfl, rfl⟩ := map_eq_some_iff.1 hkd
    have := h.stack_dist_lt hk
    omega
  rw [Lru.hits_eq, countP_round53 (.inr hsmall), byte_dists_unit hunit, countP_map]
  congr 1
  apply countP_congr
  intro d _
  cases d with
  | none => rfl
  | some d =>
    simp only [any_some, decide_eq_true_iff, Function.comp_apply, map_some]
    exact lt_iff_add_one_le

/-- At rate 1 the profiler counts the requests whose byte distance, as a `double`, is at most the size. -/
theorem shards_rate_one (hrate : p.params.sample_rate = 1) (hasc : p.mrc_size_vec.Pairwise (· ≤ ·))
    (hpoints : p.mrc_size_vec.length ≤ 2 ^ 31)
    (first : Request) (rest : List Request) (hsize : ∀ r ∈ first :: rest, r.obj_size = size r.obj_id)
    (hbound : Bounded size (Lru.ids (first :: rest))) :
    ∀ i (hi : i < p.mrc_size_vec.length), ∃ (r : Result) (hit_cnt : Nat),
      p.fixed_sample_rate_run first rest = some r ∧ r.hit_cnt_vec[i]? = some (hit_cnt : Int) ∧
      hit_cnt = ((byte_dists size (Lru.ids (first :: rest))).countP fun d => d.any (round53 · ≤ p.mrc_size_vec[i])) ∧
      (p.mrc_size_vec[i] < 2 ^ 53 ∨ (∀ d, some d ∈ byte_dists size (Lru.ids (first :: rest)) → d ≤ 2 ^ 53) →
        hit_cnt = (byte_dists size (Lru.ids (first :: rest))).countP fun d => d.any (· ≤ p.mrc_size_vec[i])) ∧
      ((∀ r ∈ first :: rest, r.obj_size = 1) →
        Lru.hits (Lru.LRU_init p.mrc_size_vec[i] false) (Lru.ids (first :: rest)) = some hit_cnt) := by
  intro i hi
  obtain ⟨r, hrun, hcnt⟩ := hits_of_run hrate hasc hpoints first rest hsize hbound (zero_lt_of_lt hi)
  refine ⟨r, _, hrun, hcnt i hi, rfl, countP_round53, ?_⟩
  intro hone
  apply hits_unit hbound
  intro x hx
  obtain ⟨r, hr, rfl⟩ := List.mem_map.1 hx
  have := hsize r hr
  rw [hone r hr] at this
  exact_mod_cast this.symm

def truncated : Casts := ⟨fun q => ⌊q⌋.toNat, fun q => if 0 ≤ q then ⌊q⌋ else ⌈q⌉, fun _ _ _ => rfl, fun _ _ _ => rfl⟩

theorem shards_rate_one_of_two :
    ∃ r : Result, (Profiler.mk truncated id ⟨1, 7⟩ [20, 30]).fixed_sample_rate_run { obj_id := 1, obj_size := 10 }
      [{ obj_id := 2, obj_size := 20 }, { obj_id := 1, obj_size := 10 }, { obj_id := 2, obj_size := 20 }] =
        some r ∧ r.hit_cnt_vec[1]? = some 2 := by
  have hbound : Bounded (fun x => x * 10) (Lru.ids [{ obj_id := 1, obj_size := 10 }, { obj_id := 2, obj_size := 20 },
      { obj_id := 1, obj_size := 10 }, { obj_id := 2, obj_size := 20 }]) := ⟨by decide, by decide, by decide⟩
  obtain ⟨r, n, hrun, hcnt, hn, -⟩ := shards_rate_one (p := Profiler.mk truncated id ⟨1, 7⟩ [20, 30]) rfl (by decide) (by decide) _ _
    (by decide) hbound 1 (by decide)
  have htwo : n = 2 := by
    rw [hn]
    decide +kernel
  exact ⟨r, hrun, by rw [hcnt, htwo]; rfl⟩

/-- The distance `2 ^ 53 + 1` is taken for `2 ^ 53`. -/
theorem shards_rounds_distance :
    ∃ r : Result, (Profiler.mk truncated id ⟨1, 0⟩ [2 ^ 53]).fixed_sample_rate_run { obj_id := 1, obj_size := 2 ^ 53 + 1 }
        [{ obj_id := 1, obj_size := 2 ^ 53 + 1 }] = some r ∧ r.hit_cnt_vec[0]? = some 1 ∧
      ((byte_dists (fun _ => 2 ^ 53 + 1) [1, 1]).countP fun d => d.any (· ≤ 2 ^ 53)) = 0 := by
  have hbound : Bounded (fun _ => 2 ^ 53 + 1) (Lru.ids [{ obj_id := 1, obj_size := 2 ^ 53 + 1 },
    { obj_id := 1, obj_size := 2 ^ 53 + 1 }]) :=
    ⟨by decide, by decide, by decide⟩
  obtain ⟨r, hrun, hcnt⟩ := hits_of_run (p := Profiler.mk truncated id ⟨1, 0⟩ [2 ^ 53]) rfl (by decide) (by decide) _ _
    (by decide) hbound (by decide)
  exact ⟨r, hrun, (hcnt 0 (by decide)).trans (by decide +kernel), by decide +kernel⟩

end CacheSim.Shards
