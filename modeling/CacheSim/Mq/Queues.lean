import CacheSim.Lib.Partition
import CacheSim.Mq.Model

/-!
# The queues of MQ

What one record does to them, and then the pass of `MQ_adjust`.
-/

namespace CacheSim.Mq

open Lib List Function

def part (s : State) : Part Nat ObjId Obj := ⟨fun id => s.hashtable.lookup id, s.queues⟩

def charge (s : State) (obj : Obj) : Int := obj.obj_size + s.obj_md_size

structure Queues (s : State) : Prop where
  n_queues : 1 ≤ s.n_queues
  wf : (part s).WF Obj.queue_id
  n_bytes : ∀ k, s.queue_n_bytes k = (part s).total (charge s) k
  n_objs : ∀ k, s.queue_n_objs k = (s.queues k).length
  level : ∀ id obj, s.hashtable.lookup id = some obj → obj.queue_id ≤ MQ_queue_num s obj.freq
  expire : ∀ id obj, s.hashtable.lookup id = some obj → s.lifetime ≤ obj.expire_time ∧ obj.expire_time ≤ s.vtime + s.lifetime
  /-- no object expires before the ones that are nearer to the tail -/
  sorted : ∀ k, (s.queues k).Pairwise fun x y =>
    ∀ o p, s.hashtable.lookup x = some o → s.hashtable.lookup y = some p → p.expire_time ≤ o.expire_time

variable {s t u : State} {id x : ObjId} {obj : Obj} {k : Nat}

theorem halvings_le (n freq : Nat) : halvings n freq ≤ n := by
  induction n generalizing freq with
  | zero => exact le_rfl
  | succ n ih =>
    unfold halvings
    split_ifs
    · exact Nat.succ_le_succ (ih _)
    · exact Nat.zero_le _

theorem MQ_queue_num_lt (h : 1 ≤ s.n_queues) (freq : Nat) : MQ_queue_num s freq < s.n_queues := by
  have hle := halvings_le (s.n_queues - 1) freq
  unfold MQ_queue_num
  omega

theorem Queues.mem_iff (h : Queues s) : id ∈ s.queues k ↔ ∃ obj, s.hashtable.lookup id = some obj ∧ obj.queue_id = k :=
  (h.wf k).2 id

theorem Queues.lt_n_queues (h : Queues s) (ho : s.hashtable.lookup id = some obj) : obj.queue_id < s.n_queues :=
  (h.level id obj ho).trans_lt (MQ_queue_num_lt h.n_queues _)

theorem Queues.beside (h : Queues s) (n_req occupied_byte n_obj : Int) (Qout : Fifo Nat) (hit_on_ghost : Bool) (ghost_freq : Nat)
    (ghost_obj_id : ObjId) : Queues { s with
      n_req := n_req, occupied_byte := occupied_byte, n_obj := n_obj, Qout := Qout
      hit_on_ghost := hit_on_ghost, ghost_freq := ghost_freq, ghost_obj_id := ghost_obj_id } :=
  { h with }

/-! ## One record is written -/

structure Writes (s t : State) (id : ObjId) (x : Option Obj) : Prop where
  hashtable : (fun y => t.hashtable.lookup y) = update (fun y => s.hashtable.lookup y) id x
  queues : ∀ k, t.queues k = (if x.map Obj.queue_id = some k then [id] else []) ++ (s.queues k).erase id
  n_bytes : ∀ k, t.queue_n_bytes k = s.queue_n_bytes k - Part.share Obj.queue_id (charge s) k (s.hashtable.lookup id) +
    Part.share Obj.queue_id (charge s) k x
  n_objs : ∀ k, t.queue_n_objs k = s.queue_n_objs k - Part.share Obj.queue_id (fun _ => 1) k (s.hashtable.lookup id) +
    Part.share Obj.queue_id (fun _ => 1) k x
  n_queues : t.n_queues = s.n_queues
  obj_md_size : t.obj_md_size = s.obj_md_size
  lifetime : t.lifetime = s.lifetime
  vtime : t.vtime = s.vtime

theorem Writes.sets {x : Option Obj} (h : Writes s t id x) : Part.Sets Obj.queue_id (part s) (part t) id x :=
  ⟨h.hashtable, fun k => List.Perm.of_eq (h.queues k)⟩

theorem Writes.lookup {x : Option Obj} (h : Writes s t id x) (y : ObjId) :
    t.hashtable.lookup y = if y = id then x else s.hashtable.lookup y :=
  (congrFun h.hashtable y).trans (update_apply ..)

theorem Queues.writes (h : Queues s) {x : Option Obj} (hw : Writes s t id x)
    (hx : ∀ o, x = some o → o.queue_id ≤ MQ_queue_num s o.freq ∧ o.expire_time = s.vtime + s.lifetime ∧ 0 ≤ s.vtime) :
    Queues t := by
  have hwf := h.wf.sets hw.sets
  have hcharge : charge t = charge s := by
    funext o
    rw [charge, charge, hw.obj_md_size]
  have hnum : ∀ freq, MQ_queue_num t freq = MQ_queue_num s freq := fun freq => by rw [MQ_queue_num, MQ_queue_num, hw.n_queues]
  have hold : ∀ {y o}, t.hashtable.lookup y = some o → y = id ∧ x = some o ∨ y ≠ id ∧ s.hashtable.lookup y = some o := by
    intro y o ho
    rw [hw.lookup] at ho
    split_ifs at ho with hy
    · exact .inl ⟨hy, ho⟩
    · exact .inr ⟨hy, ho⟩
  refine ⟨hw.n_queues ▸ h.n_queues, hwf, fun k => ?_, fun k => ?_, fun y o ho => ?_, fun y o ho => ?_, fun k => ?_⟩
  · rw [hcharge, Part.total_sets (charge s) h.wf hw.sets k, hw.n_bytes, h.n_bytes]
    rfl
  · have hlen := Part.total_sets (fun _ => 1) h.wf hw.sets k
    rw [h.wf.total_one, hwf.total_one] at hlen
    rw [hw.n_objs, h.n_objs]
    exact hlen.symm
  · rw [hnum]
    rcases hold ho with ⟨-, hxo⟩ | ⟨-, ho⟩
    · exact (hx o hxo).1
    · exact h.level y o ho
  · rw [hw.vtime, hw.lifetime]
    rcases hold ho with ⟨-, hxo⟩ | ⟨-, ho⟩
    · obtain ⟨-, hexpire, hvtime⟩ := hx o hxo
      omega
    · exact h.expire y o ho
  · rw [hw.queues, pairwise_append]
    refine ⟨by split_ifs <;> simp, ?_, fun y hy z hz o p ho hp => ?_⟩
    · -- the objects that were there before have kept their records
      refine List.Pairwise.imp_of_mem (fun {y z} hy hz hyz o p ho hp => ?_) ((h.sorted k).sublist erase_sublist)
      have hy' := ((h.wf k).1.mem_erase_iff.1 hy).1
      have hz' := ((h.wf k).1.mem_erase_iff.1 hz).1
      rw [hw.lookup, if_neg hy'] at ho
      rw [hw.lookup, if_neg hz'] at hp
      exact hyz o p ho hp
    · split_ifs at hy
      · rw [mem_singleton] at hy
        subst hy
        have hz' := ((h.wf k).1.mem_erase_iff.1 hz).1
        rw [hw.lookup, if_pos rfl] at ho
        rw [hw.lookup, if_neg hz'] at hp
        have hexpire := (hx o ho).2.1
        have hp := (h.expire z p hp).2
        omega
      · cases hy

theorem share_self (w : Obj → Int) (obj : Obj) (k : Nat) :
    Part.share Obj.queue_id w k (some obj) = if obj.queue_id = k then w obj else 0 := rfl

theorem update_counter (f : Nat → Int) (q k : Nat) (n : Int) : update f q (f q + n) k = f k + if q = k then n else 0 := by
  rw [update_apply]
  split_ifs with hk hq hq
  · rw [hk]
  · exact absurd hk.symm hq
  · exact absurd hq.symm hk
  · exact (Int.add_zero _).symm

theorem link_writes (h : Queues s) (hid : s.hashtable.lookup id = none) (obj : Obj) (queue : Nat) :
    Writes s (MQ_queue_link s id obj queue) id (some { obj with queue_id := queue }) where
  hashtable := Table.lookup_insert_eq_update _ _ _
  queues k := by
    have hout : id ∉ s.queues k := h.wf.not_mem hid k
    show update s.queues queue (id :: s.queues queue) k = _
    rw [erase_of_not_mem hout, update_apply]
    rcases eq_or_ne k queue with rfl | hk
    · simp
    · simp [hk, hk.symm]
  n_bytes k := by
    rw [hid, share_self]
    show update s.queue_n_bytes queue (s.queue_n_bytes queue + charge s obj) k = s.queue_n_bytes k - 0 + _
    rw [update_counter, Int.sub_zero]
    rfl
  n_objs k := by
    rw [hid, share_self]
    show update s.queue_n_objs queue (s.queue_n_objs queue + 1) k = s.queue_n_objs k - 0 + _
    rw [update_counter, Int.sub_zero]
  n_queues := rfl
  obj_md_size := rfl
  lifetime := rfl
  vtime := rfl

theorem unlink_writes (h : Queues s) (ho : s.hashtable.lookup id = some obj) :
    Writes s { MQ_queue_unlink s id obj with hashtable := s.hashtable.erase id } id none where
  hashtable := Table.lookup_erase_eq_update _ _
  queues k := by
    show update s.queues obj.queue_id ((s.queues obj.queue_id).erase id) k = [] ++ (s.queues k).erase id
    rw [update_apply]
    split_ifs with hk
    · rw [hk, nil_append]
    · have hout : id ∉ s.queues k := by
        intro hmem
        obtain ⟨o, ho', hq⟩ := h.mem_iff.1 hmem
        cases ho.symm.trans ho'
        exact hk hq.symm
      rw [erase_of_not_mem hout, nil_append]
  n_bytes k := by
    rw [ho, share_self]
    show update s.queue_n_bytes obj.queue_id (s.queue_n_bytes obj.queue_id - charge s obj) k = s.queue_n_bytes k - _ + 0
    rw [Int.sub_eq_add_neg, update_counter]
    split_ifs <;> omega
  n_objs k := by
    rw [ho, share_self]
    show update s.queue_n_objs obj.queue_id (s.queue_n_objs obj.queue_id - 1) k = s.queue_n_objs k - _ + 0
    rw [Int.sub_eq_add_neg, update_counter]
    split_ifs <;> omega
  n_queues := rfl
  obj_md_size := rfl
  lifetime := rfl
  vtime := rfl

def frame (s : State) : State :=
  { s with hashtable := ∅, queues := fun _ => [], queue_n_bytes := fun _ => 0, queue_n_objs := fun _ => 0, vtime := 0 }

structure Relinks (s t : State) : Prop where
  queues : Queues t
  frame_eq : frame t = frame s
  mem : ∀ x, x ∈ t.hashtable ↔ x ∈ s.hashtable
  weigh : (t.hashtable.weigh fun _ obj => charge s obj) = s.hashtable.weigh fun _ obj => charge s obj
  length : t.hashtable.entries.length = s.hashtable.entries.length

theorem Relinks.refl (h : Queues s) : Relinks s s := ⟨h, rfl, fun _ => .rfl, rfl, rfl⟩

theorem Relinks.charge_eq (h : Relinks s t) : charge t = charge s := by
  funext o
  have hmd : t.obj_md_size = s.obj_md_size := (congrArg State.obj_md_size h.frame_eq :)
  rw [charge, charge, hmd]

theorem Relinks.trans (h1 : Relinks s t) (h2 : Relinks t u) : Relinks s u :=
  ⟨h2.queues, h2.frame_eq.trans h1.frame_eq, fun x => (h2.mem x).trans (h1.mem x),
    (h1.charge_eq ▸ h2.weigh).trans h1.weigh, h2.length.trans h1.length⟩

theorem relink_spec (h : Queues s) (ho : s.hashtable.lookup id = some obj) (obj' : Obj) (hvtime : 0 ≤ s.vtime)
    (hsize : obj'.obj_size = obj.obj_size) (hexpire : obj'.expire_time = s.vtime + s.lifetime) (hk : k ≤ MQ_queue_num s obj'.freq) :
    Relinks s (MQ_queue_link (MQ_queue_unlink s id obj) id obj' k) := by
  let out : State := { MQ_queue_unlink s id obj with hashtable := s.hashtable.erase id }
  have hout : Queues out := h.writes (unlink_writes h ho) nofun
  have hin : Queues (MQ_queue_link out id obj' k) :=
    hout.writes (link_writes hout (AList.lookup_erase _ _) obj' k) (by rintro _ ⟨⟩; exact ⟨hk, hexpire, hvtime⟩)
  have hsame : MQ_queue_link out id obj' k = MQ_queue_link (MQ_queue_unlink s id obj) id obj' k := by
    unfold MQ_queue_link
    rw [Table.insert_erase]
    rfl
  refine ⟨hsame ▸ hin, rfl, fun x => ?_, ?_, ?_⟩
  · refine (AList.mem_insert _).trans ⟨fun hx => ?_, .inr⟩
    rcases hx with rfl | hx
    · exact Table.mem_of_lookup ho
    · exact hx
  · have hcharge : charge s { obj' with queue_id := k } = charge s obj := by
      unfold charge
      rw [hsize]
    show Table.weigh (fun _ obj => charge s obj) (s.hashtable.insert id { obj' with queue_id := k }) = _
    rw [Table.weigh_update _ ho, hcharge]
    omega
  · exact (Table.perm_erase ho).length_eq.symm

/-! ## `MQ_adjust` -/

structure Adjusts (s t : State) : Prop extends Relinks s t where
  freq : ∀ x, (t.hashtable.lookup x).map Obj.freq = (s.hashtable.lookup x).map Obj.freq

theorem Adjusts.trans (h1 : Adjusts s t) (h2 : Adjusts t u) : Adjusts s u :=
  ⟨h1.toRelinks.trans h2.toRelinks, fun x => (h2.freq x).trans (h1.freq x)⟩

theorem adjust_queue_spec (h : Queues s) (hvtime : 0 ≤ s.vtime) (k : Nat) :
    ∃ t, adjust_queue s k = some t ∧ Adjusts s t ∧ t.vtime = s.vtime := by
  unfold adjust_queue
  rcases hlast : (s.queues k).getLast? with _ | id
  · exact ⟨s, rfl, ⟨.refl h, fun _ => rfl⟩, rfl⟩
  · obtain ⟨obj, ho, rfl⟩ := h.mem_iff.1 (mem_of_getLast? hlast)
    have hlevel := h.level id obj ho
    dsimp only
    rw [ho, Option.bind_eq_bind, Option.bind_some]
    split_ifs
    · have hrelinks := relink_spec (k := obj.queue_id - 1) h ho { obj with expire_time := s.vtime + s.lifetime } hvtime rfl rfl
        ((Nat.sub_le _ _).trans hlevel)
      refine ⟨_, rfl, ⟨hrelinks, fun x => ?_⟩, rfl⟩
      show ((s.hashtable.insert id _).lookup x).map Obj.freq = _
      rcases eq_or_ne x id with rfl | hne
      · rw [AList.lookup_insert, ho]
        rfl
      · rw [AList.lookup_insert_ne hne]
    · exact ⟨s, rfl, ⟨.refl h, fun _ => rfl⟩, rfl⟩

theorem Queues.tick (h : Queues s) : Queues { s with vtime := s.vtime + 1 } := by
  refine { h with expire := fun id obj ho => ?_ }
  obtain ⟨hlow, hhigh⟩ := h.expire id obj ho
  refine ⟨hlow, hhigh.trans ?_⟩
  show s.vtime + s.lifetime ≤ s.vtime + 1 + s.lifetime
  omega

theorem MQ_adjust_spec (h : Queues s) (hvtime : 0 ≤ s.vtime) : ∃ t, MQ_adjust s = some t ∧ Adjusts s t ∧ t.vtime = s.vtime + 1 := by
  unfold MQ_adjust
  rw [foldlM_eq_runs]
  have hbody : ∀ (u : State) (k : Nat), (Adjusts s u ∧ u.vtime = s.vtime + 1) → True →
      ∃ v, adjust_queue u k = some v ∧ Adjusts s v ∧ v.vtime = s.vtime + 1 := by
    rintro u k ⟨hu, hticked⟩ -
    obtain ⟨v, hv, hadjusts, heq⟩ := adjust_queue_spec hu.queues (by omega) k
    exact ⟨v, hv, hu.trans hadjusts, heq.trans hticked⟩
  have hstart : Adjusts s { s with vtime := s.vtime + 1 } := ⟨⟨h.tick, rfl, fun _ => .rfl, rfl, rfl⟩, fun _ => rfl⟩
  exact runs_total _ (fun _ => True) hbody _ _ (fun _ _ => trivial) ⟨hstart, rfl⟩

end CacheSim.Mq
