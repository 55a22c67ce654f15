import CacheSim.S3fifod.Model

/-!
# What S3-FIFO-d needs of its main cache

The contract, and that FIFO, LRU and Clock meet it for objects of size 1.
-/

namespace CacheSim.S3fifod

open Lib AList

variable {σ : Type}

structure Same (P : MainPolicy σ) (Inv : σ → Prop) (resident : σ → Finset ObjId) (m m' : σ) : Prop where
  inv : Inv m'
  cache_size : P.ops.cache_size m' = P.ops.cache_size m
  resident : resident m' = resident m

/-- A cache of objects of size 1 that evicts them one by one. -/
structure MainContract (P : MainPolicy σ) (Inv : σ → Prop) (resident : σ → Finset ObjId) : Prop where
  obj_md_size : ∀ m, Inv m → P.ops.obj_md_size m = 0
  occupied : ∀ m, Inv m → P.ops.get_occupied_byte m = (resident m).card
  n_obj : ∀ m, Inv m → P.n_obj m = (resident m).card
  probe : ∀ m id, Inv m → P.probe m id = decide (id ∈ resident m)
  can_insert : ∀ m req, Inv m → req.obj_size = 1 → P.ops.can_insert m req = some (m, !decide (P.ops.cache_size m < 1))
  count_req : ∀ m, Inv m → Same P Inv resident m (P.ops.count_req m)
  find : ∀ m req, Inv m → ∃ m', P.ops.find m req = some (m', decide (req.obj_id ∈ resident m)) ∧ Same P Inv resident m m'
  insert : ∀ m req, Inv m → req.obj_id ∉ resident m → req.obj_size = 1 → ∃ m', P.ops.insert m req = some m' ∧ Inv m' ∧
    P.ops.cache_size m' = P.ops.cache_size m ∧ resident m' = insert req.obj_id (resident m)
  to_evict : ∀ m, Inv m → (resident m).Nonempty → ∃ req, P.to_evict m = some req
  evict : ∀ m req, Inv m → (resident m).Nonempty → ∃ m' v, P.ops.evict m req = some m' ∧ Inv m' ∧
    P.ops.cache_size m' = P.ops.cache_size m ∧ v ∈ resident m ∧ resident m' = (resident m).erase v
  set_cache_size : ∀ m k, Inv m → Inv (P.set_cache_size m k) ∧ P.ops.cache_size (P.set_cache_size m k) = k ∧
    resident (P.set_cache_size m k) = resident m

/-! ## Queues -/

def objects {μ : Type} (c : Fifo μ) : Finset ObjId := c.q.keys.toFinset

section
variable {μ : Type} {K : Int} {c : Fifo μ}

theorem mem_objects {id : ObjId} : id ∈ objects c ↔ id ∈ c.q := List.mem_toFinset.trans mem_keys.symm

theorem isSome_lookup_eq (c : Fifo μ) (id : ObjId) : (c.q.lookup id).isSome = decide (id ∈ objects c) := by
  rw [Bool.eq_iff_iff, lookup_isSome, decide_eq_true_iff, mem_objects]

theorem card_objects (c : Fifo μ) : (objects c).card = c.q.entries.length := by
  rw [objects, List.toFinset_card_of_nodup c.q.keys_nodup, AList.keys, List.keys, List.length_map]

theorem objects_eq {c c' : Fifo μ} (h : ∀ x, x ∈ c'.q ↔ x ∈ c.q) : objects c' = objects c := by
  ext x
  rw [mem_objects, mem_objects, h]

theorem objects_insert (c : Fifo μ) (req : Request) (md : μ) : objects (c.FIFO_insert req md) = insert req.obj_id (objects c) := by
  ext x
  rw [mem_objects, Finset.mem_insert, mem_objects]
  exact mem_insert _

theorem objects_remove (c : Fifo μ) (id : ObjId) (o : FifoObj μ) : objects (c.cache_remove_obj_base id o) = (objects c).erase id := by
  ext x
  rw [mem_objects, Finset.mem_erase, mem_objects]
  exact mem_erase

theorem entries_ne_nil (h : (objects c).Nonempty) : c.q.entries ≠ [] := by
  rw [← Finset.card_pos, card_objects] at h
  exact List.ne_nil_of_length_pos h

theorem blocks_resize {K : Int} (h : Blocks K c) (k : Int) : Blocks k { c with cache_size := k } :=
  ⟨⟨h.inv.occupied, h.inv.n_obj⟩, rfl, h.md, h.unit⟩

end

theorem queue_contract (find : Fifo Unit → Request → Option (Fifo Unit × Bool))
    (hfind : ∀ c req, Blocks c.cache_size c → ∃ c', find c req = some (c', decide (req.obj_id ∈ objects c)) ∧
      Blocks c.cache_size c' ∧ objects c' = objects c) :
    MainContract (queue_policy { (Fifo.ops : CacheOps (Fifo Unit)) with find := find }) (fun c => Blocks c.cache_size c) objects where
  obj_md_size _ h := h.md
  occupied _ h := h.occupied
  n_obj c _ := (card_objects c).symm
  probe c id _ := isSome_lookup_eq c id
  can_insert := by
    intro c req h hsize
    have hmd : c.obj_md_size = 0 := h.md
    simp [queue_policy, Fifo.ops, hsize, hmd]
  count_req c h := ⟨h.count_req, rfl, rfl⟩
  find := by
    intro c req h
    obtain ⟨c', hc', hb, hsame⟩ := hfind c req h
    exact ⟨c', hc', by rwa [hb.size], hb.size, hsame⟩
  insert := by
    intro c req h hout hsize
    exact ⟨_, rfl, h.insert () (mt mem_objects.2 hout) hsize, rfl, objects_insert c req ()⟩
  to_evict := by
    intro c h hne
    exact ⟨_, congrArg (Option.map copy_cache_obj_to_request) (List.getLast?_eq_some_getLast (entries_ne_nil hne))⟩
  evict := by
    intro c req h hne
    obtain ⟨e, l, -, hlook, -, hevict, -⟩ := Fifo.FIFO_evict_charges (entries_ne_nil hne)
    exact ⟨_, e.1, hevict, h.remove hlook, rfl, mem_objects.2 (Table.mem_of_lookup hlook), objects_remove c e.1 e.2⟩
  set_cache_size c k h := ⟨blocks_resize h k, rfl, rfl⟩

theorem fifo_contract : MainContract fifo (fun c => Blocks c.cache_size c) objects := by
  apply queue_contract Fifo.ops.find
  intro c req h
  exact ⟨c, congrArg (fun b => some (c, b)) (isSome_lookup_eq c req.obj_id), h, rfl⟩

theorem lru_contract : MainContract lru (fun c => Blocks c.cache_size c) objects := by
  apply queue_contract Lru.ops.find
  intro c req h
  rw [← isSome_lookup_eq]
  cases hlook : c.q.lookup req.obj_id with
  | none => exact ⟨c, by simp [Lru.ops, Lru.LRU_find_miss hlook], h, rfl⟩
  | some o =>
    refine ⟨_, by simp [Lru.ops, Lru.LRU_find_hit hlook], h.move hlook o.md, objects_eq fun x => ?_⟩
    rw [← lookup_isSome, ← lookup_isSome]
    exact iff_of_eq (congrArg (Option.isSome · = true) (Lru.lookup_move_to_head hlook x))

theorem clock_contract : MainContract clock (fun s => Blocks s.fifo.cache_size s.fifo) fun s => objects s.fifo where
  obj_md_size _ h := h.md
  occupied _ h := h.occupied
  n_obj s _ := (card_objects s.fifo).symm
  probe s id _ := isSome_lookup_eq s.fifo id
  can_insert := by
    intro s req h hsize
    have hmd : s.fifo.obj_md_size = 0 := h.md
    simp [clock, Clock.ops, hsize, hmd]
  count_req s h := ⟨h.count_req, rfl, rfl⟩
  find := by
    intro s req h
    rw [← isSome_lookup_eq]
    cases hlook : s.fifo.q.lookup req.obj_id with
    | none => exact ⟨s, by simp [clock, Clock.ops, Clock.Clock_find, hlook], h, rfl, rfl⟩
    | some o =>
      by_cases hless : o.md < s.max_freq
      · refine ⟨{ s with fifo := s.fifo.set_md req.obj_id o (o.md + 1) },
          by simp [clock, Clock.ops, Clock.Clock_find, hlook, hless], h.set_md hlook _, rfl, objects_eq fun x => ?_⟩
        rw [mem_keys, mem_keys]
        exact iff_of_eq (congrArg (x ∈ ·) (keys_replace _ _ _))
      · exact ⟨s, by simp [clock, Clock.ops, Clock.Clock_find, hlook, hless], h, rfl, rfl⟩
  insert := by
    intro s req h hout hsize
    exact ⟨_, rfl, h.insert _ (mt mem_objects.2 hout) hsize, rfl, objects_insert s.fifo req _⟩
  to_evict := by
    intro s h hne
    obtain ⟨e, he⟩ := Clock.Clock_to_evict_some (entries_ne_nil hne)
    exact ⟨_, congrArg (Option.map copy_cache_obj_to_request) he⟩
  evict := by
    intro s req h hne
    have hkeys : s.fifo.q.keys ≠ [] := by
      obtain ⟨x, hx⟩ := hne
      exact List.ne_nil_of_mem (List.mem_toFinset.1 hx)
    obtain ⟨s', v, hevict, hv, hleft, -⟩ := Clock.Clock_evict_honours none hkeys
    have hb : Blocks s.fifo.cache_size s'.fifo := h.clock_evict hevict
    refine ⟨s', v, hevict, by rwa [hb.size], hb.size, mem_objects.2 hv, ?_⟩
    ext x
    rw [mem_objects, Finset.mem_erase, mem_objects]
    exact hleft x
  set_cache_size s k h := ⟨blocks_resize h k, rfl, rfl⟩

end CacheSim.S3fifod
