import CacheSim.Lru

/-!
# LRU lists of objects of one byte

The bytes of such a list are its objects.
-/

namespace CacheSim.Lru

open Lib List AList Table Fifo

variable {μ : Type} {c : Lru μ} {req : Request} {id x : ObjId} {o : FifoObj μ}

theorem mem_LRU_insert (md : μ) : x ∈ (c.LRU_insert req md).q ↔ x = req.obj_id ∨ x ∈ c.q := mem_insert _

theorem mem_LRU_remove : x ∈ (c.LRU_remove id).1.q ↔ x ≠ id ∧ x ∈ c.q := by
  rw [LRU_remove_q]
  exact mem_erase

theorem lookup_LRU_insert_self (req : Request) (md : μ) : (c.LRU_insert req md).q.lookup req.obj_id =
    some { obj_size := req.obj_size, md := md } :=
  lookup_insert _

theorem lookup_LRU_insert_ne (req : Request) (md : μ) (hx : x ≠ req.obj_id) : (c.LRU_insert req md).q.lookup x = c.q.lookup x :=
  lookup_insert_ne hx

theorem LRU_insert_set_md (c : Lru μ) (req : Request) (md md' : μ) :
    (c.LRU_insert req md).set_md req.obj_id { obj_size := req.obj_size, md := md } md' = c.LRU_insert req md' := by
  have hq : (c.q.insert req.obj_id { obj_size := req.obj_size, md := md }).replace req.obj_id
      { obj_size := req.obj_size, md := md' } = c.q.insert req.obj_id { obj_size := req.obj_size, md := md' } := by
    apply ext
    rw [replace_head entries_insert]
    exact entries_insert.symm
  unfold LRU_insert Fifo.FIFO_insert Fifo.set_md
  rw [hq]

structure Moved (c d : Lru μ) : Prop where
  lookup : ∀ x, d.q.lookup x = c.q.lookup x
  cache_size : d.cache_size = c.cache_size
  obj_md_size : d.obj_md_size = c.obj_md_size
  occupied_byte : d.occupied_byte = c.occupied_byte
  inv : c.Inv → d.Inv

theorem Moved.mem {d : Lru μ} (h : Moved c d) : x ∈ d.q ↔ x ∈ c.q := by
  rw [← lookup_isSome, h.lookup, lookup_isSome]

theorem LRU_find_moved (c : Lru μ) (req : Request) : Moved c (c.LRU_find req true).1 ∧
    (c.LRU_find req true).2 = c.q.lookup req.obj_id := by
  rcases hlook : c.q.lookup req.obj_id with _ | o
  · rw [LRU_find_miss hlook]
    exact ⟨⟨fun _ => rfl, rfl, rfl, rfl, fun h => h⟩, rfl⟩
  · rw [LRU_find_hit hlook]
    exact ⟨⟨lookup_move_to_head hlook, rfl, rfl, rfl, fun h => Inv.move_to_head h hlook⟩, rfl⟩

/-! ## Lists of objects of one byte -/

structure Ones (c : Lru μ) : Prop where
  inv : c.Inv
  md : c.obj_md_size = 0
  one : ∀ x o, c.q.lookup x = some o → o.obj_size = 1

namespace Ones

theorem init (K : Int) : Ones { cache_size := K : Lru μ } := ⟨init_inv K 0, rfl, fun _ _ h => nomatch h⟩

section

variable (h : Ones c)
include h

theorem occupied : c.occupied_byte = c.q.entries.length := by
  have hone : c.q.weigh (fun _ o => c.charge o) = c.q.weigh fun _ _ => 1 := by
    unfold Table.weigh
    apply congrArg
    apply map_congr_left
    intro e he
    show e.2.obj_size + c.obj_md_size = 1
    rw [h.one e.1 e.2 (lookup_of_mem_entries he), h.md]
    rfl
  rw [h.inv.occupied, hone, weigh_one]

theorem nonneg : 0 ≤ c.occupied_byte := by
  rw [h.occupied]
  exact Int.natCast_nonneg _

theorem occupied_pos (hid : id ∈ c.q) : 0 < c.occupied_byte := by
  obtain ⟨o, ho⟩ := exists_lookup hid
  have hlen := length_pos_of_mem (mem_entries_of_lookup ho)
  rw [h.occupied]
  omega

theorem exists_mem (hocc : 0 < c.occupied_byte) : ∃ x, x ∈ c.q := by
  obtain ⟨e, he⟩ := exists_mem_of_ne_nil _ (entries_ne_nil_of_occupied h.inv hocc)
  exact ⟨e.1, mem_of_lookup (lookup_of_mem_entries he)⟩

theorem resize (K : Int) : Ones { c with cache_size := K } := ⟨⟨h.inv.occupied, h.inv.n_obj⟩, h.md, h.one⟩

theorem of_moved {d : Lru μ} (hd : Moved c d) : Ones d :=
  ⟨hd.inv h.inv, hd.obj_md_size.trans h.md, fun x o hx => h.one x o ((hd.lookup x).symm.trans hx)⟩

theorem insert (hmiss : req.obj_id ∉ c.q) (hsize : req.obj_size = 1) (md : μ) : Ones (c.LRU_insert req md) := by
  refine ⟨h.inv.insert md hmiss, h.md, fun x o hx => ?_⟩
  rcases eq_or_ne x req.obj_id with rfl | hne
  · rw [lookup_LRU_insert_self] at hx
    cases hx
    exact hsize
  · rw [lookup_LRU_insert_ne req md hne] at hx
    exact h.one x o hx

theorem occupied_insert (hsize : req.obj_size = 1) (md : μ) : (c.LRU_insert req md).occupied_byte = c.occupied_byte + 1 := by
  show c.occupied_byte + (req.obj_size + c.obj_md_size) = _
  rw [hsize, h.md]
  rfl

theorem remove (id : ObjId) : Ones (c.LRU_remove id).1 := by
  refine ⟨(FIFO_remove_spec h.inv id).1, (FIFO_remove_obj_md_size id).trans h.md, fun x o hx => ?_⟩
  rw [LRU_remove, lookup_FIFO_remove] at hx
  split_ifs at hx
  exact h.one x o hx

theorem occupied_remove (hid : id ∈ c.q) : (c.LRU_remove id).1.occupied_byte = c.occupied_byte - 1 := by
  obtain ⟨o, ho⟩ := exists_lookup hid
  rw [LRU_remove, occupied_FIFO_remove ho, h.one id o ho, h.md]
  rfl

theorem set_md (ho : c.q.lookup id = some o) (md : μ) : Ones (c.set_md id o md) := by
  refine ⟨h.inv.set_md ho md, h.md, fun x p hx => ?_⟩
  rw [lookup_set_md ho] at hx
  split_ifs at hx
  · cases hx
    exact h.one id o ho
  · exact h.one x p hx

theorem evict (hocc : 0 < c.occupied_byte) : ∃ e l, c.q.entries = l ++ [e] ∧ c.LRU_to_evict = some e ∧
    c.q.lookup e.1 = some e.2 ∧ c.LRU_evict = some (c.LRU_remove e.1).1 ∧ (c.LRU_remove e.1).1.q.entries = l := by
  obtain ⟨l, e, hl⟩ := (eq_nil_or_concat' _).resolve_left (entries_ne_nil_of_occupied h.inv hocc)
  obtain ⟨hlast, hevict, hleft⟩ := LRU_evict_last hl
  have hlook := lookup_to_evict hlast
  have hremove : (c.LRU_remove e.1).1 = c.cache_remove_obj_base e.1 e.2 := by
    unfold LRU_remove Fifo.FIFO_remove
    rw [hlook]
  exact ⟨e, l, hl, hlast, hlook, by rw [hevict, hremove], by rw [hremove]; exact hleft⟩

end

end Ones

/-! ## Marked objects -/

def count (p : μ → Bool) (c : Lru μ) : Int := c.q.weigh fun _ o => if p o.md then 1 else 0

variable {p : μ → Bool}

theorem count_insert (req : Request) (hmiss : req.obj_id ∉ c.q) (md : μ) :
    count p (c.LRU_insert req md) = count p c + if p md then 1 else 0 := by
  rw [Int.add_comm]
  exact weigh_insert_of_notMem _ _ hmiss

theorem count_remove (ho : c.q.lookup id = some o) : count p (c.LRU_remove id).1 = count p c - if p o.md then 1 else 0 := by
  have hw := weigh_erase (fun _ o => if p o.md then (1 : Int) else 0) ho
  unfold count
  rw [LRU_remove_q]
  exact hw

theorem count_moved (c : Lru μ) (req : Request) : count p (c.LRU_find req true).1 = count p c := by
  rcases hlook : c.q.lookup req.obj_id with _ | o
  · rw [LRU_find_miss hlook]
  · rw [LRU_find_hit hlook]
    exact (weigh_update (fun _ o => if p o.md then (1 : Int) else 0) hlook).trans (Int.sub_add_cancel ..)

theorem count_nonneg : 0 ≤ count p c := by
  apply sum_nonneg
  intro n hn
  obtain ⟨e, -, rfl⟩ := mem_map.1 hn
  dsimp only
  split_ifs <;> decide

theorem count_pos (ho : c.q.lookup id = some o) (hp : p o.md = true) : 0 < count p c := by
  have hleft := count_nonneg (p := p) (c := (c.LRU_remove id).1)
  rw [count_remove ho, if_pos hp] at hleft
  omega

theorem count_eq_zero (h : ∀ x o, c.q.lookup x = some o → p o.md = false) : count p c = 0 := by
  apply sum_eq_zero
  intro n hn
  obtain ⟨e, he, rfl⟩ := mem_map.1 hn
  exact if_neg (Bool.eq_false_iff.1 (h e.1 e.2 (lookup_of_mem_entries he)))

end CacheSim.Lru
