import CacheSim.Merlin.Proofs
import Mathlib.Algebra.BigOperators.Group.Multiset.Basic

/-!
# Sizes

What the four queues hold in bytes and objects.
-/

namespace CacheSim.Merlin

open Lib Multiset

variable {κ : Type} {K : Sketch κ} {s s' : State κ} {t u : Tier} {x : ObjId}

structure Limits where
  cache_size : Int
  obj_md_size : Int
  filter_limit : Int
  core_limit : Int
  ghost_limit : Int

def State.limits (s : State κ) : Limits :=
  ⟨s.cache_size, s.obj_md_size, s.filter_limit, s.core_limit, s.ghost_limit⟩

structure Sized (C : Limits) (s : State κ) : Prop where
  limits : s.limits = C
  md_nonneg : 0 ≤ C.obj_md_size
  core_limit : 0 ≤ C.core_limit
  ghost_limit : 0 ≤ C.ghost_limit
  fifo : ∀ t, (s.queue t).Inv
  size : ∀ t x o, (s.queue t).q.lookup x = some o → 1 ≤ o.obj_size
  md : ∀ t, (s.queue t).obj_md_size = if t = .ghost then 0 else C.obj_md_size
  guard_pos : 1 ≤ s.guard_freq
  guard_le : s.guard_freq ≤ kMaxFrequency

def State.len (s : State κ) (t : Tier) : Nat := (s.queue t).q.entries.length

def sizesIn (c : Fifo Md) : Multiset Int := (c.q.entries.map (·.2.obj_size) : List Int)

def State.sizes (s : State κ) : Multiset Int :=
  sizesIn (s.queue .filter) + sizesIn (s.queue .staging) + sizesIn (s.queue .core)

def heatIn (c : Fifo Md) : Nat := (c.q.entries.map (·.2.md.freq)).sum

def State.heat (s : State κ) : Nat := heatIn (s.queue .staging) + heatIn (s.queue .core)

variable {c : Fifo Md} {req : Request} {m : Md} {o : FifoObj Md} {C : Limits}

theorem sizesIn_insert (h : req.obj_id ∉ c.q) : sizesIn (c.FIFO_insert req m) = req.obj_size ::ₘ sizesIn c := by
  unfold sizesIn Fifo.FIFO_insert
  rw [AList.entries_insert_of_notMem h]
  rfl

theorem sizesIn_remove (h : c.q.lookup x = some o) : sizesIn c = o.obj_size ::ₘ sizesIn (c.FIFO_remove x).1 := by
  unfold sizesIn Fifo.FIFO_remove
  rw [h, cons_coe, coe_eq_coe]
  exact (Table.perm_erase h).map (·.2.obj_size)

theorem heatIn_insert (h : req.obj_id ∉ c.q) : heatIn (c.FIFO_insert req m) = heatIn c + m.freq := by
  unfold heatIn Fifo.FIFO_insert
  rw [AList.entries_insert_of_notMem h, List.map_cons, List.sum_cons, Nat.add_comm]

theorem heatIn_remove (h : c.q.lookup x = some o) : heatIn c = heatIn (c.FIFO_remove x).1 + o.md.freq := by
  unfold heatIn Fifo.FIFO_remove
  rw [h, ((Table.perm_erase h).map (·.2.md.freq)).sum_eq, List.map_cons, List.sum_cons, Nat.add_comm]
  rfl

/-! ## One queue of the four -/

theorem queue_insert :
    (s.insert t req m).queue u = if u = t then (s.queue t).FIFO_insert req m else s.queue u := queue_set

theorem queue_remove : (s.remove t x).queue u = if u = t then ((s.queue t).FIFO_remove x).1 else s.queue u := queue_set

theorem len_insert (h : s.md t req.obj_id = none) : (s.insert t req m).len u = s.len u + if u = t then 1 else 0 := by
  unfold State.len
  rw [queue_insert]
  split_ifs with hu
  · subst hu
    exact Fifo.length_FIFO_insert m (AList.lookup_eq_none.2 (md_none.1 h))
  · rfl

theorem len_remove (h : (s.queue t).q.lookup x = some o) : (s.remove t x).len u + (if u = t then 1 else 0) = s.len u := by
  unfold State.len
  rw [queue_remove]
  split_ifs with hu
  · subst hu
    exact Fifo.length_FIFO_remove h
  · rfl

theorem sizes_insert (h : s.md t req.obj_id = none) (ht : t ≠ .ghost) :
    (s.insert t req m).sizes = req.obj_size ::ₘ s.sizes := by
  have hnew := sizesIn_insert (m := m) (md_none.1 h)
  unfold State.sizes
  simp only [queue_insert]
  cases t with
  | filter => simp [hnew]
  | staging => simp [hnew]
  | core => simp [hnew]
  | ghost => exact absurd rfl ht

theorem sizes_insert_ghost : (s.insert .ghost req m).sizes = s.sizes := by
  unfold State.sizes
  simp [queue_insert]

theorem sizes_remove (h : (s.queue t).q.lookup x = some o) (ht : t ≠ .ghost) :
    s.sizes = o.obj_size ::ₘ (s.remove t x).sizes := by
  have hold := sizesIn_remove h
  unfold State.sizes
  simp only [queue_remove]
  cases t with
  | filter => simp [hold]
  | staging => simp [hold]
  | core => simp [hold]
  | ghost => exact absurd rfl ht

theorem sizes_remove_ghost : (s.remove .ghost x).sizes = s.sizes := by
  unfold State.sizes
  simp [queue_remove]

theorem heat_insert (h : s.md t req.obj_id = none) :
    (s.insert t req m).heat = s.heat + if t = .staging ∨ t = .core then m.freq else 0 := by
  have hnew := heatIn_insert (m := m) (md_none.1 h)
  unfold State.heat
  simp only [queue_insert]
  cases t with
  | filter => simp
  | staging =>
    simp
    omega
  | core =>
    simp
    omega
  | ghost => simp

theorem heat_remove (h : (s.queue t).q.lookup x = some o) :
    s.heat = (s.remove t x).heat + if t = .staging ∨ t = .core then o.md.freq else 0 := by
  have hold := heatIn_remove h
  unfold State.heat
  simp only [queue_remove]
  cases t with
  | filter => simp
  | staging =>
    simp
    omega
  | core =>
    simp
    omega
  | ghost => simp

/-! ## Sized states -/

section

variable (h : Sized C s)
include h

theorem Sized.frame (hlimits : s'.limits = s.limits) (hqueue : s'.queue = s.queue)
    (hguard : s'.guard_freq = s.guard_freq) : Sized C s' := by
  refine ⟨hlimits.trans h.limits, h.md_nonneg, h.core_limit, h.ghost_limit, ?_, ?_, ?_, ?_, ?_⟩
  · rw [hqueue]
    exact h.fifo
  · rw [hqueue]
    exact h.size
  · rw [hqueue]
    exact h.md
  · rw [hguard]
    exact h.guard_pos
  · rw [hguard]
    exact h.guard_le

theorem Sized.set (hc : c.Inv)
    (hsize : ∀ x o, c.q.lookup x = some o → 1 ≤ o.obj_size) (hmd : c.obj_md_size = (s.queue t).obj_md_size) :
    Sized C (s.set t c) := by
  refine { h with fifo := fun u => ?_, size := fun u x o ho => ?_, md := fun u => ?_ }
  · rw [queue_set]
    rcases eq_or_ne u t with rfl | hu
    · rwa [if_pos rfl]
    · rw [if_neg hu]
      exact h.fifo u
  · rw [queue_set] at ho
    rcases eq_or_ne u t with rfl | hu
    · rw [if_pos rfl] at ho
      exact hsize x o ho
    · rw [if_neg hu] at ho
      exact h.size u x o ho
  · rw [queue_set, ← h.md u]
    rcases eq_or_ne u t with rfl | hu
    · rwa [if_pos rfl]
    · rw [if_neg hu]

theorem Sized.insert (m : Md) (hsize : 1 ≤ req.obj_size)
    (hmiss : s.md t req.obj_id = none) : Sized C (s.insert t req m) := by
  refine h.set ((h.fifo t).insert m (md_none.1 hmiss)) (fun x o ho => ?_) rfl
  rw [Fifo.lookup_FIFO_insert] at ho
  split_ifs at ho
  · cases ho
    exact hsize
  · exact h.size t x o ho

theorem Sized.remove (t : Tier) (x : ObjId) : Sized C (s.remove t x) := by
  refine h.set (Fifo.FIFO_remove_spec (h.fifo t) x).1 (fun y p hp => ?_) (Fifo.FIFO_remove_obj_md_size x)
  rw [Fifo.lookup_FIFO_remove] at hp
  split_ifs at hp
  exact h.size t y p hp

theorem Sized.touch (ho : (s.queue t).q.lookup x = some o) : Sized C (s.touch t x o) := by
  unfold State.touch
  split_ifs
  · refine Sized.frame (h.set (c := (s.queue t).set_md x o { o.md with freq := o.md.freq + 1 })
      ((h.fifo t).set_md ho _) (fun y p hp => ?_) rfl) rfl rfl rfl
    rw [Fifo.lookup_set_md ho] at hp
    split_ifs at hp
    · cases hp
      exact h.size t x o ho
    · exact h.size t y p hp
  · exact h

/-! ### Bytes and numbers -/

theorem Sized.occupied (ht : t ≠ .ghost) :
    (s.queue t).occupied_byte = ((sizesIn (s.queue t)).map (· + C.obj_md_size)).sum := by
  have hmd := h.md t
  rw [if_neg ht] at hmd
  rw [(h.fifo t).occupied]
  unfold Table.weigh sizesIn Fifo.charge
  rw [map_coe, sum_coe, List.map_map, hmd]
  rfl

theorem Sized.n_obj (t : Tier) : (s.queue t).n_obj = (sizesIn (s.queue t)).card := by
  rw [(h.fifo t).n_obj]
  unfold sizesIn
  simp

theorem Sized.bytes_eq : s.merlin_get_occupied_byte = (s.sizes.map (· + C.obj_md_size)).sum := by
  unfold State.merlin_get_occupied_byte State.sizes
  rw [h.occupied (by decide), h.occupied (by decide), h.occupied (by decide),
    map_add, map_add, sum_add, sum_add]

theorem Sized.n_obj_eq : s.merlin_get_n_obj = s.sizes.card := by
  unfold State.merlin_get_n_obj State.sizes
  rw [h.n_obj, h.n_obj, h.n_obj, card_add, card_add]
  rfl

theorem Sized.len_le_occupied (t : Tier) : (s.len t : Int) ≤ (s.queue t).occupied_byte := by
  apply Fifo.length_le_occupied (h.fifo t)
  · rw [h.md]
    split_ifs
    · exact le_refl _
    · exact h.md_nonneg
  · exact h.size t

theorem Sized.to_evict (hocc : 0 < (s.queue t).occupied_byte) : ∃ e, (s.queue t).FIFO_to_evict = some e := by
  have hne := Fifo.entries_ne_nil_of_occupied (h.fifo t) hocc
  exact ⟨_, List.getLast?_eq_some_getLast hne⟩

end

theorem to_evict_of_len (h : s.len t ≠ 0) : ∃ e, (s.queue t).FIFO_to_evict = some e := by
  have hne : (s.queue t).q.entries ≠ [] := fun hnil => h (by unfold State.len; rw [hnil]; rfl)
  exact ⟨_, List.getLast?_eq_some_getLast hne⟩

theorem len_eq_card (s : State κ) (t : Tier) : s.len t = (sizesIn (s.queue t)).card := by
  unfold State.len sizesIn
  simp

theorem card_sizes (s : State κ) : s.sizes.card = s.len .filter + s.len .staging + s.len .core := by
  unfold State.sizes
  rw [card_add, card_add, len_eq_card, len_eq_card, len_eq_card]

end CacheSim.Merlin
