import CacheSim.Fifo
import CacheSim.Lib.KeyedSet
import Mathlib.Data.Prod.Lex
import Mathlib.Tactic.NormNum.Ineq
import Mathlib.Tactic.Positivity

/-!
# GDSF (`GDSF.cpp`, `abstractRank.hpp`)

An object is worth its frequency over its size, on top of what the last victim was worth. The priorities are rationals here.
-/

namespace CacheSim.Gdsf

open Lib AList Function Fifo

local instance (priority := high) preorder_int : Preorder Int := Int.instLinearOrder.toPreorder

/-- `pq_node_type` -/
structure PqNode where
  obj : ObjId
  priority : ℚ
  last_request_vtime : Int

def PqNode.key (n : PqNode) : ℚ ×ₗ Int := toLex (n.priority, n.last_request_vtime)

/-- `cache_t`, whose hash table gives an object with its `freq`, and `eviction::GDSF`. -/
structure State where
  cache : Fifo Int
  pq : List PqNode := []
  pq_map : ObjId → Option PqNode := fun _ => none
  pri_last_evict : ℚ := 0

def GDSF_init (cache_size : Nat) (consider_obj_metadata : Bool) : State where
  cache := { cache_size := cache_size, obj_md_size := if consider_obj_metadata then 8 else 0 }

variable (s : State)

def new_node (id : ObjId) (freq obj_size : Int) : PqNode where
  obj := id
  priority := s.pri_last_evict + freq * 1000000 / obj_size
  last_request_vtime := s.cache.n_req

/-- With `update_cache` true; `freq` is an `int32_t`. `none` stands for a node that `pq_map` does not have. -/
def GDSF_find (req : Request) : Option (State × Bool) := do
  let s := { s with cache := { s.cache with n_req := s.cache.n_req + 1 } }
  match s.cache.q.lookup req.obj_id with
  | none => return (s, false)
  | some obj =>
    let node ← s.pq_map req.obj_id
    let freq := (obj.md + 1).bmod (2 ^ 32)
    let new := new_node s req.obj_id freq obj.obj_size
    return ({ s with
      cache := s.cache.set_md req.obj_id obj freq
      pq := set_insert PqNode.key new (set_erase PqNode.key node s.pq)
      pq_map := update s.pq_map req.obj_id (some new) }, true)

def GDSF_insert (req : Request) : State :=
  let new := new_node s req.obj_id 1 req.obj_size
  { s with
    cache := s.cache.FIFO_insert req 1
    pq := set_insert PqNode.key new s.pq
    pq_map := update s.pq_map req.obj_id (some new) }

def GDSF_to_evict : Option PqNode := s.pq.argmin PqNode.key

def GDSF_evict : Option State := do
  let p ← GDSF_to_evict s
  let obj ← s.cache.q.lookup p.obj
  return { s with
    cache := s.cache.cache_remove_obj_base p.obj obj
    pq := set_erase PqNode.key p s.pq
    pq_map := update s.pq_map p.obj none
    pri_last_evict := p.priority }

def GDSF_remove (id : ObjId) : Option State :=
  match s.cache.q.lookup id with
  | none => some s
  | some obj => do
    let node ← s.pq_map id
    return { s with
      cache := s.cache.cache_remove_obj_base id obj
      pq := set_erase PqNode.key node s.pq
      pq_map := update s.pq_map id none }

def over_full : Bool := s.cache.occupied_byte > s.cache.cache_size

/-- The object is inserted before there is room for it. -/
def GDSF_get (req : Request) : Option (State × Bool) := do
  let (s, hit) ← GDSF_find s req
  if !hit && !(req.obj_size + s.cache.obj_md_size > s.cache.cache_size) then
    let s := GDSF_insert s req
    let s ← whileLoop over_full GDSF_evict s.cache.q.entries.length s
    return (s, hit)
  return (s, hit)

inductive Call
  | get (req : Request)
  | evict
  | remove (id : ObjId)

def call : Call → Option State
  | .get req => (GDSF_get s req).map (·.1)
  | .evict => GDSF_evict s
  | .remove id => GDSF_remove s id

def Legal : Call → Prop
  | .get req => 1 ≤ req.obj_size
  | .evict => s.cache.n_obj ≠ 0
  | .remove _ => True

/-- No get hits an object whose `freq` is at its maximum already. -/
def Allowed : Call → Prop
  | .get req => 1 ≤ req.obj_size ∧ ∀ o ∈ s.cache.q.lookup req.obj_id, o.md < 2 ^ 31 - 1
  | c => Legal s c

/-! ## The queue and the table -/

structure Inv (s : State) : Prop where
  cache : s.cache.Inv
  pq : Indexed PqNode.key s.pq s.pq_map
  owner : ∀ id n, s.pq_map id = some n → n.obj = id
  resident : ∀ id, (s.pq_map id).isSome = (s.cache.q.lookup id).isSome
  past : ∀ id n, s.pq_map id = some n → n.last_request_vtime ≤ s.cache.n_req
  above : ∀ id n, s.pq_map id = some n → s.pri_last_evict ≤ n.priority
  sizes : ∀ id o, s.cache.q.lookup id = some o → 1 ≤ o.obj_size ∧ 0 ≤ o.md
  md_size : 0 ≤ s.cache.obj_md_size

variable {s : State} {id : ObjId} {n : PqNode} {o : FifoObj Int} {req : Request}

theorem init_inv (cache_size : Nat) (md : Bool) : Inv (GDSF_init cache_size md) := by
  refine ⟨Fifo.init_inv _ _, indexed_empty _, ?_, fun _ => rfl, ?_, ?_, ?_, ?_⟩
  · simp [GDSF_init]
  · simp [GDSF_init]
  · simp [GDSF_init]
  · intro id o ho
    cases ho
  · cases md <;> simp [GDSF_init]

theorem Inv.node (h : Inv s) (ho : s.cache.q.lookup id = some o) : ∃ n, s.pq_map id = some n := by
  rw [← Option.isSome_iff_exists, h.resident, ho]
  rfl

def Fresh (s : State) : Prop := ∀ id n, s.pq_map id = some n → n.last_request_vtime < s.cache.n_req

theorem Fresh.key_ne (hfresh : Fresh s) (h : Inv s) (freq obj_size : Int) :
    ∀ a ∈ s.pq, a.key ≠ (new_node s id freq obj_size).key := by
  intro a ha heq
  obtain ⟨j, hj⟩ := (h.pq.mem a).1 ha
  have htime := congrArg (fun k => (ofLex k).2) heq
  exact (hfresh j a hj).ne htime

theorem Inv.put (h : Inv s) {c : Fifo Int} {l : List PqNode} {freq obj_size : Int} (hfreq : 0 ≤ freq) (hsize : 1 ≤ obj_size)
    (hc : c.Inv) (hn : c.n_req = s.cache.n_req) (hmd : c.obj_md_size = s.cache.obj_md_size)
    (hlookup : ∀ x, c.q.lookup x = if x = id then some { obj_size := obj_size, md := freq } else s.cache.q.lookup x)
    (hpq : Indexed PqNode.key l (update s.pq_map id (some (new_node s id freq obj_size)))) :
    Inv { s with cache := c, pq := l, pq_map := update s.pq_map id (some (new_node s id freq obj_size)) } := by
  have hall (P : ObjId → PqNode → Prop) (hnew : P id (new_node s id freq obj_size)) (hold : ∀ x n, s.pq_map x = some n → P x n)
      (x : ObjId) (n : PqNode) (hx : update s.pq_map id (some (new_node s id freq obj_size)) x = some n) : P x n := by
    rcases eq_or_ne x id with rfl | hne
    · rw [update_self] at hx
      exact Option.some.inj hx ▸ hnew
    · rw [update_of_ne hne] at hx
      exact hold x n hx
  refine ⟨hc, hpq, hall _ rfl h.owner, fun x => ?_, ?_, ?_, fun x o ho => ?_, hmd ▸ h.md_size⟩
  · dsimp only
    rw [hlookup]
    split_ifs with hx
    · rw [hx, update_self]
      rfl
    · rw [update_of_ne hx]
      exact h.resident x
  · exact hall (fun _ n => n.last_request_vtime ≤ c.n_req) hn.ge fun x n hx => hn ▸ h.past x n hx
  · apply hall (fun _ n => s.pri_last_evict ≤ n.priority) _ h.above
    exact le_add_of_nonneg_right (by positivity)
  · rw [hlookup] at ho
    split_ifs at ho
    · cases ho
      exact ⟨hsize, hfreq⟩
    · exact h.sizes x o ho

theorem Inv.drop (h : Inv s) (hid : s.pq_map id = some n) (ho : s.cache.q.lookup id = some o) {p : ℚ}
    (hp : ∀ x m, s.pq_map x = some m → x ≠ id → p ≤ m.priority) :
    Inv { s with
      cache := s.cache.cache_remove_obj_base id o
      pq := set_erase PqNode.key n s.pq
      pq_map := update s.pq_map id none
      pri_last_evict := p } := by
  have hold {x : ObjId} {m : PqNode} (hx : update s.pq_map id none x = some m) : x ≠ id ∧ s.pq_map x = some m := by
    rcases eq_or_ne x id with rfl | hne <;> simp_all
  refine ⟨h.cache.remove ho, h.pq.erase hid, fun x m hx => h.owner x m (hold hx).2, fun x => ?_,
    fun x m hx => h.past x m (hold hx).2, fun x m hx => hp x m (hold hx).2 (hold hx).1, fun x o hx => ?_, h.md_size⟩
  · rcases eq_or_ne x id with rfl | hne
    · simp [Fifo.cache_remove_obj_base]
    · simp [Fifo.cache_remove_obj_base, hne, h.resident]
  · rcases eq_or_ne x id with rfl | hne
    · simp [Fifo.cache_remove_obj_base] at hx
    · simp only [Fifo.cache_remove_obj_base, lookup_erase_ne hne] at hx
      exact h.sizes x o hx

theorem bmod_freq {freq : Int} (h0 : 0 ≤ freq) (h : freq < 2 ^ 31 - 1) : (freq + 1).bmod (2 ^ 32) = freq + 1 := by
  apply Int.bmod_eq_of_le <;> norm_num <;> omega

theorem find_spec (h : Inv s) (req : Request) (hbelow : ∀ o ∈ s.cache.q.lookup req.obj_id, o.md < 2 ^ 31 - 1) :
    ∃ s' hit, GDSF_find s req = some (s', hit) ∧ Inv s' ∧
    s'.pri_last_evict = s.pri_last_evict ∧ s'.cache.cache_size = s.cache.cache_size ∧
    s'.cache.occupied_byte = s.cache.occupied_byte ∧ (hit = false → Fresh s' ∧ s'.cache.q.lookup req.obj_id = none) := by
  set t : State := { s with cache := { s.cache with n_req := s.cache.n_req + 1 } } with ht
  have hfresh : Fresh t := fun x n hx => Int.lt_add_one_of_le (h.past x n hx)
  have hinv : Inv t := { h with cache := ⟨h.cache.occupied, h.cache.n_obj⟩, past := fun x n hx => (hfresh x n hx).le }
  unfold GDSF_find
  dsimp only
  cases ho : t.cache.q.lookup req.obj_id with
  | none => exact ⟨t, false, rfl, hinv, rfl, rfl, rfl, fun _ => ⟨hfresh, ho⟩⟩
  | some o =>
    obtain ⟨n, hn⟩ := hinv.node ho
    obtain ⟨hsize, hfreq⟩ := hinv.sizes _ _ ho
    have hnext := bmod_freq hfreq (hbelow o ho)
    have hnode : s.pq_map req.obj_id = some n := hn
    simp only [hnode, Option.bind_eq_bind]
    refine ⟨_, true, rfl, ?_, rfl, rfl, rfl, by simp⟩
    apply hinv.put (by omega) hsize (hinv.cache.set_md ho _) rfl rfl
    · exact lookup_set_md ho _
    · exact hinv.pq.rekey hn fun a ha _ => hfresh.key_ne hinv _ _ a ha

theorem insert_spec (h : Inv s) (hfresh : Fresh s) (hmiss : s.cache.q.lookup req.obj_id = none) (hsize : 1 ≤ req.obj_size) :
    Inv (GDSF_insert s req) := by
  have hnone : s.pq_map req.obj_id = none := by
    have hres := h.resident req.obj_id
    rw [hmiss] at hres
    simpa using hres
  apply h.put zero_le_one hsize (h.cache.insert _ (lookup_eq_none.1 hmiss)) rfl rfl
  · exact lookup_FIFO_insert req 1
  · exact h.pq.insert hnone (hfresh.key_ne h _ _)

/-! ## Evictions -/

structure Evicts (s : State) (n : PqNode) (t : State) : Prop where
  to_evict : GDSF_to_evict s = some n
  evict : GDSF_evict s = some t
  least : ∀ m ∈ s.pq, m ≠ n → n.key < m.key
  left : ∀ x, x ∈ t.cache.q ↔ x ∈ s.cache.q ∧ x ≠ n.obj
  pri : t.pri_last_evict = n.priority

theorem evict_spec (h : Inv s) (ho : s.cache.q.lookup id = some o) : ∃ n t, Evicts s n t ∧ Inv t ∧
    s.pri_last_evict ≤ t.pri_last_evict ∧ t.cache.cache_size = s.cache.cache_size ∧
    t.cache.occupied_byte < s.cache.occupied_byte ∧ t.cache.q.entries.length < s.cache.q.entries.length := by
  obtain ⟨n0, hn0⟩ := h.node ho
  obtain ⟨j, n, hbegin, hj, hleast⟩ := h.pq.begin hn0
  obtain rfl := h.owner j n hj
  have hres := h.resident n.obj
  rw [hj] at hres
  obtain ⟨v, hv⟩ := Option.isSome_iff_exists.1 hres.symm
  have hevict : GDSF_evict s = some { s with
      cache := s.cache.cache_remove_obj_base n.obj v
      pq := set_erase PqNode.key n s.pq
      pq_map := update s.pq_map n.obj none
      pri_last_evict := n.priority } := by
    simp [GDSF_evict, GDSF_to_evict, hbegin, hv]
  refine ⟨n, _, ⟨hbegin, hevict, ?_, fun x => mem_erase.trans and_comm, rfl⟩, h.drop hj hv ?_, h.above _ n hj, rfl, ?_, ?_⟩
  · intro m hm hne
    obtain ⟨k, hk⟩ := (h.pq.mem m).1 hm
    apply hleast k m hk
    rintro rfl
    exact hne (Option.some.inj (hk.symm.trans hj))
  · intro x m hx hne
    exact Prod.Lex.monotone_fst _ _ (hleast x m hx hne).le
  · have hsize := (h.sizes _ v hv).1
    have hmd := h.md_size
    simp only [Fifo.cache_remove_obj_base, Fifo.charge]
    omega
  · have hlen := (Table.perm_erase hv).length_eq
    simp only [Fifo.cache_remove_obj_base]
    simp at hlen
    omega

theorem occupied_of_empty (h : Inv s) (hempty : s.cache.q.entries = []) : s.cache.occupied_byte = 0 := by
  rw [h.cache.occupied, Table.weigh, hempty]
  rfl

theorem exists_lookup (h : s.cache.q.entries ≠ []) : ∃ id o, s.cache.q.lookup id = some o := by
  obtain ⟨e, l, he⟩ := List.exists_cons_of_ne_nil h
  exact ⟨e.1, e.2, Table.lookup_of_mem_entries (by simp [he])⟩

theorem make_room (h : Inv s) (hsize : 0 ≤ s.cache.cache_size) :
    ∃ l t, whileLoop over_full GDSF_evict s.cache.q.entries.length s = some t ∧ Trail Evicts s l t ∧
      (Inv t ∧ s.pri_last_evict ≤ t.pri_last_evict ∧ t.cache.cache_size = s.cache.cache_size) ∧ over_full t = false := by
  refine whileLoop_trail (fun t => Inv t ∧ s.pri_last_evict ≤ t.pri_last_evict ∧ t.cache.cache_size = s.cache.cache_size)
    (fun t => t.cache.q.entries.length) ?_ ⟨h, le_rfl, rfl⟩
  rintro t ⟨hinv, hpri, hcs⟩ hfull
  have hne : t.cache.q.entries ≠ [] := by
    intro hempty
    have hocc := occupied_of_empty hinv hempty
    simp only [over_full, decide_eq_true_eq] at hfull
    omega
  obtain ⟨id, o, ho⟩ := exists_lookup hne
  obtain ⟨n, u, hn, hu, hpri', hcs', -, hlen⟩ := evict_spec hinv ho
  exact ⟨n, u, hn.evict, hn, ⟨hu, hpri.trans hpri', hcs'.trans hcs⟩, hlen⟩

/-! ## Runs -/

structure Consistent (s : State) : Prop where
  one_node : (s.pq.map PqNode.obj).Perm s.cache.q.keys
  mapped : ∀ n, n ∈ s.pq ↔ s.pq_map n.obj = some n
  owned : ∀ id n, s.pq_map id = some n → n.obj = id
  above : ∀ n ∈ s.pq, s.pri_last_evict ≤ n.priority

theorem Inv.consistent (h : Inv s) : Consistent s := by
  have hmapped (n : PqNode) : n ∈ s.pq ↔ s.pq_map n.obj = some n := by
    rw [h.pq.mem]
    constructor
    · rintro ⟨i, hi⟩
      rw [h.owner i n hi, hi]
    · exact fun hn => ⟨_, hn⟩
  refine ⟨?_, hmapped, h.owner, fun n hn => h.above n.obj n ((hmapped n).1 hn)⟩
  rw [List.perm_ext_iff_of_nodup _ s.cache.q.keys_nodup]
  · intro x
    rw [List.mem_map]
    constructor
    · rintro ⟨n, hn, rfl⟩
      have hres := h.resident n.obj
      rw [(hmapped n).1 hn] at hres
      exact mem_keys.1 (lookup_isSome.1 hres.symm)
    · intro hx
      obtain ⟨n, hn⟩ := h.node (Table.exists_lookup hx).choose_spec
      have howner := h.owner x n hn
      exact ⟨n, (hmapped n).2 (howner ▸ hn), howner⟩
  · apply h.pq.nodup.map_on
    intro n hn m hm heq
    have hn' := (hmapped n).1 hn
    rw [heq, (hmapped m).1 hm] at hn'
    exact (Option.some.inj hn').symm

def Effect (s : State) (t : State) : Call → Prop
  | .get req => t.cache.occupied_byte ≤ t.cache.cache_size ∧ ∃ s₀ hit s₁ l, GDSF_find s req = some (s₀, hit) ∧
      (s₁ = s₀ ∨ s₁ = GDSF_insert s₀ req) ∧ Trail Evicts s₁ l t
  | .evict => ∃ n, Evicts s n t
  | .remove id => ∀ x, x ∈ t.cache.q ↔ x ∈ s.cache.q ∧ x ≠ id

def Settled (s : State) : Prop := Inv s ∧ 0 ≤ s.cache.cache_size ∧ s.cache.occupied_byte ≤ s.cache.cache_size

theorem call_spec (h : Settled s) {c : Call} (hc : Allowed s c) :
    ∃ t, call s c = some t ∧ Settled t ∧ s.pri_last_evict ≤ t.pri_last_evict ∧ Effect s t c := by
  obtain ⟨hinv, hsize, hroom⟩ := h
  cases c with
  | get req =>
    obtain ⟨hpos, hbelow⟩ := hc
    obtain ⟨s0, hit, hfind, hinv0, hpri, hcs, hocc, hmiss⟩ := find_spec hinv req hbelow
    by_cases hnew : hit = false ∧ req.obj_size + s0.cache.obj_md_size ≤ s0.cache.cache_size
    · obtain ⟨hfresh, hlookup⟩ := hmiss hnew.1
      obtain ⟨l, t, hloop, hl, ⟨hinvt, hprit, hcst⟩, hstop⟩ := make_room (insert_spec hinv0 hfresh hlookup hpos) (hcs ▸ hsize)
      have hroomt : t.cache.occupied_byte ≤ t.cache.cache_size := by simpa [over_full] using hstop
      refine ⟨t, ?_, ⟨hinvt, ?_, hroomt⟩, hpri ▸ hprit, hroomt, s0, hit, _, l, hfind, .inr rfl, hl⟩
      · simp [call, GDSF_get, hfind, hnew.1, hnew.2, hloop]
      · rw [hcst]
        exact hcs ▸ hsize
    · refine ⟨s0, ?_, ⟨hinv0, hcs ▸ hsize, by omega⟩, hpri.ge, by omega, s0, hit, s0, [], hfind, .inl rfl, .refl⟩
      cases hit <;> simp_all [call, GDSF_get]
  | evict =>
    have hne : s.cache.q.entries ≠ [] := by
      intro hempty
      have hn := hinv.cache.n_obj
      rw [hempty] at hn
      exact hc hn
    obtain ⟨id, o, ho⟩ := exists_lookup hne
    obtain ⟨n, t, hn, ht, hpri, hcs, hocc, -⟩ := evict_spec hinv ho
    exact ⟨t, hn.evict, ⟨ht, hcs ▸ hsize, by omega⟩, hpri, n, hn⟩
  | remove id =>
    cases ho : s.cache.q.lookup id with
    | none =>
      refine ⟨s, by simp [call, GDSF_remove, ho], ⟨hinv, hsize, hroom⟩, le_rfl, fun x => ⟨fun hx => ⟨hx, ?_⟩, And.left⟩⟩
      rintro rfl
      exact lookup_eq_none.1 ho hx
    | some o =>
      obtain ⟨n, hn⟩ := hinv.node ho
      have hpos := (hinv.sizes id o ho).1
      have hmd := hinv.md_size
      refine ⟨_, by simp [call, GDSF_remove, ho, hn], ⟨hinv.drop hn ho fun x m hx _ => hinv.above x m hx, hsize, ?_⟩, le_rfl,
        fun x => mem_erase.trans and_comm⟩
      simp only [Fifo.cache_remove_obj_base, Fifo.charge]
      omega

theorem init_settled (cache_size : Nat) (md : Bool) : Settled (GDSF_init cache_size md) :=
  ⟨init_inv _ _, Int.natCast_nonneg _, Int.natCast_nonneg _⟩

/-- Whatever was called before, the next call returns. -/
theorem GDSF_inflation {cache_size : Nat} {md : Bool}
    (h : Reach call Allowed (GDSF_init cache_size md) s) :
    Consistent s ∧ s.cache.occupied_byte ≤ s.cache.cache_size ∧ ∀ c, Allowed s c →
      ∃ t, call s c = some t ∧ s.pri_last_evict ≤ t.pri_last_evict ∧ Effect s t c := by
  have hsettled : Settled s := by
    apply Reach.inv Settled ?_ (init_settled cache_size md) h
    intro s c s' hs hc hcall
    obtain ⟨t, ht, hsettled, -⟩ := call_spec hs hc
    exact Option.some.inj (ht.symm.trans hcall) ▸ hsettled
  refine ⟨hsettled.1.consistent, hsettled.2.2, fun c hc => ?_⟩
  obtain ⟨t, ht, -, hpri, heffect⟩ := call_spec hsettled hc
  exact ⟨t, ht, hpri, heffect⟩

instance (s : State) : (c : Call) → Decidable (Legal s c)
  | .get _ => Int.decLe ..
  | .evict => instDecidableNot
  | .remove _ => instDecidableTrue

instance (s : State) : (c : Call) → Decidable (Allowed s c)
  | .get _ => instDecidableAnd
  | .evict => instDecidableNot
  | .remove _ => instDecidableTrue

def get (id : ObjId) : Call := .get { obj_id := id }

/-- 2 and 3 were evicted for 1000000. Both residents are worth 2000000, and 1 was asked for earlier. -/
theorem GDSF_inflation_of_four : ∃ s n t,
    runs (fun s c => if Allowed s c then call s c else none) (GDSF_init 2 false) [get 1, get 1, get 2, get 3, get 4] = some s ∧
    s.cache.q.keys = [4, 1] ∧ s.pri_last_evict = 1000000 ∧ Consistent s ∧ Evicts s n t ∧ n.obj = 1 ∧
    t.pri_last_evict = 2000000 := by
  have hrun : (runs (fun s c => if Allowed s c then call s c else none) (GDSF_init 2 false)
        [get 1, get 1, get 2, get 3, get 4]).map (fun s => (s.cache.q.keys, s.pri_last_evict, s.cache.n_obj,
          (GDSF_to_evict s).map fun n => (n.obj, n.priority))) =
      some ([4, 1], 1000000, 2, some (1, 2000000)) := by decide +kernel
  obtain ⟨s, hs, hstate⟩ := Option.map_eq_some_iff.1 hrun
  obtain ⟨hconsistent, -, hnext⟩ := GDSF_inflation (Reach.of_checked hs)
  rw [Prod.mk.injEq, Prod.mk.injEq, Prod.mk.injEq] at hstate
  obtain ⟨hkeys, hpri, hcount, hvictim⟩ := hstate
  obtain ⟨t, -, -, n, hn⟩ := hnext .evict (by simp [Allowed, Legal, hcount])
  rw [hn.to_evict, Option.map_some, Option.some.injEq, Prod.mk.injEq] at hvictim
  exact ⟨s, n, t, hs, hkeys, hpri, hconsistent, hn, hvictim.1, hn.pri.trans hvictim.2⟩

theorem find_hit (h : Inv s) (req : Request) (ho : s.cache.q.lookup req.obj_id = some o) : ∃ t n, GDSF_find s req = some (t, true) ∧
    t.pq_map req.obj_id = some n ∧ n.obj = req.obj_id ∧ t.pri_last_evict = s.pri_last_evict ∧
    n.priority = s.pri_last_evict + (((o.md + 1).bmod (2 ^ 32) : Int) : ℚ) * 1000000 / o.obj_size ∧
    t.cache.q.lookup req.obj_id = some { o with md := (o.md + 1).bmod (2 ^ 32) } := by
  obtain ⟨m, hm⟩ := h.node ho
  simp [GDSF_find, ho, hm, new_node, Fifo.set_md, Table.lookup_replace ho]

theorem runs_hits (n : Nat) {f : Int} (h : Inv s) (ho : s.cache.q.lookup id = some { obj_size := 1, md := f }) (h0 : 0 ≤ f)
    (hn : f + n < 2 ^ 31) : ∃ t, runs call s (List.replicate n (get id)) = some t ∧ Inv t ∧
      t.cache.q.lookup id = some { obj_size := 1, md := f + n } := by
  induction n generalizing s f with
  | zero => exact ⟨s, rfl, h, by simpa using ho⟩
  | succ n ih =>
    rw [Nat.cast_succ] at hn
    obtain ⟨t, m, hfind, -, -, -, -, hlookup⟩ := find_hit h { obj_id := id } ho
    obtain ⟨t', hit, hfind', hinv, -⟩ := find_spec h { obj_id := id } fun o hmem => by
      obtain rfl := Option.some.inj (ho.symm.trans hmem)
      dsimp only
      omega
    rw [hfind] at hfind'
    cases hfind'
    rw [bmod_freq h0 (by omega)] at hlookup
    obtain ⟨u, hu, hinvu, hlast⟩ := ih hinv hlookup (by omega) (by omega)
    refine ⟨u, ?_, hinvu, ?_⟩
    · rw [List.replicate_succ, runs_cons]
      simp [call, get, GDSF_get, hfind, ← hu]
    · rw [hlast, Nat.cast_succ, add_assoc, add_comm (1 : Int)]

/-- The hit after `2 ^ 31 - 2` others wraps `freq`, and the object is worth less than what was evicted last. -/
theorem GDSF_wraps : ¬ ∀ s, Reach call Legal (GDSF_init 1 false) s → Consistent s := by
  intro hclaim
  set s0 := GDSF_init 1 false
  obtain ⟨k, hk⟩ : ∃ k : Nat, (k : Int) = 2 ^ 31 - 2 := ⟨2147483646, rfl⟩
  obtain ⟨s1, hget, ho1⟩ : ∃ s, call s0 (get 1) = some s ∧ s.cache.q.lookup 1 = some { obj_size := 1, md := 1 } := by
    simpa only [Option.bind_eq_some_iff] using (by decide +kernel :
      ((call s0 (get 1)).bind fun s => s.cache.q.lookup 1) = some { obj_size := 1, md := 1 })
  obtain ⟨s1', hget', ⟨hinv1, -⟩, -⟩ := call_spec (init_settled 1 false) (c := get 1) ⟨le_rfl, by simp [GDSF_init]⟩
  obtain rfl := Option.some.inj (hget.symm.trans hget')
  obtain ⟨s2, hruns, hinv2, ho2⟩ := runs_hits k hinv1 ho1 (by decide) (by omega)
  obtain ⟨t, n, hfind, hn, howner, hpri, hworth, -⟩ := find_hit hinv2 { obj_id := 1 } ho2
  have hall : runs call s0 (List.replicate (k + 1) (get 1)) = some s2 := by
    rw [List.replicate_succ, runs_cons, hget]
    exact hruns
  have hreach : Reach call Legal s0 s2 :=
    .of_runs (fun c hc s => List.eq_of_mem_replicate hc ▸ le_rfl) hall
  have hcons : Consistent t := hclaim t (hreach.step (get 1) le_rfl (by simp [call, get, GDSF_get, hfind]))
  have hmem : n ∈ t.pq := (hcons.mapped n).2 (howner ▸ hn)
  have habove := hcons.above n hmem
  have hwrap : ((1 + k : Int) + 1).bmod (2 ^ 32) = -2147483648 := by
    rw [hk]
    decide
  rw [hpri, hworth, hwrap] at habove
  norm_num at habove

end CacheSim.Gdsf
