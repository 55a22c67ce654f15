import CacheSim.Fifo

/-!
# The sizes of the objects of a queue

Queues that charge their objects the size only.
-/

namespace CacheSim.Fifo

open Lib

variable {μ : Type} {c : Fifo μ} {id : ObjId} {o : FifoObj μ} {req : Request}

def size_of (c : Fifo μ) (x : ObjId) : Option Int := (c.q.lookup x).map (·.obj_size)

theorem size_of_some (h : c.q.lookup id = some o) : c.size_of id = some o.obj_size := by
  unfold size_of
  rw [h]
  rfl

theorem size_of_none : c.size_of id = none ↔ c.q.lookup id = none := Option.map_eq_none_iff

theorem size_of_insert (c : Fifo μ) (req : Request) (md : μ) :
    (c.FIFO_insert req md).size_of = Function.update c.size_of req.obj_id (some req.obj_size) := by
  funext x
  unfold size_of
  rw [lookup_FIFO_insert]
  rcases eq_or_ne x req.obj_id with rfl | hne
  · rw [Function.update_self, if_pos rfl]
    rfl
  · rw [Function.update_of_ne hne, if_neg hne]

theorem size_of_remove (c : Fifo μ) (id : ObjId) : (c.FIFO_remove id).1.size_of = Function.update c.size_of id none := by
  funext x
  unfold size_of
  rw [lookup_FIFO_remove]
  rcases eq_or_ne x id with rfl | hne
  · rw [Function.update_self, if_pos rfl]
    rfl
  · rw [Function.update_of_ne hne, if_neg hne]

theorem size_of_set_md (h : c.q.lookup id = some o) (md : μ) : (c.set_md id o md).size_of = c.size_of := by
  funext x
  unfold size_of
  rw [lookup_set_md h]
  rcases eq_or_ne x id with rfl | hne
  · rw [if_pos rfl, h]
    rfl
  · rw [if_neg hne]

structure Plain (c : Fifo μ) : Prop where
  inv : c.Inv
  md : c.obj_md_size = 0

namespace Plain

theorem init (K : Int) : Plain { cache_size := K : Fifo μ } := ⟨init_inv K 0, rfl⟩

section

variable (h : c.Plain)
include h

theorem stock : Stock c.size_of c.occupied_byte := by
  have hsize : c.occupied_byte = c.q.weigh fun _ o => o.obj_size := by
    rw [h.inv.occupied]
    unfold charge
    simp only [h.md, Int.add_zero]
  rw [hsize]
  exact .of_table c.q (·.obj_size)

theorem insert (md : μ) (hmiss : c.size_of req.obj_id = none) : (c.FIFO_insert req md).Plain :=
  ⟨h.inv.insert md (AList.lookup_eq_none.1 (size_of_none.1 hmiss)), h.md⟩

theorem remove (id : ObjId) : (c.FIFO_remove id).1.Plain :=
  ⟨(FIFO_remove_spec h.inv id).1, (FIFO_remove_obj_md_size id).trans h.md⟩

theorem set_md (hid : c.q.lookup id = some o) (md : μ) : (c.set_md id o md).Plain := ⟨h.inv.set_md hid md, h.md⟩

theorem occupied_insert (req : Request) (md : μ) :
    (c.FIFO_insert req md).occupied_byte = c.occupied_byte + req.obj_size := by
  unfold FIFO_insert
  rw [h.md, Int.add_zero]

theorem occupied_remove (hid : c.q.lookup id = some o) :
    (c.FIFO_remove id).1.occupied_byte = c.occupied_byte - o.obj_size := by
  rw [occupied_FIFO_remove hid, h.md, Int.add_zero]

theorem to_evict (hocc : 0 < c.occupied_byte) : ∃ e, c.FIFO_to_evict = some e ∧ c.q.lookup e.1 = some e.2 := by
  have hlast := List.getLast?_eq_some_getLast (entries_ne_nil_of_occupied h.inv hocc)
  exact ⟨_, hlast, lookup_to_evict hlast⟩

end

end Plain

end CacheSim.Fifo

/-!
## All or nothing

Whether an object comes in is asked before the evictions and decided after them. A get that evicts for an object that is
then refused has lost residents for nothing: the bytes that the evictions have freed were theirs.
-/

namespace CacheSim

open Lib CacheOps

variable {σ : Type}

/-- The get returns, and its object is resident or the residents are what they were. -/
def AllOrNothing (resident : σ → ObjId → Bool) (get : σ → Request → Option (σ × Bool)) (s : σ) (req : Request) : Prop :=
  ∃ s' hit, get s req = some (s', hit) ∧ (resident s' req.obj_id = true ∨ ∀ x, resident s' x = resident s x)

/-- How a policy treats an object that it has admitted: `takes` and `refuses` say in advance what its insertion does, and
if neither holds the insertion fails. -/
structure Admission (ops : CacheOps σ) (req : Request) (size_of : σ → ObjId → Option Int) (Ready takes refuses : σ → Prop)
    (μ : σ → Nat) : Prop where
  stock : ∀ s, Ready s → Stock (size_of s) (ops.get_occupied_byte s)
  missing : ∀ s, Ready s → size_of s req.obj_id = none
  evict : ∀ s, Ready s → ops.full_for req s = true → ∃ s', ops.evict s req = some s' ∧ Ready s' ∧ μ s' < μ s ∧
    Under (size_of s') (size_of s) ∧ (takes s' ↔ takes s) ∧ (refuses s' ↔ refuses s) ∧
    ops.cache_size s' = ops.cache_size s ∧ ops.obj_md_size s' = ops.obj_md_size s
  inserts : ∀ s, Ready s → takes s → ops.full_for req s = false →
    ∃ s', ops.insert s req = some s' ∧ (size_of s' req.obj_id).isSome = true
  turns_away : ∀ s, Ready s → refuses s → ∃ s', ops.insert s req = some s' ∧ size_of s' = size_of s
  fails : ∀ s, Ready s → ¬ takes s → ¬ refuses s → ops.insert s req = none

namespace Admission

variable {ops : CacheOps σ} {req : Request} {size_of : σ → ObjId → Option Int} {Ready takes refuses : σ → Prop} {μ : σ → Nat}

theorem loop_spec (h : Admission ops req size_of Ready takes refuses μ) {fuel : Nat} {s : σ} (hs : Ready s) (hfuel : μ s ≤ fuel) :
    ∃ t, whileLoop (ops.full_for req) (ops.evict · req) fuel s = some t ∧ Ready t ∧ ops.full_for req t = false ∧
      Under (size_of t) (size_of s) ∧ (takes t ↔ takes s) ∧ (refuses t ↔ refuses s) ∧
      ops.cache_size t = ops.cache_size s ∧ ops.obj_md_size t = ops.obj_md_size s := by
  obtain ⟨t, hloop, ⟨ht, hsub, htakes, hrefuses, hcs, hmd⟩, hroom⟩ := whileLoop_total
    (fun t => Ready t ∧ Under (size_of t) (size_of s) ∧ (takes t ↔ takes s) ∧ (refuses t ↔ refuses s) ∧
      ops.cache_size t = ops.cache_size s ∧ ops.obj_md_size t = ops.obj_md_size s) μ
    (fun t ht hfull => by
      obtain ⟨hready, hsub, htakes, hrefuses, hcs, hmd⟩ := ht
      obtain ⟨t', hev, hready', hless, hsub', htakes', hrefuses', hcs', hmd'⟩ := h.evict t hready hfull
      exact ⟨t', hev, ⟨hready', hsub'.trans hsub, htakes'.trans htakes, hrefuses'.trans hrefuses, hcs'.trans hcs,
        hmd'.trans hmd⟩, hless⟩)
    fuel s ⟨hs, (Within.refl _).under, Iff.rfl, Iff.rfl, rfl, rfl⟩ hfuel
  exact ⟨t, hloop, ht, hroom, hsub, htakes, hrefuses, hcs, hmd⟩

variable {resident : σ → ObjId → Bool} {admitted : Bool} {s s1 : σ}

theorem all_or_nothing_iff (h : Admission ops req size_of Ready takes refuses μ)
    (hres : ∀ s x, resident s x = (size_of s x).isSome) {fuel : σ → Nat}
    (hfind : ops.find (ops.count_req s) req = some (s1, false)) (hsame : ∀ x, resident s1 x = resident s x)
    (hcan : ops.can_insert s1 req = some (s1, admitted)) (hready : admitted = true → Ready s1) (hfuel : μ s1 ≤ fuel s1) :
    AllOrNothing resident (ops.cache_get_base fuel) s req ↔
      admitted = false ∨ takes s1 ∨ refuses s1 ∧ ops.full_for req s1 = false := by
  cases admitted with
  | false => exact iff_of_true ⟨s1, false, cache_get_base_reject hfind hcan, .inr hsame⟩ (.inl rfl)
  | true =>
    have hs1 := hready rfl
    obtain ⟨t, hloop, ht, hroom, hsub, htakes, hrefuses, hcs, hmd⟩ := h.loop_spec hs1 hfuel
    by_cases htake : takes s1
    · obtain ⟨s', hi, hin⟩ := h.inserts t ht (htakes.2 htake) hroom
      rw [← hres] at hin
      exact iff_of_true ⟨s', false, cache_get_base_insert hfind hcan hloop hi, .inl hin⟩ (.inr (.inl htake))
    · by_cases hrefuse : refuses s1
      · obtain ⟨s', hi, hkept⟩ := h.turns_away t ht (hrefuses.2 hrefuse)
        have hget := cache_get_base_insert hfind hcan hloop hi
        constructor
        · rintro ⟨s'', hit, hget', hwhich⟩
          cases hget.symm.trans hget'
          rcases hwhich with hin | hall
          · rw [hres, hkept, h.missing t ht] at hin
            cases hin
          · -- the same residents have the same bytes at least, so that there was room before
            have hocc := (h.stock s1 hs1).le_of_keys (h.stock t ht) hsub fun x => by
              rw [← hkept, ← hres, ← hres, hall x, hsame x]
            refine .inr (.inr ⟨hrefuse, ?_⟩)
            rw [full_for_false_iff] at hroom ⊢
            omega
        · rintro (hno | hno | ⟨-, hroom1⟩)
          · cases hno
          · exact absurd hno htake
          · rw [whileLoop_stop _ _ _ _ hroom1] at hloop
            cases hloop
            exact ⟨s', false, hget, .inr fun x => by rw [hres, hkept, ← hres, hsame x]⟩
      · have hi := h.fails t ht (mt htakes.1 htake) (mt hrefuses.1 hrefuse)
        refine iff_of_false ?_ ?_
        · rintro ⟨s', hit, hget, -⟩
          simp [CacheOps.cache_get_base, hfind, hcan, hloop, hi] at hget
        · rintro (hno | hno | ⟨hno, -⟩)
          · cases hno
          · exact htake hno
          · exact hrefuse hno

theorem all_or_nothing_iff_takes (h : Admission ops req size_of Ready takes (fun s => ¬ takes s) μ)
    (hres : ∀ s x, resident s x = (size_of s x).isSome) {fuel : σ → Nat}
    (hfind : ops.find (ops.count_req s) req = some (s1, false)) (hsame : ∀ x, resident s1 x = resident s x)
    (hcan : ops.can_insert s1 req = some (s1, admitted)) (hready : admitted = true → Ready s1) (hfuel : μ s1 ≤ fuel s1) :
    AllOrNothing resident (ops.cache_get_base fuel) s req ↔ admitted = false ∨ takes s1 ∨ ops.full_for req s1 = false := by
  rw [h.all_or_nothing_iff hres hfind hsame hcan hready hfuel]
  by_cases htake : takes s1
  · simp only [htake, true_or]
  · simp only [htake, not_false_iff, true_and]

theorem get_keeps (h : Admission ops req size_of Ready takes refuses μ) {Done : σ → Prop} {fuel : σ → Nat} {s s1 s' : σ}
    {found admitted hit : Bool} (hfind : ops.find (ops.count_req s) req = some (s1, found)) (hdone : Done s1)
    (hcan : ops.can_insert s1 req = some (s1, admitted)) (hready : found = false → admitted = true → Ready s1)
    (hfuel : μ s1 ≤ fuel s1)
    (hinsert : ∀ t u, Ready t → ops.full_for req t = false → ops.insert t req = some u → Done u)
    (hget : ops.cache_get_base fuel s req = some (s', hit)) : Done s' := by
  cases found with
  | true =>
    cases (cache_get_base_hit hfind).symm.trans hget
    exact hdone
  | false =>
    cases admitted with
    | false =>
      cases (cache_get_base_reject hfind hcan).symm.trans hget
      exact hdone
    | true =>
      obtain ⟨t, hloop, ht, hroom, -⟩ := h.loop_spec (hready rfl rfl) hfuel
      cases hi : ops.insert t req with
      | none => simp [CacheOps.cache_get_base, hfind, hcan, hloop, hi] at hget
      | some u =>
        cases (cache_get_base_insert hfind hcan hloop hi).symm.trans hget
        exact hinsert t _ ht hroom hi

end Admission

end CacheSim
