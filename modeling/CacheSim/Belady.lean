import CacheSim.PQueue
import CacheSim.Lib.Paging

/-!
# Belady (`Belady.c`)

The trace tells each request when its object is next used, and the queue holds the resident
objects by that time. `EVICT_IMMEDIATELY_IF_NO_FUTURE_ACCESS` is off.
-/

namespace CacheSim.Belady

open Lib Function

structure Obj where
  obj_size : Int
  next_access_vtime : Int
deriving DecidableEq, Repr

/-- `cache_t` with `Belady_params_t` -/
structure State (Q : Type) where
  cache_size : Int
  n_req : Int := 0
  occupied_byte : Int := 0
  n_obj : Int := 0
  hashtable : ObjId → Option Obj := fun _ => none
  pq : Q

variable {Q : Type} (P : PQueue Q)

def Belady_init (cache_size : Nat) : State Q where
  cache_size := cache_size
  pq := P.pqueue_init

variable (s : State Q)

def Belady_find (req : Request) : Option (State Q × Bool) :=
  match s.hashtable req.obj_id with
  | none => some (s, false)
  | some obj =>
    some ({ s with
      hashtable := update s.hashtable req.obj_id
        (some { obj with next_access_vtime := req.next_access_vtime })
      pq := P.pqueue_change_priority s.pq (toDouble req.next_access_vtime) req.obj_id }, true)

/-- It stops the program when the next access time is -1. -/
def Belady_insert (req : Request) : Option (State Q) := do
  guard (req.next_access_vtime ≠ -1)
  let obj : Obj := { obj_size := req.obj_size, next_access_vtime := req.next_access_vtime }
  return { s with
    hashtable := update s.hashtable req.obj_id (some obj)
    occupied_byte := s.occupied_byte + req.obj_size
    n_obj := s.n_obj + 1
    pq := P.pqueue_insert s.pq { obj_id := req.obj_id, pri := toDouble req.next_access_vtime } }

/-- Both pointers are followed without a check. -/
def Belady_evict : Option (State Q) := do
  let (node, pq) ← P.pqueue_pop s.pq
  let obj_to_evict ← s.hashtable node.obj_id
  return { s with
    hashtable := update s.hashtable node.obj_id none
    occupied_byte := s.occupied_byte - obj_to_evict.obj_size
    n_obj := s.n_obj - 1
    pq := pq }

/-- `Belady_init` leaves `obj_md_size` at 0. -/
def Belady_ops : CacheOps (State Q) where
  count_req s := { s with n_req := s.n_req + 1 }
  find := Belady_find P
  can_insert s req := some (s, !(req.obj_size + 0 > s.cache_size))
  get_occupied_byte s := s.occupied_byte
  obj_md_size _ := 0
  cache_size s := s.cache_size
  evict s _ := Belady_evict P s
  insert := Belady_insert P

/-- The two assertions stand at the start of `Belady_get`. -/
def Belady_get (req : Request) : Option (State Q × Bool) := do
  guard (req.next_access_vtime ≠ -2)
  guard (s.n_obj = (P.nodes s.pq).length)
  (Belady_ops P).cache_get_base (fun s => s.occupied_byte.toNat) s req

def Belady_serve (s : State Q × Nat) (req : Request) : Option (State Q × Nat) := do
  let (s', hit) ← Belady_get P s.1 req
  return (s', if hit then s.2 + 1 else s.2)

/-- The time of the next request for `id` when the first request of `reqs` has time `t`. -/
def nextAccess (t : Nat) (id : ObjId) (reqs : List Request) : Int :=
  let ids := reqs.map Request.obj_id
  if id ∈ ids then (t + ids.idxOf id : Nat) else INT64_MAX

/-- A trace of unit-size objects, from time `t` on, in which each request is told the time of the
next request for its object. -/
def Annotated : Nat → List Request → Prop
  | _, [] => True
  | t, req :: reqs => req.obj_size = 1 ∧ req.next_access_vtime = nextAccess (t + 1) req.obj_id reqs ∧
      Annotated (t + 1) reqs

/-!
## Belady is optimal

The priority of every resident object is its next access, so the object that is popped is one of
furthest next use: the code is the furthest-first strategy of `Lib.Paging`.
-/

open Paging List Finset CacheOps

variable {Q : Type} {P : PQueue Q} {c : Nat} {f : ObjId → Int} {s : State Q} {req : Request}
  {B : Finset ObjId}

structure Table (tab : ObjId → Option Obj) (B : Finset ObjId) : Prop where
  mem : ∀ i, i ∈ B ↔ ∃ obj, tab i = some obj
  unit : ∀ i obj, tab i = some obj → obj.obj_size = 1

variable {tab : ObjId → Option Obj} {i : ObjId}

theorem Table.not_mem (h : Table tab B) : i ∉ B ↔ tab i = none := by
  rw [h.mem, not_exists, Option.eq_none_iff_forall_ne_some]

theorem Table.set (h : Table tab B) (i : ObjId) {obj : Obj} (hobj : obj.obj_size = 1) :
    Table (update tab i (some obj)) (insert i B) := by
  constructor
  · intro j
    rcases eq_or_ne j i with rfl | hj
    · simp
    · simp [h.mem, hj]
  · intro j o ho
    rcases eq_or_ne j i with rfl | hj
    · rw [update_self, Option.some.injEq] at ho
      exact ho ▸ hobj
    · rw [update_of_ne hj] at ho
      exact h.unit j o ho

theorem Table.delete (h : Table tab B) (i : ObjId) : Table (update tab i none) (B.erase i) := by
  constructor
  · intro j
    rcases eq_or_ne j i with rfl | hj
    · simp
    · simp [h.mem, hj]
  · intro j o ho
    rcases eq_or_ne j i with rfl | hj
    · simp at ho
    · rw [update_of_ne hj] at ho
      exact h.unit j o ho

/-! ## The queue -/

structure Queue (P : PQueue Q) (q : Q) (f : ObjId → Int) (B : Finset ObjId) : Prop where
  nodup : ((P.nodes q).map PQNode.obj_id).Nodup
  ids : ((P.nodes q).map PQNode.obj_id).toFinset = B
  pri : ∀ n ∈ P.nodes q, n.pri = f n.obj_id

variable {q : Q}

theorem Queue.length (h : Queue P q f B) : (P.nodes q).length = B.card := by
  rw [← h.ids, toFinset_card_of_nodup h.nodup, length_map]

theorem Queue.mem (h : Queue P q f B) : i ∈ B ↔ ∃ n ∈ P.nodes q, n.obj_id = i := by
  rw [← h.ids, mem_toFinset, List.mem_map]

theorem Queue.change (h : Queue P q f B) (pri : Int) (id : ObjId) :
    Queue P (P.pqueue_change_priority q pri id) (update f id pri) B := by
  have hperm := P.nodes_change q pri id
  have hids := hperm.map PQNode.obj_id
  rw [PQNode.map_setPri] at hids
  constructor
  · exact hids.nodup_iff.2 h.nodup
  · rw [toFinset_eq_of_perm _ _ hids, h.ids]
  · intro n hn
    obtain ⟨m, hm, rfl⟩ := List.mem_map.1 (hperm.mem_iff.1 hn)
    unfold PQNode.setPri
    split_ifs with hid
    · rw [hid, update_self]
    · rw [update_of_ne hid]
      exact h.pri m hm

variable {id : ObjId}

theorem Queue.insert (h : Queue P q f B) (pri : Int) (hid : id ∉ B) :
    Queue P (P.pqueue_insert q ⟨id, pri⟩) (update f id pri) (insert id B) := by
  have hperm := P.nodes_insert q ⟨id, pri⟩ fun m hm he => hid (h.mem.2 ⟨m, hm, he⟩)
  have hids := hperm.map PQNode.obj_id
  rw [List.map_cons] at hids
  constructor
  · refine hids.nodup_iff.2 (nodup_cons.2 ⟨fun hmem => hid ?_, h.nodup⟩)
    rw [← h.ids]
    exact mem_toFinset.2 hmem
  · rw [toFinset_eq_of_perm _ _ hids, toFinset_cons, h.ids]
  · intro n hn
    rcases mem_cons.1 (hperm.mem_iff.1 hn) with rfl | hm
    · rw [update_self]
    · have hne : n.obj_id ≠ id := fun he => hid (he ▸ h.mem.2 ⟨n, hm, rfl⟩)
      rw [update_of_ne hne]
      exact h.pri n hm

theorem Queue.pop (h : Queue P q f B) (hne : B.Nonempty) : ∃ n q', P.pqueue_pop q = some (n, q') ∧
    n.obj_id ∈ B ∧ (∀ y ∈ B, f y ≤ f n.obj_id) ∧ Queue P q' f (B.erase n.obj_id) := by
  have hlen := h.length
  have hpos := hne.card_pos
  obtain ⟨⟨n, q'⟩, hpop⟩ : ∃ r, P.pqueue_pop q = some r := by
    rw [← Option.ne_none_iff_exists']
    intro hnone
    rw [P.pop_none q hnone, length_nil] at hlen
    omega
  obtain ⟨hperm, hmax⟩ := P.pop_some q n q' hpop
  have hn : n ∈ P.nodes q := hperm.mem_iff.2 mem_cons_self
  have hids := hperm.map PQNode.obj_id
  rw [List.map_cons] at hids
  obtain ⟨hnot, hrest⟩ := nodup_cons.1 (hids.nodup_iff.1 h.nodup)
  refine ⟨n, q', hpop, h.mem.2 ⟨n, hn, rfl⟩, ?_, hrest, ?_, ?_⟩
  · intro y hy
    obtain ⟨m, hm, rfl⟩ := h.mem.1 hy
    rw [← h.pri m hm, ← h.pri n hn]
    exact hmax m hm
  · rw [← h.ids, toFinset_eq_of_perm _ _ hids, toFinset_cons]
    exact (erase_insert fun hmem => hnot (mem_toFinset.1 hmem)).symm
  · intro m hm
    exact h.pri m (hperm.mem_iff.2 (mem_cons_of_mem n hm))

/-! ## One spec for each function -/

structure Held (P : PQueue Q) (c : Nat) (f : ObjId → Int) (s : State Q) (B : Finset ObjId) : Prop where
  cache_size : s.cache_size = c
  table : Table s.hashtable B
  queue : Queue P s.pq f B
  occupied : s.occupied_byte = B.card
  n_obj : s.n_obj = B.card
  fits : B.card ≤ c

theorem Belady_init_held (P : PQueue Q) (c : Nat) (f : ObjId → Int) : Held P c f (Belady_init P c) ∅ where
  cache_size := rfl
  table := ⟨by simp [Belady_init], by simp [Belady_init]⟩
  queue := by constructor <;> simp [Belady_init, P.nodes_init]
  occupied := rfl
  n_obj := rfl
  fits := by simp

section

variable (h : Held P c f s B)
include h

theorem Belady_find_miss (hreq : req.obj_id ∉ B) : Belady_find P s req = some (s, false) := by
  unfold Belady_find
  rw [h.table.not_mem.1 hreq]

theorem Belady_find_hit (hreq : req.obj_id ∈ B) :
    ∃ s', Belady_find P s req = some (s', true) ∧
      Held P c (update f req.obj_id (toDouble req.next_access_vtime)) s' B := by
  obtain ⟨obj, hobj⟩ := (h.table.mem _).1 hreq
  have hunit := h.table.unit _ _ hobj
  have htable : Table (update s.hashtable req.obj_id
      (some { obj with next_access_vtime := req.next_access_vtime })) (insert req.obj_id B) :=
    h.table.set req.obj_id hunit
  rw [insert_eq_of_mem hreq] at htable
  unfold Belady_find
  rw [hobj]
  exact ⟨_, rfl, { h with table := htable, queue := h.queue.change _ _ }⟩

theorem Belady_insert_spec (hreq : req.obj_id ∉ B) (hsize : req.obj_size = 1)
    (hnext : req.next_access_vtime ≠ -1) (hroom : B.card < c) :
    ∃ s', Belady_insert P s req = some s' ∧
      Held P c (update f req.obj_id (toDouble req.next_access_vtime)) s'
        (insert req.obj_id B) := by
  have hcard := card_insert_of_notMem hreq
  have hocc := h.occupied
  have hobj := h.n_obj
  unfold Belady_insert
  simp only [hnext, ne_eq, not_false_eq_true]
  refine ⟨_, rfl, h.cache_size, h.table.set req.obj_id hsize, h.queue.insert _ hreq, ?_, ?_, ?_⟩
  · show s.occupied_byte + req.obj_size = _
    omega
  · show s.n_obj + 1 = _
    omega
  · omega

theorem Belady_evict_spec (hne : B.Nonempty) : ∃ s' v,
    Belady_evict P s = some s' ∧ v ∈ B ∧ (∀ y ∈ B, f y ≤ f v) ∧ Held P c f s' (B.erase v) := by
  obtain ⟨node, pq, hpop, hv, hmax, hqueue⟩ := h.queue.pop hne
  obtain ⟨obj, hobj⟩ := (h.table.mem _).1 hv
  have hcard := card_erase_of_mem hv
  have hpos := hne.card_pos
  have hocc := h.occupied
  have hn := h.n_obj
  have hfits := h.fits
  unfold Belady_evict
  simp only [hpop, hobj, Option.bind_eq_bind, Option.bind_some]
  refine ⟨_, _, rfl, hv, hmax, h.cache_size, h.table.delete _, hqueue, ?_, ?_, ?_⟩
  · show s.occupied_byte - obj.obj_size = _
    rw [hcard, hocc, h.table.unit _ _ hobj]
    omega
  · show s.n_obj - 1 = _
    omega
  · omega

end

inductive Moves (c : Nat) (f : ObjId → Int) (x : ObjId) (B : Finset ObjId) : Bool → Finset ObjId → Prop
  | hit : x ∈ B → Moves c f x B true B
  | load : x ∉ B → B.card < c → Moves c f x B false (insert x B)
  | replace (v : ObjId) : x ∉ B → B.card = c → v ∈ B → (∀ y ∈ B, f y ≤ f v) →
      Moves c f x B false (insert x (B.erase v))

theorem Belady_get_spec (hc : 1 ≤ c) (h : Held P c f s B) (hsize : req.obj_size = 1)
    (hnext : 0 ≤ req.next_access_vtime) : ∃ s' hit B', Belady_get P s req = some (s', hit) ∧
      Moves c f req.obj_id B hit B' ∧
      Held P c (update f req.obj_id (toDouble req.next_access_vtime)) s' B' := by
  have hlen : s.n_obj = (P.nodes s.pq).length := by rw [h.n_obj, h.queue.length]
  have hget : Belady_get P s req =
      (Belady_ops P).cache_get_base (fun s => s.occupied_byte.toNat) s req := by
    unfold Belady_get
    simp [hlen, show req.next_access_vtime ≠ -2 by omega]
  have hcount : Held P c f { s with n_req := s.n_req + 1 } B :=
    { h with }
  rw [hget]
  rcases em (req.obj_id ∈ B) with hreq | hreq
  · obtain ⟨s', hf, hs'⟩ := Belady_find_hit hcount hreq
    exact ⟨s', true, B, cache_get_base_hit hf, .hit hreq, hs'⟩
  · have hfind := Belady_find_miss hcount hreq
    have hcan : (Belady_ops P).can_insert { s with n_req := s.n_req + 1 } req =
        some ({ s with n_req := s.n_req + 1 }, true) := by
      simp only [Belady_ops, h.cache_size, Option.some.injEq, Prod.mk.injEq, true_and]
      simp only [Bool.not_eq_true', decide_eq_false_iff_not]
      omega
    rcases h.fits.lt_or_eq with hlt | hfull
    · -- there is room
      obtain ⟨s', hi, hs'⟩ := Belady_insert_spec hcount hreq hsize (by omega) hlt
      have hstop : (Belady_ops P).full_for req { s with n_req := s.n_req + 1 } = false := by
        rw [full_for_false_iff]
        show s.occupied_byte + req.obj_size + 0 ≤ s.cache_size
        rw [h.occupied, h.cache_size, hsize]
        omega
      exact ⟨s', false, _, cache_get_base_insert hfind hcan (whileLoop_stop _ _ _ _ hstop) hi,
        .load hreq hlt, hs'⟩
    · -- one eviction makes room
      obtain ⟨s1, v, he, hv, hmax, hs1⟩ := Belady_evict_spec hcount (card_pos.1 (by omega))
      have hcard := card_erase_of_mem hv
      have hreq' : req.obj_id ∉ B.erase v := fun hm => hreq (mem_of_mem_erase hm)
      obtain ⟨s', hi, hs'⟩ := Belady_insert_spec hs1 hreq' hsize (by omega) (by omega)
      have hgo : (Belady_ops P).full_for req { s with n_req := s.n_req + 1 } = true := by
        rw [full_for_iff]
        show s.cache_size < s.occupied_byte + req.obj_size + 0
        rw [h.occupied, h.cache_size, hsize]
        omega
      have hstop : (Belady_ops P).full_for req s1 = false := by
        rw [full_for_false_iff]
        show s1.occupied_byte + req.obj_size + 0 ≤ s1.cache_size
        rw [hs1.occupied, hs1.cache_size, hsize]
        omega
      have hloop : whileLoop ((Belady_ops P).full_for req) ((Belady_ops P).evict · req)
          s.occupied_byte.toNat { s with n_req := s.n_req + 1 } = some s1 := by
        obtain ⟨n, hn⟩ : ∃ n, s.occupied_byte.toNat = n + 1 := ⟨c - 1, by rw [h.occupied]; omega⟩
        rw [hn]
        unfold whileLoop
        rw [if_pos hgo, show (Belady_ops P).evict _ req = some s1 from he, Option.bind_some,
          whileLoop_stop _ _ _ _ hstop]
      exact ⟨s', false, _, cache_get_base_insert hfind hcan hloop hi,
        .replace v hreq hfull hv hmax, hs'⟩

/-! ## Priorities are next accesses -/

def priority (t : Nat) (reqs : List Request) (id : ObjId) : Int := toDouble (nextAccess t id reqs)

theorem nextAccess_nonneg (t : Nat) (id : ObjId) (reqs : List Request) : 0 ≤ nextAccess t id reqs := by
  unfold nextAccess
  dsimp only
  split_ifs
  · omega
  · decide

theorem nextAccess_cons (t : Nat) {req : Request} (reqs : List Request)
    (h : id ≠ req.obj_id) : nextAccess t id (req :: reqs) = nextAccess (t + 1) id reqs := by
  unfold nextAccess
  simp only [List.map_cons, List.mem_cons, h, false_or, idxOf_cons_ne _ h.symm]
  split_ifs
  · omega
  · rfl

theorem priority_step (t : Nat) (req : Request) (reqs : List Request)
    (h : req.next_access_vtime = nextAccess (t + 1) req.obj_id reqs) :
    update (priority t (req :: reqs)) req.obj_id (toDouble req.next_access_vtime) =
      priority (t + 1) reqs := by
  funext id
  rcases eq_or_ne id req.obj_id with rfl | hid
  · rw [update_self, h]
    rfl
  · rw [update_of_ne hid]
    unfold priority
    rw [nextAccess_cons t reqs hid]

theorem idxOf_le_of_priority {t : Nat} {reqs : List Request} {x y : ObjId}
    (ht : t + reqs.length < 2 ^ 53) (h : priority t reqs x ≤ priority t reqs y) :
    (reqs.map Request.obj_id).idxOf x ≤ (reqs.map Request.obj_id).idxOf y := by
  have hlen : (reqs.map Request.obj_id).length = reqs.length := length_map _
  rcases em (y ∈ reqs.map Request.obj_id) with hy | hy
  · have hylt := idxOf_lt_length_iff.2 hy
    unfold priority nextAccess at h
    simp only [hy, if_true] at h
    rw [toDouble_exact (n := ((t + List.idxOf y (reqs.map Request.obj_id) : Nat) : Int)) (by omega)] at h
    rcases em (x ∈ reqs.map Request.obj_id) with hx | hx
    · have hxlt := idxOf_lt_length_iff.2 hx
      simp only [hx, if_true] at h
      rw [toDouble_exact (n := ((t + List.idxOf x (reqs.map Request.obj_id) : Nat) : Int)) (by omega)] at h
      omega
    · simp only [hx, if_false, toDouble_INT64_MAX] at h
      omega
  · rw [idxOf_eq_length hy]
    exact idxOf_le_length

theorem priority_cons (t : Nat) {req : Request} (reqs : List Request)
    (h : id ≠ req.obj_id) : priority t (req :: reqs) id = priority (t + 1) reqs id := by
  unfold priority
  rw [nextAccess_cons t reqs h]

theorem Belady_run_furthest (hc : 1 ≤ c) (reqs : List Request) : ∀ (t : Nat) (s : State Q) (k : Nat)
    (B : Finset ObjId), Annotated t reqs → t + reqs.length < 2 ^ 53 →
    Held P c (priority t reqs) s B → ∃ s' h, runs (Belady_serve P) (s, k) reqs = some (s', k + h) ∧
      Furthest c B (reqs.map Request.obj_id) h := by
  induction reqs with
  | nil =>
    intro t s k B _ _ _
    exact ⟨s, 0, rfl, .nil B⟩
  | cons req reqs ih =>
    intro t s k B hann hlen hs
    obtain ⟨hsize, hnext, hrest⟩ := hann
    rw [length_cons] at hlen
    obtain ⟨s1, hit, B', hget, hmoves, hs1⟩ := Belady_get_spec hc hs hsize
      (hnext ▸ nextAccess_nonneg _ _ _)
    rw [priority_step t req reqs hnext] at hs1
    obtain ⟨s', h, hrun, hfar⟩ := ih (t + 1) s1 (if hit then k + 1 else k) B' hrest (by omega) hs1
    have hserve : runs (Belady_serve P) (s, k) (req :: reqs) =
        some (s', (if hit then k + 1 else k) + h) := by
      rw [runs_cons]
      simp [Belady_serve, hget, hrun]
    cases hmoves with
    | hit hx => exact ⟨s', h + 1, by rw [hserve]; simp; omega, .hit hx hfar⟩
    | load hx hlt => exact ⟨s', h, by rw [hserve]; simp, .load hx hlt hfar⟩
    | replace v hx hfull hv hmax =>
      refine ⟨s', h, by rw [hserve]; simp, .replace v hx hfull hv (fun y hy => ?_) hfar⟩
      have hne : ∀ z ∈ B, z ≠ req.obj_id := fun z hz he => hx (he ▸ hz)
      have hle := hmax y hy
      rw [priority_cons t reqs (hne y hy), priority_cons t reqs (hne v hv)] at hle
      exact idxOf_le_of_priority (by omega) hle

/-- No strategy that loads on every miss has more hits. -/
theorem Belady_optimal (P : PQueue Q) (c : Nat) (hc : 1 ≤ c) (reqs : List Request)
    (hann : Annotated 0 reqs) (hlen : reqs.length < 2 ^ 53) :
    ∃ s hits, runs (Belady_serve P) (Belady_init P c, 0) reqs = some (s, hits) ∧
      ∀ h, Serves c ∅ (reqs.map Request.obj_id) h → h ≤ hits := by
  obtain ⟨s, hits, hrun, hfar⟩ := Belady_run_furthest hc reqs 0 (Belady_init P c) 0 ∅ hann (by omega)
    (Belady_init_held P c _)
  rw [Nat.zero_add] at hrun
  exact ⟨s, hits, hrun, fun h hh => furthest_optimal hfar hh⟩

/-- Object 2 makes way for 3, and 1 is hit. -/
theorem Belady_optimal_on_four_requests :
    let reqs : List Request := [{ obj_id := 1, next_access_vtime := 3 }, { obj_id := 2, next_access_vtime := INT64_MAX },
      { obj_id := 3, next_access_vtime := INT64_MAX }, { obj_id := 1, next_access_vtime := INT64_MAX }]
    ∃ s, runs (Belady_serve BinaryHeap.heapQueue) (Belady_init BinaryHeap.heapQueue 2, 0) reqs = some (s, 1) ∧ s.hashtable 2 = none ∧
      ∀ h, Serves 2 ∅ [1, 2, 3, 1] h → h ≤ 1 := by
  intro reqs
  obtain ⟨⟨s, _⟩, hs, rfl, hout⟩ : ∃ p, runs (Belady_serve BinaryHeap.heapQueue)
    (Belady_init BinaryHeap.heapQueue 2, 0) reqs = some p ∧
      p.2 = 1 ∧ p.1.hashtable 2 = none := by decide +kernel
  obtain ⟨t, hits, ht, hbest⟩ := Belady_optimal BinaryHeap.heapQueue 2 (by decide) reqs
    (by simp [reqs, Annotated, nextAccess]) (by decide)
  cases hs.symm.trans ht
  exact ⟨s, hs, hout, hbest⟩

end CacheSim.Belady
