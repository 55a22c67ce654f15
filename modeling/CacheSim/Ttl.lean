import CacheSim.Lru
import CacheSim.PartialNode.Model

/-!
# Objects that expire (`cache_find_base` with `SUPPORT_TTL`)

The caches of `LRU.c` and `FIFO.c`, whose objects carry the time at which they expire.
-/

namespace CacheSim.Ttl

open PartialNode (req_cost_or_one)

/-- A request with its time to live, 0 when it has none. -/
structure TtlRequest extends Request where
  ttl : Int := 0
deriving DecidableEq, Repr

/-- The fields of `cache_obj_t` that a find and an insertion write. -/
structure Fields where
  /-- 0 for an object that does not expire -/
  exp_time : Nat
  next_access_vtime : Int
  freq : Int
  cost : Int
deriving DecidableEq, Repr

abbrev Obj := FifoObj Fields

abbrev Cache := Fifo Fields

inductive Policy
  | LRU
  | FIFO
deriving DecidableEq, Repr

/-- The test of `cache_find_base`, a `uint32_t` against an `int64_t`. -/
def Expired (cache_obj : Obj) (req : Request) : Prop := cache_obj.md.exp_time ≠ 0 ∧ (cache_obj.md.exp_time : Int) < req.clock_time

instance (cache_obj : Obj) (req : Request) : Decidable (Expired cache_obj req) := inferInstanceAs (Decidable (_ ∧ _))

/-- `none` when the code writes through a null object. -/
def cache_find_base (c : Cache) (req : Request) (update_cache : Bool) : Option (Cache × Option Obj) :=
  match c.q.lookup req.obj_id with
  | none => some (c, none)
  | some cache_obj =>
    -- `cache->remove` of either policy, and the local object is cleared
    let (c, found) := if Expired cache_obj req then (if update_cache then (c.FIFO_remove req.obj_id).1 else c,
      none) else (c, some cache_obj)
    if update_cache then do
      let cache_obj ← found
      let md := { cache_obj.md with
        next_access_vtime := req.next_access_vtime
        freq := cache_obj.md.freq + 1
        cost := req_cost_or_one req }
      return (c.set_md req.obj_id cache_obj md, some { cache_obj with md := md })
    else
      return (c, found)

def Policy.find (p : Policy) (c : Cache) (req : Request) (update_cache : Bool) : Option (Cache × Option Obj) :=
  match p with
  | .FIFO => cache_find_base c req update_cache
  | .LRU => do
    let (c, cache_obj) ← cache_find_base c req update_cache
    match cache_obj with
    | none => return (c, none)
    | some cache_obj => return (if update_cache then { c with q := c.q.insert req.obj_id cache_obj } else c, some cache_obj)

/-- `copy_request_to_cache_obj` and `cache_insert_base`; `default_ttl` is that of the cache. -/
def new_fields (default_ttl ttl : Int) (req : Request) : Fields where
  exp_time :=
    if default_ttl ≠ 0 ∧ ttl = 0 then ((default_ttl.bmod (2 ^ 32) + req.clock_time) % 2 ^ 32).toNat
    else if ttl ≠ 0 then ((req.clock_time + ttl) % 2 ^ 32).toNat
    else 0
  next_access_vtime := req.next_access_vtime
  freq := 0
  cost := req_cost_or_one req

def ops (p : Policy) (default_ttl ttl : Int) : CacheOps Cache where
  count_req c := { c with n_req := c.n_req + 1 }
  find c req := (p.find c req true).map fun r => (r.1, r.2.isSome)
  can_insert c req := some (c, !(req.obj_size + c.obj_md_size > c.cache_size))
  get_occupied_byte c := c.occupied_byte
  obj_md_size c := c.obj_md_size
  cache_size c := c.cache_size
  evict c _ := c.FIFO_evict
  insert c req := some (c.FIFO_insert req (new_fields default_ttl ttl req))

def Policy.get (p : Policy) (default_ttl : Int) (c : Cache) (req : TtlRequest) : Option (Cache × Bool) :=
  (ops p default_ttl req.ttl).cache_get_base (fun c => c.q.entries.length) c req.toRequest

def Policy.gets (p : Policy) (default_ttl : Int) (reqs : List TtlRequest) (c : Cache) : Option Cache :=
  reqs.foldlM (fun c req => (p.get default_ttl c req).map Prod.fst) c

def CleanMiss (p : Policy) (default_ttl : Int) (c : Cache) (req : TtlRequest) : Prop :=
  ∃ c', p.get default_ttl c req = some (c', false) ∧ p.get default_ttl (c.FIFO_remove req.obj_id).1 req = some (c', false)

variable {p : Policy} {default_ttl : Int} {c : Cache} {req : Request} {o : Obj}

theorem find_expired (ho : c.q.lookup req.obj_id = some o) (h : Expired o req) : p.find c req true = none := by
  have hbase : cache_find_base c req true = none := by
    simp [cache_find_base, ho, h]
  cases p <;> simp [Policy.find, hbase]

theorem find_absent (ho : c.q.lookup req.obj_id = none) : p.find c req true = some (c, none) := by
  have hbase : cache_find_base c req true = some (c, none) := by
    simp [cache_find_base, ho]
  cases p <;> simp [Policy.find, hbase]

theorem find_fresh (hc : c.Inv) (ho : c.q.lookup req.obj_id = some o) (h : ¬ Expired o req) :
    ∃ c' o', p.find c req true = some (c', some o') ∧ c'.Inv := by
  set md := { o.md with next_access_vtime := req.next_access_vtime, freq := o.md.freq + 1, cost := req_cost_or_one req } with hmd
  have hbase : cache_find_base c req true = some (c.set_md req.obj_id o md, some { o with md := md }) := by
    simp [cache_find_base, ho, h, hmd]
  have hset := hc.set_md ho md
  cases p with
  | FIFO => exact ⟨_, _, hbase, hset⟩
  | LRU =>
    have hmoved : (c.set_md req.obj_id o md).q.lookup req.obj_id = some { o with md := md } := by
      simp [Fifo.lookup_set_md ho]
    exact ⟨_, { o with md := md }, by simp only [Policy.find, hbase]; rfl, Lru.Inv.move_to_head hset hmoved⟩

theorem get_returns (p : Policy) (default_ttl : Int) (hc : c.Inv) {req : TtlRequest}
    (h : ∀ o, c.q.lookup req.obj_id = some o → ¬ Expired o req.toRequest) :
    ∃ c' hit, p.get default_ttl c req = some (c', hit) ∧ c'.Inv := by
  refine Fifo.cache_get_base_of_queue (ops p default_ttl req.ttl) (fun d => d) (· = c) Fifo.Inv Fifo.Inv
    (fun _ => ⟨rfl, rfl, rfl⟩) (fun _ => rfl) ?_ (fun _ hd => ⟨hd, hd⟩) (fun _ hd hne => Fifo.FIFO_evict_spec hd hne)
    (fun _ hd hmiss => ⟨_, rfl, hd.insert _ hmiss⟩) rfl
  rintro d rfl
  have hcount : Fifo.Inv { d with n_req := d.n_req + 1 } := ⟨hc.occupied, hc.n_obj⟩
  cases ho : d.q.lookup req.obj_id with
  | none =>
    have hfind : p.find { d with n_req := d.n_req + 1 } req.toRequest true = some (_, none) := find_absent ho
    exact ⟨_, false, by simp only [ops, hfind]; rfl, hcount, AList.lookup_eq_none.1 ho⟩
  | some o =>
    obtain ⟨d', o', hfind, hinv⟩ := find_fresh (p := p) hcount ho (h o ho)
    exact ⟨d', true, by simp only [ops, hfind]; rfl, hinv⟩

theorem get_expired {req : TtlRequest} (ho : c.q.lookup req.obj_id = some o) (h : Expired o req.toRequest) :
    p.get default_ttl c req = none := by
  have hfind : p.find { c with n_req := c.n_req + 1 } req.toRequest true = none := find_expired ho h
  simp [Policy.get, CacheOps.cache_get_base, ops, hfind]

theorem get_none_iff (hc : c.Inv) {req : TtlRequest} :
    p.get default_ttl c req = none ↔ ∃ o, c.q.lookup req.obj_id = some o ∧ Expired o req.toRequest := by
  constructor
  · intro hnone
    by_contra hall
    push Not at hall
    obtain ⟨c', hit, hget, -⟩ := get_returns p default_ttl hc hall
    cases hget.symm.trans hnone
  · rintro ⟨o, ho, h⟩
    exact get_expired ho h

/-! ## Runs of gets -/

theorem gets_inv (hc : c.Inv) {reqs : List TtlRequest} {c' : Cache} (h : p.gets default_ttl reqs c = some c') : c'.Inv := by
  induction reqs generalizing c with
  | nil =>
    cases h
    exact hc
  | cons req reqs ih =>
    obtain ⟨d, hd, hrest⟩ := Option.bind_eq_some_iff.1 h
    obtain ⟨⟨_, hit⟩, hget, rfl⟩ := Option.map_eq_some_iff.1 hd
    have hreturns : ∀ o, c.q.lookup req.obj_id = some o → ¬ Expired o req.toRequest := by
      intro o ho hexp
      cases (get_expired ho hexp).symm.trans hget
    obtain ⟨d, hit', hget', hinv⟩ := get_returns p default_ttl hc hreturns
    cases hget.symm.trans hget'
    exact ih hinv hrest

/-- After any run of gets: those on an object that has expired, and no others, write through a null object, so none of them is
a miss. -/
theorem expired_gets_fail (p : Policy) (default_ttl cache_size obj_md_size : Int) (reqs : List TtlRequest) {c : Cache}
    (h : p.gets default_ttl reqs { cache_size := cache_size, obj_md_size := obj_md_size } = some c) (req : TtlRequest) :
    (p.get default_ttl c req = none ↔ ∃ o, c.q.lookup req.obj_id = some o ∧ Expired o req.toRequest) ∧
      ∀ o, c.q.lookup req.obj_id = some o → Expired o req.toRequest → ¬ CleanMiss p default_ttl c req := by
  refine ⟨get_none_iff (gets_inv (Fifo.init_inv cache_size obj_md_size) h), ?_⟩
  rintro o ho hexp ⟨c', hget, -⟩
  cases (get_expired ho hexp).symm.trans hget

theorem expired_gets_fail_of_one : ∃ c, Policy.LRU.gets 0 [{ obj_id := 1, clock_time := 1, ttl := 1 }] { cache_size := 10 } = some c ∧
    ¬ CleanMiss .LRU 0 c { obj_id := 1, clock_time := 3 } :=
  ⟨_, rfl, (expired_gets_fail .LRU 0 10 0 [{ obj_id := 1, clock_time := 1, ttl := 1 }] rfl { obj_id := 1, clock_time := 3 }).2 _ rfl
    (by decide)⟩

theorem expired_object_written : ¬ ∀ (p : Policy) (default_ttl cache_size obj_md_size : Int) (reqs : List TtlRequest) (c : Cache),
    p.gets default_ttl reqs { cache_size := cache_size, obj_md_size := obj_md_size } = some c →
      ∀ (req : TtlRequest) (o : Obj), c.q.lookup req.obj_id = some o → Expired o req.toRequest → CleanMiss p default_ttl c req := by
  intro h
  obtain ⟨c', hget, -⟩ := h .LRU 0 10 0 [{ obj_id := 1, clock_time := 1, ttl := 1 }] _ rfl { obj_id := 1, clock_time := 3 } _ rfl (by decide)
  cases hget

end CacheSim.Ttl
