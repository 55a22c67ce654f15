import CacheSim.Cache
import Mathlib.Data.Finset.Card
import Mathlib.Data.Rat.Floor

/-!
# The prefix-cache simulator (`bin/prefixsim/simulator.cpp`)

A request names a list of blocks. `serve` first counts which are resident, then makes room for all
that are missing, then gets them one by one. The eviction policy is a parameter.
-/

namespace CacheSim.Prefixsim

open Lib

/-- `Request` of `trace.hpp`, with the fields the simulator reads. -/
structure BlockRequest where
  index : Int := 0
  timestamp : ℚ := 0
  blocks : List ObjId
  /-- by position in `blocks` -/
  next_access_vtime : Nat → Int := fun _ => 2 ^ 63 - 1
  session : Nat := 0
  session_next_access : Int := 2 ^ 63 - 1
  category : Nat := 0

/-- `cache_request_ctx_t` -/
structure RequestCtx where
  timestamp : ℚ
  category : Nat
  n_blocks : Int
  session : Nat
  session_next_access : Int

/-- The function pointers of `cache_t` that the simulator calls, with the two optional hooks and
`evict_n`. A function that evicts also returns the victims it reported to `handle_evict`, in order.
The first argument of the evicting functions is the pin predicate, `none` when nothing is pinned. -/
structure CachePolicy (σ : Type) where
  /-- whether `find(cache, req, false)` returns an object -/
  find : σ → ObjId → Bool
  get : σ → Request → Option (σ × List ObjId)
  evict : Option (ObjId → Bool) → σ → Request → Option (σ × List ObjId)
  evict_n : Option (Option (ObjId → Bool) → σ → Request → Int → Option (σ × List ObjId)) := none
  get_occupied_byte : σ → Int
  get_n_obj : σ → Int
  set_request_ctx : Option (σ → RequestCtx → σ) := none
  record_request : Option (σ → List ObjId → Option σ) := none

/-- `Stats`. The two costs are sums of integers. -/
structure Stats where
  n_requests : Int := 0
  n_requests_skipped : Int := 0
  n_blocks : Int := 0
  n_block_hits : Int := 0
  total_cost : Int := 0
  saved_cost : Int := 0
  n_evictions : Int := 0
  n_self_evictions : Int := 0
  n_unexpected_evictions : Int := 0
  n_unobserved_eviction_rounds : Int := 0
deriving DecidableEq, Repr

structure SimulatorConfig where
  cache_size_blocks : Int
  /-- the cost of a block by its position -/
  cost_model : Nat → Int := fun _ => 1
  verify : Bool := true
  pin_request_blocks : Bool := true
  replay_deepest_first : Bool := true

structure Simulator (σ : Type) where
  cache : σ
  req_buf : Request := { obj_id := 0 }
  stats : Stats := {}

variable {σ : Type} (P : CachePolicy σ) (config : SimulatorConfig)

/-- What a function with an `error` argument returns: true, or false and a text. -/
abbrev Result := Except String Unit

def INT32_MAX : Int := 2 ^ 31 - 1

variable (request : BlockRequest)

def BlockRequest.alpha : Finset ObjId := request.blocks.toFinset

def fill_request (i : Nat) : Request where
  obj_id := request.blocks.getD i 0
  obj_size := 1
  obj_cost := config.cost_model i
  next_access_vtime := request.next_access_vtime i
  clock_time := request.timestamp.num.tdiv request.timestamp.den

structure Matched where
  stats : Stats
  resident : List Bool := []
  missing : Finset ObjId := ∅

/-- One position; the program stops when its cost does not fit `int32_t`. -/
def match_block (cache : σ) (m : Matched) (block : ObjId × Nat) : Option Matched := do
  let cost := config.cost_model block.2
  guard (cost ≤ INT32_MAX)
  let hit := P.find cache block.1
  let stats := { m.stats with n_blocks := m.stats.n_blocks + 1, total_cost := m.stats.total_cost + cost }
  if hit then
    return { m with
      stats := { stats with n_block_hits := stats.n_block_hits + 1, saved_cost := stats.saved_cost + cost }
      resident := m.resident ++ [true] }
  else
    return { stats := stats, resident := m.resident ++ [false], missing := insert block.1 m.missing }

def match_request (cache : σ) (stats : Stats) (request : BlockRequest) : Option Matched :=
  request.blocks.zipIdx.foldlM (match_block P config cache) { stats := stats }

/-! ## Phase 2: allocate -/

/-- The variables of `allocate`; `ret` is set when the loop is left by `return`. -/
structure Alloc (σ : Type) where
  cache : σ
  stats : Stats
  needed : Int
  victims : List ObjId := []
  progress : Int := 0
  unobserved_freed : Int := 0
  alpha_resident : Finset ObjId
  ret : Option Result := none

/-- The `do`-`while` loop around `evict`: again while nothing was reported and nothing freed. -/
def evict_once (pin : Option (ObjId → Bool)) (req_buf : Request) (cache : σ) (victims : List ObjId) :
    Option (σ × List ObjId) := do
  let occupied_before := P.get_occupied_byte cache
  let limit := P.get_n_obj cache + 16
  let evict (s : σ × List ObjId × Int) : Option (σ × List ObjId × Int) := do
    let (cache, reported) ← P.evict pin s.1 req_buf
    return (cache, s.2.1 ++ reported, s.2.2 + 1)
  let again (s : σ × List ObjId × Int) : Bool :=
    s.2.1.length = victims.length && P.get_occupied_byte s.1 ≥ occupied_before &&
      P.get_occupied_byte s.1 > 0 && s.2.2 < limit
  let first ← evict (cache, victims, 0)
  let (cache, victims, _) ← whileLoop again evict limit.toNat first
  return (cache, victims)

def evict_round (pin : Option (ObjId → Bool)) (req_buf : Request) (a : Alloc σ) : Option (σ × List ObjId) :=
  match P.evict_n with
  | some evict_n => do
    let (cache, reported) ← evict_n pin a.cache req_buf (a.needed - a.progress)
    return (cache, a.victims ++ reported)
  | none => evict_once P pin req_buf a.cache a.victims

def no_progress_error (occupied_now : Int) : String :=
  "eviction made no progress while serving request " ++ toString request.index ++
    " (the algorithm evicted nothing); cache is " ++ toString occupied_now ++ "/" ++
    toString config.cache_size_blocks ++ " blocks"

def unreported (a : Alloc σ) (occupied_before : Int) : Alloc σ :=
  let occupied_now := P.get_occupied_byte a.cache
  if occupied_now ≥ occupied_before then
    { a with ret := some (.error (no_progress_error config request occupied_now)) }
  else
    let freed := occupied_before - occupied_now
    let a := { a with
      stats := { a.stats with
        n_evictions := a.stats.n_evictions + freed
        n_unobserved_eviction_rounds := a.stats.n_unobserved_eviction_rounds + 1 }
      unobserved_freed := a.unobserved_freed + freed }
    if a.unobserved_freed < a.needed then a
    else
      let gone := request.alpha.filter fun id => !P.find a.cache id
      let lost := gone ∩ a.alpha_resident
      let a := { a with
        stats := { a.stats with n_self_evictions := a.stats.n_self_evictions + lost.card }
        alpha_resident := a.alpha_resident \ lost }
      let remaining := (gone.card : Int) - (config.cache_size_blocks - occupied_now)
      if remaining ≤ 0 then { a with ret := some (.ok ()) }
      else { a with needed := remaining, progress := 0, unobserved_freed := 0 }

def count_victim (alpha : Finset ObjId) (a : Alloc σ) (victim : ObjId) : Alloc σ :=
  let stats := { a.stats with n_evictions := a.stats.n_evictions + 1 }
  if victim ∈ alpha then
    { a with stats := { stats with n_self_evictions := stats.n_self_evictions + 1 } }
  else
    { a with stats := stats, progress := a.progress + 1 }

def allocate_round (pin : Option (ObjId → Bool)) (req_buf : Request) (request : BlockRequest)
    (a : Alloc σ) : Option (Alloc σ) := do
  let before := a.victims.length
  let occupied_before := P.get_occupied_byte a.cache
  let (cache, victims) ← evict_round P pin req_buf a
  let a := { a with cache := cache, victims := victims }
  if victims.length = before then
    return unreported P config request a occupied_before
  else
    return (victims.drop before).foldl (count_victim request.alpha) a

/-- The request that `evict` is given: the first missing block, else the last one filled. -/
def evict_request (req_buf : Request) (request : BlockRequest) (resident : List Bool) : Request :=
  match resident.findIdx? (· = false) with
  | some i => fill_request config request i
  | none => req_buf

def resident_blocks (resident : List Bool) : Finset ObjId :=
  (((request.blocks.zip resident).filter (·.2)).map (·.1)).toFinset

/-- Every round frees a block or ends the loop, so the occupancy bounds the rounds. -/
def allocate (pin : Option (ObjId → Bool)) (cache : σ) (req_buf : Request) (m : Matched)
    (request : BlockRequest) (needed : Int) : Option (Alloc σ × Request) := do
  let req_buf := evict_request config req_buf request m.resident
  let a ← whileLoop (fun a => a.ret.isNone && a.progress < a.needed)
    (allocate_round P config pin req_buf request) (P.get_occupied_byte cache + 1).toNat
    { cache := cache, stats := m.stats, needed := needed
      alpha_resident := resident_blocks request m.resident }
  return (a, req_buf)

def access_block (s : σ × Request × List ObjId) (i : Nat) :
    Option (σ × Request × List ObjId) := do
  let req_buf := fill_request config request i
  let (cache, reported) ← P.get s.1 req_buf
  return (cache, req_buf, s.2.2 ++ reported)

variable (s : Simulator σ)

def access (request : BlockRequest) : Option (Simulator σ) := do
  let positions := List.range request.blocks.length
  let order := if config.replay_deepest_first then positions.reverse else positions
  let (cache, req_buf, victims) ← order.foldlM (access_block P config request) (s.cache, s.req_buf, [])
  return { cache := cache, req_buf := req_buf
           stats := { s.stats with
             n_unexpected_evictions := s.stats.n_unexpected_evictions + victims.length } }

def verify_error (i : Nat) : String :=
  "after replaying request " ++ toString request.index ++ ", block " ++ toString i ++ " of " ++
    toString request.blocks.length ++
    " is not resident. The eviction algorithm's find() does not report what it holds, so the " ++
    "phase-1 match cannot be trusted for it. Use one of the supported algorithms, or pass " ++
    "--no-verify if you know what you are doing."

def verify (cache : σ) (request : BlockRequest) : Result :=
  match request.blocks.findIdx? fun id => !P.find cache id with
  | some i => .error (verify_error request i)
  | none => .ok ()

/-! ## The whole request -/

def skips : Bool := (request.alpha.card : Int) > config.cache_size_blocks

def BlockRequest.ctx : RequestCtx where
  timestamp := request.timestamp
  category := request.category
  n_blocks := request.blocks.length
  session := request.session
  session_next_access := request.session_next_access

def set_request_ctx (cache : σ) (request : BlockRequest) : σ :=
  match P.set_request_ctx with
  | some f => f cache request.ctx
  | none => cache

def record_request (cache : σ) (request : BlockRequest) : Option σ :=
  match P.record_request with
  | some f => f cache request.blocks
  | none => some cache

def pin_predicate : Option (ObjId → Bool) :=
  if config.pin_request_blocks then some fun id => decide (id ∈ request.alpha) else none

/-- The hook, the match and the allocation: all of `serve` before `record_request`. -/
def make_room (request : BlockRequest) : Option (Simulator σ × Result) := do
  let stats := { s.stats with n_requests := s.stats.n_requests + 1 }
  let cache := set_request_ctx P s.cache request
  let m ← match_request P config cache stats request
  let free_slots := config.cache_size_blocks - P.get_occupied_byte cache
  let needed := (m.missing.card : Int) - free_slots
  if needed > 0 then
    let (a, req_buf) ← allocate P config (pin_predicate config request) cache s.req_buf m request needed
    return ({ cache := a.cache, req_buf := req_buf, stats := a.stats }, a.ret.getD (.ok ()))
  else
    return ({ s with cache := cache, stats := m.stats }, .ok ())

def serve (request : BlockRequest) : Option (Simulator σ × Result) := do
  if skips config request then
    let stats := { s.stats with n_requests_skipped := s.stats.n_requests_skipped + 1 }
    return ({ s with stats := stats }, .ok ())
  let (s, ok) ← make_room P config s request
  match ok with
  | .error text => return (s, .error text)
  | .ok () =>
    let cache ← record_request P s.cache request
    let s ← access P config { s with cache := cache } request
    return (s, if config.verify then verify P s.cache request else .ok ())

def serve_ok (request : BlockRequest) : Option (Simulator σ) :=
  match serve P config s request with
  | some (s', .ok ()) => some s'
  | _ => none

end CacheSim.Prefixsim
