import CacheSim.Lib.RefCount
import CacheSim.PQueue
import CacheSim.Prefixsim.Model

/-!
# Session-level eviction (`sessionCache.cpp`)

The victim is a conversation, not a block. Each session claims the blocks of its latest turn, and
evicting it frees the blocks that nobody else claims. A subclass of `SessionCache` only says which
session loses; its three hooks are a parameter here.
-/

namespace CacheSim.Session

open Lib Prefixsim Function

abbrev SessionId := Nat

structure SessionMeta where
  path : List ObjId := []
  last_access : Int := 0
  freq : Int := 0
  next_access : Int := INT64_MAX
  /-- a sum of `int32_t` costs -/
  cost_sum : Int := 0
deriving DecidableEq, Repr

structure BlockInfo where
  claims : Int := 0
  cost : Int := 1
deriving DecidableEq, Repr

abbrev Sessions := AList fun _ : SessionId => SessionMeta

/-- The virtual functions of a subclass whose own fields are a `π`. `none` is a read outside an
array, or a loop that does not end. -/
structure Hooks (π : Type) where
  init : π
  /-- reads `now`; may change the metadata of the sessions -/
  select_victim : Int → π → Sessions → Option (π × Sessions × Option SessionId)
  on_touch : π → Sessions → SessionId → Bool → π
  on_removed : π → SessionId → Option π

/-- The fields of `cache_t` and of `SessionCache`, with the victims that were reported to
`handle_evict` since the current call began. -/
structure State (π : Type) where
  cache_size : Int
  n_req : Int := 0
  occupied_byte : Int := 0
  n_obj : Int := 0
  /-- the size of each object -/
  hashtable : AList fun _ : ObjId => Int := ∅
  sessions : Sessions := ∅
  blocks : ObjId → Option BlockInfo := fun _ => none
  now : Int := 0
  cur_session : SessionId := 0
  cur_next_access : Int := INT64_MAX
  synthetic_next : Nat := 2 ^ 63
  policy : π
  victims : List ObjId := []

variable {π : Type} (H : Hooks π) (s : State π)

def set_ctx (ctx : RequestCtx) : State π :=
  if ctx.session = 0 then
    let synthetic_next := (s.synthetic_next + 1) % 2 ^ 64
    { s with cur_session := synthetic_next, cur_next_access := ctx.session_next_access
             synthetic_next := synthetic_next }
  else { s with cur_session := ctx.session, cur_next_access := ctx.session_next_access }

def free_block (id : ObjId) : State π :=
  match s.hashtable.lookup id with
  | some size => { s with
      hashtable := s.hashtable.erase id
      occupied_byte := s.occupied_byte - size
      n_obj := s.n_obj - 1
      victims := s.victims ++ [id] }
  | none => s

/-- `if (--b.claims <= 0)` the block goes. -/
def unclaim (id : ObjId) (b : BlockInfo) : State π :=
  if b.claims - 1 ≤ 0 then
    let s := free_block s id
    { s with blocks := update s.blocks id none }
  else { s with blocks := update s.blocks id (some { b with claims := b.claims - 1 }) }

def claim (w : State π × SessionMeta) (id : ObjId) : State π × SessionMeta :=
  let b := (w.1.blocks id).getD {}
  ({ w.1 with blocks := update w.1.blocks id (some { b with claims := b.claims + 1 }) },
    { w.2 with cost_sum := w.2.cost_sum + b.cost })

def release (w : State π × SessionMeta) (id : ObjId) : State π × SessionMeta :=
  match w.1.blocks id with
  | none => w
  | some b => (unclaim w.1 id b, { w.2 with cost_sum := w.2.cost_sum - b.cost })

/-- Claims the whole new path, then releases the whole old one. The session's metadata is written
back once, before `on_touch` can read it. -/
def record (ids : List ObjId) : State π :=
  let now := s.now + 1
  let m := (s.sessions.lookup s.cur_session).getD {}
  let is_new := m.path.isEmpty && m.last_access == 0
  let w := ids.foldl claim ({ s with now := now }, m)
  let w := m.path.foldl release w
  let sessions := s.sessions.insert s.cur_session { w.2 with
    path := ids
    last_access := now
    next_access := s.cur_next_access
    freq := if w.2.freq < 3 then w.2.freq + 1 else w.2.freq }
  { w.1 with sessions := sessions, policy := H.on_touch s.policy sessions s.cur_session is_new }

def note_insert (id : ObjId) (cost : Int) : State π :=
  match s.blocks id with
  | none => s
  | some b =>
    let after := if cost > 0 then cost else 1
    let s := { s with blocks := update s.blocks id (some { b with cost := after }) }
    match s.sessions.lookup s.cur_session with
    | none => s
    | some m => { s with
        sessions := s.sessions.insert s.cur_session { m with cost_sum := m.cost_sum + (after - b.cost) } }

/-! ## Eviction -/

def drop_block (w : State π × Int) (id : ObjId) : State π × Int :=
  match w.1.blocks id with
  | none => w
  | some b =>
    (unclaim w.1 id b,
      if b.claims - 1 ≤ 0 ∧ (w.1.hashtable.lookup id).isSome then w.2 + 1 else w.2)

def drop_session (session : SessionId) : Option (State π × Int) :=
  match s.sessions.lookup session with
  | none => some (s, 0)
  | some m => do
    let (s, freed) := m.path.foldl drop_block (s, 0)
    let policy ← H.on_removed s.policy session
    return ({ s with sessions := s.sessions.erase session, policy := policy }, freed)

/-- The variables of `evict_n`; `stuck` is set by the `break`. -/
structure Evicting (π : Type) where
  s : State π
  freed : Int := 0
  stuck : Bool := false

def evict_victim (e : Evicting π) : Option (Evicting π) := do
  let (policy, sessions, victim) ← H.select_victim e.s.now e.s.policy e.s.sessions
  let s := { e.s with policy := policy, sessions := sessions }
  match victim with
  | none => return { e with s := s, stuck := true }
  | some v => do
    let (s, freed) ← drop_session H s v
    return { e with s := s, freed := e.freed + freed }

def evict_n (n : Int) : Option (State π × Int) := do
  let e ← whileLoop (fun e => !e.stuck && e.freed < n) (evict_victim H)
    (s.sessions.keys.length + 1) { s := s }
  return (e.s, e.freed)

/-! ## The cache functions -/

def SessionCache_evict : Option (State π) := do
  let (s, freed) ← evict_n H s 1
  guard (freed ≠ 0)
  return s

def SessionCache_insert (req : Request) : State π :=
  note_insert { s with
    hashtable := s.hashtable.insert req.obj_id req.obj_size
    occupied_byte := s.occupied_byte + req.obj_size
    n_obj := s.n_obj + 1 } req.obj_id req.obj_cost

/-- No admissioner, and `obj_md_size` stays 0. -/
def ops : CacheOps (State π) where
  count_req s := { s with n_req := s.n_req + 1 }
  find s req := some (s, (s.hashtable.lookup req.obj_id).isSome)
  can_insert s req := some (s, req.obj_size ≤ s.cache_size)
  get_occupied_byte s := s.occupied_byte
  obj_md_size _ := 0
  cache_size s := s.cache_size
  evict s _ := SessionCache_evict H s
  insert s req := some (SessionCache_insert s req)

def reporting (f : State π → Option (State π)) (s : State π) : Option (State π × List ObjId) := do
  let s ← f { s with victims := [] }
  return ({ s with victims := [] }, s.victims)

/-- Every eviction in `get` frees an object. -/
def SessionCache_get (req : Request) : Option (State π) :=
  ((ops H).cache_get_base (fun s => s.hashtable.keys.length) s req).map (·.1)

def SessionCache : CachePolicy (State π) where
  find s id := (s.hashtable.lookup id).isSome
  get s req := reporting (SessionCache_get H · req) s
  evict _ s _ := reporting (SessionCache_evict H) s
  evict_n := some fun _ s _ n => reporting (fun s => (evict_n H s n).map (·.1)) s
  get_occupied_byte s := s.occupied_byte
  get_n_obj s := s.n_obj
  set_request_ctx := some set_ctx
  record_request := some fun s ids => some { record H s ids with victims := [] }

def session_cache_init (cache_size : Int) : State π where
  cache_size := cache_size
  policy := H.init

end CacheSim.Session
