import CacheSim.Session.Model
import CacheSim.Lib.Partition

/-!
# The five session policies (`sessionCache.cpp`)

Each subclass of `SessionCache` with its own fields and hooks. An iterator into a `std::list`
stands for the one node that holds its session.
-/

namespace CacheSim.Session

open Lib Function

structure SessionLRU where
  /-- front = least recently used -/
  order : List SessionId := []
  /-- the sessions that have an iterator -/
  slot : Finset SessionId := ∅

namespace SessionLRU

def hooks : Hooks SessionLRU where
  init := {}
  select_victim _ p ss := some (p, ss, p.order.head?)
  on_touch p _ s is_new :=
    if is_new then { order := p.order ++ [s], slot := insert s p.slot }
    else if s ∈ p.slot then { p with order := p.order.erase s ++ [s] }
    else p
  on_removed p s :=
    some (if s ∈ p.slot then { order := p.order.erase s, slot := p.slot.erase s } else p)

end SessionLRU

structure Entry where
  next_access : Int
  snapshot : Int
  session : SessionId
deriving DecidableEq, Repr

/-- `std::priority_queue<Entry>`: the top has the largest `next_access`, and which of several such
entries it is is left open. -/
structure EntryQueue (Q : Type) where
  items : Q → List Entry
  empty : Q
  push : Q → Entry → Q
  top : Q → Option Entry
  pop : Q → Q
  items_empty : items empty = []
  items_push : ∀ q e, (items (push q e)).Perm (e :: items q)
  top_none : ∀ q, top q = none → items q = []
  top_some : ∀ q e, top q = some e → e ∈ items q ∧ ∀ e' ∈ items q, e'.next_access ≤ e.next_access
  items_pop : ∀ q e, top q = some e → (items q).Perm (e :: items (pop q))

namespace SessionBelady

variable {Q : Type} (queue : EntryQueue Q)

def stale (ss : Sessions) (e : Entry) : Bool :=
  match ss.lookup e.session with
  | none => true
  | some m => m.last_access != e.snapshot

def push_session (heap : Q) (s : SessionId) (m : SessionMeta) : Q :=
  queue.push heap { next_access := m.next_access, snapshot := m.last_access, session := s }

def select_victim (heap : Q) (ss : Sessions) : Option (Q × Sessions × Option SessionId) := do
  let heap ← whileLoop (fun q => (queue.top q).any (stale ss)) (fun q => some (queue.pop q))
    (queue.items heap).length heap
  match queue.top heap with
  | some top => return (heap, ss, some top.session)
  | none =>
    if ss.entries.isEmpty then
      return (heap, ss, none)
    let heap := ss.entries.foldl (fun q kv => push_session queue q kv.1 kv.2) heap
    return (heap, ss, (queue.top heap).map (·.session))

def hooks : Hooks Q where
  init := queue.empty
  select_victim _ heap ss := select_victim queue heap ss
  on_touch heap ss s _ := push_session queue heap s ((ss.lookup s).getD {})
  on_removed heap _ := some heap

end SessionBelady

/-! ## Session RandomCompute -/

structure SessionRandomCompute where
  pool : List SessionId := []
  pos : SessionId → Option Nat := fun _ => none
  /-- how many numbers `rng` has drawn -/
  drawn : Nat := 0

namespace SessionRandomCompute

-- `rng` is the stream of the seeded generator, `rnd` rounds to `double`
variable (rng : Nat → Nat) (rnd : ℚ → ℚ)

def n_sample : Nat := 8

def score (now : Int) (m : SessionMeta) : ℚ :=
  let age : ℚ := now - m.last_access
  rnd (m.cost_sum / if age > 1 then age else 1)

def sample (now : Int) (ss : Sessions) (pool : List SessionId)
    (a : Nat × Option (ℚ × SessionId)) : Option (Nat × Option (ℚ × SessionId)) := do
  let s ← pool[rng a.1 % pool.length]?
  match ss.lookup s with
  | none => return (a.1 + 1, a.2)
  | some m =>
    let score := score rnd now m
    if a.2.all (score < ·.1) then
      return (a.1 + 1, some (score, s))
    else
      return (a.1 + 1, a.2)

def select_victim (now : Int) (p : SessionRandomCompute) (ss : Sessions) :
    Option (SessionRandomCompute × Sessions × Option SessionId) := do
  match p.pool with
  | [] => return (p, ss, none)
  | s₀ :: _ =>
    let k := min p.pool.length (max 1 n_sample)
    let (drawn, best) ← (List.range k).foldlM (fun a _ => sample rng rnd now ss p.pool a) (p.drawn, none)
    return ({ p with drawn := drawn }, ss, some ((best.map (·.2)).getD s₀))

def on_removed (p : SessionRandomCompute) (s : SessionId) : Option SessionRandomCompute :=
  match p.pos s with
  | none => some p
  | some i => do
    guard (i < p.pool.length)
    let last ← p.pool.getLast?
    return { p with
      pool := (p.pool.set i last).dropLast
      pos := update (update p.pos last (some i)) s none }

def hooks : Hooks SessionRandomCompute where
  init := {}
  select_victim := select_victim rng rnd
  on_touch p _ s is_new :=
    if is_new then { p with pos := update p.pos s (some p.pool.length), pool := p.pool ++ [s] } else p
  on_removed := on_removed

end SessionRandomCompute

/-! ## Queues with a `where` map

S3FIFO and ARC keep each session in at most one queue, and a map that says in which. -/

abbrev Queues (κ : Type) := Part κ SessionId κ

namespace Queues

variable {κ : Type} [DecidableEq κ]

def empty : Queues κ := ⟨fun _ => none, fun _ => []⟩

def place (q : Queues κ) (s : SessionId) (k : κ) : Queues κ :=
  ⟨update q.table s (some k), update q.list k (q.list k ++ [s])⟩

def unlink (q : Queues κ) (s : SessionId) : Queues κ :=
  match q.table s with
  | none => q
  | some k => ⟨update q.table s none, update q.list k ((q.list k).erase s)⟩

def pop_front (q : Queues κ) (k : κ) : Queues κ :=
  match q.list k with
  | [] => q
  | s :: l => ⟨update q.table s none, update q.list k l⟩

end Queues

/-! ## Session S3FIFO -/

inductive S3Queue where
  | small | main
deriving DecidableEq, Repr

structure SessionS3FIFO where
  queues : Queues S3Queue := Queues.empty
  ghost : List SessionId := []
  ghost_set : Finset SessionId := ∅

namespace SessionS3FIFO

variable (rnd : ℚ → ℚ)

def promote_threshold : Int := 1

def ghost_cap : Nat := 0

def small (p : SessionS3FIFO) : List SessionId := p.queues.list .small

def main (p : SessionS3FIFO) : List SessionId := p.queues.list .main

def in_ghost (p : SessionS3FIFO) (s : SessionId) : Bool := decide (s ∈ p.ghost_set)

def trim_ghost (cap : Nat) (ghost : List SessionId) (ghost_set : Finset SessionId) : List SessionId × Finset SessionId :=
  match ghost with
  | [] => ([], ghost_set)
  | s :: rest => if (s :: rest).length > cap then trim_ghost cap rest (ghost_set.erase s) else (s :: rest, ghost_set)

def push_ghost (p : SessionS3FIFO) (s : SessionId) : SessionS3FIFO :=
  let ghost := if s ∈ p.ghost_set then p.ghost else p.ghost ++ [s]
  let cap := if ghost_cap ≠ 0 then ghost_cap else p.small.length + p.main.length + 1
  let (ghost, ghost_set) := trim_ghost cap ghost (insert s p.ghost_set)
  { p with ghost := ghost, ghost_set := ghost_set }

def prefer_small (p : SessionS3FIFO) : Bool :=
  !p.small.isEmpty && (p.main.isEmpty ||
    (p.small.length : ℚ) > rnd (rnd (1 / 10) * (p.small.length + p.main.length : Nat)))

def to_main (p : SessionS3FIFO) (s : SessionId) : SessionS3FIFO :=
  { p with queues := (p.queues.unlink s).place s .main }

def select_loop : Nat → SessionS3FIFO → Sessions → SessionS3FIFO × Sessions × Option SessionId
  | 0, p, ss => (p, ss, p.small.head?.or p.main.head?)
  | rounds + 1, p, ss =>
    match (if prefer_small rnd p then p.small.head? else none) with
    | some s =>
      if (ss.lookup s).any (·.freq > promote_threshold) then
        select_loop rounds (to_main p s) ss
      else (p, ss, some s)
    | none =>
      match p.main.head? with
      | none => (p, ss, none)
      | some s =>
        match ss.lookup s with
        | none => (p, ss, some s)
        | some m =>
          if m.freq > 0 then
            select_loop rounds (to_main p s) (ss.insert s { m with freq := m.freq - 1 })
          else (p, ss, some s)

def hooks : Hooks SessionS3FIFO where
  init := {}
  select_victim _ p ss :=
    let limit := 2 * (p.small.length + p.main.length) + 8
    some (select_loop rnd (limit + 1) p ss)
  on_touch p _ s is_new :=
    if !is_new then p
    else if p.in_ghost s then
      { p with ghost_set := p.ghost_set.erase s, queues := p.queues.place s .main }
    else { p with queues := p.queues.place s .small }
  on_removed p s :=
    let from_small := p.queues.table s == some .small
    let p := { p with queues := p.queues.unlink s }
    some (if from_small then p.push_ghost s else p)

end SessionS3FIFO

/-! ## Session ARC -/

inductive ARCList where
  | t1 | t2 | b1 | b2
deriving DecidableEq, Repr

structure SessionARC where
  queues : Queues ARCList := Queues.empty
  p : ℚ := 0

namespace SessionARC

variable (rnd : ℚ → ℚ)

def size (a : SessionARC) (k : ARCList) : Nat := (a.queues.list k).length

def trim_loop (c : Nat) : Nat → Queues ARCList → Queues ARCList
  | 0, q => q
  | rounds + 1, q =>
    if (q.list .b1).length + (q.list .b2).length > c then
      if !(q.list .b1).isEmpty then trim_loop c rounds (q.pop_front .b1)
      else if !(q.list .b2).isEmpty then trim_loop c rounds (q.pop_front .b2)
      else q
    else q

def trim_ghosts (a : SessionARC) : SessionARC :=
  let c := a.size .t1 + a.size .t2 + 1
  { a with queues := trim_loop c (a.size .b1 + a.size .b2) a.queues }

def move (a : SessionARC) (s : SessionId) (k : ARCList) : SessionARC :=
  { a with queues := (a.queues.unlink s).place s k }

def select_victim (a : SessionARC) : Option SessionId :=
  let t1 := a.queues.list .t1
  let t2 := a.queues.list .t2
  if t1.isEmpty && t2.isEmpty then none
  else
    let from_t1 := !t1.isEmpty && (t2.isEmpty || (t1.length : ℚ) > a.p)
    if from_t1 then t1.head? else t2.head?

def step (n m : ℚ) : ℚ := max 1 (rnd (n / max 1 m))

def on_touch (a : SessionARC) (s : SessionId) : SessionARC :=
  let n1 : ℚ := a.size .b1
  let n2 : ℚ := a.size .b2
  let c : ℚ := (a.size .t1 + a.size .t2 + 1 : Nat)
  let a := match a.queues.table s with
    | some .t1 | some .t2 => a.move s .t2
    | some .b1 => { a with p := min c (rnd (a.p + step rnd n2 n1)) }.move s .t2
    | some .b2 => { a with p := max 0 (rnd (a.p - step rnd n1 n2)) }.move s .t2
    | none => { a with queues := a.queues.place s .t1 }
  a.trim_ghosts

def on_removed (a : SessionARC) (s : SessionId) : SessionARC :=
  let k := a.queues.table s
  let a := { a with queues := a.queues.unlink s }
  let a := match k with
    | some .t1 => { a with queues := a.queues.place s .b1 }
    | some .t2 => { a with queues := a.queues.place s .b2 }
    | _ => a
  a.trim_ghosts

def hooks : Hooks SessionARC where
  init := {}
  select_victim _ a ss := some (a, ss, a.select_victim)
  on_touch a _ s _ := on_touch rnd a s
  on_removed a s := some (on_removed a s)

end SessionARC

end CacheSim.Session
