import CacheSim.Prefixsim.Model
import CacheSim.Lib.Text
import CacheSim.Lib.Table

/-!
# Traces of requests (`bin/prefixsim/trace.hpp`, `trace.cpp`)

What a reader hands out, and `load_trace`, which computes the next accesses in two passes from the
end. A request that the simulator will skip does not count.
-/

namespace CacheSim.Trace

open Lib Prefixsim

def INT64_MAX : Int := 2 ^ 63 - 1

def MAX_REUSE_DISTANCE : Int := INT64_MAX

/-- `Request` of `trace.hpp`. Times are in microseconds. -/
structure TraceRequest where
  index : Int := 0
  timestamp : Int := 0
  start_timestamp : Int := 0
  blocks : List ObjId := []
  session : Nat := 0
  user : Nat := 0
  session_next_access : Int := INT64_MAX
  category : Nat := 0
  chat_id : Int := -1
  parent_chat_id : Int := -1
  input_length : Int := -1
  output_length : Int := -1
  turn : Int := -1
  type : Bytes := []
  next_access_vtime : List Int := []
deriving DecidableEq, Repr

def TraceRequest.view (r : TraceRequest) : BlockRequest where
  index := r.index
  timestamp := (r.timestamp : ℚ) / 10 ^ 6
  blocks := r.blocks
  next_access_vtime := fun i => r.next_access_vtime.getD i MAX_REUSE_DISTANCE
  session := r.session
  session_next_access := r.session_next_access
  category := r.category

/-! ## Annotation -/

def exceeds_cache (request : TraceRequest) (cache_size_blocks : Int) : Bool :=
  if (request.blocks.length : Int) ≤ cache_size_blocks then false
  else (request.blocks.toFinset.card : Int) > cache_size_blocks

/-- The variables of the reverse pass of `annotate_next_access`. -/
structure BlockPass where
  next_seen : ObjId → Option Int := fun _ => none
  vtime : Int

def annotate_blocks : List ObjId → BlockPass → List Int × BlockPass
  | [], s => ([], s)
  | id :: blocks, s =>
    let (next, s) := annotate_blocks blocks s
    ((s.next_seen id).getD MAX_REUSE_DISTANCE :: next,
      { next_seen := Function.update s.next_seen id (some s.vtime), vtime := s.vtime - 1 })

def annotate_requests (cache_size_blocks : Int) : List TraceRequest → BlockPass → List TraceRequest × BlockPass
  | [], s => ([], s)
  | r :: requests, s =>
    let (out, s) := annotate_requests cache_size_blocks requests s
    if exceeds_cache r cache_size_blocks then
      ({ r with next_access_vtime := List.replicate r.blocks.length MAX_REUSE_DISTANCE } :: out, s)
    else
      let (next, s) := annotate_blocks r.blocks s
      ({ r with next_access_vtime := next } :: out, s)

def annotate_next_access (requests : List TraceRequest) (cache_size_blocks : Int) : List TraceRequest :=
  let total := ((requests.filter fun r => !exceeds_cache r cache_size_blocks).map fun r => (r.blocks.length : Int)).sum
  (annotate_requests cache_size_blocks requests { vtime := total }).1

def annotate_sessions (cache_size_blocks : Int) (i : Int) : List TraceRequest → List TraceRequest × (Nat → Option Int)
  | [] => ([], fun _ => none)
  | r :: requests =>
    let (out, next_seen) := annotate_sessions cache_size_blocks (i + 1) requests
    if exceeds_cache r cache_size_blocks then ({ r with session_next_access := INT64_MAX } :: out, next_seen)
    else
      ({ r with session_next_access := (next_seen r.session).getD INT64_MAX } :: out,
        Function.update next_seen r.session (some i))

def annotate_session_next_access (requests : List TraceRequest) (cache_size_blocks : Int) : List TraceRequest :=
  (annotate_sessions cache_size_blocks 0 requests).1

def load_trace (annotated : Bool) (requests : List TraceRequest) (cache_size_blocks : Int) :
    Except String (List TraceRequest) :=
  let any_exceeds := requests.any fun r => exceeds_cache r cache_size_blocks
  if requests.isEmpty then .error "trace contained no usable requests"
  else if !annotated || any_exceeds then
    .ok (annotate_session_next_access (annotate_next_access requests cache_size_blocks) cache_size_blocks)
  else .ok requests

/-!
## JSONL traces (`trace.cpp`, `jsonl_writer.cpp`)

The reader scans a line for its keys and takes what follows the colon. Blocks, sessions, users and
categories get the numbers 1, 2, 3, ... in the order in which they appear.
-/

/-- The number of each key. -/
abbrev Interner (κ : Type) := Table κ Nat

def intern {κ : Type} [DecidableEq κ] (ids : Interner κ) (key : κ) : Interner κ × Nat :=
  match ids.lookup key with
  | some id => (ids, id)
  | none => (ids.insert key (ids.entries.length + 1), ids.entries.length + 1)

/-- The key of `CategoryInterner`: the type and the turn with a separator. -/
def category_key (type : Bytes) (turn : Int) : Bytes :=
  (if type.isEmpty then ascii "-" else ascii "t" ++ type) ++ 0x1f ::
    (if turn ≥ 0 then decimal turn.toNat else ascii "-")

def intern_category (ids : Interner Bytes) (type : Bytes) (turn : Int) : Interner Bytes × Nat :=
  if type.isEmpty ∧ turn < 0 then (ids, 0) else intern ids (category_key type turn)

/-! ## Fields of a line -/

def isblank (c : UInt8) : Bool := c = ch ' ' ∨ c = ch '\t'

def find_field (line quoted_key : Bytes) : Option Bytes := do
  let p ← strstr quoted_key line
  let p := (p.drop quoted_key.length).dropWhile isblank
  guard (p.head? = some (ch ':'))
  return p.tail.dropWhile isblank

def starts_number (p : Bytes) : Bool := p.head?.any fun c => c = ch '-' || isdigit c

def int_field (line quoted_key : Bytes) (absent : Int) : Int :=
  match find_field line quoted_key with
  | none => absent
  | some p => if starts_number p then strtoll p else absent

def string_field (line quoted_key : Bytes) : Option Bytes := do
  let p ← find_field line quoted_key
  guard (p.head? = some (ch '"') ∧ ch '"' ∈ p.tail)
  return p.tail.takeWhile (· ≠ ch '"')

def int32 (v : Int) : Int := v.bmod (2 ^ 32)

def raw_ids : Nat → Bytes → List Nat
  | 0, _ => []
  | fuel + 1, ids =>
    if ids.head? = none ∨ ids.head? = some (ch ']') then []
    else
      let ids := ids.dropWhile fun c => c = ch ' ' ∨ c = ch ','
      if ids.head? = some (ch ']') ∨ ids.head? = none then []
      else
        match strtoull ids with
        | none => []
        | some (raw, rest) => raw :: raw_ids fuel rest

inductive BlockIdMode where
  | kPrefix
  | kRaw
deriving DecidableEq

structure QwenJsonlReader where
  n_emitted : Int := 0
  /-- by the number of the parent, 0 for a root, and the raw id -/
  blocks : Interner (Nat × Nat) := ∅
  sessions : Interner Bytes := ∅
  users : Interner Bytes := ∅
  categories : Interner Bytes := ∅

def intern_path (blocks : Interner (Nat × Nat)) (parent : Nat) : List Nat → Interner (Nat × Nat) × List ObjId
  | [] => (blocks, [])
  | raw :: raws =>
    let (blocks, id) := intern blocks (parent, raw)
    let (blocks, ids) := intern_path blocks id raws
    (blocks, id :: ids)

def hash_ids (line : Bytes) : List Nat :=
  match find_field (c_str line) (ascii "\"hash_ids\"") with
  | none => []
  | some ids => if ids.head? = some (ch '[') then raw_ids ids.length ids.tail else []

def intern_field (ids : Interner Bytes) (id : Option Bytes) : Interner Bytes × Nat :=
  match id with
  | none => (ids, 0)
  | some id => intern ids id

section
-- The number at the start of a text in microseconds, `none` if there is none.
variable (strtod : Bytes → Option Int)

def double_field (line quoted_key : Bytes) (absent : Int) : Int :=
  ((find_field line quoted_key).bind strtod).getD absent

def read_line (mode : BlockIdMode) (s : QwenJsonlReader) (line : Bytes) : QwenJsonlReader × Option TraceRequest :=
  let raws := hash_ids line
  if raws.isEmpty then (s, none)
  else
    let line := c_str line
    let (blocks, ids) := match mode with
      | .kRaw => (s.blocks, raws)
      | .kPrefix => intern_path s.blocks 0 raws
    let timestamp := double_field strtod line (ascii "\"timestamp\"") 0
    let turn := int32 (int_field line (ascii "\"turn\"") (-1))
    let type := (string_field line (ascii "\"type\"")).getD []
    let (categories, category) := intern_category s.categories type turn
    let (sessions, session) := intern_field s.sessions (string_field line (ascii "\"session_id\""))
    let (users, user) := intern_field s.users (string_field line (ascii "\"user_id\""))
    ({ n_emitted := s.n_emitted + 1, blocks := blocks, sessions := sessions, users := users, categories := categories },
      some {
        index := s.n_emitted
        timestamp := timestamp
        start_timestamp := double_field strtod line (ascii "\"timestamp_arrival\"") timestamp
        blocks := ids
        session := session
        user := user
        category := category
        chat_id := int_field line (ascii "\"chat_id\"") (-1)
        parent_chat_id := int_field line (ascii "\"parent_chat_id\"") (-1)
        input_length := int32 (int_field line (ascii "\"input_length\"") (-1))
        output_length := int32 (int_field line (ascii "\"output_length\"") (-1))
        turn := turn
        type := type })

def read_lines (mode : BlockIdMode) : QwenJsonlReader → List Bytes → List TraceRequest
  | _, [] => []
  | s, line :: lines =>
    match read_line strtod mode s line with
    | (s, none) => read_lines mode s lines
    | (s, some r) => r :: read_lines mode s lines

end

/-! ## Writing -/

def append_int (v : Int) : Bytes := if v < 0 then ch '-' :: decimal v.natAbs else decimal v.natAbs

def append_int_or_null (v : Int) : Bytes := if v < 0 then ascii "null" else append_int v

def int64 (v : Nat) : Int := (v : Int).bmod (2 ^ 64)

def append_seconds (us : Int) : Bytes :=
  let rest := us.tmod 1000000
  append_int (us.tdiv 1000000) ++ ch '.' ::
    [100000, 10000, 1000, 100, 10, 1].map fun p => UInt8.ofInt (48 + (rest.tdiv p).tmod 10)

/-- `,"key":"id"`, left out for 0. -/
def append_id (key : Bytes) (id : Nat) : Bytes := if id = 0 then [] else key ++ append_int (int64 id) ++ ascii "\""

def append_jsonl (r : TraceRequest) : Bytes :=
  ascii "\x7b\"chat_id\":" ++ append_int r.chat_id ++ ascii ",\"parent_chat_id\":" ++ append_int r.parent_chat_id ++
  ascii ",\"timestamp\":" ++ append_seconds r.timestamp ++ ascii ",\"timestamp_arrival\":" ++ append_seconds r.start_timestamp ++
  ascii ",\"input_length\":" ++ append_int_or_null r.input_length ++
  ascii ",\"output_length\":" ++ append_int_or_null r.output_length ++
  (if r.type.isEmpty then [] else ascii ",\"type\":\"" ++ r.type ++ ascii "\"") ++
  ascii ",\"turn\":" ++ append_int_or_null r.turn ++
  append_id (ascii ",\"session_id\":\"") r.session ++ append_id (ascii ",\"user_id\":\"") r.user ++
  ascii ",\"hash_ids\":[" ++ ((r.blocks.map fun id => append_int (int64 id)).intersperse (ascii ",")).flatten ++ ascii "]\x7d"

end CacheSim.Trace
