import CacheSim.Trace.Model
import CacheSim.Lib.Packed
import CacheSim.Lib.NextUse

/-!
# The lcp format (`traceReader/customizedReader/lcp.c`, `lcp.h`, `LcpReader` of `trace.cpp`)

A header, and for each request a record and its blocks. The blocks can be read one by one or a request at
a time. `none` is a file that the reader does not accept: the program ends, or would read past the end of
the file.
-/

namespace CacheSim.Lcp

open Lib Trace

/-! ## Layout -/

structure LcpReqV1 where
  start_time_us : Int
  complete_time_us : Int
  chat_id : Int
  parent_chat_id : Int
  session_next_req : Int
  session_id : Nat
  user_id : Nat
  n_blocks : Nat
  input_length : Int
  output_length : Int
  turn : Int
  type_id : Int
deriving DecidableEq, Repr

def lcp_req_widths : List Nat := [8, 8, 8, 8, 8, 4, 4, 4, 4, 4, 4, 4]

def lcp_req_size : Nat := 68

def lcp_req_of_bytes (data : Bytes) : LcpReqV1 :=
  let f := unpack lcp_req_widths data
  { start_time_us := get_int (f.getD 0 [])
    complete_time_us := get_int (f.getD 1 [])
    chat_id := get_int (f.getD 2 [])
    parent_chat_id := get_int (f.getD 3 [])
    session_next_req := get_int (f.getD 4 [])
    session_id := of_le (f.getD 5 [])
    user_id := of_le (f.getD 6 [])
    n_blocks := of_le (f.getD 7 [])
    input_length := get_int (f.getD 8 [])
    output_length := get_int (f.getD 9 [])
    turn := get_int (f.getD 10 [])
    type_id := get_int (f.getD 11 []) }

def lcp_block_size : Nat := 16

def LCP_TRACE_MAGIC : Nat := 0x6c63700000000001

def LCP_CURR_VERSION : Nat := 1

def LCP_MAX_TYPE : Nat := 32

def LCP_TYPE_NAME_LEN : Nat := 32

/-- `lcp_trace_stat_t` -/
structure LcpStat where
  version : Int := 1
  n_req : Int
  n_block : Int
  n_unique_block : Int := 0
  n_session : Int := 0
  n_user : Int := 0
  max_blocks_per_req : Int
  first_complete_time_us : Int := 0
  last_complete_time_us : Int := 0
  block_size_tokens : Int := 0
  n_type : Int := 0
  /-- the whole table, each name with zeros to 32 bytes -/
  type_names : Bytes := []
deriving DecidableEq, Repr

def LcpStat.type_name (stat : LcpStat) (id : Nat) : Bytes :=
  ((stat.type_names.drop (LCP_TYPE_NAME_LEN * id)).take LCP_TYPE_NAME_LEN).takeWhile (· ≠ 0)

def lcp_header_size : Nat := 8192

def lcp_header_widths : List Nat := [8, 8, 8, 8, 8, 8, 8, 8, 8, 8, 8, 8, 8, 1024, 6888, 168, 8]

structure LcpHeader where
  start_magic : Nat
  version : Nat
  stat : LcpStat
  end_magic : Nat

def lcp_header_of_bytes (data : Bytes) : LcpHeader :=
  let f := unpack lcp_header_widths data
  { start_magic := of_le (f.getD 0 [])
    version := of_le (f.getD 1 [])
    stat := {
      version := get_int (f.getD 2 [])
      n_req := get_int (f.getD 3 [])
      n_block := get_int (f.getD 4 [])
      n_unique_block := get_int (f.getD 5 [])
      n_session := get_int (f.getD 6 [])
      n_user := get_int (f.getD 7 [])
      max_blocks_per_req := get_int (f.getD 8 [])
      first_complete_time_us := get_int (f.getD 9 [])
      last_complete_time_us := get_int (f.getD 10 [])
      block_size_tokens := get_int (f.getD 11 [])
      n_type := get_int (f.getD 12 [])
      type_names := f.getD 13 [] }
    end_magic := of_le (f.getD 16 []) }

/-! ## The reader -/

/-- `lcp_params_t`, and the file: all that follows the header, and what is left of it. -/
structure LcpParams where
  stat : LcpStat
  body : Bytes
  rest : Bytes
  blocks_left : Int := 0
  block_pos : Int := 0
  clock_time : Int := 0
  next_access : Int := 0
  n_req_read : Int := 0
  n_block_read : Int := 0
  max_block_id : Nat := 0

def open_body (stat : LcpStat) (body : Bytes) : LcpParams := { stat := stat, body := body, rest := body }

def _verify_lcp_header (header : LcpHeader) : Bool :=
  header.start_magic = LCP_TRACE_MAGIC ∧ header.end_magic = LCP_TRACE_MAGIC ∧ header.version = 1 ∧
  ¬ (header.stat.n_req < 0 ∨ header.stat.n_block < 0 ∨ header.stat.n_unique_block < 0 ∨ header.stat.n_session < 0 ∨
    header.stat.n_user < 0 ∨ header.stat.max_blocks_per_req < 0 ∨ header.stat.n_type < 0 ∨ header.stat.n_type > LCP_MAX_TYPE)

/-- `lcpReader_setup` on a file that is not compressed; `llm_cost_model_max` is the largest cost by the
number of positions. -/
def lcpReader_setup (llm_cost_model_max : Int → Int) (file : Bytes) : Option LcpParams := do
  guard (lcp_header_size ≤ file.length)
  let header := lcp_header_of_bytes (file.take lcp_header_size)
  guard (_verify_lcp_header header)
  guard (llm_cost_model_max header.stat.max_blocks_per_req ≤ 2 ^ 31 - 1)
  let expected := (lcp_header_size + header.stat.n_req.toNat * lcp_req_size + header.stat.n_block.toNat * lcp_block_size) % 2 ^ 64
  guard (file.length = expected)
  return open_body header.stat (file.drop lcp_header_size)

def reset_reader (r : LcpParams) : LcpParams := { r with
  rest := r.body, blocks_left := 0, block_pos := 0, clock_time := 0, next_access := 0, n_req_read := 0, n_block_read := 0,
  max_block_id := 0 }

def read_bytes (r : LcpParams) (size : Nat) : Option (Bytes × LcpParams) :=
  if size ≤ r.rest.length then some (r.rest.take size, { r with rest := r.rest.drop size }) else none

def _read_record (r : LcpParams) : Option (LcpParams × Option LcpReqV1) :=
  if r.n_req_read = r.stat.n_req then
    if r.n_block_read ≠ r.stat.n_block then none else some (r, none)
  else do
    let (data, r) ← read_bytes r lcp_req_size
    let rec_ := lcp_req_of_bytes data
    guard (¬ (rec_.n_blocks > r.stat.max_blocks_per_req ∨ rec_.session_id > r.stat.n_session ∨ rec_.user_id > r.stat.n_user ∨
      rec_.type_id < -1 ∨ rec_.type_id ≥ r.stat.n_type))
    guard (¬ (rec_.start_time_us < 0 ∨ rec_.start_time_us > rec_.complete_time_us))
    return ({ r with n_req_read := r.n_req_read + 1, next_access := 0 }, some rec_)

def _read_block (r : LcpParams) : Option (LcpParams × Nat × Int) := do
  let (data, r) ← read_bytes r lcp_block_size
  let f := unpack [8, 8] data
  let block_id := of_le (f.getD 0 [])
  guard (¬ (block_id = 0 ∨ block_id > (r.max_block_id + 1) % 2 ^ 64))
  let max_block_id := if block_id > r.max_block_id then block_id else r.max_block_id
  let n_block_read := r.n_block_read + 1
  let next_access := (r.next_access + get_int (f.getD 1 [])).bmod (2 ^ 64)
  guard (¬ (next_access ≠ -1 ∧ (next_access ≤ n_block_read ∨ next_access > r.stat.n_block)))
  return ({ r with max_block_id := max_block_id, n_block_read := n_block_read, next_access := next_access }, block_id, next_access)

def seek_block : Nat → LcpParams → Option (LcpParams × Bool)
  | fuel, r =>
    if r.blocks_left ≠ 0 then some (r, true)
    else
      match fuel with
      | 0 => none
      | fuel + 1 => do
        let (r, rec_) ← _read_record r
        match rec_ with
        | none => return (r, false)
        | some rec_ => seek_block fuel { r with
            blocks_left := rec_.n_blocks, block_pos := 0, clock_time := rec_.complete_time_us.tdiv 1000000 }

/-- One block as a request; `llm_block_cost` gives its cost by its position. -/
def lcp_read_one_req (llm_block_cost : Int → Int) (r : LcpParams) : Option (LcpParams × Option Request) := do
  let (r, more) ← seek_block ((r.stat.n_req - r.n_req_read).toNat + 1) r
  if !more then
    return (r, none)
  let (r, id, next_access) ← _read_block r
  return ({ r with blocks_left := r.blocks_left - 1, block_pos := r.block_pos + 1 }, some {
    obj_id := id
    obj_size := 1
    obj_cost := llm_block_cost r.block_pos
    next_access_vtime := if next_access < 0 then MAX_REUSE_DISTANCE else next_access
    clock_time := r.clock_time })

def read_blocks : Nat → LcpParams → Option (LcpParams × List (Nat × Int))
  | 0, r => some (r, [])
  | n + 1, r => do
    let (r, block) ← _read_block r
    let (r, blocks) ← read_blocks n r
    return (r, block :: blocks)

def lcp_read_trace_req (r : LcpParams) : Option (LcpParams × Option (LcpReqV1 × List (Nat × Int))) := do
  let (r, rec_) ← _read_record r
  match rec_ with
  | none => return (r, none)
  | some rec_ =>
    let (r, blocks) ← read_blocks rec_.n_blocks r
    return (r, some (rec_, blocks))

/-!
## Writing lcp (`bin/prefixsim/lcp_writer.cpp`), and `LcpReader` (`trace.cpp`)

Times are whole microseconds, so `to_us` is exact. Errors carry the text that the program prints.
-/

def UINT32_MAX : Nat := 2 ^ 32 - 1

/-! ## The stat block -/

def fixed6 (us : Int) : Bytes := (if us < 0 then ascii "-" else []) ++ append_seconds us.natAbs

/-- The variables of `build_stat`. -/
structure StatPass where
  n_block : Int := 0
  max_blocks_per_req : Int := 0
  /-- `type_index` by number -/
  types : List Bytes := []
  type_ids : List Int := []
  max_block : Nat := 0
  max_session : Nat := 0
  max_user : Nat := 0
  any_nonzero_time : Bool := false

def check_blocks (i : Nat) : Nat → List ObjId → Except Bytes Nat
  | max_block, [] => .ok max_block
  | max_block, id :: ids =>
    if id = 0 ∨ id > (max_block + 1) % 2 ^ 64 then
      .error (ascii "internal: block id " ++ decimal id ++ ascii " in request " ++ decimal i ++ ascii " skips past " ++
        decimal max_block)
    else check_blocks i (if id > max_block then id else max_block) ids

def type_id (types : List Bytes) (type : Bytes) : Except Bytes (List Bytes × Int) :=
  if type.isEmpty then .ok (types, -1)
  else
    match first_use types type with
    | some id => .ok (types, id)
    | none =>
      if types.length = LCP_MAX_TYPE ∨ type.length ≥ LCP_TYPE_NAME_LEN then
        .error (ascii "request type '" ++ type.take 64 ++ ascii "' does not fit the header's table (at most " ++
          decimal LCP_MAX_TYPE ++ ascii " types of under " ++ decimal LCP_TYPE_NAME_LEN ++ ascii " bytes)")
      else .ok (types ++ [type], types.length)

def check_order (prev : Option TraceRequest) (i : Nat) (r : TraceRequest) : Except Bytes Unit :=
  match prev with
  | none => .ok ()
  | some p =>
    if r.timestamp < p.timestamp then
      .error (ascii "request " ++ decimal i ++ ascii " has timestamp " ++ fixed6 r.timestamp ++ ascii ", earlier than request " ++
        decimal (i - 1) ++ ascii "'s " ++ fixed6 p.timestamp ++ ascii "; lcp requires requests in timestamp order")
    else .ok ()

def stat_request (prev : Option TraceRequest) (i : Nat) (s : StatPass) (r : TraceRequest) : Except Bytes StatPass := do
  check_order prev i r
  if r.start_timestamp < 0 ∨ r.start_timestamp > r.timestamp then
    throw (ascii "request " ++ decimal i ++ ascii " arrives at " ++ fixed6 r.start_timestamp ++ ascii " and completes at " ++
      fixed6 r.timestamp ++ ascii "; lcp needs times from a non-negative origin and arrival no later than completion")
  if r.blocks.length > UINT32_MAX then
    throw (ascii "request " ++ decimal i ++ ascii " has " ++ decimal r.blocks.length ++ ascii " blocks, over 2^32")
  if r.next_access_vtime.length ≠ r.blocks.length then
    throw (ascii "internal: requests are not annotated with next access")
  let n : Int := r.blocks.length
  let max_block ← check_blocks i s.max_block r.blocks
  let (types, id) ← type_id s.types r.type
  return {
    n_block := s.n_block + n
    max_blocks_per_req := if n > s.max_blocks_per_req then n else s.max_blocks_per_req
    types := types
    type_ids := s.type_ids ++ [id]
    max_block := max_block
    max_session := if r.session > s.max_session then r.session else s.max_session
    max_user := if r.user > s.max_user then r.user else s.max_user
    any_nonzero_time := s.any_nonzero_time || r.timestamp ≠ 0 }

def stat_requests : Option TraceRequest → Nat → StatPass → List TraceRequest → Except Bytes StatPass
  | _, _, s, [] => .ok s
  | prev, i, s, r :: requests => do
    let s ← stat_request prev i s r
    stat_requests (some r) (i + 1) s requests

/-- `type_names`, in which the bytes that are not written are 0. -/
def type_names (types : List Bytes) : Bytes :=
  ((types.map fun type => type ++ List.replicate (LCP_TYPE_NAME_LEN - type.length) 0).flatten) ++
    List.replicate (LCP_TYPE_NAME_LEN * (LCP_MAX_TYPE - types.length)) 0

def build_stat (requests : List TraceRequest) (block_size_tokens : Int) : Except Bytes (LcpStat × List Int) := do
  let s ← stat_requests none 0 {} requests
  if requests.length > 1 ∧ !s.any_nonzero_time then
    throw (ascii "every timestamp is 0: the trace has none, or stores them in a form the reader cannot parse (it expects seconds as a number)")
  if s.max_session > UINT32_MAX ∨ s.max_user > UINT32_MAX then
    throw (ascii "more than 2^32 sessions or users")
  return ({
    version := 1
    n_req := requests.length
    n_block := s.n_block
    n_unique_block := s.max_block
    n_session := s.max_session
    n_user := s.max_user
    max_blocks_per_req := s.max_blocks_per_req
    first_complete_time_us := (requests.head?.map fun r => r.timestamp).getD 0
    last_complete_time_us := (requests.getLast?.map fun r => r.timestamp).getD 0
    block_size_tokens := int32 block_size_tokens
    n_type := s.types.length
    type_names := type_names s.types }, s.type_ids)

/-! ## The file -/

def lcp_header_fields (stat : LcpStat) : List Bytes :=
  [to_le 8 LCP_TRACE_MAGIC, to_le 8 LCP_CURR_VERSION, put_int 8 stat.version, put_int 8 stat.n_req, put_int 8 stat.n_block,
    put_int 8 stat.n_unique_block, put_int 8 stat.n_session, put_int 8 stat.n_user, put_int 8 stat.max_blocks_per_req,
    put_int 8 stat.first_complete_time_us, put_int 8 stat.last_complete_time_us, put_int 8 stat.block_size_tokens,
    put_int 8 stat.n_type, stat.type_names, List.replicate 6888 0, List.replicate 168 0, to_le 8 LCP_TRACE_MAGIC]

def lcp_req_fields (rec_ : LcpReqV1) : List Bytes :=
  [put_int 8 rec_.start_time_us, put_int 8 rec_.complete_time_us, put_int 8 rec_.chat_id, put_int 8 rec_.parent_chat_id,
    put_int 8 rec_.session_next_req, to_le 4 rec_.session_id, to_le 4 rec_.user_id, to_le 4 rec_.n_blocks,
    put_int 4 rec_.input_length, put_int 4 rec_.output_length, put_int 4 rec_.turn, put_int 4 rec_.type_id]

def lcp_record (r : TraceRequest) (type_id : Int) : LcpReqV1 where
  start_time_us := r.start_timestamp
  complete_time_us := r.timestamp
  chat_id := r.chat_id
  parent_chat_id := r.parent_chat_id
  session_next_req := if r.session_next_access = Trace.INT64_MAX then -1 else r.session_next_access + 1
  session_id := r.session % 2 ^ 32
  user_id := r.user % 2 ^ 32
  n_blocks := r.blocks.length % 2 ^ 32
  input_length := r.input_length
  output_length := r.output_length
  turn := r.turn
  type_id := type_id

def lcp_blocks (prev : Int) : List (ObjId × Int) → Bytes
  | [] => []
  | (id, vtime) :: blocks =>
    let next := if vtime ≥ MAX_REUSE_DISTANCE then -1 else vtime
    to_le 8 id ++ put_int 8 (next - prev) ++ lcp_blocks next blocks

def lcp_request (r : TraceRequest) (type_id : Int) : Bytes :=
  (lcp_req_fields (lcp_record r type_id)).flatten ++ lcp_blocks 0 (r.blocks.zip r.next_access_vtime)

/-- A plain file. No file is longer than an `off_t` can say. -/
def write_lcp (requests : List TraceRequest) (block_size_tokens : Int) (path : Bytes) : Except Bytes (LcpStat × Bytes) := do
  if requests.isEmpty then
    throw (ascii "no requests to write")
  let (stat, type_ids) ← build_stat requests block_size_tokens
  let file := (lcp_header_fields stat).flatten ++ (List.zipWith lcp_request requests type_ids).flatten
  if file.length > 2 ^ 63 - 1 then
    throw (ascii "writing '" ++ path ++ ascii "' failed")
  return (stat, file)

structure LcpReader where
  params : LcpParams
  n_emitted : Int := 0
  categories : Interner Bytes := ∅

/-- `llm_cost_model_max` of the model that `open_trace` asks for: every block costs 1. -/
def llm_cost_model_max_uniform (n_positions : Int) : Int := if n_positions ≤ 0 then 0 else 1 + 0 * (n_positions - 1)

def open_lcp (file : Bytes) : Option LcpReader := do
  let params ← lcpReader_setup llm_cost_model_max_uniform file
  return { params := params }

def LcpReader.next (s : LcpReader) : Option (LcpReader × Option TraceRequest) := do
  let (params, req) ← lcp_read_trace_req s.params
  match req with
  | none => return ({ s with params := params }, none)
  | some (rec_, blocks) =>
    let type := if rec_.type_id ≥ 0 then params.stat.type_name rec_.type_id.toNat else []
    let (categories, category) := intern_category s.categories type rec_.turn
    return ({ params := params, n_emitted := s.n_emitted + 1, categories := categories }, some {
      index := s.n_emitted
      timestamp := rec_.complete_time_us
      start_timestamp := rec_.start_time_us
      blocks := blocks.map Prod.fst
      session := rec_.session_id
      user := rec_.user_id
      session_next_access := if rec_.session_next_req < 0 then Trace.INT64_MAX else rec_.session_next_req - 1
      category := category
      chat_id := rec_.chat_id
      parent_chat_id := rec_.parent_chat_id
      input_length := rec_.input_length
      output_length := rec_.output_length
      turn := rec_.turn
      type := type
      next_access_vtime := blocks.map fun b => if b.2 < 0 then MAX_REUSE_DISTANCE else b.2 })

end CacheSim.Lcp
