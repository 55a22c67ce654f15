import CacheSim.Lib.Double
import CacheSim.Lib.Loop
import CacheSim.Lib.Packed
import CacheSim.Lib.Table

/-!
# Traces of fixed-size records (`traceReader/reader.c`, `oracleGeneralBin.h`, `lcs.c`)

The file is mapped, and the reader keeps an offset into it. `none` is a file that the reader does not
accept, or a read past the end of the mapping.
-/

namespace CacheSim.Binary

open Lib

/-- `request_t`, with the fields that are in a record. -/
structure BinaryRequest where
  clock_time : Int := 0
  obj_id : Nat := 0
  obj_size : Int := 1
  ttl : Int := 0
  op : Nat := 0
  tenant_id : Int := 0
  next_access_vtime : Int := 0
  n_features : Nat := 0
  features : List Int := []
  valid : Bool := false
deriving DecidableEq, Repr

def INT64_MAX : Int := 2 ^ 63 - 1

def MAX_REUSE_DISTANCE : Int := INT64_MAX

/-! ## Records -/

def oracleGeneral_widths : List Nat := [4, 8, 4, 8]

def lcs_req_v1_widths : List Nat := [4, 8, 4, 8]

def lcs_req_v2_widths : List Nat := [4, 8, 4, 1, 3, 8]

def lcs_req_v3_widths : List Nat := [4, 8, 8, 1, 3, 4, 8]

def LCS_VER_TO_N_FEATURES (lcs_ver : Nat) : Nat := [0, 0, 0, 0, 1, 2, 4, 8, 16, 0].getD lcs_ver 0

/-- The times that stand for no next access. -/
def restore_next (req : BinaryRequest) : BinaryRequest :=
  { req with
    next_access_vtime :=
      if req.next_access_vtime = -1 ∨ req.next_access_vtime = INT64_MAX then MAX_REUSE_DISTANCE
      else req.next_access_vtime }

def oracleGeneral_fields (record : Bytes) (req : BinaryRequest) : BinaryRequest :=
  let f := unpack oracleGeneral_widths record
  restore_next { req with
    clock_time := of_le (f.getD 0 [])
    obj_id := of_le (f.getD 1 [])
    obj_size := of_le (f.getD 2 [])
    next_access_vtime := get_int (f.getD 3 []) }

def lcs_v3_fields (record : Bytes) (req : BinaryRequest) : BinaryRequest :=
  let f := unpack lcs_req_v3_widths record
  { req with
    clock_time := of_le (f.getD 0 [])
    obj_id := of_le (f.getD 1 [])
    obj_size := get_int (f.getD 2 [])
    op := of_le (f.getD 3 [])
    tenant_id := of_le (f.getD 4 [])
    ttl := get_int (f.getD 5 [])
    next_access_vtime := get_int (f.getD 6 []) }

def lcs_features (n_features : Nat) (record : Bytes) : List Int :=
  (List.range n_features).map fun i => get_int ((record.drop (36 + 4 * i)).take 4)

def lcs_fields (lcs_ver : Nat) (record : Bytes) (req : BinaryRequest) : BinaryRequest :=
  restore_next <|
    if lcs_ver = 1 then
      let f := unpack lcs_req_v1_widths record
      { req with
        clock_time := of_le (f.getD 0 [])
        obj_id := of_le (f.getD 1 [])
        obj_size := of_le (f.getD 2 [])
        next_access_vtime := get_int (f.getD 3 []) }
    else if lcs_ver = 2 then
      let f := unpack lcs_req_v2_widths record
      { req with
        clock_time := of_le (f.getD 0 [])
        obj_id := of_le (f.getD 1 [])
        obj_size := of_le (f.getD 2 [])
        op := of_le (f.getD 3 [])
        tenant_id := of_le (f.getD 4 [])
        next_access_vtime := get_int (f.getD 5 []) }
    else if lcs_ver = 3 then lcs_v3_fields record req
    else
      let n_features := LCS_VER_TO_N_FEATURES lcs_ver
      { lcs_v3_fields record req with
        n_features := n_features
        features := lcs_features n_features record ++ req.features.drop n_features }

/-! ## The header of an lcs trace -/

def LCS_TRACE_START_MAGIC : Nat := 0x123456789abcdef0

def LCS_TRACE_END_MAGIC : Nat := 0x123456789abcdef0

def lcs_trace_header_size : Nat := 8192

/-- `lcs_trace_stat_t` -/
structure LcsStat where
  version : Int := 1
  n_req : Int := 0
  n_obj : Int := 0
  n_req_byte : Int := 0
  n_obj_byte : Int := 0
  start_timestamp : Int := 0
  end_timestamp : Int := 0
  n_read : Int := 0
  n_write : Int := 0
  n_delete : Int := 0
  /-- from `smallest_obj_size` on, which no reader of the trace uses -/
  analysis : Bytes := []
deriving DecidableEq, Repr

def lcs_header_widths : List Nat := [8, 8, 8, 8, 8, 8, 8, 8, 8, 8, 8, 8, 7920, 168, 8]

structure LcsHeader where
  start_magic : Nat
  version : Nat
  stat : LcsStat
  end_magic : Nat

def lcs_header_of_bytes (data : Bytes) : LcsHeader :=
  let f := unpack lcs_header_widths data
  { start_magic := of_le (f.getD 0 [])
    version := of_le (f.getD 1 [])
    stat := {
      version := get_int (f.getD 2 [])
      n_req := get_int (f.getD 3 [])
      n_obj := get_int (f.getD 4 [])
      n_req_byte := get_int (f.getD 5 [])
      n_obj_byte := get_int (f.getD 6 [])
      start_timestamp := get_int (f.getD 7 [])
      end_timestamp := get_int (f.getD 8 [])
      n_read := get_int (f.getD 9 [])
      n_write := get_int (f.getD 10 [])
      n_delete := get_int (f.getD 11 [])
      analysis := f.getD 12 [] }
    end_magic := of_le (f.getD 14 []) }

def _verify_lcs_header (header : LcsHeader) : Bool :=
  header.start_magic = LCS_TRACE_START_MAGIC && header.end_magic = LCS_TRACE_END_MAGIC &&
    !(header.stat.n_req < 0 || header.stat.n_obj < 0)

/-- `reader->item_size` by version; another version ends the program. -/
def lcs_item_size : Nat → Option Nat
  | 1 => some 24
  | 2 => some 28
  | 3 => some 36
  | 4 => some 40
  | 5 => some 44
  | 6 => some 52
  | 7 => some 68
  | 8 => some 100
  | _ => none

/-! ## The reader -/

inductive TraceType where
  | oracle_general | lcs
deriving DecidableEq, Repr

inductive ReadDirection where
  | forward | backward
deriving DecidableEq, Repr

/-- `reader_t` of a binary trace, without a cap, a sampler or a block size. -/
structure Reader where
  mapped_file : Bytes
  trace_type : TraceType
  lcs_ver : Nat := 0
  mmap_offset : Nat := 0
  item_size : Nat := 0
  trace_start_offset : Nat := 0
  n_total_req : Int := 0
  ignore_size_zero_req : Bool := true
  ignore_obj_size : Bool := false
  read_direction : ReadDirection := .forward
deriving DecidableEq, Repr

variable (r : Reader) (req : BinaryRequest)

def Reader.file_size : Nat := r.mapped_file.length

/-- `_read_bytes`; the offset is checked, not the end of what is read. -/
def read_bytes (size : Nat) : Option (Reader × Option Bytes) :=
  if r.mmap_offset ≥ r.file_size then some (r, none)
  else if r.mmap_offset + size ≤ r.file_size then
    some ({ r with mmap_offset := r.mmap_offset + size }, some ((r.mapped_file.drop r.mmap_offset).take size))
  else none

def Reader.skips : Bool :=
  req.obj_size = 0 && r.ignore_size_zero_req && r.read_direction = .forward

/-- The loop over the records that are passed over; every round reads one. -/
def read_record (fields : Bytes → BinaryRequest → BinaryRequest) :
    Nat → Reader → BinaryRequest → Option (Reader × BinaryRequest × Bool)
  | 0, _, _ => none
  | fuel + 1, r, req => do
    let (r, record) ← read_bytes r r.item_size
    match record with
    | none => return (r, { req with valid := false }, false)
    | some record =>
      let req := fields record req
      if r.skips req then read_record fields fuel r req else return (r, req, true)

def oracleGeneralBin_read_one_req : Option (Reader × BinaryRequest × Bool) :=
  read_record oracleGeneral_fields (r.file_size + 1) r req

def lcs_read_one_req : Option (Reader × BinaryRequest × Bool) :=
  read_record (lcs_fields r.lcs_ver) (r.file_size + 1) r req

/-- The last value returned is true when the function returns 0. -/
def read_one_req : Option (Reader × BinaryRequest × Bool) :=
  if r.mmap_offset ≥ r.file_size then some (r, { req with valid := false }, false)
  else do
    let req := { req with ttl := 0, obj_size := 1, valid := true }
    let (r, req, ok) ← match r.trace_type with
      | .oracle_general => oracleGeneralBin_read_one_req r req
      | .lcs => lcs_read_one_req r req
    return (r, if r.ignore_obj_size then { req with obj_size := 1 } else req, ok)

def go_back_one_req : Reader × Bool :=
  if r.mmap_offset ≥ r.trace_start_offset + r.item_size then
    ({ r with mmap_offset := r.mmap_offset - r.item_size }, true)
  else (r, false)

def go_back_two_req : Reader × Bool :=
  let (r, ok) := go_back_one_req r
  if ok then go_back_one_req r else (r, false)

def read_one_req_above : Option (Reader × BinaryRequest × Bool) :=
  let (r, ok) := go_back_two_req r
  if ok then read_one_req r req else some (r, { req with valid := false }, false)

def reset_reader : Reader := { r with mmap_offset := r.trace_start_offset }

/-- `(double)reader->file_size * pos` as a `size_t`. -/
def scaled (file_size : Nat) (pos : ℚ) : Nat := ⌊to_double (round53 file_size * pos)⌋.toNat

def reader_set_read_pos (pos : ℚ) : Reader :=
  let pos := if pos > 1 then 1 else pos
  let offset := scaled r.file_size pos
  { r with mmap_offset := offset - offset % r.item_size }

def read_last_req : Option (Reader × BinaryRequest × Bool) := do
  let offset := r.mmap_offset
  let r := reader_set_read_pos (reset_reader r) 1
  let (r, _) := go_back_one_req r
  let (r, req, ok) ← read_one_req r req
  return ({ r with mmap_offset := offset }, req, ok)

def oracleGeneralBin_setup : Reader := { r with trace_type := .oracle_general, item_size := 24 }

def lcsReader_setup : Option Reader := do
  let (r, data) ← read_bytes r lcs_trace_header_size
  let data ← data
  let header := lcs_header_of_bytes data
  guard (_verify_lcs_header header)
  let item_size ← lcs_item_size header.version
  return { r with
    lcs_ver := header.version
    trace_type := .lcs
    trace_start_offset := lcs_trace_header_size
    n_total_req := header.stat.n_req
    item_size := item_size }

def count_records : Reader :=
  if r.n_total_req = 0 then
    { r with n_total_req := (r.file_size - r.trace_start_offset : Nat) / (r.item_size : Int) }
  else r

/-- An empty file cannot be mapped. -/
def setup_reader (trace_type : TraceType) (ignore_size_zero_req ignore_obj_size : Bool) (file : Bytes) : Option Reader :=
  let r : Reader := { mapped_file := file, trace_type := trace_type, ignore_size_zero_req := ignore_size_zero_req
                      ignore_obj_size := ignore_obj_size }
  if file = [] then none
  else match trace_type with
    | .oracle_general => some (count_records (oracleGeneralBin_setup r))
    | .lcs => (lcsReader_setup r).map count_records

end CacheSim.Binary

/-!
## The lcs converter (`bin/traceUtils/traceConvLCS.cpp`)

The source is read from its end. The records go into a temporary file in the widest layout, with the
next access counted from the end of the trace, and `_reverse_file` turns that file around.

Nothing is filtered or sampled here, and what `_analyze_trace` computes with floating point is a parameter.
-/

namespace CacheSim.Binary

open Lib

/-- `lcs_req_full_t` -/
structure LcsReqFull where
  clock_time : Nat
  obj_id : Nat
  obj_size : Int
  op : Nat
  tenant : Nat
  ttl : Nat
  next_access_vtime : Int
deriving DecidableEq, Repr

def lcs_full_req_entry_size : Nat := 36

def lcs_req_of_request (req : BinaryRequest) : LcsReqFull where
  clock_time := (req.clock_time % 2 ^ 32).toNat
  obj_id := req.obj_id
  obj_size := req.obj_size
  op := req.op % 2 ^ 8
  tenant := (req.tenant_id % 2 ^ 24).toNat
  ttl := (req.ttl % 2 ^ 32).toNat
  next_access_vtime := req.next_access_vtime

def lcs_req_full_fields (q : LcsReqFull) : List Bytes :=
  [to_le 4 q.clock_time, to_le 8 q.obj_id, put_int 8 q.obj_size, to_le 1 q.op, to_le 3 q.tenant, to_le 4 q.ttl,
    put_int 8 q.next_access_vtime]

def lcs_req_full_of_bytes (record : Bytes) : LcsReqFull :=
  let f := unpack lcs_req_v3_widths record
  { clock_time := of_le (f.getD 0 [])
    obj_id := of_le (f.getD 1 [])
    obj_size := get_int (f.getD 2 [])
    op := of_le (f.getD 3 [])
    tenant := of_le (f.getD 4 [])
    ttl := of_le (f.getD 5 [])
    next_access_vtime := get_int (f.getD 6 []) }

/-- `req->features`, as many as the version has. -/
def lcs_feature_bytes (lcs_ver : Nat) (req : BinaryRequest) : Bytes :=
  ((List.range (LCS_VER_TO_N_FEATURES lcs_ver)).map fun i => put_int 4 (req.features.getD i 0)).flatten

/-! ## The backward pass -/

structure ObjInfo where
  size : Int
  freq : Int
  last_access_vtime : Int

/-- What `convert_to_lcs` keeps between two requests. -/
structure Conversion where
  obj_map : Table Nat ObjInfo := ∅
  tenant_cnt : Table Nat Int := ∅
  ttl_cnt : Table Int Int := ∅
  stat : LcsStat := {}
  reverse : Bytes := []

/-- The next access of the request, and its size with `remove_size_change`. -/
def find_next (remove_size_change : Bool) (s : Conversion) (req : BinaryRequest) : Conversion × BinaryRequest :=
  match s.obj_map.lookup req.obj_id with
  | none =>
    ({ s with
        obj_map := s.obj_map.insert req.obj_id { size := req.obj_size, freq := 1, last_access_vtime := s.stat.n_req }
        stat := { s.stat with n_obj := s.stat.n_obj + 1, n_obj_byte := s.stat.n_obj_byte + req.obj_size } },
      { req with next_access_vtime := INT64_MAX })
  | some info =>
    ({ s with
        obj_map := s.obj_map.insert req.obj_id { info with last_access_vtime := s.stat.n_req, freq := info.freq + 1 } },
      { req with
        next_access_vtime := info.last_access_vtime
        obj_size := if info.size ≠ req.obj_size ∧ remove_size_change then info.size else req.obj_size })

def OP_GET : Nat := 1
def OP_GETS : Nat := 2
def OP_SET : Nat := 3
def OP_ADD : Nat := 4
def OP_REPLACE : Nat := 6
def OP_DELETE : Nat := 9
def OP_READ : Nat := 12
def OP_WRITE : Nat := 13
def OP_UPDATE : Nat := 14

def count_op (op : Nat) (stat : LcsStat) : LcsStat :=
  if op = OP_GET ∨ op = OP_GETS ∨ op = OP_READ then { stat with n_read := stat.n_read + 1 }
  else if op = OP_WRITE ∨ op = OP_SET ∨ op = OP_REPLACE ∨ op = OP_ADD ∨ op = OP_UPDATE then
    { stat with n_write := stat.n_write + 1 }
  else if op = OP_DELETE then { stat with n_delete := stat.n_delete + 1 }
  else stat

/-- One round of the loop. The program ends when it has read twice the trace. -/
def convert_req (lcs_ver : Nat) (remove_size_change : Bool) (n_req_total : Int) (s : Conversion) (req : BinaryRequest) :
    Option Conversion :=
  let (s, req) := find_next remove_size_change s req
  let lcs_req := lcs_req_of_request req
  let stat := count_op lcs_req.op s.stat
  let s := { s with
    tenant_cnt := s.tenant_cnt.insert lcs_req.tenant ((s.tenant_cnt.lookup lcs_req.tenant).getD 0 + 1)
    ttl_cnt := s.ttl_cnt.insert req.ttl ((s.ttl_cnt.lookup req.ttl).getD 0 + 1)
    stat := { stat with
      n_req_byte := stat.n_req_byte + req.obj_size
      n_req := stat.n_req + 1
      start_timestamp := req.clock_time }
    reverse := s.reverse ++ (lcs_req_full_fields lcs_req).flatten ++ lcs_feature_bytes lcs_ver req }
  if s.stat.n_req > n_req_total * 2 then none else some s

/-! ## Turning the file around -/

def lcs_header_fields (lcs_ver : Nat) (stat : LcsStat) : List Bytes :=
  [to_le 8 LCS_TRACE_START_MAGIC, to_le 8 lcs_ver, put_int 8 stat.version, put_int 8 stat.n_req, put_int 8 stat.n_obj,
    put_int 8 stat.n_req_byte, put_int 8 stat.n_obj_byte, put_int 8 stat.start_timestamp, put_int 8 stat.end_timestamp,
    put_int 8 stat.n_read, put_int 8 stat.n_write, put_int 8 stat.n_delete, stat.analysis, List.replicate 168 0,
    to_le 8 LCS_TRACE_END_MAGIC]

def _write_lcs_header (lcs_ver : Nat) (stat : LcsStat) : Bytes := (lcs_header_fields lcs_ver stat).flatten

def lcs_req_fields (lcs_ver : Nat) (q : LcsReqFull) : List Bytes :=
  if lcs_ver = 1 then
    [to_le 4 q.clock_time, to_le 8 q.obj_id, put_int 4 q.obj_size, put_int 8 q.next_access_vtime]
  else if lcs_ver = 2 then
    [to_le 4 q.clock_time, to_le 8 q.obj_id, put_int 4 q.obj_size, to_le 1 q.op, to_le 3 q.tenant,
      put_int 8 q.next_access_vtime]
  else lcs_req_full_fields q

/-- The time from the end becomes one from the start. -/
def turn_vtime (n_req : Int) (q : LcsReqFull) : LcsReqFull :=
  if q.next_access_vtime ≠ INT64_MAX then { q with next_access_vtime := n_req - q.next_access_vtime } else q

def reverse_records (lcs_ver : Nat) (n_req : Int) (mapped_file : Bytes) : Nat → Nat → Bytes → Option Bytes
  | 0, _, _ => none
  | fuel + 1, pos, ofile =>
    let feature_size := LCS_VER_TO_N_FEATURES lcs_ver * 4
    let entry_size := lcs_full_req_entry_size + feature_size
    if pos ≥ entry_size then
      let pos := pos - entry_size
      let q := turn_vtime n_req (lcs_req_full_of_bytes ((mapped_file.drop pos).take lcs_full_req_entry_size))
      let features := (mapped_file.drop (pos + lcs_full_req_entry_size)).take feature_size
      reverse_records lcs_ver n_req mapped_file fuel pos (ofile ++ (lcs_req_fields lcs_ver q).flatten ++ features)
    else some ofile

def _reverse_file (stat : LcsStat) (lcs_ver : Nat) (mapped_file : Bytes) : Option Bytes :=
  if lcs_ver < 1 ∨ 8 < lcs_ver then none
  else reverse_records lcs_ver stat.n_req mapped_file (mapped_file.length + 1) mapped_file.length
    (_write_lcs_header lcs_ver stat)

/-- `_analyze_trace`: the fields of the header from `smallest_obj_size` on. -/
abbrev Analysis := LcsStat → Table Nat ObjInfo → Table Nat Int → Table Int Int → { s : Bytes // s.length = 7920 }

/-- The file that is written for a source of `n_req_total` requests that delivers `backward` from its end. -/
def convert_to_lcs (_analyze_trace : Analysis) (n_req_total : Int) (remove_size_change : Bool) (lcs_ver : Nat)
    (backward : List BinaryRequest) : Option Bytes := do
  let req ← backward.head?
  let s ← runs (convert_req lcs_ver remove_size_change n_req_total) { stat := { end_timestamp := req.clock_time } } backward
  guard (s.stat.n_req = n_req_total)
  let stat := { s.stat with analysis := (_analyze_trace s.stat s.obj_map s.tenant_cnt s.ttl_cnt).1 }
  _reverse_file stat lcs_ver s.reverse

end CacheSim.Binary
