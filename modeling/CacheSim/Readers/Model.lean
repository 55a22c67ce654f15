import CacheSim.Lcp.Model
import CacheSim.Readers.Csv
import CacheSim.Zstd

/-!
# One reader for every trace type (`traceReader/reader.c`, `readerRequest.c`)

The reader reads forward and has no sampler. `none` is an error that ends the program, a read outside a
buffer or past the end of the mapped file, or a decompression that has not ended within its fuel.
-/

namespace CacheSim.Readers

open Lib Binary Zstd

structure Build where
  support_ttl : Bool
  casts : FloatCasts
  zstd : Decoder
  /-- rounds of `zstd_reader_read_bytes` -/
  fuel : Nat

/-- `reader_t` of a plain text trace. A string keeps its quark as long as the program runs. -/
structure Txt where
  file : Bytes
  pos : Nat
  mmap_offset : Nat
  obj_id_is_num : Bool
  g_quark_from_string : Bytes → Nat

def next_line : Nat → Txt → Option (Txt × Option Bytes)
  | 0, _ => none
  | fuel + 1, s =>
    match getline (s.file.drop s.pos) with
    | none => some (s, none)
    | some line =>
      let s := { s with pos := s.pos + line.length }
      if line = [10] then next_line fuel s else some (s, some line)

def txt_read_one_req (s : Txt) (req : Binary.Request) : Option (Txt × Binary.Request × Bool) := do
  let (s, line) ← next_line (s.file.length + 1) s
  match line with
  | none => return (s, { req with valid := false }, false)
  | some line =>
    if s.obj_id_is_num then
      guard (read_any_number (c_str line) ≠ none)
      return (s, { req with obj_id := strtoull0 (c_str line) }, true)
    else
      let line := if line.getLast? = some 10 then line.dropLast else line
      return (s, { req with obj_id := s.g_quark_from_string (c_str line) }, true)

/-- What a read copies out of a record; the size of the object is always in it. -/
structure RecordFormat where
  fields : Bytes → BinaryRequest → BinaryRequest
  obj_size_eq : ∀ record a b, (fields record a).obj_size = (fields record b).obj_size

theorem lcs_obj_size_eq (lcs_ver : Nat) (record : Bytes) (a b : BinaryRequest) :
    (lcs_fields lcs_ver record a).obj_size = (lcs_fields lcs_ver record b).obj_size := by
  unfold lcs_fields
  split_ifs <;> rfl

def oracleGeneral_format : RecordFormat where
  fields := oracleGeneral_fields
  obj_size_eq _ _ _ := rfl

def lcs_format (lcs_ver : Nat) : RecordFormat where
  fields := lcs_fields lcs_ver
  obj_size_eq := lcs_obj_size_eq lcs_ver

def _read_bytes_zstd (b : Build) (z : ZstdReader b.zstd) (size : Nat) : Option (ZstdReader b.zstd × Bytes) := do
  let (z, data) ← zstd_reader_read_bytes size b.fuel z
  guard (data ≠ [] ∨ z.status = .MY_EOF)
  return (z, data)

def zstd_read_record (b : Build) (fields : Bytes → BinaryRequest → BinaryRequest) :
    Nat → ZstdReader b.zstd → Binary.Reader → BinaryRequest → Option (ZstdReader b.zstd × BinaryRequest × Bool)
  | 0, _, _, _ => none
  | fuel + 1, z, r, req => do
    let (z, record) ← _read_bytes_zstd b z r.item_size
    if record = [] then return (z, { req with valid := false }, false)
    else
      let req := fields record req
      if r.skips req then zstd_read_record b fields fuel z r req else return (z, req, true)

def zstd_lcp_bytes (b : Build) (z : ZstdReader b.zstd) (r : Lcp.LcpParams) : Option (ZstdReader b.zstd × Bytes) :=
  if r.n_req_read = r.stat.n_req then some (z, []) else _read_bytes_zstd b z Lcp.lcp_req_size

def zstd_lcp_record (b : Build) (z : ZstdReader b.zstd) (r : Lcp.LcpParams) :
    Option (ZstdReader b.zstd × Lcp.LcpParams × Option Lcp.LcpReqV1) := do
  let (z, data) ← zstd_lcp_bytes b z r
  let (r, rec_) ← Lcp._read_record { r with rest := data }
  return (z, r, rec_)

def zstd_seek_block (b : Build) : Nat → ZstdReader b.zstd → Lcp.LcpParams → Option (ZstdReader b.zstd × Lcp.LcpParams × Bool)
  | fuel, z, r =>
    if r.blocks_left ≠ 0 then some (z, r, true)
    else
      match fuel with
      | 0 => none
      | fuel + 1 => do
        let (z, r, rec_) ← zstd_lcp_record b z r
        match rec_ with
        | none => return (z, r, false)
        | some rec_ => zstd_seek_block b fuel z { r with
            blocks_left := rec_.n_blocks, block_pos := 0, clock_time := rec_.complete_time_us.tdiv 1000000 }

def zstd_lcp_read_one_req (b : Build) (llm_block_cost : Int → Int) (z : ZstdReader b.zstd) (r : Lcp.LcpParams) :
    Option (ZstdReader b.zstd × Lcp.LcpParams × Option CacheSim.Request) := do
  let (z, r, more) ← zstd_seek_block b ((r.stat.n_req - r.n_req_read).toNat + 1) z r
  if !more then
    return (z, r, none)
  let (z, data) ← _read_bytes_zstd b z Lcp.lcp_block_size
  let (r, id, next_access) ← Lcp._read_block { r with rest := data }
  return (z, { r with blocks_left := r.blocks_left - 1, block_pos := r.block_pos + 1 }, some {
    obj_id := id
    obj_size := 1
    obj_cost := llm_block_cost r.block_pos
    next_access_vtime := if next_access < 0 then Trace.MAX_REUSE_DISTANCE else next_access
    clock_time := r.clock_time })

/-! ## The reader -/

/-- What a trace type keeps, with where it stands in the file. Compressed traces have their own position; the offset that
is compared with the length of the file is `mmap_offset` of the reader. -/
inductive Source (b : Build) where
  | csv (s : Csv)
  | plain_txt (s : Txt)
  | bin (s : BinaryReader)
  | records (format : RecordFormat) (s : Binary.Reader)
  | lcp (llm_block_cost : Int → Int) (s : Lcp.LcpParams)
  | zstd_records (format : RecordFormat) (z : ZstdReader b.zstd) (s : Binary.Reader)
  | zstd_lcp (llm_block_cost : Int → Int) (z : ZstdReader b.zstd) (s : Lcp.LcpParams) (mmap_offset : Nat)

/-- `reader_t`, with `ignore_ttl` and `obj_cost_field` of `init_params`. -/
structure Reader (b : Build) where
  source : Source b
  cap_at_n_req : Int := 0
  ignore_obj_size : Bool := false
  ignore_ttl : Bool := false
  obj_cost_field : Int := 0
  n_read_req : Int := 0
  n_req_left : Int := 0
  last_req_clock_time : Int := -1

variable {b : Build}

def Source.mmap_offset : Source b → Nat
  | .csv s => s.mmap_offset
  | .plain_txt s => s.mmap_offset
  | .bin s => s.mmap_offset
  | .records _ s => s.mmap_offset
  | .lcp _ s => Lcp.lcp_header_size + (s.body.length - s.rest.length)
  | .zstd_records _ _ s => s.mmap_offset
  | .zstd_lcp _ _ _ mmap_offset => mmap_offset

def Source.file_size : Source b → Nat
  | .csv s => s.file.length
  | .plain_txt s => s.file.length
  | .bin s => s.mapped_file.length
  | .records _ s => s.file_size
  | .lcp _ s => Lcp.lcp_header_size + s.body.length
  | .zstd_records _ _ s => s.file_size
  | .zstd_lcp _ z _ _ => z.file.length

def Source.item_size : Source b → Nat
  | .csv _ | .plain_txt _ => 0
  | .bin s => s.item_size
  | .records _ s | .zstd_records _ _ s => s.item_size
  | .lcp .. | .zstd_lcp .. => Lcp.lcp_block_size

def Source.n_total_req : Source b → Int
  | .bin s => s.n_total_req
  | .records _ s | .zstd_records _ _ s => s.n_total_req
  | .lcp _ s | .zstd_lcp _ _ s _ => s.stat.n_block
  | .csv _ | .plain_txt _ => 0

def Source.is_lcp : Source b → Bool
  | .lcp .. | .zstd_lcp .. => true
  | _ => false

def lcp_request (req : Binary.Request) : Option CacheSim.Request → Binary.Request × Bool
  | none => ({ req with valid := false }, false)
  | some block => ({ req with
      clock_time := block.clock_time
      obj_id := block.obj_id
      obj_size := block.obj_size
      obj_cost := block.obj_cost
      next_access_vtime := block.next_access_vtime }, true)

def Source.read_one_req (n_req_left last_req_clock_time : Int) (req : Binary.Request) : Source b → Option (ReadResult (Source b))
  | .csv s => do
    let (s, n_req_left, last_req_clock_time, req, ok) ← csv_read_one_req (s.file.length + 1) s n_req_left last_req_clock_time req
    return (.csv s, n_req_left, last_req_clock_time, req, ok)
  | .plain_txt s => do
    let (s, req, ok) ← txt_read_one_req s req
    return (.plain_txt s, n_req_left, last_req_clock_time, req, ok)
  | .bin s => do
    let (s, req) ← binary_read_one_req b.support_ttl b.casts s req
    return (.bin s, n_req_left, last_req_clock_time, req, true)
  | .records format s => do
    let (s, q, ok) ← read_record format.fields (s.file_size + 1) s req.toBinaryRequest
    return (.records format s, n_req_left, last_req_clock_time, { req with toBinaryRequest := q }, ok)
  | .lcp llm_block_cost s => do
    let (s, block) ← Lcp.lcp_read_one_req llm_block_cost s
    let (req, ok) := lcp_request req block
    return (.lcp llm_block_cost s, n_req_left, last_req_clock_time, req, ok)
  | .zstd_records format z s => do
    let (z, q, ok) ← zstd_read_record b format.fields b.fuel z s req.toBinaryRequest
    return (.zstd_records format z s, n_req_left, last_req_clock_time, { req with toBinaryRequest := q }, ok)
  | .zstd_lcp llm_block_cost z s mmap_offset => do
    let (z, s, block) ← zstd_lcp_read_one_req b llm_block_cost z s
    let (req, ok) := lcp_request req block
    return (.zstd_lcp llm_block_cost z s mmap_offset, n_req_left, last_req_clock_time, req, ok)

variable (r : Reader b) (req : Binary.Request)

def Reader.adjust : Binary.Request :=
  let req := if r.ignore_obj_size then { req with obj_size := 1 } else req
  let req := if r.ignore_ttl then { req with ttl := 0 } else req
  if r.obj_cost_field ≤ 0 ∧ !r.source.is_lcp then { req with obj_cost := 1 } else req

def blank : Binary.Request := { req with ttl := 0, obj_size := 1, obj_cost := 1, valid := true }

/-- The last value returned is true when the function returns 0. -/
def read_one_req : Option (Reader b × Binary.Request × Bool) :=
  if r.source.mmap_offset ≥ r.source.file_size then some (r, { req with valid := false }, false)
  else if r.cap_at_n_req > 1 ∧ r.n_read_req ≥ r.cap_at_n_req then some (r, { req with valid := false }, false)
  else if r.n_req_left > 0 then
    some ({ r with n_req_left := r.n_req_left - 1 }, r.adjust { req with clock_time := r.last_req_clock_time }, true)
  else do
    let (source, n_req_left, last_req_clock_time, req, ok) ←
      r.source.read_one_req r.n_req_left r.last_req_clock_time (blank req)
    return ({ r with
      source := source
      n_read_req := r.n_read_req + 1
      n_req_left := n_req_left
      last_req_clock_time := last_req_clock_time }, r.adjust req, ok)

/-- `n` calls into one request: what each of them delivers, and nothing after a call that does not return. -/
def outcomes : Nat → Reader b → Binary.Request → List (Option (Option Binary.Request))
  | 0, _, _ => []
  | n + 1, r, req =>
    match read_one_req r req with
    | none => [none]
    | some (r, req, ok) => some (if ok then some req else none) :: outcomes n r req

def read_n_req : Nat → Reader b → Binary.Request → Option (Reader b × Binary.Request × Nat)
  | 0, r, req => some (r, req, 0)
  | n + 1, r, req => do
    let (r, req, ok) ← read_one_req r req
    let (r, req, n_ok) ← read_n_req n r req
    return (r, req, (if ok then 1 else 0) + n_ok)

/-! ## Rewinding and skipping -/

def zstd_rewind (b : Build) (z : ZstdReader b.zstd) (trace_start_offset : Nat) : Option (ZstdReader b.zstd × Bytes) :=
  if trace_start_offset > 0 then _read_bytes_zstd b (reset_zstd_reader z) trace_start_offset else some (reset_zstd_reader z, [])

def Source.reset : Source b → Option (Source b)
  | .csv s => some (.csv (csv_reset_reader s))
  | .plain_txt s => some (.plain_txt { s with pos := 0 })
  | .bin s => some (.bin { s with mmap_offset := s.trace_start_offset })
  | .records format s => some (.records format (Binary.reset_reader s))
  | .lcp llm_block_cost s => some (.lcp llm_block_cost (Lcp.reset_reader s))
  | .zstd_records format z s => do
    let (z, _) ← zstd_rewind b z s.trace_start_offset
    return .zstd_records format z (Binary.reset_reader s)
  | .zstd_lcp llm_block_cost z s _ => do
    let (z, _) ← zstd_rewind b z Lcp.lcp_header_size
    return .zstd_lcp llm_block_cost z (Lcp.reset_reader s) Lcp.lcp_header_size

/-- What is left of a row that is repeated stays. -/
def reset_reader : Option (Reader b) := do
  let source ← r.source.reset
  return { r with source := source, n_read_req := 0 }

/-- The offset and the return value of `skip_n_req`; `N * item_size` does not pass 2^63. -/
def skip_bytes (N mmap_offset item_size file_size : Nat) : Nat × Int :=
  if mmap_offset + N * item_size ≤ file_size then (mmap_offset + N * item_size, N)
  else (file_size, int32 ((((file_size : Int) - mmap_offset) % 2 ^ 64) / item_size))

def Source.at (s : Source b) (mmap_offset : Nat) : Source b :=
  match s with
  | .bin s => .bin { s with mmap_offset := mmap_offset }
  | .records format s => .records format { s with mmap_offset := mmap_offset }
  | .lcp llm_block_cost s => .lcp llm_block_cost { s with rest := s.body.drop (mmap_offset - Lcp.lcp_header_size) }
  | s => s

/-- `skip_n_req` of a binary trace that is not compressed. -/
def skip_n_req (N : Nat) : Reader b × Int :=
  let (mmap_offset, count) := skip_bytes N r.source.mmap_offset r.source.item_size r.source.file_size
  ({ r with source := r.source.at mmap_offset }, count)

/-! ## Opening -/

def zstd_lcs_setup (b : Build) (ignore_size_zero_req : Bool) (file : Bytes) : Option (ZstdReader b.zstd × Binary.Reader) := do
  let (z, data) ← _read_bytes_zstd b (create_zstd_reader b.zstd file) lcs_trace_header_size
  let s ← lcsReader_setup { mapped_file := data, trace_type := .lcs, ignore_size_zero_req := ignore_size_zero_req }
  return (z, { s with mapped_file := file, mmap_offset := 0, n_total_req := 0 })

def zstd_lcp_setup (b : Build) (llm_cost_model_max : Int → Int) (file : Bytes) : Option (ZstdReader b.zstd × Lcp.LcpParams) := do
  let (z, data) ← _read_bytes_zstd b (create_zstd_reader b.zstd file) Lcp.lcp_header_size
  guard (data ≠ [])
  let header := Lcp.lcp_header_of_bytes data
  guard (Lcp._verify_lcp_header header)
  guard (llm_cost_model_max header.stat.max_blocks_per_req ≤ 2 ^ 31 - 1)
  return (z, Lcp.open_body header.stat [])

/-- Records without a header, from an offset in the file on; oracleGeneral traces have `item_size` 24. -/
def open_records (file : Bytes) (item_size trace_start_offset : Nat) (ignore_size_zero_req : Bool) : Binary.Reader :=
  count_records {
    mapped_file := file
    trace_type := .oracle_general
    mmap_offset := trace_start_offset
    item_size := item_size
    trace_start_offset := trace_start_offset
    ignore_size_zero_req := ignore_size_zero_req }

/-- What `setup_reader` makes of a file of records without a header. A start offset is an `int`, an empty file cannot be
mapped, and each field that is selected is one of the format. -/
inductive Source.Headerless : Source b → Prop
  | bin {init : BinaryInit} {file : Bytes} {s : BinaryReader} : file ≠ [] → init.trace_start_offset ≤ file.length →
      init.trace_start_offset < 2 ^ 31 → (∀ t, to_field_idx (init.field t) < init.binary_fmt_str.length) →
      binaryReader_setup init file = some s → Headerless (.bin s)
  | records (format : RecordFormat) {file : Bytes} {item_size trace_start_offset : Nat} (ignore_size_zero_req : Bool) : file ≠ [] →
      0 < item_size → trace_start_offset ≤ file.length → trace_start_offset < 2 ^ 31 →
      Headerless (.records format (open_records file item_size trace_start_offset ignore_size_zero_req))

/-- What `setup_reader` makes of a file. -/
inductive Source.Opened : Source b → Prop
  | csv {init : CsvInit} {file : Bytes} {s : Csv} : csv_setup_reader init file = some s → Opened (.csv s)
  | plain_txt (file : Bytes) (trace_start_offset : Nat) (obj_id_is_num : Bool) (quark : Bytes → Nat) :
      Opened (.plain_txt { file := file, pos := 0, mmap_offset := trace_start_offset, obj_id_is_num := obj_id_is_num
                           g_quark_from_string := quark })
  | headerless {s : Source b} : s.Headerless → Opened s
  | lcs {file : Bytes} {ignore_size_zero_req : Bool} {s : Binary.Reader} : file ≠ [] →
      lcsReader_setup { mapped_file := file, trace_type := .lcs, ignore_size_zero_req := ignore_size_zero_req } = some s →
      Opened (.records (lcs_format s.lcs_ver) s)
  | lcp {llm_cost_model_max : Int → Int} {file : Bytes} {s : Lcp.LcpParams} (llm_block_cost : Int → Int) :
      Lcp.lcpReader_setup llm_cost_model_max file = some s → Opened (.lcp llm_block_cost s)
  | zstd_lcs {file : Bytes} {ignore_size_zero_req : Bool} {z : ZstdReader b.zstd} {s : Binary.Reader} :
      zstd_lcs_setup b ignore_size_zero_req file = some (z, s) → Opened (.zstd_records (lcs_format s.lcs_ver) z s)
  | zstd_lcp {llm_cost_model_max : Int → Int} {file : Bytes} {z : ZstdReader b.zstd} {s : Lcp.LcpParams} (llm_block_cost : Int → Int) :
      zstd_lcp_setup b llm_cost_model_max file = some (z, s) → Opened (.zstd_lcp llm_block_cost z s 0)

/-- A reader from which nothing has been read; its options are free. -/
structure Reader.Opened (r : Reader b) : Prop where
  source : r.source.Opened
  n_read_req : r.n_read_req = 0
  n_req_left : r.n_req_left = 0
  last_req_clock_time : r.last_req_clock_time = -1

def Reached (r₀ : Reader b) (n : Nat) (r : Reader b) : Prop := ∃ req₀ req n_ok, read_n_req n r₀ req₀ = some (r, req, n_ok)

end CacheSim.Readers
