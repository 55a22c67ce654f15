import CacheSim.Binary.Format

/-!
# Reading csv (`traceReader/generalReader/libcsv.c`, `csv.c`)

A row is a line of the file, whatever its quotes say. The files are read from their start to their end.
`none` is a failed assertion, an error that ends the program, or a read outside a buffer.
-/

namespace CacheSim.Readers

open Lib Binary

def digit_value (c : UInt8) : Nat :=
  if isdigit c then c.toNat - 48
  else if 97 ≤ c ∧ c ≤ 122 then c.toNat - 87
  else if 65 ≤ c ∧ c ≤ 90 then c.toNat - 55
  else 36

def base_of (s : Bytes) : Nat × Bytes :=
  if s.head? = some (ch '0') then
    if ((s.getD 1 0) = ch 'x' ∨ (s.getD 1 0) = ch 'X') ∧ digit_value (s.getD 2 0) < 16 then (16, s.drop 2) else (8, s)
  else (10, s)

def value_in (base : Nat) (s : Bytes) : Nat := s.foldl (fun n c => base * n + digit_value c) 0

/-- The sign and the digits at the start of a text; `none` if there are no digits. -/
def read_any_number (s : Bytes) : Option (Bool × Nat) :=
  let s := s.dropWhile isspace
  let neg := s.head? = some (ch '-')
  let s := if s.head? = some (ch '-') ∨ s.head? = some (ch '+') then s.tail else s
  let (base, s) := base_of s
  let digits := s.takeWhile fun c => digit_value c < base
  if digits.isEmpty then none else some (neg, value_in base digits)

def strtoull0 (s : Bytes) : Nat :=
  match read_any_number s with
  | none => 0
  | some (neg, n) => if n ≥ 2 ^ 64 then 2 ^ 64 - 1 else if neg then (2 ^ 64 - n) % 2 ^ 64 else n

def strtoll0 (s : Bytes) : Int :=
  match read_any_number s with
  | none => 0
  | some (false, n) => min n (2 ^ 63 - 1)
  | some (true, n) => max (-n) (-2 ^ 63)

def int32 (v : Int) : Int := v.bmod (2 ^ 32)

def getline (s : Bytes) : Option Bytes := if s = [] then none else some (s.take ((s.takeWhile (· ≠ 10)).length + 1))

/-! ## The parser, with `CSV_APPEND_NULL` -/

inductive CsvState where
  | ROW_NOT_BEGUN | FIELD_NOT_BEGUN | FIELD_BEGUN | FIELD_MIGHT_HAVE_ENDED
deriving DecidableEq, Repr

/-- `struct csv_parser`; `entry` is `entry_buf` up to `entry_pos`. -/
structure CsvParser where
  delim_char : UInt8
  pstate : CsvState := .ROW_NOT_BEGUN
  quoted : Bool := false
  spaces : Nat := 0
  entry : Bytes := []
deriving DecidableEq, Repr

/-- A call of `csv_cb1` with a field, or of `csv_cb2`. -/
inductive CsvEvent where
  | field (s : Bytes)
  | row
deriving DecidableEq, Repr

def csv_init (delim : UInt8) : CsvParser := { delim_char := delim }

variable (p : CsvParser)

def submit_field : CsvParser × List CsvEvent :=
  ({ p with pstate := .FIELD_NOT_BEGUN, quoted := false, spaces := 0, entry := [] },
    [.field (if p.quoted then p.entry else p.entry.take (p.entry.length - p.spaces))])

def submit_row : CsvParser × List CsvEvent :=
  let (p, events) := submit_field p
  ({ p with pstate := .ROW_NOT_BEGUN }, events ++ [.row])

def submit_char (c : UInt8) : CsvParser := { p with entry := p.entry ++ [c] }

def unquote : CsvParser := { p with entry := p.entry.take (p.entry.length - (p.spaces + 1)) }

def is_space (c : UInt8) : Bool := c = 0x20 ∨ c = 0x09

def is_term (c : UInt8) : Bool := c = 0x0d ∨ c = 0x0a

def csv_quote : UInt8 := 0x22

def csv_char (c : UInt8) : CsvParser × List CsvEvent :=
  match p.pstate with
  | .ROW_NOT_BEGUN | .FIELD_NOT_BEGUN =>
    if is_space c ∧ c ≠ p.delim_char then (p, [])
    else if is_term c then if p.pstate = .FIELD_NOT_BEGUN then submit_row p else (p, [])
    else if c = p.delim_char then submit_field p
    else if c = csv_quote then ({ p with pstate := .FIELD_BEGUN, quoted := true }, [])
    else (submit_char { p with pstate := .FIELD_BEGUN, quoted := false } c, [])
  | .FIELD_BEGUN =>
    if c = csv_quote then
      if p.quoted then ({ submit_char p c with pstate := .FIELD_MIGHT_HAVE_ENDED }, [])
      else ({ submit_char p c with spaces := 0 }, [])
    else if c = p.delim_char then if p.quoted then (submit_char p c, []) else submit_field p
    else if is_term c then if p.quoted then (submit_char p c, []) else submit_row p
    else if !p.quoted ∧ is_space c then ({ submit_char p c with spaces := p.spaces + 1 }, [])
    else ({ submit_char p c with spaces := 0 }, [])
  | .FIELD_MIGHT_HAVE_ENDED =>
    if c = p.delim_char then submit_field (unquote p)
    else if is_term c then submit_row (unquote p)
    else if is_space c then ({ submit_char p c with spaces := p.spaces + 1 }, [])
    else if c = csv_quote then
      if p.spaces ≠ 0 then (submit_char { p with spaces := 0 } c, []) else ({ p with pstate := .FIELD_BEGUN }, [])
    else (submit_char { p with pstate := .FIELD_BEGUN, spaces := 0 } c, [])

def csv_parse : CsvParser → Bytes → CsvParser × List CsvEvent
  | p, [] => (p, [])
  | p, c :: s =>
    let (p, events) := csv_char p c
    let (p, rest) := csv_parse p s
    (p, events ++ rest)

def submit_rest : CsvParser × List CsvEvent :=
  match p.pstate with
  | .ROW_NOT_BEGUN => (p, [])
  | .FIELD_MIGHT_HAVE_ENDED => submit_row (unquote p)
  | .FIELD_NOT_BEGUN | .FIELD_BEGUN => submit_row p

def csv_fini : CsvParser × List CsvEvent :=
  ({ (submit_rest p).1 with spaces := 0, quoted := false, entry := [], pstate := .ROW_NOT_BEGUN }, (submit_rest p).2)

/-! ## The reader -/

/-- What does not change of `csv_params_t` and `reader_t`. `hash_str` is `get_hash_value_str`, and `strtod` what a time is
in whole numbers. -/
structure CsvConfig where
  time_field_idx : Int := 0
  obj_id_field_idx : Int := 0
  obj_size_field_idx : Int := 0
  obj_cost_field_idx : Int := 0
  op_field_idx : Int := 0
  cnt_field_idx : Int := 0
  ttl_field_idx : Int := 0
  tenant_field_idx : Int := 0
  feature_fields : List Int := []
  has_header : Bool := false
  delimiter : UInt8 := 0x2c
  obj_id_is_num : Bool := true
  obj_id_is_num_set : Bool := false
  ignore_size_zero_req : Bool := true
  hash_str : Bytes → Nat
  strtod : Bytes → Int

/-- `reader_t` of a csv trace; `pos` is where the file is. -/
structure Csv where
  config : CsvConfig
  file : Bytes
  pos : Nat
  mmap_offset : Nat
  trace_start_offset : Int
  parser : CsvParser
  curr_field_idx : Int := 1
  n_obj_id_is_num : Int := 0
  n_obj_id_is_not_num : Int := 0

structure CsvRow where
  req : Binary.Request
  n_req_left : Int
  curr_field_idx : Int
  n_obj_id_is_num : Int
  n_obj_id_is_not_num : Int

def is_str_num (s : Bytes) : Bool := s.all fun c => isdigit c ∨ 97 ≤ c ∧ c ≤ 102 ∨ 65 ≤ c ∧ c ≤ 70

/-- A count of object ids after which the reader insists on `obj-id-is-num=1`; 0.99 is a `double`. -/
def insists (n_obj_id_is_num n_req : Int) : Bool :=
  n_req > 20000 ∧ (n_obj_id_is_num : ℚ) > to_double (n_req * to_double (99 / 100))

def OP_WORDS : List (Bytes × Nat) :=
  [(ascii "read", OP_READ), (ascii "write", OP_WRITE), (ascii "get", OP_GET), (ascii "set", OP_SET), (ascii "delete", OP_DELETE)]

def lower (c : UInt8) : UInt8 := if 65 ≤ c ∧ c ≤ 90 then c + 32 else c

/-- `strncasecmp(s, word, len) == 0` with the length of the field -/
def same_start (s word : Bytes) : Bool := ((c_str s).take s.length).map lower = (word.take s.length).map lower

def read_op (s : Bytes) (op : Nat) : Nat := ((OP_WORDS.find? fun w => same_start s w.1).map Prod.snd).getD op

def set_feature (features : List Int) (i : Nat) (v : Int) : List Int :=
  (features ++ List.replicate (i + 1 - features.length) 0).set i v

variable (c : CsvConfig)

def read_features (idx : Int) (s : Bytes) (req : Binary.Request) : Binary.Request :=
  { req with
    features := c.feature_fields.zipIdx.foldl
      (fun features f => if idx = f.1 then set_feature features f.2 (int32 (strtoull0 s)) else features) req.features
    n_features := c.feature_fields.length }

def read_obj_id (s : Bytes) (row : CsvRow) : Option CsvRow :=
  if c.obj_id_is_num then some { row with req := { row.req with obj_id := strtoull0 (c_str s) } }
  else
    let row :=
      if c.obj_id_is_num_set then row
      else if is_str_num s then { row with n_obj_id_is_num := row.n_obj_id_is_num + 1 }
      else { row with n_obj_id_is_not_num := row.n_obj_id_is_not_num + 1 }
    if !c.obj_id_is_num_set ∧ insists row.n_obj_id_is_num (row.n_obj_id_is_num + row.n_obj_id_is_not_num) then none
    else some { row with req := { row.req with obj_id := c.hash_str s } }

def read_csv_field (row : CsvRow) (s : Bytes) : Option CsvRow :=
  let idx := row.curr_field_idx
  if idx = c.obj_id_field_idx then read_obj_id c s row
  else if idx = c.time_field_idx then some { row with req := { row.req with clock_time := c.strtod (c_str s) } }
  else if idx = c.obj_size_field_idx then some { row with req := { row.req with obj_size := strtoll0 (c_str s) } }
  else if idx = c.obj_cost_field_idx then some { row with req := { row.req with obj_cost := strtoll0 (c_str s) } }
  else if idx = c.op_field_idx then some { row with req := { row.req with op := read_op s row.req.op } }
  else if idx = c.ttl_field_idx then some { row with req := { row.req with ttl := int32 (strtoull0 (c_str s)) } }
  -- The count is a `uint64_t` that goes into an `int`.
  else if idx = c.cnt_field_idx then some { row with n_req_left := int32 (strtoull0 (c_str s) - 1) }
  else if idx = c.tenant_field_idx then some { row with req := { row.req with tenant_id := int32 (strtoull0 (c_str s)) } }
  else some { row with req := read_features c idx (c_str s) row.req }

def csv_cb1 (row : CsvRow) (s : Bytes) : Option CsvRow :=
  (read_csv_field c row s).map fun row' => { row' with curr_field_idx := row.curr_field_idx + 1 }

def csv_event (row : CsvRow) : CsvEvent → Option CsvRow
  | .field s => csv_cb1 c row s
  | .row => some { row with curr_field_idx := 1 }

def csv_line (s : Csv) (line : Bytes) (n_req_left : Int) (req : Binary.Request) : Option (Csv × Int × Binary.Request) := do
  let (p, events) := csv_parse s.parser line
  let (p, last) := csv_fini p
  let row ← (events ++ last).foldlM (csv_event s.config) {
    req := req
    n_req_left := n_req_left
    curr_field_idx := s.curr_field_idx
    n_obj_id_is_num := s.n_obj_id_is_num
    n_obj_id_is_not_num := s.n_obj_id_is_not_num }
  return ({ s with
    pos := s.pos + line.length
    parser := p
    curr_field_idx := row.curr_field_idx
    n_obj_id_is_num := row.n_obj_id_is_num
    n_obj_id_is_not_num := row.n_obj_id_is_not_num }, row.n_req_left, row.req)

/-- What a read returns: the reader, `n_req_left`, `last_req_clock_time`, the request, and whether there was one. -/
abbrev ReadResult (σ : Type) := σ × Int × Int × Binary.Request × Bool

def csv_read_one_req : Nat → Csv → Int → Int → Binary.Request → Option (ReadResult Csv)
  | 0, _, _, _, _ => none
  | fuel + 1, s, n_req_left, last_req_clock_time, req =>
    match getline (s.file.drop s.pos) with
    | none => some (s, n_req_left, last_req_clock_time, { req with valid := false }, false)
    | some line => do
      let (s, n_req_left, req) ← csv_line s line n_req_left req
      if req.obj_size = 0 ∧ s.config.ignore_size_zero_req then
        csv_read_one_req fuel s n_req_left last_req_clock_time req
      else
        return (s, n_req_left, if n_req_left > 0 then req.clock_time else last_req_clock_time, req, true)

def csv_reset_reader (s : Csv) : Csv :=
  let header := if s.config.has_header then getline s.file else some []
  { s with
    parser := csv_init s.config.delimiter
    n_obj_id_is_num := 0
    n_obj_id_is_not_num := 0
    pos := (header.map List.length).getD 0
    trace_start_offset := if s.config.has_header then (header.map fun h => (h.length : Int)).getD (-1) else s.trace_start_offset }

/-! ## Opening -/

def count_occurrence (str : Bytes) (c : UInt8) : Nat := (c_str str).count c

def read_first_line (file : Bytes) : Option Bytes := (getline file).filter fun line => line.length < 1024

def csv_detect_delimiter (file : Bytes) : Option UInt8 := do
  let first_line ← read_first_line file
  let count := fun (i : Nat) (c : UInt8) => count_occurrence first_line c * (4 - i)
  let (max_count, delimiter) := [(0, 0x09), (1, 0x2c), (2, 0x7c), (3, 0x3a)].foldl
    (fun best d => if count d.1 d.2 > best.1 then (count d.1 d.2, d.2) else best) (0, (0 : UInt8))
  guard (max_count ≠ 0)
  return delimiter

def isalpha (c : UInt8) : Bool := 65 ≤ c ∧ c ≤ 90 ∨ 97 ≤ c ∧ c ≤ 122

/-- The second comparison, without the letters a to f, sets what is set. -/
def csv_detect_header (file : Bytes) : Option Bool := do
  let first_line ← read_first_line file
  let n_digit := first_line.countP isdigit
  let n_letter := first_line.countP isalpha
  return if n_digit > n_letter then false else true

/-- `delimiter` and `has_header` of the parameters; a delimiter 0, or a header that is not set, is found out. -/
structure CsvInit where
  config : CsvConfig
  delimiter : UInt8
  has_header_set : Bool
  trace_start_offset : Nat := 0

def csv_delimiter (init : CsvInit) (file : Bytes) : Option UInt8 :=
  if init.delimiter = 0 then csv_detect_delimiter file else some init.delimiter

def csv_has_header (init : CsvInit) (file : Bytes) : Option Bool :=
  if init.has_header_set then some init.config.has_header else csv_detect_header file

def csv_setup_reader (init : CsvInit) (file : Bytes) : Option Csv := do
  let delimiter ← csv_delimiter init file
  let has_header ← csv_has_header init file
  let first_line ← getline file
  guard (init.delimiter = 0 ∨ init.delimiter ∈ c_str first_line)
  return {
    config := { init.config with delimiter := delimiter, has_header := has_header }
    file := file
    pos := if has_header then first_line.length else 0
    mmap_offset := init.trace_start_offset
    trace_start_offset := if has_header then first_line.length else init.trace_start_offset
    parser := csv_init delimiter }

end CacheSim.Readers
