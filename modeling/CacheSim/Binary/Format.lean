import CacheSim.Binary.Records

/-!
# Records by a format string (`traceReader/generalReader/binary.c`)

The string names the type of each field, as Python's `struct` does. `none` is a format that the reader does
not accept, an `int` that overflows, or a read outside the string or the file.
-/

namespace CacheSim.Binary

open Lib List Int
open Option (bind_eq_bind bind_none bind_some)

/-- `request_t`, with its cost. -/
structure Request extends BinaryRequest where
  obj_cost : Int := 1
deriving DecidableEq, Repr

def format_to_size (format : UInt8) : Option Nat :=
  if format = ch 'c' ∨ format = ch 'b' ∨ format = ch 'B' then some 1
  else if format = ch 'h' ∨ format = ch 'H' then some 2
  else if format = ch 'i' ∨ format = ch 'I' ∨ format = ch 'l' ∨ format = ch 'L' ∨ format = ch 'f' then some 4
  else if format = ch 'q' ∨ format = ch 'Q' ∨ format = ch 'd' then some 8
  else none

def add_size (offset : Int) (format : UInt8) : Option Int := do
  let size ← format_to_size format
  guard (offset + size < 2 ^ 31)
  return offset + size

/-- The loop stops at the zero that ends the string, which has no size. -/
def cal_offset (format_str : Bytes) (field_idx : Int) : Option Int :=
  if (field_idx - 1).toNat > format_str.length then none
  else (format_str.take (field_idx - 1).toNat).foldlM add_size 0

/-- `fmt_str[i]`, the zero at the end included. -/
def char_at (fmt_str : Bytes) (i : Int) : Option UInt8 :=
  if i < 0 ∨ i > fmt_str.length then none else some (fmt_str.getD i.toNat 0)

/-! ## The reader -/

inductive Target where
  | obj_id | time | obj_size | obj_cost | op | ttl | next_access_vtime
deriving DecidableEq, Repr

/-- `time_field_idx`, `time_format` and `time_offset` of `binary_params_t`, and so on. -/
structure Field where
  field_idx : Int
  format : UInt8
  offset : Int
deriving DecidableEq, Repr

/-- The fields of `reader_init_param_t` for this trace type: the string, and `obj_id_field`, `time_field` and so on. -/
structure BinaryInit where
  binary_fmt_str : Bytes
  field : Target → Int
  trace_start_offset : Nat := 0

/-- `reader_t` with `binary_params_t`. -/
structure BinaryReader where
  mapped_file : Bytes
  mmap_offset : Nat
  trace_start_offset : Nat
  n_total_req : Int
  item_size : Nat
  params : Target → Field

/-- An index goes into an `int8_t`. -/
def to_field_idx (field : Int) : Int := field.bmod (2 ^ 8)

def setup_obj_id (fmt_str : Bytes) (field : Int) : Option Field := do
  let field_idx := to_field_idx field
  let format ← char_at fmt_str (field_idx - 1)
  let offset ← cal_offset fmt_str field_idx
  return { field_idx := field_idx, format := format, offset := offset }

def setup_field (fmt_str : Bytes) (field : Int) : Option Field :=
  if to_field_idx field > 0 then setup_obj_id fmt_str field
  else some { field_idx := to_field_idx field, format := 0, offset := -1 }

def binaryReader_setup (init : BinaryInit) (file : Bytes) : Option BinaryReader := do
  guard (init.binary_fmt_str.head? = some (ch '<'))
  let fmt_str := init.binary_fmt_str.tail
  let obj_id ← setup_obj_id fmt_str (init.field .obj_id)
  let time ← setup_field fmt_str (init.field .time)
  let obj_size ← setup_field fmt_str (init.field .obj_size)
  let obj_cost ← setup_field fmt_str (init.field .obj_cost)
  let op ← setup_field fmt_str (init.field .op)
  let ttl ← setup_field fmt_str (init.field .ttl)
  let next_access_vtime ← setup_field fmt_str (init.field .next_access_vtime)
  let item_size ← cal_offset fmt_str (fmt_str.length + 1)
  guard (item_size ≠ 0)
  return {
    mapped_file := file
    mmap_offset := init.trace_start_offset
    trace_start_offset := init.trace_start_offset
    n_total_req := (((file.length : Int) - init.trace_start_offset) % 2 ^ 64) / item_size
    item_size := item_size.toNat
    params := fun
      | .obj_id => obj_id
      | .time => time
      | .obj_size => obj_size
      | .obj_cost => obj_cost
      | .op => op
      | .ttl => ttl
      | .next_access_vtime => next_access_vtime }

/-- The conversions of a `float` and a `double` to `int64_t`. -/
structure FloatCasts where
  of_float : Bytes → Int
  of_double : Bytes → Int

def read_data (casts : FloatCasts) (src : Bytes) (format : UInt8) : Option Int := do
  let size ← format_to_size format
  guard (size ≤ src.length)
  let data := src.take size
  return if format = ch 'f' then casts.of_float data else if format = ch 'd' then casts.of_double data else get_int data

def Target.set (v : Int) (req : Request) : Target → Request
  | .obj_id => { req with obj_id := (v % 2 ^ 64).toNat }
  | .time => { req with clock_time := v }
  | .obj_size => { req with obj_size := v }
  | .obj_cost => { req with obj_cost := v }
  | .op => { req with op := (v % 2 ^ 32).toNat }
  | .ttl => { req with ttl := v.bmod (2 ^ 32) }
  | .next_access_vtime => { req with next_access_vtime := if v = -1 then MAX_REUSE_DISTANCE else v }

def Target.all : List Target := [.obj_id, .time, .obj_size, .obj_cost, .op, .ttl, .next_access_vtime]

/-- The object id is read whatever its index; the ttl only in a build with `SUPPORT_TTL`. -/
def BinaryReader.reads (support_ttl : Bool) (r : BinaryReader) (t : Target) : Bool :=
  t = .obj_id ∨ (r.params t).field_idx > 0 ∧ (t = .ttl → support_ttl)

def read_field (support_ttl : Bool) (casts : FloatCasts) (r : BinaryReader) (req : Request) (t : Target) : Option Request :=
  if r.reads support_ttl t then do
    let start := r.mapped_file.drop r.mmap_offset
    let v ← read_data casts (start.drop (r.params t).offset.toNat) (r.params t).format
    return t.set v req
  else some req

def binary_read_one_req (support_ttl : Bool) (casts : FloatCasts) (r : BinaryReader) (req : Request) :
    Option (BinaryReader × Request) := do
  let req ← Target.all.foldlM (read_field support_ttl casts r) req
  return ({ r with mmap_offset := r.mmap_offset + r.item_size }, req)

def signed_formats : Bytes := ascii "bhilq"

def unsigned_formats : Bytes := ascii "BcHIL"

def width (format : UInt8) : Nat := (format_to_size format).getD 0

def InRange (format : UInt8) (v : Int) : Prop :=
  format ∈ signed_formats ∧ -2 ^ (8 * width format - 1) ≤ v ∧ v < 2 ^ (8 * width format - 1) ∨
  format ∈ unsigned_formats ∧ 0 ≤ v ∧ v < 2 ^ (8 * width format)

def fields (fmt : Bytes) (record : List Int) : List Bytes := List.zipWith (fun format v => put_int (width format) v) fmt record

def field_offset (fmt : Bytes) (i : Nat) : Nat := ((fmt.take i).map width).sum

/-- A format string of integers, an index for each field that is to be read, and records that fit. -/
structure Assigned (init : BinaryInit) (fmt header : Bytes) (records : List (List Int)) : Prop where
  fmt_str : init.binary_fmt_str = ch '<' :: fmt
  header : init.trace_start_offset = header.length
  obj_id : 1 ≤ init.field .obj_id
  nonneg : ∀ t, 0 ≤ init.field t
  le : ∀ t, init.field t ≤ fmt.length
  fits : ∀ record ∈ records, List.Forall₂ InRange fmt record
  integer : ∀ format ∈ fmt, format ∈ signed_formats ∨ format ∈ unsigned_formats

variable {l : Bytes}

/-- In this form a test runs over the bytes of `l`, not over all bytes. -/
theorem forall_mem_of_all {p : UInt8 → Prop} [DecidablePred p] (h : l.all fun b => decide (p b)) : ∀ b ∈ l, p b := by
  simpa using h

variable {format : UInt8}

theorem width_of_mem (h : format ∈ signed_formats ∨ format ∈ unsigned_formats) :
    format_to_size format = some (width format) ∧ (width format = 1 ∨ width format = 2 ∨ width format = 4 ∨ width format = 8) ∧
    format ≠ ch 'f' ∧ format ≠ ch 'd' ∧ (format ∈ unsigned_formats → width format ≠ 8) := by
  rw [← mem_append] at h
  have hall : ∀ f ∈ signed_formats ++ unsigned_formats, format_to_size f = some (width f) ∧
      (width f = 1 ∨ width f = 2 ∨ width f = 4 ∨ width f = 8) ∧ f ≠ ch 'f' ∧ f ≠ ch 'd' ∧
      (f ∈ unsigned_formats → width f ≠ 8) := forall_mem_of_all (by decide)
  exact hall format h

variable {init : BinaryInit} {fmt header : Bytes} {records : List (List Int)} {record : List Int}

variable {i : Nat}

theorem field_offset_le (fmt : Bytes) (hi : i < fmt.length) :
    field_offset fmt i + width (fmt.getD i 0) ≤ (fmt.map width).sum := by
  induction fmt generalizing i with
  | nil => simp at hi
  | cons format fmt ih =>
    cases i with
    | zero => simp [field_offset]
    | succ i =>
      have hstep := ih (by simpa using hi)
      simp only [field_offset, take_succ_cons, map_cons, sum_cons, getD_cons_succ] at hstep ⊢
      omega

/-! ## Offsets -/

theorem foldlM_add_size (hl : ∀ format ∈ l, format ∈ signed_formats ∨ format ∈ unsigned_formats) {a : Int}
    (ha : a < 2 ^ 31) :
    l.foldlM add_size a = if a + ((l.map width).sum : Nat) < 2 ^ 31 then some (a + ((l.map width).sum : Nat)) else none := by
  induction l generalizing a with
  | nil => rw [foldlM_nil, map_nil, sum_nil, Nat.cast_zero, add_zero, if_pos ha]; rfl
  | cons format l ih =>
    have hsize := (width_of_mem (hl format (by simp))).1
    have hrest : ∀ f ∈ l, f ∈ signed_formats ∨ f ∈ unsigned_formats := fun f hf => hl f (by simp [hf])
    rw [foldlM_cons, map_cons, sum_cons]
    by_cases hlt : a + width format < 2 ^ 31
    · have hstep : add_size a format = some (a + width format) := by
        simp only [add_size, hsize, guard, bind, Option.bind, if_pos hlt]
        rfl
      simp only [hstep, bind, Option.bind]
      rw [ih hrest hlt]
      push_cast
      simp only [add_assoc]
    · have hstep : add_size a format = none := by
        simp only [add_size, hsize, guard, bind, Option.bind, if_neg hlt]
        rfl
      simp only [hstep, bind, Option.bind]
      rw [if_neg]
      omega

theorem cal_offset_eq (hfmt : ∀ format ∈ fmt, format ∈ signed_formats ∨ format ∈ unsigned_formats) (hi : i ≤ fmt.length) :
    cal_offset fmt (i + 1) = if field_offset fmt i < 2 ^ 31 then some (field_offset fmt i : Int) else none := by
  have hidx : ((i : Int) + 1 - 1).toNat = i := by omega
  rw [cal_offset, hidx, if_neg (by omega), foldlM_add_size (fun f hf => hfmt f (mem_of_mem_take hf)) (by decide)]
  simp only [zero_add, field_offset]
  norm_cast

def field_of (fmt : Bytes) (field : Int) : Field :=
  let j := to_field_idx field
  if 0 < j then { field_idx := j, format := fmt.getD (j - 1).toNat 0, offset := field_offset fmt (j - 1).toNat }
  else { field_idx := j, format := 0, offset := -1 }

variable {field : Int}

theorem to_field_idx_le (h : 0 ≤ field) : to_field_idx field ≤ field := by
  unfold to_field_idx
  rw [bmod_def]
  split_ifs <;> omega

section

variable (hfmt : ∀ format ∈ fmt, format ∈ signed_formats ∨ format ∈ unsigned_formats)
include hfmt

theorem setup_obj_id_eq
    (hfield : 0 ≤ field) (hle : field ≤ fmt.length) (hsmall : (fmt.map width).sum < 2 ^ 31) :
    setup_obj_id fmt field = if 0 < to_field_idx field then some (field_of fmt field) else none := by
  have hj := to_field_idx_le hfield
  by_cases hpos : 0 < to_field_idx field
  · obtain ⟨i, hi⟩ : ∃ i : Nat, to_field_idx field = i + 1 := ⟨(to_field_idx field - 1).toNat, by omega⟩
    have hlt : i < fmt.length := by omega
    have hoffset := field_offset_le fmt hlt
    have hchar : char_at fmt i = some (fmt.getD i 0) := by
      rw [char_at, if_neg (by omega)]
      rfl
    have hcal : cal_offset fmt (i + 1) = some (field_offset fmt i : Int) := by
      rw [cal_offset_eq hfmt hlt.le, if_pos (by omega)]
    rw [if_pos hpos, setup_obj_id, field_of]
    simp only [hi, add_sub_cancel_right, hchar, hcal, bind]
    rw [if_pos (by omega)]
    rfl
  · have hchar : char_at fmt (to_field_idx field - 1) = none := by
      rw [char_at, if_pos (by omega)]
    rw [if_neg hpos, setup_obj_id]
    simp only [hchar, bind, Option.bind]

theorem setup_field_eq
    (hfield : 0 ≤ field) (hle : field ≤ fmt.length) (hsmall : (fmt.map width).sum < 2 ^ 31) :
    setup_field fmt field = some (field_of fmt field) := by
  unfold setup_field
  split_ifs with hpos
  · rw [setup_obj_id_eq hfmt hfield hle hsmall, if_pos hpos]
  · rw [field_of, if_neg hpos]

end

def opened (init : BinaryInit) (fmt file : Bytes) : BinaryReader where
  mapped_file := file
  mmap_offset := init.trace_start_offset
  trace_start_offset := init.trace_start_offset
  n_total_req := (((file.length : Int) - init.trace_start_offset) % 2 ^ 64) / ((fmt.map width).sum : Nat)
  item_size := (fmt.map width).sum
  params t := field_of fmt (init.field t)

theorem Assigned.setup_eq_some (h : Assigned init fmt header records) {file : Bytes} {r : BinaryReader} :
    binaryReader_setup init file = some r ↔
      (fmt.map width).sum < 2 ^ 31 ∧ 0 < to_field_idx (init.field .obj_id) ∧ r = opened init fmt file := by
  have hitem : cal_offset fmt (fmt.length + 1) =
      if (fmt.map width).sum < 2 ^ 31 then some ((fmt.map width).sum : Int) else none := by
    rw [cal_offset_eq h.integer le_rfl, field_offset, take_length]
  have hpos : (fmt.map width).sum ≠ 0 := by
    have hlen : 0 < fmt.length := by
      have := h.obj_id
      have := h.le .obj_id
      omega
    have hfirst := field_offset_le fmt hlen
    have hwidth := (width_of_mem (h.integer (fmt.getD 0 0) (by
      rw [getD_eq_getElem?_getD, getElem?_eq_getElem hlen]
      exact getElem_mem _))).2.1
    omega
  by_cases hsmall : (fmt.map width).sum < 2 ^ 31
  · rw [if_pos hsmall] at hitem
    have hfield := fun t => setup_field_eq h.integer (h.nonneg t) (h.le t) hsmall
    have hobj := setup_obj_id_eq h.integer (h.nonneg .obj_id) (h.le .obj_id) hsmall
    have hparams : (opened init fmt file).params = fun
        | .obj_id => field_of fmt (init.field .obj_id)
        | .time => field_of fmt (init.field .time)
        | .obj_size => field_of fmt (init.field .obj_size)
        | .obj_cost => field_of fmt (init.field .obj_cost)
        | .op => field_of fmt (init.field .op)
        | .ttl => field_of fmt (init.field .ttl)
        | .next_access_vtime => field_of fmt (init.field .next_access_vtime) := by
      funext t
      cases t <;> rfl
    by_cases hj : 0 < to_field_idx (init.field .obj_id)
    · have hne : ((fmt.map width).sum : Int) ≠ 0 := by omega
      have hsetup : binaryReader_setup init file = some (opened init fmt file) := by
        simp only [binaryReader_setup, h.fmt_str, tail_cons, guard, hfield, hobj, hitem, if_pos hj,
          bind_eq_bind, bind_some, if_pos hne, ← hparams]
        rfl
      simp only [hsetup, Option.some.injEq, hsmall, hj, true_and, eq_comm]
    · simp only [hj]
      simp only [binaryReader_setup, h.fmt_str, tail_cons, hobj, if_neg hj, bind_eq_bind, bind_none]
      simp
  · rw [if_neg hsmall] at hitem
    simp only [hsmall, false_and]
    simp only [binaryReader_setup, h.fmt_str, tail_cons, hitem]
    simp

/-! ## Reading a record -/

def Request.get (req : Request) : Target → Int
  | .obj_id => req.obj_id
  | .time => req.clock_time
  | .obj_size => req.obj_size
  | .obj_cost => req.obj_cost
  | .op => req.op
  | .ttl => req.ttl
  | .next_access_vtime => req.next_access_vtime

def Target.shown (t : Target) (v : Int) : Int := (t.set v {}).get t

/-- A reader with this format that stands after `front`. -/
structure Stands (init : BinaryInit) (fmt front rest : Bytes) (r : BinaryReader) : Prop where
  file : r.mapped_file = front ++ rest
  offset : r.mmap_offset = front.length
  item_size : r.item_size = (fmt.map width).sum
  params : ∀ t, r.params t = field_of fmt (init.field t)

variable {support_ttl : Bool} {casts : FloatCasts} {front rest : Bytes} {r : BinaryReader} {t : Target} {v : Int} {w : Nat}

def On (support_ttl : Bool) (init : BinaryInit) (t : Target) : Prop :=
  0 < to_field_idx (init.field t) ∧ (t = .ttl → support_ttl = true)

theorem Stands.reads_iff (hr : Stands init fmt front rest r) (hobj : 0 < to_field_idx (init.field .obj_id)) (t : Target) :
    r.reads support_ttl t = true ↔ On support_ttl init t := by
  have hidx : (r.params t).field_idx = to_field_idx (init.field t) := by
    rw [hr.params, field_of]
    split_ifs <;> rfl
  simp only [BinaryReader.reads, hidx, On, decide_eq_true_eq]
  by_cases ht : t = .obj_id
  · subst ht
    simp [hobj]
  · simp [ht]

def Target.expected (t : Target) (v : Int) : Int := if t = .next_access_vtime ∧ v = -1 then MAX_REUSE_DISTANCE else v

def no_floats : FloatCasts := { of_float := fun _ => 0, of_double := fun _ => 0 }

end CacheSim.Binary
