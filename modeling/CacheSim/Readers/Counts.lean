import CacheSim.Readers.Reset

/-!
# Rows that stand for several requests, and the cap

The cap counts the rows that were read: what is left of a row is delivered without being counted, and is
given up when the cap is reached.
-/

namespace CacheSim.Readers

open Lib Binary List
open Option (bind_eq_bind bind_eq_some_iff bind_some map_eq_some_iff map_some some.injEq)

/-- What a row says of its requests; the time only if there is a column for it. -/
structure Row where
  obj_id : Nat
  obj_size : Int
  clock_time : Option Int
  count : Nat
  is_num : Bool
deriving DecidableEq

def field_at (fields : List Bytes) (idx : Int) : Option Bytes := if idx ≤ 0 then none else fields[(idx - 1).toNat]?

variable (c : CsvConfig)

def id_of (s : Bytes) : Nat := if c.obj_id_is_num then strtoull0 (c_str s) else c.hash_str s

def size_of (fields : List Bytes) : Option Int :=
  if c.obj_size_field_idx ≤ 0 then some 1 else (field_at fields c.obj_size_field_idx).map fun s => strtoll0 (c_str s)

def time_of (fields : List Bytes) : Option (Option Int) :=
  if c.time_field_idx ≤ 0 then some none else (field_at fields c.time_field_idx).map fun s => some (c.strtod (c_str s))

def count_of (s : Bytes) : Option Nat :=
  match read_any_number (c_str s) with
  | some (false, n) => if n < 2 ^ 63 then some n else none
  | _ => none

def row_of (fields : List Bytes) : Option Row := do
  let id ← field_at fields c.obj_id_field_idx
  let obj_size ← size_of c fields
  let clock_time ← time_of c fields
  let cnt ← field_at fields c.cnt_field_idx
  let count ← count_of cnt
  return { obj_id := id_of c id, obj_size := obj_size, clock_time := clock_time, count := count, is_num := is_str_num id }

def csv_events (delim : UInt8) (line : Bytes) : List CsvEvent :=
  (csv_parse (csv_init delim) line).2 ++ (csv_fini (csv_parse (csv_init delim) line).1).2

inductive Holds (c : CsvConfig) : Bytes → List Row → Prop
  | nil : Holds c [] []
  | cons {text line : Bytes} {fields : List Bytes} {row : Row} {rows : List Row} : getline text = some line →
      csv_events c.delimiter line = fields.map .field ++ [.row] → row_of c fields = some row →
      Holds c (text.drop line.length) rows → Holds c text (row :: rows)

/-- The columns that a row is made of differ, and the callback comes to the count. -/
structure Columns (c : CsvConfig) : Prop where
  time : c.time_field_idx ≠ c.obj_id_field_idx ∨ c.time_field_idx ≤ 0
  size : c.obj_size_field_idx ≠ c.obj_id_field_idx ∧ c.obj_size_field_idx ≠ c.time_field_idx ∨ c.obj_size_field_idx ≤ 0
  cnt : c.cnt_field_idx ∉ [c.obj_id_field_idx, c.time_field_idx, c.obj_size_field_idx, c.obj_cost_field_idx, c.op_field_idx,
    c.ttl_field_idx]

/-! ## The fields of a line -/

section

variable {c : CsvConfig} {fields : List Bytes} {idx : Int}

theorem field_at_cons {f : Bytes} (h : idx ≠ 1) : field_at (f :: fields) idx = field_at fields (idx - 1) := by
  unfold field_at
  by_cases hpos : idx ≤ 0
  · rw [if_pos hpos, if_pos (by omega)]
  · rw [if_neg hpos, if_neg (by omega)]
    obtain ⟨i, hi⟩ : ∃ i : Nat, (idx - 1).toNat = i + 1 := ⟨(idx - 2).toNat, by omega⟩
    rw [hi, getElem?_cons_succ, show (idx - 1 - 1).toNat = i by omega]

theorem field_at_one (f : Bytes) (fields : List Bytes) : field_at (f :: fields) 1 = some f := rfl

theorem field_at_of_le (h : idx ≤ 0) : field_at fields idx = none := if_pos h

variable {row row' : CsvRow} {s : Csv} {ρ : Row} {rows : List Row}

theorem idx_csv_event {s : Bytes} (h : csv_event c row (.field s) = some row') :
    row'.curr_field_idx = row.curr_field_idx + 1 := curr_field_idx_csv_event h

theorem foldlM_field {β : Type} (get : CsvRow → β) (value : Bytes → β → β) {col : Int}
    (step : ∀ row s row', 0 < row.curr_field_idx → csv_event c row (.field s) = some row' →
      get row' = if row.curr_field_idx = col then value s (get row) else get row)
    (hpos : 0 < row.curr_field_idx)
    (h : (fields.map CsvEvent.field).foldlM (csv_event c) row = some row') :
    get row' = (field_at fields (col - row.curr_field_idx + 1)).elim (get row) fun s => value s (get row) := by
  induction fields generalizing row with
  | nil =>
    cases h
    unfold field_at
    split_ifs <;> rfl
  | cons f fields ih =>
    rw [map_cons, foldlM_cons, bind_eq_bind, bind_eq_some_iff] at h
    obtain ⟨row1, hfirst, h⟩ := h
    have hidx := idx_csv_event hfirst
    rw [ih (by omega) h, hidx, step row f row1 hpos hfirst]
    by_cases hcol : row.curr_field_idx = col
    · rw [if_pos hcol, field_at_of_le (by omega), show col - row.curr_field_idx + 1 = 1 by omega, field_at_one]
      rfl
    · rw [if_neg hcol, field_at_cons (by omega)]
      congr 2
      omega

def CsvRow.ids (row : CsvRow) : Int × Int := (row.n_obj_id_is_num, row.n_obj_id_is_not_num)

def count_ids (c : CsvConfig) (is_num : Bool) (ids : Int × Int) : Int × Int :=
  if c.obj_id_is_num ∨ c.obj_id_is_num_set then ids else if is_num then (ids.1 + 1, ids.2) else (ids.1, ids.2 + 1)

def Objects (c : CsvConfig) (ids : Int × Int) : Prop :=
  c.obj_id_is_num = false ∧ c.obj_id_is_num_set = false ∧ insists ids.1 (ids.1 + ids.2) = true

instance (c : CsvConfig) (ids : Int × Int) : Decidable (Objects c ids) := inferInstanceAs (Decidable (_ ∧ _ ∧ _))

theorem csv_event_field (row : CsvRow) (s : Bytes) :
    csv_event c row (.field s) =
      (read_csv_field c row s).map fun row' => { row' with curr_field_idx := row.curr_field_idx + 1 } := rfl

structure Written (c : CsvConfig) (row : CsvRow) (s : Bytes) (row' : CsvRow) : Prop where
  obj_id : row'.req.obj_id = if row.curr_field_idx = c.obj_id_field_idx then id_of c s else row.req.obj_id
  ids : row'.ids = if row.curr_field_idx = c.obj_id_field_idx then count_ids c (is_str_num s) row.ids else row.ids
  clock_time : row'.req.clock_time = if row.curr_field_idx = c.time_field_idx then c.strtod (c_str s) else row.req.clock_time
  obj_size : row'.req.obj_size = if row.curr_field_idx = c.obj_size_field_idx then strtoll0 (c_str s) else row.req.obj_size
  n_req_left : row'.n_req_left =
    if row.curr_field_idx = c.cnt_field_idx then int32 (strtoull0 (c_str s) - 1) else row.n_req_left

theorem read_obj_id_spec (row : CsvRow) (s : Bytes) :
    read_obj_id c s row = if Objects c (count_ids c (is_str_num s) row.ids) then none else some { row with
      req := { row.req with obj_id := id_of c s }
      n_obj_id_is_num := (count_ids c (is_str_num s) row.ids).1
      n_obj_id_is_not_num := (count_ids c (is_str_num s) row.ids).2 } := by
  cases hnum : c.obj_id_is_num <;> cases hset : c.obj_id_is_num_set <;> cases hstr : is_str_num s
  all_goals simp [read_obj_id, Objects, count_ids, id_of, CsvRow.ids, hnum, hset, hstr]

theorem csv_event_spec (hc : Columns c) {row : CsvRow} (hpos : 0 < row.curr_field_idx) (s : Bytes) :
    if row.curr_field_idx = c.obj_id_field_idx ∧ Objects c (count_ids c (is_str_num s) row.ids) then csv_event c row (.field s) = none
    else ∃ row', csv_event c row (.field s) = some row' ∧ Written c row s row' := by
  obtain ⟨htime, hsize, hcnt⟩ := hc
  simp only [mem_cons] at hcnt
  rw [csv_event_field]
  unfold read_csv_field
  rw [read_obj_id_spec]
  -- Where the kernel would compute with 2^32.
  obtain ⟨to_int, hto⟩ : ∃ f, f = int32 := ⟨int32, rfl⟩
  rw [← hto]
  by_cases hid : row.curr_field_idx = c.obj_id_field_idx
  · rw [if_pos hid]
    by_cases hobj : Objects c (count_ids c (is_str_num s) row.ids)
    · rw [if_pos ⟨hid, hobj⟩, if_pos hobj]
      rfl
    · rw [if_neg (fun h => hobj h.2), if_neg hobj]
      refine ⟨_, rfl, (if_pos hid).symm, (if_pos hid).symm, (if_neg ?_).symm, (if_neg ?_).symm, (if_neg ?_).symm⟩ <;> omega
  · rw [if_neg (fun h => hid h.1), if_neg hid]
    split_ifs with htime' hsize' hcost hop httl hcnt'
    all_goals refine ⟨_, map_some .., (if_neg hid).symm, (if_neg hid).symm, ?_, ?_, ?_⟩
    all_goals first
      | exact (if_neg (by omega)).symm
      | exact (if_pos (by omega)).symm
      | exact hto ▸ (if_pos hcnt').symm

def shown (c : CsvConfig) (req : Binary.Request) : Nat × Int × Option Int :=
  (req.obj_id, req.obj_size, if c.time_field_idx ≤ 0 then none else some req.clock_time)

def Row.shown (ignore_obj_size : Bool) (ρ : Row) : Nat × Int × Option Int :=
  (ρ.obj_id, if ignore_obj_size then 1 else ρ.obj_size, ρ.clock_time)

theorem written_of_event (hc : Columns c) {s : Bytes} (hpos : 0 < row.curr_field_idx)
    (h : csv_event c row (.field s) = some row') : Written c row s row' := by
  have hspec := csv_event_spec hc hpos s
  split_ifs at hspec
  · rw [hspec] at h
    cases h
  · obtain ⟨row1, hrow1, hw⟩ := hspec
    rw [hrow1] at h
    cases h
    exact hw

theorem foldlM_field_eq_none (hc : Columns c) {row : CsvRow} (hpos : 0 < row.curr_field_idx) :
    (fields.map CsvEvent.field).foldlM (csv_event c) row = none ↔
      ∃ f, field_at fields (c.obj_id_field_idx - row.curr_field_idx + 1) = some f ∧
        Objects c (count_ids c (is_str_num f) row.ids) := by
  induction fields generalizing row with
  | nil => simp [field_at]
  | cons f fields ih =>
    rw [map_cons, foldlM_cons, bind_eq_bind]
    have hspec := csv_event_spec hc hpos f
    split_ifs at hspec with hend
    · rw [hspec, show c.obj_id_field_idx - row.curr_field_idx + 1 = 1 by omega, field_at_one]
      simp [hend.2]
    · obtain ⟨row1, hrow1, hw⟩ := hspec
      rw [hrow1, bind_some, ih (by rw [idx_csv_event hrow1]; omega), idx_csv_event hrow1, hw.ids]
      by_cases hcol : row.curr_field_idx = c.obj_id_field_idx
      · rw [field_at_of_le (by omega), show c.obj_id_field_idx - row.curr_field_idx + 1 = 1 by omega, field_at_one]
        simpa [hcol] using hend
      · rw [if_neg hcol, field_at_cons (by omega)]
        simp only [show c.obj_id_field_idx - (row.curr_field_idx + 1) + 1 = c.obj_id_field_idx - row.curr_field_idx + 1 - 1 by omega]

theorem strtoull0_of_count {s : Bytes} {n : Nat} (h : count_of s = some n) : strtoull0 (c_str s) = n := by
  unfold count_of at h
  unfold strtoull0
  revert h
  cases read_any_number (c_str s) with
  | none => simp
  | some t =>
    obtain ⟨neg, v⟩ := t
    cases neg with
    | true => simp
    | false =>
      intro h
      dsimp only at h ⊢
      split_ifs at h with hlt
      cases h
      rw [if_neg (by omega), if_neg (by simp)]

theorem foldlM_row (hc : Columns c) (hρ : row_of c fields = some ρ)
    (hidx : row.curr_field_idx = 1) (hsize : c.obj_size_field_idx ≤ 0 → row.req.obj_size = 1)
    (h : (fields.map CsvEvent.field).foldlM (csv_event c) row = some row') :
    shown c row'.req = ρ.shown false ∧ row'.n_req_left = int32 ((ρ.count : Int) - 1) ∧ row'.ids = count_ids c ρ.is_num row.ids := by
  simp only [row_of, bind_eq_bind, bind_eq_some_iff, Option.pure_def, some.injEq] at hρ
  obtain ⟨id, hid, obj_size, hobj_size, clock_time, htime, cnt, hcnt, count, hcount, rfl⟩ := hρ
  have hpos : 0 < row.curr_field_idx := by omega
  have hobj_id := foldlM_field (fun row => row.req.obj_id) (fun s _ => id_of c s)
    (fun row s row' hpos h => (written_of_event hc hpos h).obj_id) hpos h
  have hids := foldlM_field CsvRow.ids (fun s ids => count_ids c (is_str_num s) ids)
    (fun row s row' hpos h => (written_of_event hc hpos h).ids) hpos h
  have hclock := foldlM_field (fun row => row.req.clock_time) (fun s _ => c.strtod (c_str s))
    (fun row s row' hpos h => (written_of_event hc hpos h).clock_time) hpos h
  have hobj := foldlM_field (fun row => row.req.obj_size) (fun s _ => strtoll0 (c_str s))
    (fun row s row' hpos h => (written_of_event hc hpos h).obj_size) hpos h
  have hleft := foldlM_field CsvRow.n_req_left (fun s _ => int32 (strtoull0 (c_str s) - 1))
    (fun row s row' hpos h => (written_of_event hc hpos h).n_req_left) hpos h
  simp only [hidx, sub_add_cancel, hid, hcnt, Option.elim_some, strtoull0_of_count hcount] at hobj_id hids hclock hobj hleft
  refine ⟨Prod.ext hobj_id (Prod.ext ?_ ?_), hleft, hids⟩
  · show row'.req.obj_size = obj_size
    unfold size_of at hobj_size
    split_ifs at hobj_size with hcol
    · cases hobj_size
      rw [hobj, field_at_of_le hcol]
      exact hsize hcol
    · obtain ⟨s, hs, rfl⟩ := map_eq_some_iff.1 hobj_size
      rw [hobj, hs]
      rfl
  · show (if c.time_field_idx ≤ 0 then none else some row'.req.clock_time) = clock_time
    unfold time_of at htime
    split_ifs at htime ⊢ with hcol
    · cases htime
      rfl
    · obtain ⟨s, hs, rfl⟩ := map_eq_some_iff.1 htime
      rw [hclock, hs]
      rfl

/-! ## Where a reader stands -/

theorem Holds.length_le {text : Bytes} (h : Holds c text rows) : rows.length ≤ text.length := by
  induction h with
  | nil => exact le_rfl
  | cons hline _ _ _ ih =>
    have := getline_some hline
    rw [length_drop] at ih
    rw [length_cons]
    omega

structure CsvAt (c : CsvConfig) (rows : List Row) (ids : Int × Int) (s : Csv) : Prop where
  config : s.config = c
  parser : s.parser = csv_init c.delimiter
  idx : s.curr_field_idx = 1
  ids : (s.n_obj_id_is_num, s.n_obj_id_is_not_num) = ids
  rows : Holds c (s.file.drop s.pos) rows
  starts : s.mmap_offset < s.file.length

theorem csv_fini_line (delim : UInt8) (line : Bytes) : (csv_fini (csv_parse (csv_init delim) line).1).1 = csv_init delim := by
  rw [csv_fini_init, delim_csv_parse]
  rfl

theorem csv_line_fields (hconfig : s.config = c) (hparser : s.parser = csv_init c.delimiter) {line : Bytes}
    (hevents : csv_events c.delimiter line = fields.map .field ++ [.row]) (left : Int) (req : Binary.Request) :
    csv_line s line left req = ((fields.map CsvEvent.field).foldlM (csv_event c) {
        req := req
        n_req_left := left
        curr_field_idx := s.curr_field_idx
        n_obj_id_is_num := s.n_obj_id_is_num
        n_obj_id_is_not_num := s.n_obj_id_is_not_num }).map fun row =>
      ({ s with
        pos := s.pos + line.length
        parser := csv_init c.delimiter
        curr_field_idx := 1
        n_obj_id_is_num := row.ids.1
        n_obj_id_is_not_num := row.ids.2 }, row.n_req_left, row.req) := by
  unfold csv_line
  simp only [hparser, hconfig, csv_fini_line]
  rw [show (csv_parse (csv_init c.delimiter) line).2 ++ (csv_fini (csv_parse (csv_init c.delimiter) line).1).2 = _ from hevents,
    foldlM_append, bind_eq_bind, bind_eq_bind, Option.bind_assoc, Option.map_eq_bind]
  rfl

theorem row_of_size (hρ : row_of c fields = some ρ) (hcol : c.obj_size_field_idx ≤ 0) : ρ.obj_size = 1 := by
  simp only [row_of, bind_eq_bind, bind_eq_some_iff, Option.pure_def, some.injEq] at hρ
  obtain ⟨_, -, obj_size, hsize, _, -, _, -, _, -, rfl⟩ := hρ
  rw [size_of, if_pos hcol] at hsize
  cases hsize
  rfl

theorem csv_line_row (hc : Columns c) {ids : Int × Int} (hs : CsvAt c (ρ :: rows) ids s) :
    ∃ line, getline (s.file.drop s.pos) = some line ∧ (c.obj_size_field_idx ≤ 0 → ρ.obj_size = 1) ∧
      ∀ left req, (c.obj_size_field_idx ≤ 0 → req.obj_size = 1) →
      if Objects c (count_ids c ρ.is_num ids) then csv_line s line left req = none
      else ∃ s' req', csv_line s line left req = some (s', int32 ((ρ.count : Int) - 1), req') ∧
        CsvAt c rows (count_ids c ρ.is_num ids) s' ∧ s'.file = s.file ∧ shown c req' = ρ.shown false := by
  obtain ⟨hconfig, hparser, hidx, hids, hrows, hstarts⟩ := hs
  generalize htext : s.file.drop s.pos = text at hrows
  cases hrows with
  | @cons _ line fields _ _ hline hevents hρ hrest =>
    refine ⟨line, hline, row_of_size hρ, fun left req hsize => ?_⟩
    rw [csv_line_fields hconfig hparser hevents]
    generalize hrow0 : CsvRow.mk req left s.curr_field_idx s.n_obj_id_is_num s.n_obj_id_is_not_num = row0
    have hone : row0.curr_field_idx = 1 := by rw [← hrow0]; exact hidx
    have hids0 : row0.ids = ids := by rw [← hrow0]; exact hids
    have hsize0 : c.obj_size_field_idx ≤ 0 → row0.req.obj_size = 1 := by rw [← hrow0]; exact hsize
    -- the field of the object id
    obtain ⟨id, hid, hnum⟩ : ∃ id, field_at fields c.obj_id_field_idx = some id ∧ is_str_num id = ρ.is_num := by
      simp only [row_of, bind_eq_bind, bind_eq_some_iff, Option.pure_def, some.injEq] at hρ
      obtain ⟨id, hid, _, -, _, -, _, -, _, -, rfl⟩ := hρ
      exact ⟨id, hid, rfl⟩
    have hnone := @foldlM_field_eq_none c fields hc row0 (by omega)
    rw [hone, sub_add_cancel, hid, hids0] at hnone
    simp only [some.injEq, exists_eq_left', hnum] at hnone
    split_ifs with hobj
    · rw [hnone.2 hobj]
      rfl
    · obtain ⟨row, hrow⟩ := Option.ne_none_iff_exists'.1 fun h => hobj (hnone.1 h)
      obtain ⟨hshown, hleft, hids'⟩ := foldlM_row hc hρ hone hsize0 hrow
      rw [hids0] at hids'
      rw [hrow, map_some, hleft, hids']
      refine ⟨_, row.req, rfl, ⟨hconfig, rfl, rfl, rfl, ?_, hstarts⟩, rfl, hshown⟩
      rw [← drop_drop, htext]
      exact hrest

end

variable {b : Build}

/-! ## A run over the rows -/

section

variable {c : CsvConfig}

def Row.passed (c : CsvConfig) (ρ : Row) : Bool := ρ.obj_size = 0 ∧ c.ignore_size_zero_req

def Row.copies (ρ : Row) : Nat := (int32 ((ρ.count : Int) - 1)).toNat + 1

def Capped (k n : Nat) : Prop := 1 < k ∧ k ≤ n

instance (k n : Nat) : Decidable (Capped k n) := inferInstanceAs (Decidable (_ ∧ _))

def delivered (c : CsvConfig) (k : Nat) : Nat → List Row → List Row
  | _, [] => []
  | n, ρ :: rows =>
    if ρ.passed c then delivered c k n rows
    else if Capped k (n + 1) then [ρ]
    else List.replicate ρ.copies ρ ++ delivered c k (n + 1) rows

def Accepted (c : CsvConfig) (k : Nat) : Nat → Int × Int → List Row → Prop
  | _, _, [] => True
  | n, ids, ρ :: rows => ¬ Objects c (count_ids c ρ.is_num ids) ∧
      if ρ.passed c then Accepted c k n (count_ids c ρ.is_num ids) rows
      else Capped k (n + 1) ∨ Accepted c k (n + 1) (count_ids c ρ.is_num ids) rows

def Reader.after (r : Reader b) (s : Csv) (n_req_left last_req_clock_time : Int) : Reader b := { r with
  source := .csv s
  n_read_req := r.n_read_req + 1
  n_req_left := n_req_left
  last_req_clock_time := last_req_clock_time }

def Goes (r : Reader b) (t : Option (ReadResult Csv)) (l : List Binary.Request) (last : Option (Option Binary.Request)) : Prop :=
  match t with
  | none => l = [] ∧ last = none
  | some (_, _, _, _, false) => l = [] ∧ last = some none
  | some (s, n_req_left, last_req_clock_time, req, true) =>
    ∃ l', l = r.adjust req :: l' ∧ Yields (r.after s n_req_left last_req_clock_time) (r.adjust req) l' last

variable {req : Binary.Request} {r : Reader b} {last : Option (Option Binary.Request)} {s : Csv}

theorem Goes.yields (hsource : r.source = .csv s) (hstarts : s.mmap_offset < s.file.length) (hallows : r.Allows 1)
    (hleft : r.n_req_left ≤ 0) {l : List Binary.Request}
    (h : Goes r (csv_read_one_req (s.file.length + 1) s r.n_req_left r.last_req_clock_time (blank req)) l last)
      : Yields r req l last := by
  have hcall := read_one_req_read (by rw [hsource]; exact hstarts) hallows hleft req
  rw [hsource] at hcall
  simp only [Source.read_one_req] at hcall
  cases hread : csv_read_one_req (s.file.length + 1) s r.n_req_left r.last_req_clock_time (blank req) with
  | none =>
    rw [hread] at h hcall
    obtain ⟨rfl, rfl⟩ := h
    exact requests_none hcall 0
  | some t =>
    obtain ⟨s', left, time, q, ok⟩ := t
    rw [hread] at h hcall
    cases ok with
    | false =>
      obtain ⟨rfl, rfl⟩ := h
      exact requests_false hcall 0
    | true =>
      obtain ⟨l', rfl, hrest⟩ := h
      exact yields_cons.2 ⟨_, hcall, hrest⟩

theorem shown_adjust {ρ : Row} (h : shown c req = ρ.shown false) : shown c (r.adjust req) = ρ.shown r.ignore_obj_size := by
  unfold shown Row.shown Reader.adjust at *
  split_ifs <;> simp_all

theorem repeated_adjust (h : r.last_req_clock_time = req.clock_time) : r.repeated (r.adjust req) = r.adjust req := by
  unfold Reader.repeated Reader.adjust
  rw [h]
  split_ifs <;> rfl

theorem after_adjust (hcsv : r.source.is_lcp = false) (s : Csv) (left time : Int) (req : Binary.Request) :
    (r.after s left time).adjust req = r.adjust req := by
  unfold Reader.adjust Reader.after Source.is_lcp at *
  rw [hcsv]

theorem Goes.after (hcsv : r.source.is_lcp = false) (hstarts : s.mmap_offset < s.file.length) {left time : Int}
    (hallows : (r.after s left time).Allows 1) (htime : left > 0 → time = req.clock_time) {l : List Binary.Request}
    (h : Goes (r.after s (min left 0) time) (csv_read_one_req (s.file.length + 1) s (min left 0) time (blank (r.adjust req))) l last) :
    Yields (r.after s left time) (r.adjust req) (List.replicate left.toNat (r.adjust req) ++ l) last := by
  have hrest : Yields (r.after s (min left 0) time) (r.adjust req) l last :=
    Goes.yields (r := r.after s (min left 0) time) rfl hstarts hallows (by show min left 0 ≤ 0; omega) h
  by_cases hpos : left > 0
  · have hq : (r.after s left time).repeated (r.adjust req) = r.adjust req := by
      rw [← after_adjust hcsv s left time req]
      exact repeated_adjust (htime hpos)
    rw [min_eq_right hpos.le] at hrest
    obtain ⟨v, rfl⟩ : ∃ v : Nat, left = v := ⟨left.toNat, by omega⟩
    exact Yields.left (r := r.after s v time) hstarts hallows hq v hrest
  · rw [min_eq_left (by omega)] at hrest
    rw [show left.toNat = 0 by omega]
    exact hrest

theorem run_rows (hc : Columns c) {k : Nat} {rows : List Row} {ids : Int × Int} (hs : CsvAt c rows ids s)
    (hcsv : r.source.is_lcp = false) (hcap : r.cap_at_n_req = k) {n : Nat} (hn : r.n_read_req = n) {fuel : Nat}
      (hfuel : rows.length < fuel)
    (left time : Int) (hsize : c.obj_size_field_idx ≤ 0 → req.obj_size = 1) :
    ∃ l last, Goes r (csv_read_one_req fuel s left time req) l last ∧
      (Accepted c k n ids rows → last = some none ∧
        l.map (shown c) = (delivered c k n rows).map (Row.shown r.ignore_obj_size)) ∧
      (¬ Accepted c k n ids rows → last = none) := by
  induction rows generalizing ids s r n fuel left time req with
  | nil =>
    obtain ⟨fuel, rfl⟩ : ∃ m, fuel = m + 1 := ⟨fuel - 1, by omega⟩
    have htext : s.file.drop s.pos = [] := by
      have hrows := hs.rows
      generalize s.file.drop s.pos = text at hrows
      cases hrows
      rfl
    refine ⟨[], some none, ?_, fun _ => ⟨rfl, rfl⟩, fun h => absurd trivial h⟩
    rw [csv_read_one_req, htext]
    exact ⟨rfl, rfl⟩
  | cons ρ rows ih =>
    obtain ⟨fuel, rfl⟩ : ∃ m, fuel = m + 1 := ⟨fuel - 1, by omega⟩
    obtain ⟨line, hline, hone, hrow⟩ := csv_line_row hc hs
    replace hrow := hrow left req hsize
    rw [csv_read_one_req, hline]
    dsimp only
    unfold Accepted delivered
    split_ifs at hrow with hobj
    · rw [hrow]
      exact ⟨[], none, ⟨rfl, rfl⟩, fun h => absurd hobj h.1, fun _ => rfl⟩
    · obtain ⟨s', req', hcsv_line, hat, -, hshown⟩ := hrow
      have hobj_size : req'.obj_size = ρ.obj_size := congrArg (fun t => t.2.1) hshown
      rw [hcsv_line, bind_eq_bind, bind_some]
      by_cases hpassed : ρ.passed c = true
      · have hzero := of_decide_eq_true hpassed
        rw [if_pos (by rw [hobj_size, hat.config]; exact hzero), if_pos hpassed, if_pos hpassed, and_iff_right hobj]
        refine ih hat hcsv hcap hn (by simpa using hfuel) _ _ fun hcol => ?_
        rw [hobj_size]
        exact hone hcol
      · have hkept : ¬ (req'.obj_size = 0 ∧ s'.config.ignore_size_zero_req = true) := by
          rw [hobj_size, hat.config]
          exact fun h => hpassed (decide_eq_true h)
        rw [if_neg hkept, if_neg hpassed, if_neg hpassed, and_iff_right hobj]
        -- the counts after the read
        generalize htime : (if int32 ((ρ.count : Int) - 1) > 0 then req'.clock_time else time) = time'
        unfold Row.copies
        generalize int32 ((ρ.count : Int) - 1) = left' at htime ⊢
        by_cases hcapped : Capped k (n + 1)
        · have hstop : ¬ (r.after s' left' time').Allows 1 := by
            unfold Capped at hcapped
            unfold Reader.Allows Reader.after
            dsimp only
            omega
          refine ⟨[r.adjust req'], some none, ⟨[], rfl, requests_false (read_one_req_end (.inr hstop) _) 0⟩, fun _ => ⟨rfl, ?_⟩,
            fun h => absurd (.inl hcapped) h⟩
          rw [if_pos hcapped, map_singleton, map_singleton, shown_adjust hshown]
        · have hallows : (r.after s' left' time').Allows 1 := by
            unfold Capped at hcapped
            unfold Reader.Allows Reader.after
            dsimp only
            omega
          have hlen := hat.rows.length_le
          rw [length_drop] at hlen
          have hn' : (r.after s' (min left' 0) time').n_read_req = (n + 1 : Nat) := by
            show r.n_read_req + 1 = _
            omega
          have hfuel' : rows.length < s'.file.length + 1 := by omega
          have hsize' : c.obj_size_field_idx ≤ 0 → (blank (r.adjust req')).obj_size = 1 := fun _ => rfl
          have hcsv' : (r.after s' (min left' 0) time').source.is_lcp = false := rfl
          obtain ⟨l, last, hgoes, hyes, hno⟩ := ih hat hcsv' hcap hn' hfuel' (min left' 0) time' hsize'
          have hrest := Goes.after hcsv hat.starts hallows (fun hpos => by rw [← htime, if_pos hpos]) hgoes
          refine ⟨_, last, ⟨_, rfl, hrest⟩, fun h => ?_, fun h => hno fun hacc => h (.inr hacc)⟩
          obtain ⟨hlast, hmap⟩ := hyes (h.resolve_left hcapped)
          refine ⟨hlast, ?_⟩
          rw [if_neg hcapped, map_cons, map_append, map_replicate, hmap, shown_adjust hshown, map_append,
            map_replicate, replicate_succ]
          rfl

end

/-! ## Counts and a cap -/

section

variable (c : CsvConfig)

def expansion (rows : List Row) : List Row := rows.flatMap fun ρ => List.replicate ρ.count ρ

def total (rows : List Row) : Nat := (rows.map Row.count).sum

def n_kept (rows : List Row) : Nat := rows.countP fun ρ => !ρ.passed c

def Row.Fits (ρ : Row) : Prop := if ρ.passed c then ρ.count = 0 else 1 ≤ ρ.count ∧ ρ.count ≤ 2 ^ 31

def Row.Single (ρ : Row) : Prop := ρ.count = if ρ.passed c then 0 else 1

inductive CountsFit (k : Nat) (rows : List Row) : Prop
  /-- The cap is not reached. -/
  | all : (∀ ρ ∈ rows, ρ.Fits c) → total rows ≤ k → ¬ Capped k (n_kept c rows) → CountsFit k rows
  /-- The requests of the last row that is not passed over make it up, which may be fewer than the row has. -/
  | filled {l l' : List Row} {ρ : Row} : rows = l ++ ρ :: l' → (∀ ρ ∈ l, ρ.Fits c) → ρ.passed c = false →
    (∀ ρ ∈ l', ρ.passed c = true) →
      total l + ρ.copies = k → ρ.copies ≤ ρ.count → ¬ Capped k (n_kept c l + 1) → CountsFit k rows
  /-- It is reached, with one request for each row. -/
  | capped {l l' : List Row} {ρ : Row} : rows = l ++ ρ :: l' → (∀ ρ ∈ l, ρ.Single c) → ρ.passed c = false → 1 ≤ ρ.count →
      1 < k → n_kept c l + 1 = k → CountsFit k rows

variable {c}

theorem copies_le (ρ : Row) : ρ.copies ≤ 2 ^ 31 := by
  have hlt : int32 ((ρ.count : Int) - 1) < (2 ^ 32 + 1) / 2 := Int.bmod_lt (by decide)
  unfold Row.copies
  omega

variable {ρ : Row}

theorem copies_of_le (hpos : 1 ≤ ρ.count) (hle : ρ.count ≤ 2 ^ 31) : ρ.copies = ρ.count := by
  have hmod : int32 ((ρ.count : Int) - 1) = ρ.count - 1 := by
    unfold int32
    rw [Int.bmod_eq_of_le] <;> omega
  unfold Row.copies
  omega

theorem fits_of_single (h : ρ.Single c) : ρ.Fits c := by
  unfold Row.Single at h
  unfold Row.Fits
  split_ifs at h ⊢ <;> omega

theorem not_capped_of_le {k n m : Nat} (hle : n ≤ m) (h : ¬ Capped k m) : ¬ Capped k n := fun hn => h ⟨hn.1, hn.2.trans hle⟩

theorem n_kept_cons (ρ : Row) (rows : List Row) : n_kept c (ρ :: rows) = n_kept c rows + if ρ.passed c then 0 else 1 := by
  unfold n_kept
  rw [countP_cons]
  cases ρ.passed c <;> rfl

theorem expansion_cons (ρ : Row) (rows : List Row) : expansion (ρ :: rows) = List.replicate ρ.count ρ ++ expansion rows := rfl

theorem expansion_append (l l' : List Row) : expansion (l ++ l') = expansion l ++ expansion l' := flatMap_append

theorem length_expansion (rows : List Row) : (expansion rows).length = total rows := by simp [expansion, total]

variable {rows : List Row} {k n : Nat}

theorem delivered_of_passed (h : ∀ ρ ∈ rows, ρ.passed c = true) : delivered c k n rows = [] := by
  induction rows with
  | nil => rfl
  | cons ρ rows ih =>
    rw [delivered, if_pos (h ρ (by simp))]
    exact ih fun x hx => h x (by simp [hx])

theorem delivered_append {l : List Row} (hl : ∀ ρ ∈ l, ρ.Fits c) (hcap : ¬ Capped k (n + n_kept c l)) (rows : List Row) :
    delivered c k n (l ++ rows) = expansion l ++ delivered c k (n + n_kept c l) rows := by
  induction l generalizing n with
  | nil => rfl
  | cons ρ l ih =>
    have hfits := hl ρ (by simp)
    have hrest : ∀ ρ ∈ l, ρ.Fits c := fun x hx => hl x (by simp [hx])
    rw [n_kept_cons] at hcap ⊢
    rw [cons_append, delivered, expansion_cons]
    unfold Row.Fits at hfits
    split_ifs at hfits hcap ⊢ with hpassed hcapped
    · rw [ih hrest hcap, hfits]
      rfl
    · exact absurd hcapped (not_capped_of_le (by omega) hcap)
    · rw [show n + (n_kept c l + 1) = n + 1 + n_kept c l by omega] at hcap ⊢
      rw [ih hrest hcap, copies_of_le hfits.1 hfits.2, append_assoc]

theorem total_of_single {l : List Row} (h : ∀ ρ ∈ l, ρ.Single c) : total l = n_kept c l := by
  induction l with
  | nil => rfl
  | cons ρ l ih =>
    have hρ := h ρ (by simp)
    rw [n_kept_cons, ← ih fun x hx => h x (by simp [hx])]
    unfold Row.Single at hρ
    show ρ.count + total l = _
    split_ifs at hρ ⊢ <;> omega

theorem delivered_of_fit {k : Nat} (h : CountsFit c k rows) : delivered c k 0 rows = (expansion rows).take k := by
  cases h with
  | all hfits htotal hcap =>
    have happend := delivered_append hfits (by rwa [zero_add]) []
    rw [append_nil] at happend
    rw [happend, take_of_length_le (by rw [length_expansion]; exact htotal)]
    exact append_nil _
  | @filled l l' ρ hrows hfits hkept hpassed hsum hle hcap =>
    have hcap' : ¬ Capped k (0 + n_kept c l) := not_capped_of_le (by omega) hcap
    rw [hrows, delivered_append hfits hcap', expansion_append, expansion_cons, delivered, if_neg (by rw [hkept]; decide), zero_add,
      if_neg hcap, delivered_of_passed hpassed, append_nil, ← hsum, ← length_expansion, take_length_add_append,
      take_append_of_le_length (by simpa using hle), take_replicate, min_eq_left hle]
  | @capped l l' ρ hrows hsingle hkept hpos hk hsum =>
    have hcap' : ¬ Capped k (0 + n_kept c l) := fun h => by have := h.2; omega
    have hfits : ∀ x ∈ l, x.Fits c := fun x hx => fits_of_single (hsingle x hx)
    rw [hrows, delivered_append hfits hcap', expansion_append, expansion_cons, delivered, if_neg (by rw [hkept]; decide), zero_add,
      if_pos ⟨hk, hsum.ge⟩, ← hsum, ← total_of_single hsingle, ← length_expansion, take_length_add_append,
      take_append_of_le_length (by simpa using hpos), take_replicate, min_eq_left hpos]
    rfl

theorem delivered_subset : delivered c k n rows ⊆ rows := by
  induction rows generalizing n with
  | nil => exact List.Subset.refl _
  | cons ρ rows ih =>
    rw [delivered]
    intro x hx
    split_ifs at hx
    · exact mem_cons_of_mem ρ (ih hx)
    · exact mem_cons.2 (.inl (mem_singleton.1 hx))
    · rcases mem_append.1 hx with hx | hx
      · exact mem_cons.2 (.inl (eq_of_mem_replicate hx))
      · exact mem_cons_of_mem ρ (ih hx)

theorem expansion_subset : expansion rows ⊆ rows := by
  intro x hx
  obtain ⟨ρ, hρ, hx⟩ := mem_flatMap.1 hx
  rwa [eq_of_mem_replicate hx]

theorem passed_of_delivered (h : delivered c k n rows = []) : ∀ ρ ∈ rows, ρ.passed c = true := by
  induction rows with
  | nil => simp
  | cons ρ rows ih =>
    rw [delivered] at h
    split_ifs at h with hpassed
    · intro x hx
      rcases mem_cons.1 hx with rfl | hx
      · exact hpassed
      · exact ih h x hx
    · have := congrArg List.length h
      unfold Row.copies at this
      exact absurd this (by simp)

variable {α : Type}

theorem replicate_append_inj {x : α} {m m' : Nat} {l l' : List α} (hl : x ∉ l) (hl' : x ∉ l')
    (h : List.replicate m x ++ l = List.replicate m' x ++ l') : m = m' ∧ l = l' := by
  induction m generalizing m' with
  | zero =>
    cases m' with
    | zero => exact ⟨rfl, h⟩
    | succ m' =>
      rw [replicate_zero, nil_append] at h
      exact absurd (h ▸ mem_append_left l' (by simp)) hl
  | succ m ih =>
    cases m' with
    | zero =>
      rw [replicate_zero, nil_append] at h
      exact absurd (h ▸ mem_append_left l (by simp)) hl'
    | succ m' =>
      obtain ⟨rfl, hrest⟩ := ih (List.cons.inj h).2
      exact ⟨rfl, hrest⟩

/-- The counts that fit when `n` rows have been read and there is room for some more requests. -/
inductive FitsFrom (c : CsvConfig) (k n room : Nat) (rows : List Row) : Prop
  | all : (∀ ρ ∈ rows, ρ.Fits c) → total rows ≤ room → ¬ Capped k (n + n_kept c rows) → FitsFrom c k n room rows
  | full : room = 0 → (∀ ρ ∈ rows, ρ.passed c = true) → FitsFrom c k n room rows
  | filled {l l' : List Row} {ρ : Row} : rows = l ++ ρ :: l' → (∀ ρ ∈ l, ρ.Fits c) → ρ.passed c = false →
    (∀ ρ ∈ l', ρ.passed c = true) →
      total l + ρ.copies = room → ρ.copies ≤ ρ.count → ¬ Capped k (n + n_kept c l + 1) → FitsFrom c k n room rows
  | capped {l l' : List Row} {ρ : Row} : rows = l ++ ρ :: l' → (∀ ρ ∈ l, ρ.Single c) → ρ.passed c = false → 1 ≤ ρ.count →
      1 < k → n + n_kept c l + 1 = k → room + n = k → FitsFrom c k n room rows

theorem FitsFrom.fit {k : Nat} (hk : 1 ≤ k) (h : FitsFrom c k 0 k rows) : CountsFit c k rows := by
  cases h with
  | all hfits htotal hcap => exact .all hfits htotal (by rwa [zero_add] at hcap)
  | full hzero _ => omega
  | filled hrows hfits hkept hpassed hsum hle hcap => exact .filled hrows hfits hkept hpassed hsum hle (by rwa [zero_add] at hcap)
  | capped hrows hsingle hkept hpos hlt hsum _ => exact .capped hrows hsingle hkept hpos hlt (by rwa [zero_add] at hsum)

theorem FitsFrom.cons_passed {k n room : Nat} (hpassed : ρ.passed c = true) (hcount : ρ.count = 0)
    (h : FitsFrom c k n room rows) : FitsFrom c k n room (ρ :: rows) := by
  have hfits : ρ.Fits c := by
    unfold Row.Fits
    rwa [if_pos hpassed]
  have hsingle : ρ.Single c := by
    unfold Row.Single
    rwa [if_pos hpassed]
  have hkept : ∀ l, n_kept c (ρ :: l) = n_kept c l := fun l => by rw [n_kept_cons, if_pos hpassed, add_zero]
  have htotal : ∀ l, total (ρ :: l) = total l := fun l => by
    show ρ.count + total l = _
    omega
  cases h with
  | all hall hle hcap => exact .all (forall_mem_cons.2 ⟨hfits, hall⟩) (by rwa [htotal]) (by rwa [hkept])
  | full hzero hall => exact .full hzero (forall_mem_cons.2 ⟨hpassed, hall⟩)
  | filled hrows hall hρ hrest hsum hle hcap =>
    exact .filled (l := ρ :: _) (congrArg (ρ :: ·) hrows) (forall_mem_cons.2 ⟨hfits, hall⟩) hρ hrest
      (by rwa [htotal]) hle (by rwa [hkept])
  | capped hrows hall hρ hpos hlt hsum hroom =>
    exact .capped (l := ρ :: _) (congrArg (ρ :: ·) hrows) (forall_mem_cons.2 ⟨hsingle, hall⟩) hρ hpos hlt (by rwa [hkept]) hroom

theorem FitsFrom.cons_kept {k n room : Nat} (hkept : ρ.passed c = false) (hpos : 1 ≤ ρ.count)
    (hle : ρ.count ≤ 2 ^ 31) (hlt : ρ.count < room) (hroom : 1 < k → room + n ≤ k) (h : FitsFrom c k (n + 1) (room - ρ.count) rows) :
    FitsFrom c k n room (ρ :: rows) := by
  have hnot : ¬ ρ.passed c = true := by rw [hkept]; decide
  have hfits : ρ.Fits c := by
    unfold Row.Fits
    rw [if_neg hnot]
    exact ⟨hpos, hle⟩
  have hn : ∀ l, n + n_kept c (ρ :: l) = n + 1 + n_kept c l := fun l => by
    rw [n_kept_cons, if_neg hnot]
    omega
  have htotal : ∀ l, total (ρ :: l) = ρ.count + total l := fun l => rfl
  cases h with
  | all hall hsum hcap => exact .all (forall_mem_cons.2 ⟨hfits, hall⟩) (by rw [htotal]; omega) (by rwa [hn])
  | full hzero _ => omega
  | filled hrows hall hρ hrest hsum hle hcap =>
    exact .filled (l := ρ :: _) (congrArg (ρ :: ·) hrows) (forall_mem_cons.2 ⟨hfits, hall⟩) hρ hrest
      (by rw [htotal]; omega) hle (by rwa [hn])
  | capped hrows hall hρ hone hk hsum hlast =>
    have hsingle : ρ.Single c := by
      unfold Row.Single
      rw [if_neg hnot]
      omega
    exact .capped (l := ρ :: _) (congrArg (ρ :: ·) hrows) (forall_mem_cons.2 ⟨hsingle, hall⟩) hρ hone hk (by rw [hn]; omega)
      (by have := hroom hk; omega)

theorem fit_of_delivered (f : Row → α) {k n room : Nat} (hcap : ¬ Capped k n) (hroom : 1 < k → room + n ≤ k)
    (hnodup : (rows.map f).Nodup) (h : (delivered c k n rows).map f = ((expansion rows).take room).map f) :
      FitsFrom c k n room rows := by
  induction rows generalizing n room with
  | nil => exact .all (by simp) (Nat.zero_le _) hcap
  | cons ρ rows ih =>
    obtain ⟨hnotin, hnodup'⟩ := nodup_cons.1 hnodup
    have hdel : ∀ m, f ρ ∉ (delivered c k m rows).map f := fun m hmem => hnotin (map_subset f delivered_subset hmem)
    have hexp : ∀ m, f ρ ∉ ((expansion rows).take m).map f := fun m hmem =>
      hnotin (map_subset f (fun _ hx => expansion_subset (take_subset m _ hx)) hmem)
    rw [expansion_cons, take_append, take_replicate, length_replicate, map_append, map_replicate, delivered] at h
    split_ifs at h with hpassed hcapped
    · obtain ⟨hzero, hrest⟩ := replicate_append_inj (m := 0) (hdel n) (hexp _) h
      by_cases hcount : ρ.count = 0
      · rw [hcount, Nat.sub_zero] at hrest
        exact (ih hcap hroom hnodup' hrest).cons_passed hpassed hcount
      · have hroom0 : room = 0 := by omega
        rw [hroom0, Nat.zero_sub, take_zero, map_nil, map_eq_nil_iff] at hrest
        exact .full hroom0 (forall_mem_cons.2 ⟨hpassed, passed_of_delivered hrest⟩)
    · obtain ⟨hone, -⟩ := replicate_append_inj (m := 1) not_mem_nil (hexp _) h
      have := hroom hcapped.1
      have := hcapped.2
      exact .capped (l := []) rfl (by simp) (by simpa using hpassed) (by omega) hcapped.1 (by show n + 0 + 1 = k; omega) (by omega)
    · rw [map_append, map_replicate] at h
      obtain ⟨hcopies, hrest⟩ := replicate_append_inj (hdel _) (hexp _) h
      have hkept : ρ.passed c = false := by simpa using hpassed
      by_cases hlt : ρ.count < room
      · have hpos : 1 ≤ ρ.copies := Nat.succ_pos _
        have hle := copies_le ρ
        refine .cons_kept hkept (by omega) (by omega) hlt hroom (ih hcapped (fun hk => ?_) hnodup' hrest)
        omega
      · rw [show room - ρ.count = 0 by omega, take_zero, map_nil, map_eq_nil_iff] at hrest
        exact .filled (l := []) rfl (by simp) hkept (passed_of_delivered hrest) (by show 0 + ρ.copies = room; omega) (by omega) hcapped

end

/-! ## The trace -/

/-- A csv trace with a count in every row, in front of which a reader stands. -/
structure Counted (r : Reader b) (s : Csv) (rows : List Row) : Prop where
  source : r.source = .csv s
  columns : Columns s.config
  rows : Holds s.config (s.file.drop s.pos) rows
  starts : s.mmap_offset < s.file.length

/-- As many of the requests that the counts stand for as the cap says, and then the end of the file. -/
def DeliversCapped (r : Reader b) (s : Csv) (rows : List Row) (k : Nat) : Prop :=
  ∀ req, ∃ reqs, Yields r req reqs (some none) ∧
    reqs.map (shown s.config) = ((expansion rows).take k).map (Row.shown r.ignore_obj_size)

theorem Source.Opened.csv_at {s : Csv} (h : (Source.csv s : Source b).Opened) {rows : List Row}
    (hrows : Holds s.config (s.file.drop s.pos) rows) (hstarts : s.mmap_offset < s.file.length) : CsvAt s.config rows (0, 0) s := by
  cases h with
  | csv hsetup =>
    simp only [csv_setup_reader, bind_eq_bind, bind_eq_some_iff, Option.pure_def, some.injEq] at hsetup
    obtain ⟨delimiter, -, has_header, -, line, -, -, -, rfl⟩ := hsetup
    exact ⟨rfl, rfl, rfl, rfl, hrows, hstarts⟩
  | headerless hs => cases hs

theorem run_counted {r0 : Reader b} {s : Csv} {rows : List Row} {k : Nat} (hopen : r0.Opened) (htrace : Counted r0 s rows)
    (hcap : r0.cap_at_n_req = k) (req : Binary.Request) :
    ∃ l last, Yields r0 req l last ∧
      (Accepted s.config k 0 (0, 0) rows → last = some none ∧
        l.map (shown s.config) = (delivered s.config k 0 rows).map (Row.shown r0.ignore_obj_size)) ∧
      (¬ Accepted s.config k 0 (0, 0) rows → last = none) := by
  obtain ⟨hsource, hcolumns, hrows, hstarts⟩ := htrace
  have hopened := hopen.source
  rw [hsource] at hopened
  have hat := hopened.csv_at hrows hstarts
  have hcsv : r0.source.is_lcp = false := by rw [hsource]; rfl
  have hn : r0.n_read_req = (0 : Nat) := hopen.n_read_req
  have hlen := hrows.length_le
  rw [length_drop] at hlen
  have hfuel : rows.length < s.file.length + 1 := by omega
  have hallows : r0.Allows 1 := by
    unfold Reader.Allows
    omega
  obtain ⟨l, last, hgoes, hrun⟩ := run_rows hcolumns hat hcsv hcap hn hfuel r0.n_req_left r0.last_req_clock_time
    (fun _ => (rfl : (blank req).obj_size = 1))
  exact ⟨l, last, hgoes.yields hsource hstarts hallows hopen.n_req_left.le, hrun⟩

/-- The first `k` requests of a trace with counts are delivered if its ids are accepted and its counts fit the cap, and, where no
two rows look alike, only if. -/
theorem delivers_capped_iff (r₀ : Reader b) (s : Csv) (rows : List Row) (k : Nat) (hopen : r₀.Opened) (htrace : Counted r₀ s rows)
    (hk : 1 ≤ k) (hcap : r₀.cap_at_n_req = k) :
    (Accepted s.config k 0 (0, 0) rows ∧ CountsFit s.config k rows → DeliversCapped r₀ s rows k) ∧
    ((rows.map (Row.shown r₀.ignore_obj_size)).Nodup → DeliversCapped r₀ s rows k →
      Accepted s.config k 0 (0, 0) rows ∧ CountsFit s.config k rows) := by
  constructor
  · rintro ⟨hacc, hfit⟩ req
    obtain ⟨l, last, hyields, hyes, -⟩ := run_counted hopen htrace hcap req
    obtain ⟨rfl, hl⟩ := hyes hacc
    exact ⟨l, hyields, by rw [hl, delivered_of_fit hfit]⟩
  · intro hnodup hdelivers
    obtain ⟨reqs, hreqs, hshown⟩ := hdelivers {}
    obtain ⟨l, last, hyields, hyes, hno⟩ := run_counted hopen htrace hcap {}
    have hacc : Accepted s.config k 0 (0, 0) rows := by
      by_contra hnot
      obtain rfl := hno hnot
      obtain ⟨-, hlast⟩ := hreqs.unique hyields (by simp) (by simp)
      cases hlast
    obtain ⟨rfl, hl⟩ := hyes hacc
    obtain ⟨rfl, -⟩ := hreqs.unique hyields (by simp) (by simp)
    rw [hl] at hshown
    have hstart : ¬ Capped k 0 := fun h => by
      have := h.2
      omega
    exact ⟨hacc, (fit_of_delivered _ hstart (fun _ => le_rfl) hnodup hshown).fit hk⟩

variable {file : Bytes}

theorem counted_setup {s : Csv} (h : csv_setup_reader counted_init file = some s) :
    s.config = counted_init.config ∧ s.file = file ∧ s.pos = 0 ∧ s.mmap_offset = 0 := by
  simp only [csv_setup_reader, bind_eq_bind, bind_eq_some_iff, Option.pure_def, some.injEq] at h
  obtain ⟨delimiter, hdelimiter, has_header, hheader, line, -, -, -, rfl⟩ := h
  cases hdelimiter
  cases hheader
  exact ⟨rfl, rfl, rfl, rfl⟩

theorem counted_of_line (hline : getline file = some file) {fields : List Bytes}
    (hevents : csv_events 0x2c file = fields.map .field ++ [.row]) {row : Row}
      (hrow : row_of counted_init.config fields = some row) {cap : Int}
    {r : Reader bare_build} (h : counted_reader file cap = some r) : r.Opened ∧ r.cap_at_n_req = cap ∧
      ∃ s, s.config = counted_init.config ∧ Counted r s [row] := by
  refine ⟨counted_reader_opened h, ?_⟩
  obtain ⟨s, hsetup, rfl⟩ := map_eq_some_iff.1 h
  obtain ⟨hconfig, hfile, hpos, hoffset⟩ := counted_setup hsetup
  have hlen := (getline_some hline).1
  refine ⟨rfl, s, hconfig, rfl, ?_, ?_, by rw [hfile, hoffset]; exact hlen⟩
  · rw [hconfig]
    exact ⟨.inl (by decide), .inr (by decide), by decide⟩
  · rw [hconfig, hfile, hpos]
    exact .cons hline hevents hrow (by rw [drop_zero, drop_length]; exact .nil)

def row_7_5 (count : Nat) : Row := { obj_id := 5, obj_size := 1, clock_time := some 7, count := count, is_num := true }

theorem delivers_capped_of_two : ∃ r s, counted_reader (ascii "7,5,2\n") 2 = some r ∧ Counted r s [row_7_5 2] ∧ DeliversCapped r s [row_7_5 2] 2 := by
  obtain ⟨r, hr⟩ : ∃ r, counted_reader (ascii "7,5,2\n") 2 = some r := Option.isSome_iff_exists.1 (by decide +kernel)
  have hevents : csv_events 0x2c (ascii "7,5,2\n") = [ascii "7", ascii "5", ascii "2"].map .field ++ [.row] := by decide +kernel
  have hrow : row_of counted_init.config [ascii "7", ascii "5", ascii "2"] = some (row_7_5 2) := by decide +kernel
  obtain ⟨hopen, hcap, s, hconfig, htrace⟩ := counted_of_line (by decide +kernel) hevents hrow hr
  have hfits : (row_7_5 2).Fits s.config := by
    exact ⟨by decide, by decide⟩
  have hkept : ¬ Capped 2 (n_kept s.config [row_7_5 2]) := by
    show ¬ Capped 2 1
    decide
  refine ⟨r, s, hr, htrace, (delivers_capped_iff r s _ 2 hopen htrace (by decide) hcap).1
    ⟨⟨?_, ?_⟩, .all (by simpa using hfits) (by decide) hkept⟩⟩
  · rw [hconfig]
    exact fun hobj => Bool.noConfusion hobj.1
  · exact .inr trivial

/-- A row with a count of 3 is delivered three times, where the cap says 2. -/
theorem count_over_cap : ∃ r s, counted_reader (ascii "7,5,3\n") 2 = some r ∧ r.Opened ∧ Counted r s [row_7_5 3] ∧
    (requests 4 r {}).length = 4 ∧ ¬ DeliversCapped r s [row_7_5 3] 2 := by
  obtain ⟨r, hr, hrun⟩ : ∃ r, counted_reader (ascii "7,5,3\n") 2 = some r ∧ (requests 4 r {}).length = 4 ∧
      (requests 3 r {}).all (fun o => o.any Option.isSome) = true := by decide +kernel
  obtain ⟨hlen, hall⟩ := hrun
  have hevents : csv_events 0x2c (ascii "7,5,3\n") = [ascii "7", ascii "5", ascii "3"].map .field ++ [.row] := by decide +kernel
  have hrow : row_of counted_init.config [ascii "7", ascii "5", ascii "3"] = some (row_7_5 3) := by decide +kernel
  obtain ⟨hopen, hcap, s, -, htrace⟩ := counted_of_line (by decide +kernel) hevents hrow hr
  refine ⟨r, s, hr, hopen, htrace, hlen, fun hdelivers => ?_⟩
  obtain ⟨reqs, hreqs, hshown⟩ := hdelivers {}
  have htwo : reqs.length = 2 := by simpa [length_expansion, total, row_7_5] using congrArg List.length hshown
  unfold Yields at hreqs
  rw [htwo] at hreqs
  rw [hreqs] at hall
  simp at hall

end CacheSim.Readers
