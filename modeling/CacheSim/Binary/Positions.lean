import CacheSim.Binary.Records

/-!
# Reading a trace from its end

`reader_set_read_pos` takes the offset down to a multiple of the record size, counted from the start of the
file.
-/

namespace CacheSim.Binary

open Lib List Option Nat

def ReadsBackward (r : Reader) (req : BinaryRequest) (l : List (List Int)) : Prop :=
  ∃ s first, deliver read_one_req ((go_back_one_req (reader_set_read_pos r 1)).1, req) = some (s, first) ∧
    match first with
    | none => l = []
    | some a => ∃ rest, l = a :: rest ∧ Reads (deliver read_one_req_above) s rest

/-- The reader finds the last record, stands at records only, and reads the trace backward. -/
structure Positioned (r : Reader) (records : List Bytes) : Prop where
  last : ∀ record ∈ records.getLast?, ∀ offset req, ∃ req',
    read_last_req { r with mmap_offset := offset } req = some ({ r with mmap_offset := offset }, req', true) ∧
      stored r.lcs_ver req' = r.delivers record
  boundary : ∀ pos : ℚ, 0 ≤ pos → pos ≤ 1 → ∃ k ≤ records.length, reader_set_read_pos r pos = r.at k
  backward : ∀ req l, Reads (deliver read_one_req) (reset_reader { r with ignore_size_zero_req := false }, req) l →
    ReadsBackward { r with read_direction := .backward } req l.reverse

variable {r : Reader} {records : List Bytes} {k : Nat}

/-! ## Backward -/

theorem go_back_one_at (k : Nat) : go_back_one_req (r.at (k + 1)) = (r.at k, true) := by
  have hsplit : (r.at (k + 1)).mmap_offset = r.trace_start_offset + k * r.item_size + r.item_size := by
    show r.trace_start_offset + (k + 1) * r.item_size = _
    rw [succ_mul]
    omega
  unfold go_back_one_req
  rw [if_pos (by rw [hsplit]; show r.trace_start_offset + r.item_size ≤ _; omega), hsplit]
  show (({ r with mmap_offset := _ - r.item_size } : Reader), true) = _
  rw [Nat.add_sub_cancel]
  rfl

theorem go_back_one_start (h : 0 < r.item_size) : go_back_one_req (r.at 0) = (r.at 0, false) := by
  unfold go_back_one_req
  rw [if_neg]
  show ¬ r.trace_start_offset + r.item_size ≤ r.trace_start_offset + 0 * r.item_size
  omega

theorem reads_above (h : Laid r records) (hraw : r.Raw records) (hk : k + 1 ≤ records.length) (req : BinaryRequest) :
    Reads (deliver read_one_req_above) (r.at (k + 1), req) ((records.take k).reverse.map r.delivers) := by
  induction k generalizing req with
  | zero =>
    refine .done (t := (r.at 0, { req with valid := false })) ?_
    unfold deliver read_one_req_above go_back_two_req
    rw [go_back_one_at]
    dsimp only
    rw [go_back_one_start h.pos]
    rfl
  | succ k ih =>
    obtain ⟨req', hread⟩ := deliver_at h hraw (show k < records.length by omega) req
    have habove : deliver read_one_req_above (r.at (k + 2), req) = deliver read_one_req (r.at k, req) := by
      unfold deliver read_one_req_above go_back_two_req
      rw [go_back_one_at]
      dsimp only
      rw [go_back_one_at]
      rfl
    rw [take_succ_eq_append_getElem (by omega), reverse_concat, map_cons]
    exact .more (habove.trans hread) (ih (by omega) req')

variable {m : Nat}

theorem readsBackward_at (h : Laid r records) (hraw : r.Raw records) (hpos : reader_set_read_pos r 1 = r.at (m + 1))
    (hm : m < records.length) (req : BinaryRequest) (l : List (List Int)) :
    ReadsBackward r req l ↔ l = ((records.take (m + 1)).map r.delivers).reverse := by
  obtain ⟨req', hread⟩ := deliver_at h hraw hm req
  have hrest := reads_above h hraw (show m + 1 ≤ records.length by omega) req'
  have hlist : ((records.take (m + 1)).map r.delivers).reverse = r.delivers records[m] :: (records.take m).reverse.map r.delivers := by
    rw [← map_reverse, take_succ_eq_append_getElem hm, reverse_concat, map_cons]
  unfold ReadsBackward
  rw [hpos, go_back_one_at, hlist]
  constructor
  · rintro ⟨s, first, hfirst, hl⟩
    rw [hread] at hfirst
    cases hfirst
    obtain ⟨rest, rfl, hreads⟩ := hl
    rw [hreads.unique hrest]
  · rintro rfl
    exact ⟨_, _, hread, _, rfl, hrest⟩

theorem readsBackward_beyond (h : Laid r records) (hpos : reader_set_read_pos r 1 = r.at (m + 1))
    (hm : records.length ≤ m) {req : BinaryRequest} {l : List (List Int)} (hl : ReadsBackward r req l) : l = [] := by
  obtain ⟨s, first, hfirst, hl⟩ := hl
  rw [hpos, go_back_one_at] at hfirst
  obtain ⟨s', hend⟩ := deliver_end h hm req
  rw [hend] at hfirst
  cases hfirst
  exact hl

/-! ## The position -/

theorem scaled_one (n : Nat) : scaled n 1 = round53 n := by
  unfold scaled
  rw [mul_one, to_double_natCast, round53_round53, Int.floor_natCast, Int.toNat_natCast]

variable {pos : ℚ}

theorem scaled_le (n : Nat) (h0 : 0 ≤ pos) (h1 : pos ≤ 1) : scaled n pos ≤ round53 n := by
  have hn : (0 : ℚ) ≤ round53 n := cast_nonneg _
  have hle := to_double_le (mul_nonneg hn h0) (mul_le_of_le_one_right hn h1) (round53_round53 n)
  have hfloor : ⌊to_double (round53 n * pos)⌋ ≤ (round53 n : Int) := by
    rw [Int.floor_le_iff]
    exact_mod_cast hle.trans_lt (lt_add_one _)
  unfold scaled
  omega

theorem set_read_pos_eq (h1 : pos ≤ 1) : reader_set_read_pos r pos =
    { r with mmap_offset := scaled r.file_size pos / r.item_size * r.item_size } := by
  unfold reader_set_read_pos
  rw [if_neg (not_lt.2 h1)]
  dsimp only
  congr 1
  have := div_add_mod' (scaled r.file_size pos) r.item_size
  omega

theorem set_read_pos_at (hstart : r.trace_start_offset = 0) (h1 : pos ≤ 1) :
    reader_set_read_pos r pos = r.at (scaled r.file_size pos / r.item_size) := by
  rw [set_read_pos_eq h1, Reader.at, hstart, zero_add]

theorem header_not_dvd {lcs_ver size : Nat} (h : lcs_item_size lcs_ver = some size) : ¬ size ∣ lcs_trace_header_size := by
  unfold lcs_item_size at h
  split at h
  all_goals
    cases h
  all_goals decide

theorem set_read_pos_misaligned (h : r.Typed) (htype : r.trace_type = .lcs) (h1 : pos ≤ 1) (k : Nat) :
    reader_set_read_pos r pos ≠ r.at k := by
  unfold Reader.Typed at h
  rw [htype] at h
  intro heq
  rw [set_read_pos_eq h1] at heq
  have hoff : scaled r.file_size pos / r.item_size * r.item_size = r.trace_start_offset + k * r.item_size :=
    congrArg Reader.mmap_offset heq
  apply header_not_dvd h.1
  rw [← h.2]
  exact (Nat.dvd_add_left (dvd_mul_left _ _)).1 (hoff ▸ dvd_mul_left _ _)

/-! ## A trace that was opened -/

structure Opened (trace_type : TraceType) (file : Bytes) (r : Reader) : Prop where
  typed : r.Typed
  trace_type : r.trace_type = trace_type
  mapped_file : r.mapped_file = file
  nonempty : file ≠ []
  pos : 0 < r.item_size

theorem lcsReader_setup_some {r' : Reader} (h : lcsReader_setup r = some r') :
    r'.Typed ∧ r'.trace_type = .lcs ∧ r'.mapped_file = r.mapped_file := by
  unfold lcsReader_setup at h
  simp only [bind, bind_eq_some_iff, Prod.exists, pure, some.injEq] at h
  obtain ⟨r1, -, hdata, data, rfl, -, -, size, hsize, rfl⟩ := h
  refine ⟨⟨hsize, rfl⟩, rfl, ?_⟩
  unfold read_bytes at hdata
  split_ifs at hdata
  · exact (congrArg (fun s => s.1.mapped_file) (some.inj hdata)).symm
  · exact (congrArg (fun s => s.1.mapped_file) (some.inj hdata)).symm

variable {trace_type : TraceType} {file : Bytes}

theorem count_records_opened (htyped : r.Typed) (htype : r.trace_type = trace_type)
    (hfile : r.mapped_file = file) (hne : file ≠ []) : Opened trace_type file (count_records r) := by
  have hpos : 0 < r.item_size := by
    unfold Reader.Typed at htyped
    split at htyped
    · omega
    · exact item_size_pos htyped.1
  unfold count_records
  split_ifs
  · exact ⟨htyped, htype, hfile, hne, hpos⟩
  · exact ⟨htyped, htype, hfile, hne, hpos⟩

theorem setup_opened {zero obj : Bool} (h : setup_reader trace_type zero obj file = some r) : Opened trace_type file r := by
  unfold setup_reader at h
  split_ifs at h with hne
  cases trace_type with
  | oracle_general =>
    cases h
    exact count_records_opened (r := oracleGeneralBin_setup _) ⟨rfl, rfl, rfl⟩ rfl rfl hne
  | lcs =>
    obtain ⟨t, ht, rfl⟩ := map_eq_some_iff.1 h
    obtain ⟨htyped, htype, hfile⟩ := lcsReader_setup_some ht
    exact count_records_opened htyped htype hfile hne

theorem Opened.laid {header : Bytes} (h : Opened trace_type (header ++ records.flatten) r)
    (hheader : header.length = r.trace_start_offset) (hrecords : ∀ record ∈ records, record.length = r.item_size) :
    Laid r records :=
  ⟨h.typed, ⟨header, hheader, h.mapped_file⟩, hrecords, h.pos⟩

theorem Laid.with (h : Laid r records) (offset : Nat) (zero : Bool) (direction : ReadDirection) :
    Laid { r with mmap_offset := offset, ignore_size_zero_req := zero, read_direction := direction } records :=
  { h with }

theorem skips_fields (r : Reader) (record : Bytes) (a b : BinaryRequest) :
    r.skips (r.fields record a) = r.skips (r.fields record b) := by
  have hsize : (r.fields record a).obj_size = (r.fields record b).obj_size := by
    unfold Reader.fields lcs_fields
    cases r.trace_type with
    | oracle_general => rfl
    | lcs =>
      split_ifs <;> rfl
  unfold Reader.skips
  rw [hsize]

theorem read_last_req_eq (hpos : reader_set_read_pos (reset_reader r) 1 = r.at (m + 1)) (req : BinaryRequest) :
    read_last_req r req =
      (read_one_req (r.at m) req).map fun s => ({ s.1 with mmap_offset := r.mmap_offset }, s.2.1, s.2.2) := by
  unfold read_last_req
  dsimp only
  rw [hpos, go_back_one_at, map_eq_bind]
  rfl

theorem read_last_iff (h : Laid r records) (hpos : reader_set_read_pos (reset_reader r) 1 = r.at records.length)
    {record : Bytes} (hlast : record ∈ records.getLast?) (req : BinaryRequest) :
    (∃ req', read_last_req r req = some (r, req', true) ∧ stored r.lcs_ver req' = r.delivers record) ↔
      r.skips (r.fields record {}) = false := by
  obtain ⟨m, hlt, hm, rfl⟩ : ∃ m, ∃ hlt : m < records.length, m + 1 = records.length ∧ records[m] = record := by
    rw [mem_def, getLast?_eq_getElem?, getElem?_eq_some_iff] at hlast
    obtain ⟨hlt, heq⟩ := hlast
    exact ⟨records.length - 1, hlt, by omega, heq⟩
  rw [← hm] at hpos
  rw [read_last_req_eq hpos, skips_fields r records[m] {} (fresh req)]
  constructor
  · rintro ⟨req', hread, -⟩
    by_contra hskip
    obtain ⟨req'', hend⟩ := read_one_req_last h hlt hm (Bool.not_eq_false _ ▸ hskip)
    rw [hend] at hread
    simp at hread
  · intro hskip
    rw [read_one_req_at h hlt hskip]
    exact ⟨_, rfl, stored_shown h.typed _ _⟩

/-- Without a header, all that the reader does from the end of the trace hangs on how the length of the
file is rounded. -/
theorem Laid.positioned (h : Laid r records) (htype : r.trace_type = .oracle_general) (hne : records ≠ []) :
    Positioned r records ↔ records.length * 24 ≤ round53 (records.length * 24) ∧
      round53 (records.length * 24) < (records.length + 1) * 24 ∧
      ∀ record ∈ records.getLast?, r.skips (r.fields record {}) = false := by
  have htyped := h.typed
  unfold Reader.Typed at htyped
  rw [htype] at htyped
  obtain ⟨-, hitem, hstart⟩ := htyped
  have hsize : r.file_size = records.length * 24 := by rw [h.file_size, hstart, hitem, zero_add]
  have hn : 0 < records.length := length_pos_iff.2 hne
  -- where the reader stands after `reader_set_read_pos(reader, 1.0)`
  have hone : ∀ offset zero direction, reader_set_read_pos
      { r with mmap_offset := offset, ignore_size_zero_req := zero, read_direction := direction } 1 =
      { r with ignore_size_zero_req := zero, read_direction := direction }.at (round53 (records.length * 24) / 24) := by
    intro offset zero direction
    refine (set_read_pos_at (r := { r with mmap_offset := offset, ignore_size_zero_req := zero, read_direction := direction })
      hstart le_rfl).trans ?_
    rw [scaled_one]
    show Reader.at _ (round53 r.file_size / r.item_size) = _
    rw [hsize, hitem]
    rfl
  have hback := (h.with r.mmap_offset r.ignore_size_zero_req .backward)
  have hraw : Reader.Raw { r with read_direction := .backward } records := by
    intro record _ req
    simp [Reader.skips]
  have hforward : ∀ req, Reads (deliver read_one_req) (reset_reader { r with ignore_size_zero_req := false }, req)
      (records.map r.delivers) := by
    intro req
    have hraw' : Reader.Raw { r with ignore_size_zero_req := false } records := by
      intro record _ req
      simp [Reader.skips]
    have hreset : reset_reader { r with ignore_size_zero_req := false } = Reader.at { r with ignore_size_zero_req := false } 0 := by
      unfold reset_reader Reader.at
      rw [zero_mul, add_zero]
    rw [hreset]
    exact reads_forward (h.with r.mmap_offset false r.read_direction) hraw' req
  constructor
  · intro hP
    have hpos := hone r.mmap_offset r.ignore_size_zero_req .backward
    -- the reader stands within the file, at record `m + 1`
    obtain ⟨m, hm⟩ : ∃ m, round53 (records.length * 24) / 24 = m + 1 := by
      refine ⟨round53 (records.length * 24) / 24 - 1, ?_⟩
      rcases le_or_gt (records.length * 24) (2 ^ 53) with hle | hgt
      · rw [round53_of_le hle]
        omega
      · have := le_round53 hgt.le
        omega
    rw [hm] at hpos
    obtain ⟨req, l, hl⟩ : ∃ req l, ReadsBackward { r with read_direction := .backward } req l ∧ l.length = records.length := by
      refine ⟨{}, _, hP.backward {} _ (hforward {}), by simp⟩
    have hlt : m < records.length := by
      by_contra hge
      have := readsBackward_beyond hback hpos (by omega) hl.1
      rw [this] at hl
      simp at hl
      omega
    have hall := (readsBackward_at hback hraw hpos hlt req l).1 hl.1
    have hcount : l.length = m + 1 := by
      rw [hall]
      simp
      omega
    have hend : round53 (records.length * 24) / 24 = records.length := by omega
    refine ⟨by omega, by omega, ?_⟩
    intro record hrecord
    exact (read_last_iff h (hend ▸ hone r.trace_start_offset r.ignore_size_zero_req r.read_direction) hrecord {}).1
      (hP.last record hrecord r.mmap_offset {})
  · rintro ⟨hlo, hhi, hskip⟩
    have hend : round53 (records.length * 24) / 24 = records.length := by omega
    obtain ⟨m, hm⟩ : ∃ m, records.length = m + 1 := ⟨records.length - 1, by omega⟩
    refine ⟨?_, ?_, ?_⟩
    · intro record hrecord offset req
      exact (read_last_iff (h.with offset r.ignore_size_zero_req r.read_direction)
        (hend ▸ hone r.trace_start_offset r.ignore_size_zero_req r.read_direction) hrecord req).2 (hskip record hrecord)
    · intro pos h0 h1
      refine ⟨_, ?_, set_read_pos_at hstart h1⟩
      have hle := scaled_le r.file_size h0 h1
      rw [hsize] at hle
      rw [hitem, hsize]
      omega
    · intro req l hl
      rw [hl.unique (hforward req)]
      have hpos := hone r.mmap_offset r.ignore_size_zero_req .backward
      rw [hend, hm] at hpos
      rw [readsBackward_at hback hraw hpos (by omega), ← hm, take_length]
      rfl

/-- In a trace with a header `reader_set_read_pos` never leaves the reader at a record. In one without, the
last record is found and the trace is read backward unless its length is rounded to another number of
records, or the last record is passed over for its size. -/
theorem positioned_iff (trace_type : TraceType) (zero obj : Bool) (direction : ReadDirection) (header : Bytes)
    (records : List Bytes) (r₀ : Reader) (hopen : setup_reader trace_type zero obj (header ++ records.flatten) = some r₀)
    (hheader : header.length = r₀.trace_start_offset) (hrecords : ∀ record ∈ records, record.length = r₀.item_size) :
    let r := { r₀ with read_direction := direction }
    (trace_type = .lcs → ∀ pos : ℚ, pos ≤ 1 → ∀ k, reader_set_read_pos r pos ≠ r.at k) ∧
    (Positioned r records ↔ trace_type = .oracle_general ∧ records.length * 24 ≤ round53 (records.length * 24) ∧
      round53 (records.length * 24) < (records.length + 1) * 24 ∧
      ∀ record ∈ records.getLast?, r.skips (r.fields record {}) = false) := by
  intro r
  have hopened := setup_opened hopen
  have hlaid : Laid r records := (hopened.laid hheader hrecords).with r₀.mmap_offset r₀.ignore_size_zero_req direction
  have hnever : trace_type = .lcs → ∀ pos : ℚ, pos ≤ 1 → ∀ k, reader_set_read_pos r pos ≠ r.at k := by
    intro htype pos hpos k
    exact set_read_pos_misaligned hlaid.typed (hopened.trace_type.trans htype) hpos k
  refine ⟨hnever, ?_⟩
  cases trace_type with
  | lcs =>
    refine iff_of_false (fun hP => ?_) (fun hP => by simp at hP)
    obtain ⟨k, -, hk⟩ := hP.boundary 0 le_rfl zero_le_one
    exact hnever rfl 0 zero_le_one k hk
  | oracle_general =>
    rw [and_iff_right rfl]
    apply hlaid.positioned hopened.trace_type
    -- an empty file is not opened
    rintro rfl
    have htyped := hopened.typed
    unfold Reader.Typed at htyped
    rw [hopened.trace_type] at htyped
    have hnil : header = [] := length_eq_zero_iff.1 (hheader.trans htyped.2.2)
    exact hopened.nonempty (by simp [hnil])

def two_oracle_records : List Bytes :=
  [[to_le 4 1, to_le 8 7, to_le 4 3, put_int 8 2].flatten, [to_le 4 5, to_le 8 7, to_le 4 3, put_int 8 (-1)].flatten]

theorem positioned_of_two : ∃ r, setup_reader .oracle_general true false ([] ++ two_oracle_records.flatten) = some r ∧
    Positioned r two_oracle_records := by
  refine ⟨count_records (oracleGeneralBin_setup { mapped_file := two_oracle_records.flatten, trace_type := .oracle_general }), rfl, ?_⟩
  refine (positioned_iff .oracle_general true false .forward [] two_oracle_records _ rfl rfl (by decide)).2.2 ?_
  exact ⟨rfl, by decide, by decide, by decide +kernel⟩

def two_lcs_records : List Bytes :=
  [[to_le 4 1, to_le 8 2, to_le 4 9, put_int 8 (-1)].flatten, [to_le 4 5, to_le 8 3, to_le 4 9, put_int 8 (-1)].flatten]

def two_lcs_header : Bytes :=
  _write_lcs_header 1 { n_req := 2, n_obj := 2, n_req_byte := 18, n_obj_byte := 18, start_timestamp := 1, end_timestamp := 5
                        analysis := List.replicate 7920 0 }

/-- What is delivered as the last request starts inside the first. -/
theorem lcs_last_misread : ∃ r, setup_reader .lcs true false (two_lcs_header ++ two_lcs_records.flatten) = some r ∧
    (read_last_req r {}).map (fun s => stored r.lcs_ver s.2.1) = some [4294967295, 25769803775, 3, 38654705664] ∧
    ¬ Positioned r two_lcs_records := by
  obtain ⟨r, hr, hitem, hstart, hsize, hdelivers, hread⟩ : ∃ r,
      setup_reader .lcs true false (two_lcs_header ++ two_lcs_records.flatten) = some r ∧
      r.item_size = 24 ∧ r.trace_start_offset = 8192 ∧ r.file_size = 8240 ∧
        two_lcs_records.getLast?.map r.delivers = some [5, 3, 9, MAX_REUSE_DISTANCE] ∧
        (read_one_req { r with mmap_offset := 8208 } {}).map (fun s => stored r.lcs_ver s.2.1) =
          some [4294967295, 25769803775, 3, 38654705664] := by decide +kernel
  have hpos : reader_set_read_pos (reset_reader r) 1 = { r with mmap_offset := 8232 } := by
    rw [set_read_pos_eq le_rfl, scaled_one]
    show ({ r with mmap_offset := round53 r.file_size / r.item_size * r.item_size } : Reader) = _
    rw [hsize, hitem, round53_of_le (by decide)]
  have hback : go_back_one_req { r with mmap_offset := 8232 } = ({ r with mmap_offset := 8208 }, true) := by
    rw [hitem, hstart]
    rfl
  have hlast : (read_last_req r {}).map (fun s => stored r.lcs_ver s.2.1) = some [4294967295, 25769803775, 3, 38654705664] := by
    unfold read_last_req
    dsimp only
    rw [hpos, hback, ← hread]
    cases read_one_req { r with mmap_offset := 8208 } {} with
    | none => rfl
    | some s => rfl
  refine ⟨r, hr, hlast, fun hP => ?_⟩
  obtain ⟨req', hfound, hreq'⟩ := hP.last _ rfl r.mmap_offset {}
  rw [show read_last_req r {} = _ from hfound] at hlast
  have hdelivered : some (stored r.lcs_ver req') = some [5, 3, 9, MAX_REUSE_DISTANCE] :=
    (congrArg some hreq').trans hdelivers
  rw [map_some, hdelivered] at hlast
  exact absurd hlast (by decide)

end CacheSim.Binary
