import CacheSim.Binary.Model

/-!
# Records at their places

In a file of whole records a reader that stands at one of them reads it and stands at the next.
-/

namespace CacheSim.Binary

open Lib List Nat

/-! ## What a request holds of its record -/

variable (r : Reader)

def Reader.fields (record : Bytes) (req : BinaryRequest) : BinaryRequest :=
  match r.trace_type with
  | .oracle_general => oracleGeneral_fields record req
  | .lcs => lcs_fields r.lcs_ver record req

def stored (lcs_ver : Nat) (req : BinaryRequest) : List Int :=
  [req.clock_time, req.obj_id, req.obj_size, req.next_access_vtime] ++
    (if 2 ≤ lcs_ver then [(req.op : Int), req.tenant_id] else []) ++ (if 3 ≤ lcs_ver then [req.ttl] else []) ++
    (List.range (LCS_VER_TO_N_FEATURES lcs_ver)).map (req.features.getD · 0)

def Reader.Typed : Prop :=
  match r.trace_type with
  | .oracle_general => r.lcs_ver = 0 ∧ r.item_size = 24 ∧ r.trace_start_offset = 0
  | .lcs => lcs_item_size r.lcs_ver = some r.item_size ∧ r.trace_start_offset = lcs_trace_header_size

def Reader.shown (req : BinaryRequest) : BinaryRequest :=
  if r.ignore_obj_size then { req with obj_size := 1 } else req

def Reader.delivers (record : Bytes) : List Int := stored r.lcs_ver (r.shown (r.fields record {}))

@[simp] theorem length_lcs_features (n : Nat) (record : Bytes) : (lcs_features n record).length = n := by
  simp [lcs_features]

theorem map_getD_append {l : List Int} {n : Nat} (h : l.length = n) (t : List Int) :
    (List.range n).map ((l ++ t).getD · 0) = l := by
  subst h
  apply ext_getElem
  · simp
  · intro i hi _
    rw [length_map, length_range] at hi
    simp [getElem?_append_left, hi]

theorem stored_lcs_fields (v : Nat) (size : Int → Int) (record : Bytes) (a b : BinaryRequest) :
    stored v { lcs_fields v record a with obj_size := size (lcs_fields v record a).obj_size } =
      stored v { lcs_fields v record b with obj_size := size (lcs_fields v record b).obj_size } := by
  unfold lcs_fields
  split_ifs with h1 h2 h3
  · subst h1
    rfl
  · subst h2
    rfl
  · subst h3
    rfl
  · simp only [stored, restore_next, map_getD_append (length_lcs_features _ _)]
    rfl

theorem shown_eq (r : Reader) (req : BinaryRequest) :
    r.shown req = { req with obj_size := if r.ignore_obj_size then 1 else req.obj_size } := by
  unfold Reader.shown
  split_ifs <;> rfl

theorem stored_shown {r : Reader} (h : r.Typed) (record : Bytes) (req : BinaryRequest) :
    stored r.lcs_ver (r.shown (r.fields record req)) = r.delivers record := by
  unfold Reader.delivers
  rw [shown_eq, shown_eq]
  unfold Reader.fields Reader.Typed at *
  cases htype : r.trace_type with
  | oracle_general =>
    rw [htype] at h
    rw [h.1]
    rfl
  | lcs => exact stored_lcs_fields r.lcs_ver (fun size => if r.ignore_obj_size then 1 else size) record req {}

/-! ## A file of whole records -/

theorem item_size_pos {lcs_ver size : Nat} (h : lcs_item_size lcs_ver = some size) : 0 < size := by
  unfold lcs_item_size at h
  split at h
  all_goals
    cases h
  all_goals decide

/-- The records follow one another from `trace_start_offset` to the end of the file. -/
structure Laid (r : Reader) (records : List Bytes) : Prop where
  typed : r.Typed
  file : ∃ header, header.length = r.trace_start_offset ∧ r.mapped_file = header ++ records.flatten
  sizes : ∀ record ∈ records, record.length = r.item_size
  pos : 0 < r.item_size

def Reader.at (k : Nat) : Reader := { r with mmap_offset := r.trace_start_offset + k * r.item_size }

variable {r : Reader} {records : List Bytes} {k : Nat}

theorem flatten_at {records : List Bytes} {size k : Nat} (h : ∀ record ∈ records, record.length = size) (hk : k < records.length) :
    (records.flatten.drop (k * size)).take size = records[k] := by
  induction records generalizing k with
  | nil => simp at hk
  | cons record records ih =>
    have hsize := h record (by simp)
    cases k with
    | zero =>
      rw [zero_mul, drop_zero, flatten_cons, ← hsize, take_left]
      rfl
    | succ k =>
      rw [flatten_cons, succ_mul, add_comm, ← drop_drop, ← hsize, drop_left, hsize,
        ih (fun x hx => h x (by simp [hx])) (by simpa using hk)]
      rfl

theorem length_flatten_eq {records : List Bytes} {size : Nat} (h : ∀ record ∈ records, record.length = size) :
    records.flatten.length = records.length * size := by
  induction records with
  | nil => simp
  | cons record records ih =>
    rw [flatten_cons, length_append, length_cons, h record (by simp), ih fun x hx => h x (by simp [hx]),
      succ_mul, add_comm]

theorem Laid.file_size (h : Laid r records) : r.file_size = r.trace_start_offset + records.length * r.item_size := by
  obtain ⟨header, hlen, hfile⟩ := h.file
  unfold Reader.file_size
  rw [hfile, length_append, hlen, length_flatten_eq h.sizes]

theorem read_bytes_at (h : Laid r records) (hk : k < records.length) :
    read_bytes (r.at k) r.item_size = some (r.at (k + 1), some records[k]) := by
  obtain ⟨header, hlen, hfile⟩ := h.file
  have hsize := h.file_size
  have hpos := h.pos
  have hroom : (k + 1) * r.item_size ≤ records.length * r.item_size := mul_le_mul_right _ hk
  rw [succ_mul] at hroom
  have hrecord : ((r.mapped_file.drop (r.trace_start_offset + k * r.item_size)).take r.item_size) = records[k] := by
    rw [hfile, ← drop_drop, ← hlen, drop_left, flatten_at h.sizes hk]
  unfold read_bytes Reader.at
  rw [if_neg (by show ¬ _ ≥ r.file_size; dsimp only; omega), if_pos (by show _ ≤ r.file_size; dsimp only; omega)]
  simp only [hrecord, succ_mul, add_assoc]

theorem read_bytes_end {size : Nat} (h : r.file_size ≤ r.mmap_offset) : read_bytes r size = some (r, none) := if_pos h

variable {req : BinaryRequest}

theorem read_one_req_end (h : r.file_size ≤ r.mmap_offset) :
    read_one_req r req = some (r, { req with valid := false }, false) := if_pos h

def fresh (req : BinaryRequest) : BinaryRequest := { req with ttl := 0, obj_size := 1, valid := true }

theorem read_one_req_eq (h : r.mmap_offset < r.file_size) (req : BinaryRequest) :
    read_one_req r req = (read_record r.fields (r.file_size + 1) r (fresh req)).map fun s =>
      (s.1, s.1.shown s.2.1, s.2.2) := by
  unfold read_one_req
  rw [if_neg (by omega)]
  rw [Option.map_eq_bind]
  unfold Reader.fields fresh oracleGeneralBin_read_one_req lcs_read_one_req
  cases r.trace_type with
  | oracle_general => rfl
  | lcs => rfl

section

variable (h : Laid r records)
include h

theorem Laid.lt (hk : k < records.length) : (r.at k).mmap_offset < (r.at k).file_size := by
  have hsize := h.file_size
  have hpos := h.pos
  have hroom : (k + 1) * r.item_size ≤ records.length * r.item_size := mul_le_mul_right _ hk
  rw [succ_mul] at hroom
  show r.trace_start_offset + k * r.item_size < r.file_size
  omega

section

variable (hk : k < records.length)
include hk

theorem read_record_at (fuel : Nat) (req : BinaryRequest) :
    read_record r.fields (fuel + 1) (r.at k) req =
      if r.skips (r.fields records[k] req) then read_record r.fields fuel (r.at (k + 1)) (r.fields records[k] req)
      else some (r.at (k + 1), r.fields records[k] req, true) := by
  rw [read_record, show (r.at k).item_size = r.item_size from rfl, read_bytes_at h hk]
  rfl

theorem read_one_req_at
    (hskip : r.skips (r.fields records[k] (fresh req)) = false) :
    read_one_req (r.at k) req = some (r.at (k + 1), r.shown (r.fields records[k] (fresh req)), true) := by
  have hread := read_record_at h hk (r.at k).file_size (fresh req)
  rw [hskip, if_neg (by simp)] at hread
  rw [read_one_req_eq (h.lt hk)]
  exact congrArg (Option.map _) hread

theorem read_one_req_last (hlast : k + 1 = records.length)
    (hskip : r.skips (r.fields records[k] (fresh req)) = true) :
    ∃ req', read_one_req (r.at k) req = some (r.at (k + 1), req', false) := by
  have hlt := h.lt hk
  obtain ⟨m, hm⟩ : ∃ m, (r.at k).file_size = m + 1 := ⟨(r.at k).file_size - 1, by omega⟩
  have hread := read_record_at h hk (m + 1) (fresh req)
  have hend : ∀ q, read_record r.fields (m + 1) (r.at records.length) q =
      some (r.at records.length, { q with valid := false }, false) := by
    intro q
    rw [read_record, read_bytes_end h.file_size.le]
    rfl
  rw [hskip, if_pos rfl, hlast, hend] at hread
  rw [read_one_req_eq hlt, hm, hlast]
  exact ⟨_, congrArg (Option.map _) hread⟩

end

/-! ## From the first record to the last -/

def deliver (read : Reader → BinaryRequest → Option (Reader × BinaryRequest × Bool)) (s : Reader × BinaryRequest) :
    Option ((Reader × BinaryRequest) × Option (List Int)) := do
  let (r, req, ok) ← read s.1 s.2
  return ((r, req), if ok then some (stored r.lcs_ver req) else none)

def Reader.Raw (r : Reader) (records : List Bytes) : Prop := ∀ record ∈ records, ∀ req, r.skips (r.fields record req) = false

theorem deliver_at (hraw : r.Raw records) (hk : k < records.length) (req : BinaryRequest) :
    ∃ req', deliver read_one_req (r.at k, req) = some ((r.at (k + 1), req'), some (r.delivers records[k])) := by
  refine ⟨r.shown (r.fields records[k] (fresh req)), ?_⟩
  rw [← stored_shown h.typed records[k] (fresh req)]
  unfold deliver
  rw [read_one_req_at h hk (hraw _ (getElem_mem hk) _)]
  rfl

theorem deliver_end {m : Nat} (hm : records.length ≤ m) (req : BinaryRequest) :
    ∃ s, deliver read_one_req (r.at m, req) = some (s, none) := by
  have hend : (r.at m).file_size ≤ (r.at m).mmap_offset := by
    have := mul_le_mul_right r.item_size hm
    have := h.file_size
    show r.file_size ≤ r.trace_start_offset + m * r.item_size
    omega
  refine ⟨(r.at m, { req with valid := false }), ?_⟩
  unfold deliver
  rw [read_one_req_end hend]
  rfl

theorem reads_forward (hraw : r.Raw records) (req : BinaryRequest) :
    Reads (deliver read_one_req) (r.at 0, req) (records.map r.delivers) := by
  suffices hfrom : ∀ m k, k + m = records.length → ∀ req,
      Reads (deliver read_one_req) (r.at k, req) ((records.drop k).map r.delivers) by
    simpa using hfrom records.length 0 (by omega) req
  intro m
  induction m with
  | zero =>
    intro k hk req
    obtain ⟨s, hread⟩ := deliver_end h (show records.length ≤ k by omega) req
    rw [drop_eq_nil_of_le (by omega)]
    exact .done hread
  | succ m ih =>
    intro k hk req
    obtain ⟨req', hread⟩ := deliver_at h hraw (show k < records.length by omega) req
    rw [drop_eq_getElem_cons (by omega), map_cons]
    exact .more hread (ih (k + 1) (by omega) req')

end

end CacheSim.Binary
