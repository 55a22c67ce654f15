import CacheSim.Binary.Records

/-!
# What is read is what was written

The records of every version and the header, field by field.
-/

namespace CacheSim.Binary

open Lib List

/-! ## Records -/

structure LcsReqFull.Fits (q : LcsReqFull) : Prop where
  clock_time : q.clock_time < 2 ^ 32
  obj_id : q.obj_id < 2 ^ 64
  obj_size : IsInt64 q.obj_size
  op : q.op < 2 ^ 8
  tenant : q.tenant < 2 ^ 24
  ttl : q.ttl < 2 ^ 32
  next_access_vtime : IsInt64 q.next_access_vtime

theorem length_full_fields (q : LcsReqFull) : (lcs_req_full_fields q).flatten.length = lcs_full_req_entry_size := by
  simp [lcs_req_full_fields, lcs_full_req_entry_size]

theorem full_of_fields {q : LcsReqFull} (h : q.Fits) : lcs_req_full_of_bytes (lcs_req_full_fields q).flatten = q := by
  have hunpack : unpack lcs_req_v3_widths (lcs_req_full_fields q).flatten = lcs_req_full_fields q := by
    have hwidths : (lcs_req_full_fields q).map List.length = lcs_req_v3_widths := by
      simp [lcs_req_full_fields, lcs_req_v3_widths]
    rw [← hwidths, unpack_all]
  unfold lcs_req_full_of_bytes
  rw [hunpack]
  simp only [lcs_req_full_fields, getD_cons_zero, getD_cons_succ]
  rw [of_le_to_le h.clock_time, of_le_to_le h.obj_id, get_put_int64 h.obj_size, of_le_to_le h.op, of_le_to_le h.tenant,
    of_le_to_le h.ttl, get_put_int64 h.next_access_vtime]

structure BinaryRequest.Fits (lcs_ver : Nat) (req : BinaryRequest) : Prop where
  clock_time : 0 ≤ req.clock_time ∧ req.clock_time < 2 ^ 32
  obj_id : req.obj_id < 2 ^ 64
  obj_size : 0 < req.obj_size ∧ req.obj_size < if lcs_ver ≤ 2 then 2 ^ 32 else 2 ^ 63
  op : 2 ≤ lcs_ver → req.op < 2 ^ 8
  tenant_id : 2 ≤ lcs_ver → 0 ≤ req.tenant_id ∧ req.tenant_id < 2 ^ 24
  ttl : 3 ≤ lcs_ver → IsInt32 req.ttl
  features : ∀ i < LCS_VER_TO_N_FEATURES lcs_ver, IsInt32 (req.features.getD i 0)

variable {v : Nat} {req : BinaryRequest}

theorem BinaryRequest.Fits.size_lt (h : req.Fits v) : req.obj_size < 2 ^ 63 := by
  have := h.obj_size.2
  split_ifs at this <;> omega

theorem BinaryRequest.Fits.full (h : req.Fits v) (hnext : IsInt64 req.next_access_vtime) : (lcs_req_of_request req).Fits := by
  have hsize := h.size_lt
  have hpos := h.obj_size.1
  refine ⟨?_, h.obj_id, ⟨?_, hsize⟩, Nat.mod_lt _ (by decide), ?_, ?_, hnext⟩
  all_goals
    unfold lcs_req_of_request
    dsimp only
    omega

theorem BinaryRequest.Fits.with_next (h : req.Fits v) (vtime : Int) : ({ req with next_access_vtime := vtime }).Fits v :=
  { h with }

def written (lcs_ver : Nat) (req : BinaryRequest) : Bytes :=
  (lcs_req_fields lcs_ver (lcs_req_of_request req)).flatten ++ lcs_feature_bytes lcs_ver req

theorem length_feature_bytes (v : Nat) (req : BinaryRequest) :
    (lcs_feature_bytes v req).length = LCS_VER_TO_N_FEATURES v * 4 := by
  have hlength : (lcs_feature_bytes v req).length =
      ((List.range (LCS_VER_TO_N_FEATURES v)).map fun i => put_int 4 (req.features.getD i 0)).length * 4 :=
    length_flatten_eq (by simp)
  rw [hlength, length_map, length_range]

theorem length_written {size : Nat} (h : lcs_item_size v = some size) (req : BinaryRequest) : (written v req).length = size := by
  unfold written
  rw [length_append, length_feature_bytes]
  unfold lcs_item_size at h
  split at h
  all_goals
    cases h
  all_goals simp [lcs_req_fields, lcs_req_full_fields, LCS_VER_TO_N_FEATURES]

theorem features_written (q : LcsReqFull) (h : ∀ i < LCS_VER_TO_N_FEATURES v, IsInt32 (req.features.getD i 0)) :
    lcs_features (LCS_VER_TO_N_FEATURES v) ((lcs_req_full_fields q).flatten ++ lcs_feature_bytes v req) =
      (List.range (LCS_VER_TO_N_FEATURES v)).map (req.features.getD · 0) := by
  apply ext_getElem
  · simp
  · intro i hi _
    rw [length_lcs_features] at hi
    have hdrop : ((lcs_req_full_fields q).flatten ++ lcs_feature_bytes v req).drop (36 + 4 * i) =
        (lcs_feature_bytes v req).drop (i * 4) := by
      rw [← drop_drop, show 36 = (lcs_req_full_fields q).flatten.length from (length_full_fields q).symm, drop_left,
        Nat.mul_comm]
    simp only [lcs_features, getElem_map, getElem_range]
    rw [hdrop, lcs_feature_bytes, flatten_at (by simp) (by simpa using hi), getElem_map, getElem_range,
      get_put_int32 (h i hi)]

section

variable (h : req.Fits v)
include h

theorem clock_written : (of_le (to_le 4 (lcs_req_of_request req).clock_time) : Int) = req.clock_time := by
  obtain ⟨hlo, hhi⟩ := h.clock_time
  unfold lcs_req_of_request
  dsimp only
  rw [of_le_to_le (by omega)]
  omega

theorem op_written (hv : 2 ≤ v) : of_le (to_le 1 (lcs_req_of_request req).op) = req.op := by
  have hlt := h.op hv
  unfold lcs_req_of_request
  dsimp only
  rw [of_le_to_le (by omega)]
  omega

theorem tenant_written (hv : 2 ≤ v) : (of_le (to_le 3 (lcs_req_of_request req).tenant) : Int) = req.tenant_id := by
  obtain ⟨hlo, hhi⟩ := h.tenant_id hv
  unfold lcs_req_of_request
  dsimp only
  rw [of_le_to_le (by omega)]
  omega

theorem ttl_written (hv : 3 ≤ v) : get_int (to_le 4 (lcs_req_of_request req).ttl) = req.ttl :=
  get_put_int32 (h.ttl hv)

theorem full_written (hv : 3 ≤ v) (hnext : IsInt64 req.next_access_vtime) (rest : Bytes) (old : BinaryRequest) :
    lcs_v3_fields ((lcs_req_full_fields (lcs_req_of_request req)).flatten ++ rest) old =
      { old with
        clock_time := req.clock_time, obj_id := req.obj_id, obj_size := req.obj_size, op := req.op
        tenant_id := req.tenant_id, ttl := req.ttl, next_access_vtime := req.next_access_vtime } := by
  have hunpack : unpack lcs_req_v3_widths ((lcs_req_full_fields (lcs_req_of_request req)).flatten ++ rest) =
      lcs_req_full_fields (lcs_req_of_request req) := by
    have hwidths : (lcs_req_full_fields (lcs_req_of_request req)).map List.length = lcs_req_v3_widths := by
      simp [lcs_req_full_fields, lcs_req_v3_widths]
    rw [← hwidths, unpack_flatten]
  have hsize : IsInt64 (lcs_req_of_request req).obj_size := (h.full hnext).obj_size
  unfold lcs_v3_fields
  rw [hunpack]
  simp only [lcs_req_full_fields, getD_cons_zero, getD_cons_succ]
  rw [clock_written h, of_le_to_le h.obj_id, get_put_int64 hsize, op_written h (by omega), tenant_written h (by omega),
    ttl_written h hv, get_put_int64 (h.full hnext).next_access_vtime]
  rfl

end

theorem unpack_written {widths : List Nat} (h : (lcs_req_fields v (lcs_req_of_request req)).map List.length = widths) :
    unpack widths (written v req) = lcs_req_fields v (lcs_req_of_request req) := by
  rw [← h, written, unpack_flatten]

theorem restore_next_of_ne (h : req.next_access_vtime ≠ -1) : restore_next req = req := by
  unfold restore_next MAX_REUSE_DISTANCE
  split_ifs with hmax
  · rw [← hmax.resolve_left h]
  · rfl

theorem stored_written (h : req.Fits v) (hv : 1 ≤ v) (hnext : IsInt64 req.next_access_vtime) (hne : req.next_access_vtime ≠ -1)
    (old : BinaryRequest) : stored v (lcs_fields v (written v req) old) = stored v req := by
  have hvtime : get_int (put_int 8 (lcs_req_of_request req).next_access_vtime) = req.next_access_vtime := get_put_int64 hnext
  have hsize : v ≤ 2 → (of_le (put_int 4 (lcs_req_of_request req).obj_size) : Int) = req.obj_size := by
    intro hle
    have hlt := h.obj_size.2
    rw [if_pos hle] at hlt
    exact of_le_put_int h.obj_size.1.le hlt
  obtain rfl | rfl | rfl | hv : v = 1 ∨ v = 2 ∨ v = 3 ∨ 4 ≤ v := by omega
  · have hfields : lcs_fields 1 (written 1 req) old = restore_next { old with
        clock_time := req.clock_time, obj_id := req.obj_id, obj_size := req.obj_size
        next_access_vtime := req.next_access_vtime } := by
      unfold lcs_fields
      rw [if_pos rfl, unpack_written (by simp [lcs_req_fields, lcs_req_v1_widths])]
      simp only [lcs_req_fields, reduceIte, getD_cons_zero, getD_cons_succ]
      rw [clock_written h, of_le_to_le h.obj_id, hsize (by omega), hvtime]
      rfl
    rw [hfields, restore_next_of_ne (by exact hne)]
    rfl
  · have hfields : lcs_fields 2 (written 2 req) old = restore_next { old with
        clock_time := req.clock_time, obj_id := req.obj_id, obj_size := req.obj_size, op := req.op
        tenant_id := req.tenant_id, next_access_vtime := req.next_access_vtime } := by
      unfold lcs_fields
      rw [if_neg (by decide), if_pos rfl, unpack_written (by simp [lcs_req_fields, lcs_req_v2_widths])]
      simp only [lcs_req_fields, Nat.reduceEqDiff, reduceIte, getD_cons_zero, getD_cons_succ]
      rw [clock_written h, of_le_to_le h.obj_id, hsize (by omega), op_written h (by omega), tenant_written h (by omega), hvtime]
      rfl
    rw [hfields, restore_next_of_ne (by exact hne)]
    rfl
  · have hfields : lcs_fields 3 (written 3 req) old =
        restore_next (lcs_v3_fields ((lcs_req_full_fields (lcs_req_of_request req)).flatten ++ lcs_feature_bytes 3 req) old) := rfl
    rw [hfields, full_written h le_rfl hnext, restore_next_of_ne (by exact hne)]
    rfl
  · have hfields : lcs_fields v (written v req) old = restore_next { req with
        n_features := LCS_VER_TO_N_FEATURES v
        features := (List.range (LCS_VER_TO_N_FEATURES v)).map (req.features.getD · 0) ++
          old.features.drop (LCS_VER_TO_N_FEATURES v)
        valid := old.valid } := by
      unfold lcs_fields written lcs_req_fields
      rw [if_neg (by omega), if_neg (by omega), if_neg (by omega), if_neg (by omega), if_neg (by omega),
        full_written h (by omega) hnext]
      dsimp only
      rw [features_written _ h.features]
    rw [hfields, restore_next_of_ne (by exact hne)]
    have hlen : ((List.range (LCS_VER_TO_N_FEATURES v)).map (req.features.getD · 0)).length = LCS_VER_TO_N_FEATURES v := by simp
    simp only [stored, map_getD_append hlen]

structure LcsStat.Fits (stat : LcsStat) : Prop where
  version : IsInt64 stat.version
  n_req : IsInt64 stat.n_req
  n_obj : IsInt64 stat.n_obj
  n_req_byte : IsInt64 stat.n_req_byte
  n_obj_byte : IsInt64 stat.n_obj_byte
  start_timestamp : IsInt64 stat.start_timestamp
  end_timestamp : IsInt64 stat.end_timestamp
  n_read : IsInt64 stat.n_read
  n_write : IsInt64 stat.n_write
  n_delete : IsInt64 stat.n_delete
  analysis : stat.analysis.length = 7920

variable {stat : LcsStat}

theorem lcs_header_of_fields (h : stat.Fits) (hv : v < 2 ^ 64) : lcs_header_of_bytes (_write_lcs_header v stat) =
    { start_magic := LCS_TRACE_START_MAGIC, version := v, stat := stat, end_magic := LCS_TRACE_END_MAGIC } := by
  have hunpack : unpack lcs_header_widths (_write_lcs_header v stat) = lcs_header_fields v stat := by
    have hwidths : (lcs_header_fields v stat).map List.length = lcs_header_widths := by
      simp [lcs_header_fields, lcs_header_widths, h.analysis, -List.reduceReplicate]
    rw [← hwidths, _write_lcs_header, unpack_all]
  unfold lcs_header_of_bytes
  rw [hunpack]
  simp only [lcs_header_fields, getD_cons_zero, getD_cons_succ]
  rw [get_put_int64 h.version, get_put_int64 h.n_req, get_put_int64 h.n_obj, get_put_int64 h.n_req_byte, get_put_int64 h.n_obj_byte,
    get_put_int64 h.start_timestamp, get_put_int64 h.end_timestamp, get_put_int64 h.n_read, get_put_int64 h.n_write,
    get_put_int64 h.n_delete, of_le_to_le (by decide), of_le_to_le hv, of_le_to_le (by decide)]

theorem length_lcs_header (v : Nat) (h : stat.analysis.length = 7920) : (_write_lcs_header v stat).length = lcs_trace_header_size := by
  simp [_write_lcs_header, lcs_header_fields, lcs_trace_header_size, h, -List.reduceReplicate]

end CacheSim.Binary
