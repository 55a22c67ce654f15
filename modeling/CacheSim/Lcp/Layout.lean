import CacheSim.Lcp.Flat

/-!
# What is read is what was written

The packed structures of the file, field by field, and the blocks of a request.
-/

namespace CacheSim.Lcp

open Lib Trace List

structure LcpReqV1.Fits (rec_ : LcpReqV1) : Prop where
  start_time_us : IsInt64 rec_.start_time_us
  complete_time_us : IsInt64 rec_.complete_time_us
  chat_id : IsInt64 rec_.chat_id
  parent_chat_id : IsInt64 rec_.parent_chat_id
  session_next_req : IsInt64 rec_.session_next_req
  session_id : rec_.session_id < 2 ^ 32
  user_id : rec_.user_id < 2 ^ 32
  n_blocks : rec_.n_blocks < 2 ^ 32
  input_length : IsInt32 rec_.input_length
  output_length : IsInt32 rec_.output_length
  turn : IsInt32 rec_.turn
  type_id : IsInt32 rec_.type_id

theorem length_lcp_req_fields (rec_ : LcpReqV1) : (lcp_req_fields rec_).flatten.length = lcp_req_size := by
  simp [lcp_req_fields, lcp_req_size]

theorem lcp_req_of_fields {rec_ : LcpReqV1} (h : rec_.Fits) : lcp_req_of_bytes (lcp_req_fields rec_).flatten = rec_ := by
  have hwidths : (lcp_req_fields rec_).map List.length = lcp_req_widths := by simp [lcp_req_fields, lcp_req_widths]
  have hunpack : unpack lcp_req_widths (lcp_req_fields rec_).flatten = lcp_req_fields rec_ := by
    rw [← hwidths, unpack_all]
  unfold lcp_req_of_bytes
  rw [hunpack]
  simp only [lcp_req_fields, getD_cons_zero, getD_cons_succ]
  rw [get_put_int64 h.start_time_us, get_put_int64 h.complete_time_us, get_put_int64 h.chat_id, get_put_int64 h.parent_chat_id,
    get_put_int64 h.session_next_req, of_le_to_le h.session_id, of_le_to_le h.user_id, of_le_to_le h.n_blocks,
    get_put_int32 h.input_length, get_put_int32 h.output_length, get_put_int32 h.turn, get_put_int32 h.type_id]

structure LcpStat.Fits (stat : LcpStat) : Prop where
  version : IsInt64 stat.version
  n_req : IsInt64 stat.n_req
  n_block : IsInt64 stat.n_block
  n_unique_block : IsInt64 stat.n_unique_block
  n_session : IsInt64 stat.n_session
  n_user : IsInt64 stat.n_user
  max_blocks_per_req : IsInt64 stat.max_blocks_per_req
  first_complete_time_us : IsInt64 stat.first_complete_time_us
  last_complete_time_us : IsInt64 stat.last_complete_time_us
  block_size_tokens : IsInt64 stat.block_size_tokens
  n_type : IsInt64 stat.n_type
  type_names : stat.type_names.length = 1024

variable {stat : LcpStat}

theorem lcp_header_of_fields (h : stat.Fits) :
    lcp_header_of_bytes (lcp_header_fields stat).flatten =
      { start_magic := LCP_TRACE_MAGIC, version := LCP_CURR_VERSION, stat := stat, end_magic := LCP_TRACE_MAGIC } := by
  have hwidths : (lcp_header_fields stat).map List.length = lcp_header_widths := by
    simp [lcp_header_fields, lcp_header_widths, h.type_names, -List.reduceReplicate]
  have hunpack : unpack lcp_header_widths (lcp_header_fields stat).flatten = lcp_header_fields stat := by
    rw [← hwidths, unpack_all]
  unfold lcp_header_of_bytes
  rw [hunpack]
  simp only [lcp_header_fields, getD_cons_zero, getD_cons_succ]
  rw [get_put_int64 h.version, get_put_int64 h.n_req, get_put_int64 h.n_block, get_put_int64 h.n_unique_block,
    get_put_int64 h.n_session, get_put_int64 h.n_user, get_put_int64 h.max_blocks_per_req, get_put_int64 h.first_complete_time_us,
    get_put_int64 h.last_complete_time_us, get_put_int64 h.block_size_tokens, get_put_int64 h.n_type, of_le_to_le (by decide),
    of_le_to_le (by decide)]

theorem length_lcp_header_fields (h : stat.type_names.length = 1024) :
    (lcp_header_fields stat).flatten.length = lcp_header_size := by
  simp [lcp_header_fields, lcp_header_size, h, -List.reduceReplicate]

theorem setup_of_header {max : Int → Int} {body : Bytes} (hfits : stat.Fits)
    (hverify : _verify_lcp_header { start_magic := LCP_TRACE_MAGIC, version := LCP_CURR_VERSION, stat := stat, end_magic := LCP_TRACE_MAGIC } = true)
    (hmax : max stat.max_blocks_per_req ≤ 2 ^ 31 - 1)
    (hlen : lcp_header_size + body.length =
      (lcp_header_size + stat.n_req.toNat * lcp_req_size + stat.n_block.toNat * lcp_block_size) % 2 ^ 64) :
    lcpReader_setup max ((lcp_header_fields stat).flatten ++ body) = some (open_body stat body) := by
  have hheader := length_lcp_header_fields hfits.type_names
  have hlen' : ((lcp_header_fields stat).flatten ++ body).length =
      (lcp_header_size + stat.n_req.toNat * lcp_req_size + stat.n_block.toNat * lcp_block_size) % 2 ^ 64 := by
    rw [length_append, hheader, hlen]
  unfold lcpReader_setup
  rw [take_left' hheader, drop_left' hheader, lcp_header_of_fields hfits]
  simp only [guard, hverify, hmax, ← hlen']
  rw [if_pos (by rw [length_append, hheader]; exact Nat.le_add_right _ _)]
  rfl

/-! ## Blocks -/

def stored_next (vtime : Int) : Int := if vtime ≥ MAX_REUSE_DISTANCE then -1 else vtime

/-- The next access of the block at position `pos`, counted from 1, is later and in the trace, if there is one. -/
def NextOk (n_block pos vtime : Int) : Prop := vtime = MAX_REUSE_DISTANCE ∨ pos < vtime ∧ vtime ≤ n_block

variable {n_block pos vtime : Int}

theorem NextOk.stored (h : NextOk n_block pos vtime) :
    stored_next vtime = -1 ∨ pos < stored_next vtime ∧ stored_next vtime ≤ n_block := by
  unfold stored_next
  unfold NextOk at h
  split_ifs <;> omega

theorem NextOk.restored (h : NextOk n_block pos vtime) (hpos : 0 ≤ pos) (hn : n_block < 2 ^ 62) :
    (if stored_next vtime < 0 then MAX_REUSE_DISTANCE else stored_next vtime) = vtime := by
  unfold stored_next
  unfold NextOk at h
  unfold MAX_REUSE_DISTANCE Trace.INT64_MAX at *
  split_ifs <;> omega

variable {r : LcpParams} {rest : Bytes}

theorem read_block_written {id : Nat} {vtime : Int}
    (hrest : r.rest = to_le 8 id ++ put_int 8 (stored_next vtime - r.next_access) ++ rest)
    (hid : id ≠ 0 ∧ id ≤ (r.max_block_id + 1) % 2 ^ 64) (hnext : NextOk r.stat.n_block (r.n_block_read + 1) vtime)
    (hread : 0 ≤ r.n_block_read) (hprev : -1 ≤ r.next_access ∧ r.next_access ≤ r.stat.n_block) (hn : r.stat.n_block < 2 ^ 62) :
    _read_block r = some ({ r with
      rest := rest, max_block_id := if id > r.max_block_id then id else r.max_block_id, n_block_read := r.n_block_read + 1,
      next_access := stored_next vtime }, id, stored_next vtime) := by
  have hfields : r.block_fields = [to_le 8 id, put_int 8 (stored_next vtime - r.next_access)] := by
    unfold LcpParams.block_fields
    have htake : r.rest.take lcp_block_size = [to_le 8 id, put_int 8 (stored_next vtime - r.next_access)].flatten ++ [] := by
      rw [hrest, take_left' (by simp [lcp_block_size])]
      simp
    rw [htake]
    exact unpack_flatten [to_le 8 id, put_int 8 (stored_next vtime - r.next_access)] []
  have hstored := hnext.stored
  have hdelta : IsInt64 (stored_next vtime - r.next_access) := by
    unfold IsInt64
    omega
  rw [read_block_eq_some, hfields, getD_cons_zero, getD_cons_succ, getD_cons_zero, get_put_int64 hdelta]
  refine ⟨?_, ?_, hid, ?_, hstored, ?_⟩
  · simp only [hrest, lcp_block_size, length_append, length_to_le, length_put_int]
    omega
  · rw [of_le_to_le]
    exact hid.2.trans_lt (Nat.mod_lt _ (by decide))
  · rw [add_sub_cancel]
    symm
    apply Int.bmod_eq_of_le <;> omega
  · rw [hrest, drop_left' (by simp [lcp_block_size])]

theorem read_blocks_written {i m : Nat} {blocks : List (ObjId × Int)}
    (hrest : r.rest = lcp_blocks r.next_access blocks ++ rest)
    (hids : check_blocks i r.max_block_id (blocks.map Prod.fst) = .ok m)
    (hnext : ∀ (j : Nat) b, blocks[j]? = some b → NextOk r.stat.n_block (r.n_block_read + j + 1) b.2)
    (hread : 0 ≤ r.n_block_read) (hprev : -1 ≤ r.next_access ∧ r.next_access ≤ r.stat.n_block) (hn : r.stat.n_block < 2 ^ 62) :
    ∃ r', read_blocks blocks.length r = some (r', blocks.map fun b => (b.1, stored_next b.2)) ∧ r'.stat = r.stat ∧ r'.rest = rest ∧
      r'.max_block_id = m ∧ r'.n_block_read = r.n_block_read + blocks.length ∧ r'.n_req_read = r.n_req_read := by
  induction blocks generalizing r with
  | nil =>
    cases hids
    exact ⟨r, rfl, rfl, by simpa [lcp_blocks] using hrest, rfl, by simp, rfl⟩
  | cons b blocks ih =>
    obtain ⟨id, vtime⟩ := b
    rw [map_cons, check_blocks] at hids
    by_cases hbad : id = 0 ∨ id > (r.max_block_id + 1) % 2 ^ 64
    · rw [if_pos hbad] at hids
      cases hids
    rw [if_neg hbad] at hids
    push Not at hbad
    have hfirst : NextOk r.stat.n_block (r.n_block_read + 1) vtime := by simpa using hnext 0 _ rfl
    have hsplit : r.rest = to_le 8 id ++ put_int 8 (stored_next vtime - r.next_access) ++
        (lcp_blocks (stored_next vtime) blocks ++ rest) := by
      rw [hrest, lcp_blocks, stored_next]
      simp
    have hblock := read_block_written hsplit hbad hfirst hread hprev hn
    have hstored := hfirst.stored
    generalize hr1 : ({ r with
      rest := lcp_blocks (stored_next vtime) blocks ++ rest, max_block_id := if id > r.max_block_id then id else r.max_block_id,
      n_block_read := r.n_block_read + 1, next_access := stored_next vtime } : LcpParams) = r1 at hblock
    have hstat1 : r1.stat = r.stat := hr1 ▸ rfl
    have hread1 : r1.n_block_read = r.n_block_read + 1 := hr1 ▸ rfl
    have hnext1 : r1.next_access = stored_next vtime := hr1 ▸ rfl
    have hnexts : ∀ (j : Nat) b, blocks[j]? = some b → NextOk r1.stat.n_block (r1.n_block_read + j + 1) b.2 := by
      intro j b hb
      have hpos : r1.n_block_read + j + 1 = r.n_block_read + ((j + 1 : Nat) : Int) + 1 := by omega
      rw [hstat1, hpos]
      exact hnext (j + 1) b hb
    have hprev1 : -1 ≤ r1.next_access ∧ r1.next_access ≤ r1.stat.n_block := by
      rw [hnext1, hstat1]
      omega
    obtain ⟨r', hr', hstat, hrest', hmax, hblocks, hreq⟩ := ih (hr1 ▸ rfl) (hr1 ▸ hids) hnexts (by omega) hprev1 (hstat1 ▸ hn)
    refine ⟨r', ?_, hstat.trans hstat1, hrest', hmax, ?_, hreq.trans (hr1 ▸ rfl)⟩
    · simp only [length_cons, read_blocks, hblock, bind, Option.bind, hr']
      rfl
    · rw [hblocks, hread1, length_cons]
      push_cast
      ring

end CacheSim.Lcp

/-!
## What the writer has checked

`stat_requests` looks at every request once. What it accepts is what the reader checks again.
-/

namespace CacheSim.Lcp

open Lib Trace List

structure Accepted (i : Nat) (s : StatPass) (r : TraceRequest) (id : Int) (s' : StatPass) : Prop where
  start : 0 ≤ r.start_timestamp
  complete : r.start_timestamp ≤ r.timestamp
  fits : r.blocks.length ≤ UINT32_MAX
  annotated : r.next_access_vtime.length = r.blocks.length
  blocks : check_blocks i s.max_block r.blocks = .ok s'.max_block
  type : type_id s.types r.type = .ok (s'.types, id)
  type_ids : s'.type_ids = s.type_ids ++ [id]
  n_block : s'.n_block = s.n_block + r.blocks.length
  max_blocks_per_req : s'.max_blocks_per_req = max (r.blocks.length : Int) s.max_blocks_per_req
  max_session : s'.max_session = max r.session s.max_session
  max_user : s'.max_user = max r.user s.max_user

variable {prev : Option TraceRequest} {i : Nat} {s s' : StatPass} {r : TraceRequest}

theorem stat_request_ok (h : stat_request prev i s r = .ok s') : ∃ id, Accepted i s r id s' := by
  unfold stat_request at h
  simp only [bind, Except.bind, throw, throwThe, MonadExceptOf.throw, pure] at h
  split at h
  · cases h
  split at h
  · cases h
  rename_i htime
  split at h
  · cases h
  rename_i hlen
  split at h
  · cases h
  rename_i hann
  split at h
  · cases h
  rename_i max_block hblocks
  split at h
  · cases h
  rename_i p htype
  cases h
  push Not at htime hlen hann
  refine ⟨p.2, htime.1, htime.2, hlen, hann, hblocks, htype, rfl, rfl, ?_, ?_, ?_⟩
  · dsimp only
    split_ifs <;> omega
  · dsimp only
    split_ifs <;> omega
  · dsimp only
    split_ifs <;> omega

variable {requests : List TraceRequest}

theorem stat_requests_cons_ok (h : stat_requests prev i s (r :: requests) = .ok s') :
    ∃ s1 id, Accepted i s r id s1 ∧ stat_requests (some r) (i + 1) s1 requests = .ok s' := by
  simp only [stat_requests, bind, Except.bind] at h
  split at h
  · cases h
  rename_i s1 hr
  obtain ⟨id, hacc⟩ := stat_request_ok hr
  exact ⟨s1, id, hacc, h⟩

/-! ## The type table -/

def TypeOk (type : Bytes) : Prop := type.length < LCP_TYPE_NAME_LEN ∧ 0 ∉ type

variable {type : Bytes}

theorem type_id_ok {types types' : List Bytes} {id : Int} (h : type_id types type = .ok (types', id))
    (hlen : types.length ≤ LCP_MAX_TYPE) (hok : ∀ t ∈ types, TypeOk t) (hzero : 0 ∉ type) :
    types <+: types' ∧ types'.length ≤ LCP_MAX_TYPE ∧ (∀ t ∈ types', TypeOk t) ∧
      (type = [] ∧ id = -1 ∨ ∃ k : Nat, id = k ∧ types'[k]? = some type) := by
  unfold type_id at h
  split at h
  · rename_i hempty
    cases h
    exact ⟨prefix_rfl, hlen, hok, .inl ⟨isEmpty_iff.1 hempty, rfl⟩⟩
  · cases hfind : first_use types type with
    | some k =>
      rw [hfind] at h
      cases h
      exact ⟨prefix_rfl, hlen, hok, .inr ⟨k, rfl, first_use_eq_some hfind⟩⟩
    | none =>
      rw [hfind] at h
      split_ifs at h with hfull
      push Not at hfull
      cases h
      refine ⟨prefix_append _ _, ?_, ?_, .inr ⟨types.length, rfl, by simp⟩⟩
      · rw [length_append, length_singleton]
        omega
      · intro t ht
        rcases mem_append.1 ht with ht | ht
        · exact hok t ht
        · rw [mem_singleton.1 ht]
          exact ⟨hfull.2, hzero⟩

variable {types : List Bytes}

theorem take_padded {k : Nat} (hk : types[k]? = some type) (hok : ∀ t ∈ types, TypeOk t)
    (rest : Bytes) :
    ((((types.map fun type => type ++ List.replicate (LCP_TYPE_NAME_LEN - type.length) 0).flatten ++ rest).drop
      (LCP_TYPE_NAME_LEN * k)).take LCP_TYPE_NAME_LEN) = type ++ List.replicate (LCP_TYPE_NAME_LEN - type.length) 0 := by
  have hlen : ∀ t, TypeOk t → (t ++ List.replicate (LCP_TYPE_NAME_LEN - t.length) 0).length = LCP_TYPE_NAME_LEN := by
    intro t ht
    have := ht.1
    rw [length_append, length_replicate]
    omega
  induction types generalizing k with
  | nil => cases hk
  | cons t types ih =>
    rw [map_cons, flatten_cons, append_assoc]
    cases k with
    | zero =>
      cases hk
      rw [Nat.mul_zero, drop_zero, take_left' (hlen _ (hok _ (by simp)))]
    | succ k =>
      have hdrop : LCP_TYPE_NAME_LEN * (k + 1) = LCP_TYPE_NAME_LEN + LCP_TYPE_NAME_LEN * k := by ring
      rw [hdrop, ← drop_drop, drop_left' (hlen _ (hok _ (by simp)))]
      exact ih hk fun t ht => hok t (by simp [ht])

theorem type_name_written {stat : LcpStat} (hstat : stat.type_names = type_names types) {k : Nat}
    (hk : types[k]? = some type) (hok : ∀ t ∈ types, TypeOk t) : stat.type_name k = type := by
  have hzero : 0 ∉ type := (hok type (mem_of_getElem? hk)).2
  unfold LcpStat.type_name
  rw [hstat, type_names, take_padded hk hok, takeWhile_append_of_pos]
  · simp
  · intro c hc
    simpa using fun h : c = 0 => hzero (h ▸ hc)

/-! ## The whole pass -/

theorem check_blocks_le {i m m' : Nat} {ids : List ObjId} (h : check_blocks i m ids = .ok m') : m' ≤ m + ids.length := by
  induction ids generalizing m with
  | nil =>
    cases h
    simp
  | cons id ids ih =>
    unfold check_blocks at h
    split at h
    · cases h
    · rename_i hid
      push Not at hid
      have hle := ih h
      have hbound : @LE.le Nat _ id (m + 1) := hid.2.trans (Nat.mod_le _ _)
      rw [length_cons]
      split_ifs at hle <;> omega

structure PassOk (s : StatPass) : Prop where
  max_blocks_lo : 0 ≤ s.max_blocks_per_req
  max_blocks_hi : s.max_blocks_per_req ≤ UINT32_MAX
  max_block : s.max_block ≤ s.n_block
  n_type : s.types.length ≤ LCP_MAX_TYPE
  types : ∀ t ∈ s.types, TypeOk t

theorem passOk_init : PassOk {} := ⟨le_rfl, by decide, le_rfl, by decide, by simp⟩

theorem Accepted.passOk {id : Int} (h : Accepted i s r id s') (hs : PassOk s) (hzero : 0 ∉ r.type) : PassOk s' := by
  obtain ⟨-, hn, htypes, -⟩ := type_id_ok h.type hs.n_type hs.types hzero
  have hle := check_blocks_le h.blocks
  have hfits := h.fits
  have hhi := hs.max_blocks_hi
  have hmax := hs.max_block
  refine ⟨?_, ?_, ?_, hn, htypes⟩
  · rw [h.max_blocks_per_req]
    omega
  · rw [h.max_blocks_per_req]
    omega
  · rw [h.n_block]
    omega

structure Passed (s : StatPass) (requests : List TraceRequest) (ids : List Int) (s' : StatPass) : Prop where
  ok : PassOk s'
  types : s.types <+: s'.types
  max_blocks_per_req : s.max_blocks_per_req ≤ s'.max_blocks_per_req
  max_session : s.max_session ≤ s'.max_session
  max_user : s.max_user ≤ s'.max_user
  type_ids : s'.type_ids = s.type_ids ++ ids
  length : ids.length = requests.length
  n_block : s'.n_block = s.n_block + (requests.map fun r => r.blocks.length).sum

theorem stat_requests_ok (h : stat_requests prev i s requests = .ok s') (hs : PassOk s)
    (hzero : ∀ r ∈ requests, 0 ∉ r.type) : ∃ ids, Passed s requests ids s' := by
  induction requests generalizing prev i s with
  | nil =>
    cases h
    exact ⟨[], hs, prefix_rfl, le_rfl, le_rfl, le_rfl, by simp, rfl, by simp⟩
  | cons r requests ih =>
    obtain ⟨s1, id, hacc, hrest⟩ := stat_requests_cons_ok h
    obtain ⟨ids, hpass⟩ := ih hrest (hacc.passOk hs (hzero r (by simp))) fun r hr => hzero r (by simp [hr])
    obtain ⟨hpre, -⟩ := type_id_ok hacc.type hs.n_type hs.types (hzero r (by simp))
    have hblocks := hpass.max_blocks_per_req
    have hsession := hpass.max_session
    have huser := hpass.max_user
    rw [hacc.max_blocks_per_req] at hblocks
    rw [hacc.max_session] at hsession
    rw [hacc.max_user] at huser
    refine ⟨id :: ids, hpass.ok, hpre.trans hpass.types, by omega, by omega, by omega, ?_, ?_, ?_⟩
    · rw [hpass.type_ids, hacc.type_ids, append_assoc, singleton_append]
    · rw [length_cons, length_cons, hpass.length]
    · rw [hpass.n_block, hacc.n_block, map_cons, sum_cons]
      push_cast
      ring

end CacheSim.Lcp
