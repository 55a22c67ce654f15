import CacheSim.Lcp.Layout
import CacheSim.Trace.Readable

/-!
# Writing a trace and reading it back

The reader's state after some requests follows from the state of the writer's pass there: the counters
agree, and what is left of the file is what was written for the requests that follow.
-/

namespace CacheSim.Lcp

open Lib Trace List

def NextsOk (n_block : Int) : Int → List TraceRequest → Prop
  | _, [] => True
  | pos, r :: requests =>
    (∀ (j : Nat) v, r.next_access_vtime[j]? = some v → NextOk n_block (pos + j + 1) v) ∧
    NextsOk n_block (pos + r.blocks.length) requests

theorem nextsOk_of_oracle {requests : List TraceRequest} (h : Oracle (fun _ => false) requests) :
    ∀ post pre, requests = pre ++ post →
      NextsOk (accesses (fun _ => false) requests).length (accesses (fun _ => false) pre).length post := by
  intro post
  induction post with
  | nil => intros; trivial
  | cons r post ih =>
    intro pre hsplit
    obtain ⟨hlen, hnext⟩ := h.block pre r post hsplit rfl
    have hpre : accesses (fun _ => false) (pre ++ [r]) = accesses (fun _ => false) pre ++ r.blocks := by
      simp [accesses, served]
    refine ⟨?_, ?_⟩
    · intro j v hv
      have hj : j < r.blocks.length := hlen ▸ (List.getElem?_eq_some_iff.1 hv).1
      rw [hnext j hj, Option.some.injEq] at hv
      subst hv
      unfold next_vtime NextOk
      cases huse : next_use (accesses (fun _ => false) requests) ((accesses (fun _ => false) pre).length + j) with
      | none => exact .inl rfl
      | some q =>
        have hbound := next_use_bound huse
        right
        simp only [Option.map_some, Option.getD_some]
        omega
    · have hrest := ih (pre ++ [r]) (by simp [hsplit])
      rw [hpre, length_append] at hrest
      exact_mod_cast hrest

theorem sessions_of_oracle {requests : List TraceRequest} (h : Oracle (fun _ => false) requests) :
    ∀ r ∈ requests, r.session_next_access = Trace.INT64_MAX ∨ 0 ≤ r.session_next_access ∧ r.session_next_access < requests.length := by
  intro r hr
  obtain ⟨pre, post, rfl⟩ := append_of_mem hr
  rw [h.session pre r post rfl rfl, next_request]
  cases huse : next_use (sessions (fun _ => false) (pre ++ r :: post)) pre.length with
  | none => exact .inl rfl
  | some q =>
    have hbound := (next_use_bound huse).2
    rw [sessions, length_map] at hbound
    right
    simp only [Option.map_some, Option.getD_some, Int.ofNat_eq_natCast]
    omega

/-! ## One request -/

structure Describes (stat : LcpStat) (s : StatPass) : Prop where
  n_block : stat.n_block = s.n_block
  max_blocks_per_req : stat.max_blocks_per_req = s.max_blocks_per_req
  n_session : stat.n_session = s.max_session
  n_user : stat.n_user = s.max_user
  n_type : stat.n_type = s.types.length
  type_names : stat.type_names = Lcp.type_names s.types
  session_fits : s.max_session ≤ UINT32_MAX
  user_fits : s.max_user ≤ UINT32_MAX
  fits : stat.n_block < 2 ^ 62

structure AtRequest (stat : LcpStat) (s : StatPass) (i : Nat) (reader : LcpReader) : Prop where
  stat : reader.params.stat = stat
  n_req : reader.params.n_req_read = i
  n_block : reader.params.n_block_read = s.n_block
  max_block : reader.params.max_block_id = s.max_block
  emitted : reader.n_emitted = i

structure Recorded (stat : LcpStat) (s : StatPass) (r : TraceRequest) : Prop where
  sized : Sized r
  nexts : ∀ (j : Nat) v, r.next_access_vtime[j]? = some v → NextOk stat.n_block (s.n_block + j + 1) v
  session : r.session_next_access = Trace.INT64_MAX ∨ 0 ≤ r.session_next_access ∧ r.session_next_access < 2 ^ 62

variable {stat : LcpStat} {s s₁ s' : StatPass} {i : Nat} {r : TraceRequest} {id : Int} {requests : List TraceRequest} {ids : List Int}

theorem Accepted.type_lt (hacc : Accepted i s r id s₁) (hs : PassOk s) (hpass : Passed s₁ requests ids s') (hstat : Describes stat s')
    (hzero : 0 ∉ r.type) :
    -1 ≤ id ∧ id < stat.n_type ∧ stat.n_type ≤ LCP_MAX_TYPE ∧
      (if id ≥ 0 then stat.type_name id.toNat else []) = r.type := by
  obtain ⟨-, -, -, htype⟩ := type_id_ok hacc.type hs.n_type hs.types hzero
  have hn := hpass.ok.n_type
  have hntype := hstat.n_type
  rcases htype with ⟨hempty, rfl⟩ | ⟨k, rfl, hk⟩
  · refine ⟨le_rfl, by omega, by omega, ?_⟩
    rw [if_neg (by decide), hempty]
  · obtain ⟨rest, hrest⟩ := hpass.types
    have hk' : s'.types[k]? = some r.type := by
      rw [← hrest, getElem?_append_left (List.getElem?_eq_some_iff.1 hk).1, hk]
    have hlt := (List.getElem?_eq_some_iff.1 hk').1
    refine ⟨by omega, by omega, by omega, ?_⟩
    exact type_name_written hstat.type_names hk' hpass.ok.types

theorem Recorded.fits (hrec : Recorded stat s r) (hid : -1 ≤ id ∧ id < LCP_MAX_TYPE) : (lcp_record r id).Fits := by
  have hs := hrec.sized
  refine ⟨hs.start_timestamp, hs.timestamp, hs.chat_id, hs.parent_chat_id, ?_, ?_, ?_, ?_, hs.input_length, hs.output_length, hs.turn,
    ?_⟩
  · have := hrec.session
    unfold IsInt64
    simp only [lcp_record] at this ⊢
    split_ifs <;> omega
  · exact Nat.mod_lt _ (by decide)
  · exact Nat.mod_lt _ (by decide)
  · exact Nat.mod_lt _ (by decide)
  · unfold LCP_MAX_TYPE at hid
    unfold IsInt32
    simp only [lcp_record]
    omega

theorem Accepted.record_ok (hacc : Accepted i s r id s₁) (hpass : Passed s₁ requests ids s') (hstat : Describes stat s')
    (hid : -1 ≤ id ∧ id < stat.n_type) : RecordOk stat (lcp_record r id) := by
  have hblocks := hpass.max_blocks_per_req
  have hsession := hpass.max_session
  have huser := hpass.max_user
  rw [hacc.max_blocks_per_req] at hblocks
  rw [hacc.max_session] at hsession
  rw [hacc.max_user] at huser
  refine ⟨?_, ?_, ?_, hid.1, hid.2, hacc.start, hacc.complete⟩
  · rw [hstat.max_blocks_per_req]
    simp only [lcp_record]
    omega
  · rw [hstat.n_session]
    simp only [lcp_record]
    omega
  · rw [hstat.n_user]
    simp only [lcp_record]
    omega

variable {reader : LcpReader} {rest : Bytes}

theorem read_record_written (hat : AtRequest stat s i reader) (hacc : Accepted i s r id s₁) (hs : PassOk s)
    (hpass : Passed s₁ requests ids s') (hstat : Describes stat s') (hrec : Recorded stat s r) (hlt : i < stat.n_req)
    (hrest : reader.params.rest = lcp_request r id ++ rest) :
    _read_record reader.params = some ({ reader.params with
      rest := lcp_blocks 0 (r.blocks.zip r.next_access_vtime) ++ rest, n_req_read := reader.params.n_req_read + 1, next_access := 0 },
      some (lcp_record r id)) := by
  obtain ⟨hlo, hhi, hmax, -⟩ := hacc.type_lt hs hpass hstat hrec.sized.type
  rw [read_record_eq_some, hrest, lcp_request, append_assoc, take_left' (length_lcp_req_fields _),
    drop_left' (length_lcp_req_fields _), lcp_req_of_fields (hrec.fits ⟨hlo, by omega⟩)]
  refine ⟨?_, ?_, rfl, ?_, rfl⟩
  · rw [hat.n_req, hat.stat]
    omega
  · rw [length_append, length_lcp_req_fields]
    exact Nat.le_add_right _ _
  · rw [hat.stat]
    exact hacc.record_ok hpass hstat ⟨hlo, hhi⟩

theorem read_written (hat : AtRequest stat s i reader) (hacc : Accepted i s r id s₁) (hs : PassOk s)
    (hpass : Passed s₁ requests ids s')
    (hstat : Describes stat s') (hrec : Recorded stat s r) (hlt : i < stat.n_req)
    (hrest : reader.params.rest = lcp_request r id ++ rest) :
    ∃ params, lcp_read_trace_req reader.params =
        some (params, some (lcp_record r id, (r.blocks.zip r.next_access_vtime).map fun b => (b.1, stored_next b.2))) ∧
      params.stat = stat ∧ params.rest = rest ∧ params.max_block_id = s₁.max_block ∧ params.n_block_read = s₁.n_block ∧
      params.n_req_read = i + 1 := by
  have hrecord := read_record_written hat hacc hs hpass hstat hrec hlt hrest
  generalize hr1 : ({ reader.params with
    rest := lcp_blocks 0 (r.blocks.zip r.next_access_vtime) ++ rest, n_req_read := reader.params.n_req_read + 1,
    next_access := 0 } : LcpParams) = r1 at hrecord
  have hstat1 : r1.stat = stat := hr1 ▸ hat.stat
  have hread1 : r1.n_block_read = s.n_block := hr1 ▸ hat.n_block
  have hnext1 : r1.next_access = 0 := hr1 ▸ rfl
  have hmax1 : r1.max_block_id = s.max_block := hr1 ▸ hat.max_block
  have hlen : (r.blocks.zip r.next_access_vtime).length = r.blocks.length := by
    rw [length_zip, hacc.annotated, min_self]
  have hids : check_blocks i r1.max_block_id ((r.blocks.zip r.next_access_vtime).map Prod.fst) = .ok s₁.max_block := by
    rw [hmax1, map_fst_zip hacc.annotated.ge]
    exact hacc.blocks
  have hnexts : ∀ (j : Nat) b, (r.blocks.zip r.next_access_vtime)[j]? = some b →
      NextOk r1.stat.n_block (r1.n_block_read + j + 1) b.2 := by
    intro j b hb
    rw [hstat1, hread1]
    exact hrec.nexts j b.2 (getElem?_zip_eq_some.1 hb).2
  have hblocks0 := hs.max_block
  have hfinal : (s.n_block : Int) ≤ stat.n_block := by
    rw [hstat.n_block, hpass.n_block, hacc.n_block]
    omega
  obtain ⟨params, hblocks, hstat', hrest', hmax', hread', hreq'⟩ := read_blocks_written
    (hr1 ▸ rfl : r1.rest = lcp_blocks r1.next_access (r.blocks.zip r.next_access_vtime) ++ rest) hids hnexts (by omega)
    (by rw [hnext1, hstat1]; omega) (hstat1 ▸ hstat.fits)
  refine ⟨params, read_trace_req_eq_some.2 ⟨r1, hrecord, ?_⟩, hstat'.trans hstat1, hrest', hmax', ?_, ?_⟩
  · have hfits := hacc.fits
    unfold UINT32_MAX at hfits
    have hn : (lcp_record r id).n_blocks = r.blocks.length := Nat.mod_eq_of_lt (by omega)
    rw [hn, ← hlen]
    exact hblocks
  · rw [hread', hread1, hacc.n_block, hlen]
  · rw [hreq', ← hr1]
    rw [hat.n_req]

theorem restored_session (hrec : Recorded stat s r) :
    (if (lcp_record r id).session_next_req < 0 then Trace.INT64_MAX else (lcp_record r id).session_next_req - 1)
      = r.session_next_access := by
  have hsession := hrec.session
  simp only [lcp_record]
  split_ifs <;> omega

theorem restored_nexts (hrec : Recorded stat s r) (hs : PassOk s) (hlen : r.next_access_vtime.length = r.blocks.length)
    (hfits : stat.n_block < 2 ^ 62) :
    ((r.blocks.zip r.next_access_vtime).map fun b => (b.1, stored_next b.2)).map
      (fun b => if b.2 < 0 then MAX_REUSE_DISTANCE else b.2) = r.next_access_vtime := by
  have hpos := hs.max_block
  rw [map_map]
  have hsnd : (r.blocks.zip r.next_access_vtime).map Prod.snd = r.next_access_vtime := map_snd_zip hlen.le
  conv_rhs => rw [← hsnd]
  apply map_congr_left
  intro b hb
  obtain ⟨j, hj⟩ := mem_iff_getElem?.1 hb
  exact (hrec.nexts j b.2 (getElem?_zip_eq_some.1 hj).2).restored (by omega) hfits

section

variable (hat : AtRequest stat s i reader)
include hat

theorem AtRequest.next_written (hacc : Accepted i s r id s₁) (hs : PassOk s)
    (hpass : Passed s₁ requests ids s') (hstat : Describes stat s') (hrec : Recorded stat s r) (hlt : i < stat.n_req)
    (hrest : reader.params.rest = lcp_request r id ++ rest)
    (hindex : r.index = i) (hcategory : r.category = (intern_category reader.categories r.type r.turn).2) :
    ∃ reader', reader.next = some (reader', some r) ∧ AtRequest stat s₁ (i + 1) reader' ∧ reader'.params.rest = rest ∧
      reader'.categories = (intern_category reader.categories r.type r.turn).1 := by
  obtain ⟨params, hread, hstat', hrest', hmax, hblocks, hreq⟩ := read_written hat hacc hs hpass hstat hrec hlt hrest
  obtain ⟨-, -, -, htype⟩ := hacc.type_lt hs hpass hstat hrec.sized.type
  refine ⟨{ params := params, n_emitted := reader.n_emitted + 1, categories := (intern_category reader.categories r.type r.turn).1 },
    ?_, ⟨hstat', by simp [hreq], hblocks, hmax, by simp [hat.emitted]⟩, hrest', rfl⟩
  unfold LcpReader.next
  simp only [hread, bind, Option.bind, hstat']
  have hblocks' : ((r.blocks.zip r.next_access_vtime).map fun b => (b.1, stored_next b.2)).map Prod.fst = r.blocks := by
    rw [map_map]
    exact map_fst_zip hacc.annotated.ge
  have htype' : (if (lcp_record r id).type_id ≥ 0 then stat.type_name (lcp_record r id).type_id.toNat else []) = r.type := htype
  have hturn : (lcp_record r id).turn = r.turn := rfl
  have hsession := hpass.max_session
  have huser := hpass.max_user
  rw [hacc.max_session] at hsession
  rw [hacc.max_user] at huser
  have hsession' : (lcp_record r id).session_id = r.session := by
    have := hstat.session_fits
    unfold UINT32_MAX at this
    exact Nat.mod_eq_of_lt (by omega)
  have huser' : (lcp_record r id).user_id = r.user := by
    have := hstat.user_fits
    unfold UINT32_MAX at this
    exact Nat.mod_eq_of_lt (by omega)
  rw [restored_session hrec, restored_nexts hrec hs hacc.annotated hstat.fits, hblocks', htype', hturn, hsession', huser', ← hcategory,
    hat.emitted, ← hindex]
  rfl

/-! ## The whole file -/

theorem next_end (hstat : Describes stat s) (hn : stat.n_req = i) :
    reader.next = some (reader, none) := by
  have hend : lcp_read_trace_req reader.params = some (reader.params, none) := by
    rw [read_trace_req_eq_none, read_record_eq_none, hat.n_req, hat.n_block, hat.stat]
    exact ⟨hn.symm, hstat.n_block.symm, rfl⟩
  unfold LcpReader.next
  simp only [hend, bind]
  rfl

theorem reads_written {prev : Option TraceRequest} (hs : PassOk s)
    (hrun : stat_requests prev i s requests = .ok s') (hids : s'.type_ids = s.type_ids ++ ids) (hstat : Describes stat s')
    (hn : stat.n_req = i + requests.length) (hnum : Numbered i reader.categories requests) (hsized : ∀ r ∈ requests, Sized r)
    (hnexts : NextsOk stat.n_block s.n_block requests)
    (hsession : ∀ r ∈ requests, r.session_next_access = Trace.INT64_MAX ∨ 0 ≤ r.session_next_access ∧ r.session_next_access < 2 ^ 62)
    (hrest : reader.params.rest = (List.zipWith lcp_request requests ids).flatten) :
    Reads LcpReader.next reader requests := by
  induction requests generalizing prev s i reader ids with
  | nil =>
    cases hrun
    exact .done (next_end hat hstat (by simpa using hn))
  | cons r requests ih =>
    obtain ⟨s₁, id, hacc, hrun1⟩ := stat_requests_cons_ok hrun
    have hs1 := hacc.passOk hs (hsized r (by simp)).type
    obtain ⟨ids1, hpass⟩ := stat_requests_ok hrun1 hs1 fun r hr => (hsized r (by simp [hr])).type
    obtain rfl : ids = id :: ids1 := by
      rw [hpass.type_ids, hacc.type_ids, append_assoc] at hids
      exact (append_cancel_left hids).symm
    obtain ⟨hindex, hcategory, hnum1⟩ := hnum
    rw [length_cons] at hn
    have hrec : Recorded stat s r := ⟨hsized r (by simp), hnexts.1, hsession r (by simp)⟩
    obtain ⟨reader', hnext, hat', hrest', hcats⟩ := hat.next_written hacc hs hpass hstat hrec (by omega) hrest hindex hcategory
    apply Reads.more hnext
    apply ih hat' hs1 hrun1 hpass.type_ids
    · omega
    · rw [hcats]
      exact_mod_cast hnum1
    · exact fun r hr => hsized r (by simp [hr])
    · rw [hacc.n_block]
      exact hnexts.2
    · exact fun r hr => hsession r (by simp [hr])
    · exact hrest'

end

theorem length_lcp_blocks (prev : Int) (blocks : List (ObjId × Int)) :
    (lcp_blocks prev blocks).length = lcp_block_size * blocks.length := by
  induction blocks generalizing prev with
  | nil => rfl
  | cons b blocks ih =>
    simp only [lcp_blocks, length_append, length_to_le, length_put_int, ih, lcp_block_size, length_cons]
    ring

theorem length_written {prev : Option TraceRequest} (hrun : stat_requests prev i s requests = .ok s')
    (hlen : ids.length = requests.length) :
    (List.zipWith lcp_request requests ids).flatten.length =
      lcp_req_size * requests.length + lcp_block_size * (requests.map fun r => r.blocks.length).sum := by
  induction requests generalizing prev s i ids with
  | nil => simp
  | cons r requests ih =>
    obtain ⟨s₁, id, hacc, hrun1⟩ := stat_requests_cons_ok hrun
    cases ids with
    | nil => cases hlen
    | cons id' ids =>
      have hzip : (r.blocks.zip r.next_access_vtime).length = r.blocks.length := by
        rw [length_zip, hacc.annotated, min_self]
      rw [zipWith_cons_cons, flatten_cons, length_append, ih hrun1 (by simpa using hlen), lcp_request, length_append,
        length_lcp_req_fields, length_lcp_blocks, hzip, length_cons, map_cons, sum_cons]
      ring

theorem length_type_names {types : List Bytes} (hn : types.length ≤ LCP_MAX_TYPE) (hok : ∀ t ∈ types, TypeOk t) :
    (type_names types).length = 1024 := by
  have hpad : (types.map fun t => t ++ List.replicate (LCP_TYPE_NAME_LEN - t.length) (0 : UInt8)).flatten.length =
      LCP_TYPE_NAME_LEN * types.length := by
    clear hn
    induction types with
    | nil => rfl
    | cons t types ih =>
      have ht := (hok t (by simp)).1
      rw [map_cons, flatten_cons, length_append, ih fun t ht => hok t (by simp [ht]), length_append,
        length_replicate, length_cons, Nat.mul_succ]
      omega
  rw [type_names, length_append, hpad, length_replicate]
  unfold LCP_MAX_TYPE at *
  unfold LCP_TYPE_NAME_LEN
  omega

variable {block_size_tokens : Int} {path file : Bytes}

theorem write_lcp_ok (h : write_lcp requests block_size_tokens path = .ok (stat, file)) :
    ∃ s, stat_requests none 0 {} requests = .ok s ∧ s.max_session ≤ UINT32_MAX ∧ s.max_user ≤ UINT32_MAX ∧
      stat = {
        version := 1, n_req := requests.length, n_block := s.n_block, n_unique_block := s.max_block, n_session := s.max_session,
        n_user := s.max_user, max_blocks_per_req := s.max_blocks_per_req,
        first_complete_time_us := (requests.head?.map fun r => r.timestamp).getD 0,
        last_complete_time_us := (requests.getLast?.map fun r => r.timestamp).getD 0,
        block_size_tokens := int32 block_size_tokens, n_type := s.types.length, type_names := type_names s.types } ∧
      file = (lcp_header_fields stat).flatten ++ (List.zipWith lcp_request requests s.type_ids).flatten ∧
        file.length ≤ 2 ^ 63 - 1 := by
  unfold write_lcp build_stat at h
  simp only [bind, Except.bind, throw, throwThe, MonadExceptOf.throw, pure] at h
  split at h
  · cases h
  split at h
  · cases h
  rename_i p hbuild
  split at hbuild
  · cases hbuild
  rename_i s hrun
  split at hbuild
  · cases hbuild
  split at hbuild
  · cases hbuild
  rename_i hmany
  cases hbuild
  split at h
  · cases h
  rename_i hlong
  cases h
  push Not at hmany hlong
  exact ⟨s, hrun, hmany.1, hmany.2, rfl, rfl, hlong⟩

theorem isInt64_getD {o : Option TraceRequest} (h : ∀ r ∈ o, Sized r) : IsInt64 ((o.map fun r => r.timestamp).getD 0) := by
  cases o with
  | none => exact ⟨by decide, by decide⟩
  | some r => exact (h r rfl).timestamp

theorem isInt64_int32 (v : Int) : IsInt64 (int32 v) := by
  have h := isInt32_int32 v
  unfold IsInt32 at h
  unfold IsInt64
  omega

structure Written (requests : List TraceRequest) (stat : LcpStat) (s : StatPass) (file : Bytes) : Prop where
  run : stat_requests none 0 {} requests = .ok s
  ok : PassOk s
  describes : Describes stat s
  n_req : stat.n_req = requests.length
  n_unique_block : stat.n_unique_block = s.max_block
  fits : stat.Fits
  bytes : file = (lcp_header_fields stat).flatten ++ (List.zipWith lcp_request requests s.type_ids).flatten
  total : stat.n_block = (requests.map fun r => r.blocks.length).sum
  length : file.length = lcp_header_size + requests.length * lcp_req_size + stat.n_block.toNat * lcp_block_size
  short : file.length ≤ 2 ^ 63 - 1

theorem written_of_write (hwrite : write_lcp requests block_size_tokens path = .ok (stat, file))
    (hsized : ∀ r ∈ requests, Sized r) : ∃ s, Written requests stat s file := by
  obtain ⟨s, hrun, hsession, huser, rfl, hfile, hlong⟩ := write_lcp_ok hwrite
  obtain ⟨ids, hpass⟩ := stat_requests_ok hrun passOk_init fun r hr => (hsized r hr).type
  have hnames := length_type_names hpass.ok.n_type hpass.ok.types
  have htotal : s.n_block = (requests.map fun r => r.blocks.length).sum := by simpa using hpass.n_block
  have hids : s.type_ids.length = requests.length := by rw [hpass.type_ids, ← hpass.length]; simp
  have hlen : file.length = lcp_header_size + requests.length * lcp_req_size + s.n_block.toNat * lcp_block_size := by
    rw [hfile, length_append, length_lcp_header_fields hnames, length_written hrun hids, htotal, Int.toNat_natCast]
    ring
  have hsmall : s.n_block < 2 ^ 62 ∧ (requests.length : Int) < 2 ^ 62 := by
    simp only [lcp_req_size, lcp_block_size] at hlen
    omega
  have hok := hpass.ok
  have hlo := hok.max_blocks_lo
  have hhi := hok.max_blocks_hi
  have hmax := hok.max_block
  have htypes := hok.n_type
  unfold UINT32_MAX at hsession huser hhi
  unfold LCP_MAX_TYPE at htypes
  refine ⟨s, hrun, hok, ⟨rfl, rfl, rfl, rfl, rfl, rfl, hsession, huser, hsmall.1⟩, rfl, rfl, ?_, hfile, htotal, hlen, hlong⟩
  have hint64 : ∀ v : Int, 0 ≤ v → v < 2 ^ 62 → IsInt64 v := by
    unfold IsInt64
    omega
  refine ⟨hint64 1 (by decide) (by decide), hint64 requests.length ?_ ?_, hint64 s.n_block ?_ ?_, hint64 s.max_block ?_ ?_,
    hint64 s.max_session ?_ ?_, hint64 s.max_user ?_ ?_, hint64 s.max_blocks_per_req ?_ ?_, isInt64_getD ?_, isInt64_getD ?_,
    isInt64_int32 _, hint64 s.types.length ?_ ?_, hnames⟩
  case refine_13 => exact fun r hr => hsized r (mem_of_head? hr)
  case refine_14 => exact fun r hr => hsized r (mem_of_getLast? hr)
  all_goals omega

theorem Written.setup {file : Bytes} (h : Written requests stat s file) :
    lcpReader_setup llm_cost_model_max_uniform file =
      some (open_body stat (List.zipWith lcp_request requests s.type_ids).flatten) := by
  have hverify : _verify_lcp_header { start_magic := LCP_TRACE_MAGIC, version := LCP_CURR_VERSION, stat := stat, end_magic := LCP_TRACE_MAGIC } = true := by
    have hlo := h.ok.max_blocks_lo
    have hmax := h.ok.max_block
    have htypes := h.ok.n_type
    simp only [_verify_lcp_header, h.n_req, h.n_unique_block, h.describes.n_block, h.describes.n_session, h.describes.n_user,
      h.describes.max_blocks_per_req, h.describes.n_type, decide_eq_true_eq]
    refine ⟨trivial, trivial, rfl, ?_⟩
    omega
  have hcost : llm_cost_model_max_uniform stat.max_blocks_per_req ≤ 2 ^ 31 - 1 := by
    unfold llm_cost_model_max_uniform
    split_ifs <;> omega
  have hlen : lcp_header_size + (List.zipWith lcp_request requests s.type_ids).flatten.length = file.length := by
    rw [h.bytes, length_append, length_lcp_header_fields h.fits.type_names]
  have hexpected : file.length =
      (lcp_header_size + stat.n_req.toNat * lcp_req_size + stat.n_block.toNat * lcp_block_size) % 2 ^ 64 := by
    have hshort := h.short
    rw [h.n_req, Int.toNat_natCast, ← h.length, Nat.mod_eq_of_lt (by omega)]
  rw [h.bytes]
  exact setup_of_header h.fits hverify hcost (hlen.trans hexpected)

theorem Written.reads {file : Bytes} (h : Written requests stat s file) (hnum : Numbered 0 ∅ requests)
    (hsized : ∀ r ∈ requests, Sized r) (hnexts : NextsOk stat.n_block 0 requests)
    (hsession : ∀ r ∈ requests, r.session_next_access = Trace.INT64_MAX ∨ 0 ≤ r.session_next_access ∧ r.session_next_access < 2 ^ 62) :
    ∃ lcp, open_lcp file = some lcp ∧ lcp.params.stat = stat ∧ Reads LcpReader.next lcp requests := by
  refine ⟨{ params := open_body stat (List.zipWith lcp_request requests s.type_ids).flatten }, ?_, rfl, ?_⟩
  · rw [open_lcp, h.setup]
    rfl
  · have hat : AtRequest stat {} 0 { params := open_body stat (List.zipWith lcp_request requests s.type_ids).flatten } :=
      ⟨rfl, rfl, rfl, rfl, rfl⟩
    apply reads_written hat passOk_init h.run rfl h.describes _ hnum hsized hnexts hsession rfl
    rw [h.n_req]
    simp

/-- What a trace reader hands out, once its next accesses are filled in, is read back from the file as it was. -/
theorem lcp_round_trip (reader : TraceReader) (requests : List TraceRequest) (block_size_tokens : Int) (path : Bytes) (stat : LcpStat)
    (file : Bytes) (hnum : Numbered 0 ∅ reader.requests) (hsized : ∀ r ∈ reader.requests, Sized r)
    (hexact : reader.annotated = true → Oracle (fun _ => false) reader.requests)
    (hload : load_trace reader.annotated reader.requests Trace.INT64_MAX = .ok requests)
    (hwrite : write_lcp requests block_size_tokens path = .ok (stat, file)) :
    ∃ lcp, open_lcp file = some lcp ∧ lcp.params.stat = stat ∧ Reads LcpReader.next lcp requests := by
  obtain ⟨hsame, horacle⟩ := load_trace_spec reader hload
  have hnum' := numbered_congr hsame.symm hnum
  have hsized' := sized_congr hsame.symm hsized
  obtain ⟨s, hwritten⟩ := written_of_write hwrite hsized'
  have hlen := hwritten.length
  have hshort := hwritten.short
  have htotal := hwritten.total
  simp only [lcp_header_size, lcp_req_size, lcp_block_size] at hlen
  have hskip : ∀ r ∈ requests, oversized Trace.INT64_MAX r.blocks = false := by
    intro r hr
    have hsum : r.blocks.length ≤ (requests.map fun r => r.blocks.length).sum := le_sum_of_mem (mem_map_of_mem hr)
    have hcard := toFinset_card_le r.blocks
    unfold oversized Trace.INT64_MAX
    rw [decide_eq_false_iff_not]
    omega
  have horacle' : Oracle (fun _ => false) requests := (horacle.2 fun hannotated _ => hexact hannotated).congr_skip hskip
  have hacc : ((accesses (fun _ => false) requests).length : Int) = stat.n_block := by
    rw [htotal]
    simp [accesses, served, length_flatMap]
  have hnexts : NextsOk stat.n_block 0 requests := by
    rw [← hacc]
    exact nextsOk_of_oracle horacle' requests [] rfl
  apply hwritten.reads hnum' hsized' hnexts
  intro r hr
  have := sessions_of_oracle horacle' r hr
  omega

def sample_reader : TraceReader where
  requests := [{ timestamp := 3, start_timestamp := 2, blocks := [1], session := 1, category := 1, turn := 0, type := ascii "chat" },
    { index := 1, timestamp := 7, start_timestamp := 7, blocks := [1, 2], session := 1, category := 2, turn := 1, type := ascii "chat" }]
  annotated := false
  fits := by decide

theorem lcp_round_trip_of_sample :
    let requests : List TraceRequest := [
      { timestamp := 3, start_timestamp := 2, blocks := [1], session := 1, category := 1, turn := 0, type := ascii "chat",
        session_next_access := 1, next_access_vtime := [2] },
      { index := 1, timestamp := 7, start_timestamp := 7, blocks := [1, 2], session := 1, category := 2, turn := 1, type := ascii "chat",
        next_access_vtime := [MAX_REUSE_DISTANCE, MAX_REUSE_DISTANCE] }]
    ∃ stat file lcp, write_lcp requests 16 (ascii "a.lcp") = .ok (stat, file) ∧ open_lcp file = some lcp ∧
      Reads LcpReader.next lcp requests := by
  intro requests
  obtain ⟨stat, hbuild, hnames⟩ : ∃ stat, build_stat requests 16 = .ok (stat, [0, 0]) ∧ stat.type_names.length = 1024 :=
    ⟨_, rfl, by decide +kernel⟩
  have hbody : (List.zipWith lcp_request requests [0, 0]).flatten.length = 184 := by decide +kernel
  have hwrite : write_lcp requests 16 (ascii "a.lcp") =
      .ok (stat, (lcp_header_fields stat).flatten ++ (List.zipWith lcp_request requests [0, 0]).flatten) := by
    simp only [write_lcp, hbuild, bind, Except.bind, length_append, length_lcp_header_fields hnames, hbody]
    rfl
  have hnum : Numbered 0 ∅ sample_reader.requests := ⟨rfl, by decide +kernel, rfl, by decide +kernel, trivial⟩
  have hsized : ∀ r ∈ sample_reader.requests, Sized r := by
    intro r hr
    rcases mem_pair.1 hr with rfl | rfl
    all_goals constructor <;> decide
  obtain ⟨lcp, hopen, -, hreads⟩ := lcp_round_trip sample_reader requests 16 (ascii "a.lcp") stat _ hnum hsized nofun (by decide +kernel) hwrite
  exact ⟨stat, _, lcp, hwrite, hopen, hreads⟩

/-- The first block has the position of the second one as its next access. -/
def misled : List TraceRequest := [
  { timestamp := 3, start_timestamp := 2, blocks := [1], session := 1, next_access_vtime := [2] },
  { index := 1, timestamp := 7, start_timestamp := 7, blocks := [2], session := 2, next_access_vtime := [MAX_REUSE_DISTANCE] }]

/-- The lcp reader only checks the range of a next access, and `load_trace` keeps it. -/
theorem load_trace_keeps_misled : ∃ stat file lcp, write_lcp misled 16 (ascii "a.lcp") = .ok (stat, file) ∧
    open_lcp file = some lcp ∧ Reads LcpReader.next lcp misled ∧ load_trace true misled 10 = .ok misled ∧
    ¬ Oracle (fun blocks => Prefixsim.skips { cache_size_blocks := 10 } { blocks := blocks }) misled := by
  obtain ⟨stat, hbuild, hnames, hblocks⟩ : ∃ stat, build_stat misled 16 = .ok (stat, [-1, -1]) ∧ stat.type_names.length = 1024 ∧
      stat.n_block = 2 := ⟨_, rfl, by decide +kernel, rfl⟩
  have hbody : (List.zipWith lcp_request misled [-1, -1]).flatten.length = 168 := by decide +kernel
  have hwrite : write_lcp misled 16 (ascii "a.lcp") =
      .ok (stat, (lcp_header_fields stat).flatten ++ (List.zipWith lcp_request misled [-1, -1]).flatten) := by
    simp only [write_lcp, hbuild, bind, Except.bind, length_append, length_lcp_header_fields hnames, hbody]
    rfl
  have hsized : ∀ r ∈ misled, Sized r := by
    intro r hr
    rcases mem_pair.1 hr with rfl | rfl
    all_goals constructor <;> decide
  obtain ⟨s, hwritten⟩ := written_of_write hwrite hsized
  have hnexts : NextsOk stat.n_block 0 misled := by
    rw [hblocks]
    refine ⟨fun j v hv => ?_, fun j v hv => ?_, trivial⟩ <;> rcases j with _ | j <;> cases hv
    · exact .inr (by decide)
    · exact .inl rfl
  obtain ⟨lcp, hopen, -, hreads⟩ := hwritten.reads ⟨rfl, rfl, rfl, rfl, trivial⟩ hsized hnexts (by decide)
  refine ⟨stat, _, lcp, hwrite, hopen, hreads, by decide, fun horacle => ?_⟩
  have hnext := (horacle.block [] _ _ rfl (by decide)).2 0 (by decide)
  revert hnext
  decide

end CacheSim.Lcp
