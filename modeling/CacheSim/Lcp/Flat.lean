import CacheSim.Lcp.Model

/-!
# Block by block, or a request at a time

`lcp_read_one_req` keeps its place in a request in three fields that the decoder does not look at.
-/

namespace CacheSim.Lcp

open Lib Trace List Option

/-! ## The decoder -/

structure RecordOk (stat : LcpStat) (rec_ : LcpReqV1) : Prop where
  blocks : rec_.n_blocks ≤ stat.max_blocks_per_req
  session : rec_.session_id ≤ stat.n_session
  user : rec_.user_id ≤ stat.n_user
  type_lo : -1 ≤ rec_.type_id
  type_hi : rec_.type_id < stat.n_type
  start : 0 ≤ rec_.start_time_us
  complete : rec_.start_time_us ≤ rec_.complete_time_us

variable {r r' : LcpParams} {rec_ : LcpReqV1} {n : Nat} {next : Int} {blocks : List (Nat × Int)}

theorem read_bytes_eq_some {size : Nat} {data : Bytes} :
    read_bytes r size = some (data, r') ↔
      size ≤ r.rest.length ∧ data = r.rest.take size ∧ r' = { r with rest := r.rest.drop size } := by
  unfold read_bytes
  split
  · simp_all [eq_comm]
  · simp_all

theorem read_record_eq_some :
    _read_record r = some (r', some rec_) ↔
      r.n_req_read ≠ r.stat.n_req ∧ lcp_req_size ≤ r.rest.length ∧ rec_ = lcp_req_of_bytes (r.rest.take lcp_req_size) ∧
      RecordOk r.stat rec_ ∧
      r' = { r with rest := r.rest.drop lcp_req_size, n_req_read := r.n_req_read + 1, next_access := 0 } := by
  unfold _read_record
  split
  · rename_i hn
    split <;> simp [hn]
  · rename_i hn
    simp only [bind, bind_eq_some_iff, guard_eq_some', Prod.exists, read_bytes_eq_some]
    constructor
    · rintro ⟨data, r1, ⟨hlen, rfl, rfl⟩, -, hrec, -, htime, h⟩
      obtain ⟨rfl, rfl⟩ := h
      push Not at hrec htime
      exact ⟨hn, hlen, rfl, ⟨hrec.1, hrec.2.1, hrec.2.2.1, hrec.2.2.2.1, hrec.2.2.2.2, htime.1, htime.2⟩, rfl⟩
    · rintro ⟨-, hlen, rfl, hok, rfl⟩
      refine ⟨_, _, ⟨hlen, rfl, rfl⟩, (), ?_, (), ?_, rfl⟩
      · push Not
        exact ⟨hok.blocks, hok.session, hok.user, hok.type_lo, hok.type_hi⟩
      · push Not
        exact ⟨hok.start, hok.complete⟩

theorem read_record_eq_none :
    _read_record r = some (r', none) ↔ r.n_req_read = r.stat.n_req ∧ r.n_block_read = r.stat.n_block ∧ r' = r := by
  unfold _read_record
  split
  · rename_i hn
    split <;> simp_all [eq_comm]
  · rename_i hn
    simp [hn, bind_eq_some_iff]

def LcpParams.block_fields (r : LcpParams) : List Bytes := unpack [8, 8] (r.rest.take lcp_block_size)

theorem read_block_eq_some {id : Nat} :
    _read_block r = some (r', id, next) ↔
      lcp_block_size ≤ r.rest.length ∧ id = of_le (r.block_fields.getD 0 []) ∧
      (id ≠ 0 ∧ id ≤ (r.max_block_id + 1) % 2 ^ 64) ∧
      next = (r.next_access + get_int (r.block_fields.getD 1 [])).bmod (2 ^ 64) ∧
      (next = -1 ∨ r.n_block_read + 1 < next ∧ next ≤ r.stat.n_block) ∧
      r' = { r with
        rest := r.rest.drop lcp_block_size, max_block_id := if id > r.max_block_id then id else r.max_block_id,
        n_block_read := r.n_block_read + 1, next_access := next } := by
  unfold _read_block
  simp only [bind, bind_eq_some_iff, guard_eq_some', Prod.exists, read_bytes_eq_some]
  constructor
  · rintro ⟨data, r1, ⟨hlen, rfl, rfl⟩, -, hid, -, hnext, h⟩
    obtain ⟨rfl, rfl, rfl⟩ := h
    push Not at hid hnext
    exact ⟨hlen, rfl, hid, rfl, or_iff_not_imp_left.2 hnext, rfl⟩
  · rintro ⟨hlen, rfl, hid, rfl, hnext, rfl⟩
    refine ⟨_, _, ⟨hlen, rfl, rfl⟩, (), ?_, (), ?_, rfl⟩
    · push Not
      exact hid
    · push Not
      exact or_iff_not_imp_left.1 hnext

def LcpParams.place (r : LcpParams) (blocks_left block_pos clock_time : Int) : LcpParams :=
  { r with blocks_left := blocks_left, block_pos := block_pos, clock_time := clock_time }

theorem read_record_place (h : _read_record r = some (r', some rec_)) (b p c : Int) :
    _read_record (r.place b p c) = some (r'.place b p c, some rec_) := by
  rw [read_record_eq_some] at h ⊢
  obtain ⟨hn, hlen, hrec, hok, rfl⟩ := h
  exact ⟨hn, hlen, hrec, hok, rfl⟩

theorem read_block_place {id : Nat} (h : _read_block r = some (r', id, next)) (b p c : Int) :
    _read_block (r.place b p c) = some (r'.place b p c, id, next) := by
  rw [read_block_eq_some] at h ⊢
  obtain ⟨hlen, hid, hok, hnext, hrange, rfl⟩ := h
  exact ⟨hlen, hid, hok, hnext, hrange, rfl⟩

/-! ## The requests of a file, block by block -/

def flat_block (llm_block_cost : Int → Int) (rec_ : LcpReqV1) (block : Nat × Int) (pos : Nat) : Request where
  obj_id := block.1
  obj_size := 1
  obj_cost := llm_block_cost pos
  next_access_vtime := if block.2 < 0 then MAX_REUSE_DISTANCE else block.2
  clock_time := rec_.complete_time_us.tdiv 1000000

def flat (llm_block_cost : Int → Int) (req : LcpReqV1 × List (Nat × Int)) : List Request :=
  req.2.zipIdx.map fun (block, pos) => flat_block llm_block_cost req.1 block pos

variable {llm_block_cost : Int → Int}

theorem read_one_of_left {b : Int} (hb : b ≠ 0) {p c : Int} {id : Nat} (h : _read_block r = some (r', id, next)) :
    lcp_read_one_req llm_block_cost (r.place b p c) = some (r'.place (b - 1) (p + 1) c, some {
      obj_id := id, obj_size := 1, obj_cost := llm_block_cost p,
      next_access_vtime := if next < 0 then MAX_REUSE_DISTANCE else next, clock_time := c }) := by
  have hseek : ∀ fuel, seek_block fuel (r.place b p c) = some (r.place b p c, true) := by
    intro fuel
    unfold seek_block
    exact if_pos hb
  unfold lcp_read_one_req
  simp only [hseek, read_block_place h, bind, Option.bind]
  rfl

theorem read_one_of_record (h : _read_record r = some (r', some rec_)) (hlt : r.n_req_read < r.stat.n_req)
    (p c : Int) :
    lcp_read_one_req llm_block_cost (r.place 0 p c) =
      lcp_read_one_req llm_block_cost (r'.place rec_.n_blocks 0 (rec_.complete_time_us.tdiv 1000000)) := by
  have hseek : ∀ fuel, seek_block (fuel + 1) (r.place 0 p c) =
      seek_block fuel (r'.place rec_.n_blocks 0 (rec_.complete_time_us.tdiv 1000000)) := by
    intro fuel
    rw [seek_block]
    simp only [read_record_place h, bind]
    rfl
  obtain ⟨-, -, -, -, rfl⟩ := read_record_eq_some.1 h
  unfold lcp_read_one_req
  have hfuel : (r.stat.n_req - r.n_req_read).toNat = (r.stat.n_req - (r.n_req_read + 1)).toNat + 1 := by omega
  rw [hseek, show (r.place 0 p c).stat.n_req - (r.place 0 p c).n_req_read = r.stat.n_req - r.n_req_read from rfl, hfuel]
  rfl

theorem read_one_of_end (h : _read_record r = some (r', none)) (p c : Int) :
    lcp_read_one_req llm_block_cost (r.place 0 p c) = some (r.place 0 p c, none) := by
  have hend : _read_record (r.place 0 p c) = some (r.place 0 p c, none) := by
    rw [read_record_eq_none] at h ⊢
    exact ⟨h.1, h.2.1, rfl⟩
  unfold lcp_read_one_req
  rw [seek_block]
  simp only [hend, bind]
  rfl

/-! ## Whole requests -/

theorem reads_blocks {l : List Request} (pos : Nat)
    (h : read_blocks n r = some (r', blocks))
    (hl : Reads (lcp_read_one_req llm_block_cost) (r'.place 0 (pos + n) (rec_.complete_time_us.tdiv 1000000)) l) :
    Reads (lcp_read_one_req llm_block_cost) (r.place n pos (rec_.complete_time_us.tdiv 1000000))
      ((blocks.zipIdx pos).map (fun (block, pos) => flat_block llm_block_cost rec_ block pos) ++ l) := by
  induction n generalizing r blocks pos with
  | zero =>
    cases h
    simpa using hl
  | succ n ih =>
    simp only [read_blocks, bind, bind_eq_some_iff, Prod.exists] at h
    obtain ⟨r1, id, next, hblock, r2, rest, hrest, h⟩ := h
    cases h
    have hleft : ((n + 1 : Nat) : Int) - 1 = n := by omega
    have hpos : (pos : Int) + (n + 1 : Nat) = ((pos + 1 : Nat) : Int) + n := by omega
    rw [hpos] at hl
    apply Reads.more
    · exact read_one_of_left (by omega) hblock
    · rw [hleft]
      exact ih (pos + 1) hrest hl

theorem read_blocks_counts (h : read_blocks n r = some (r', blocks)) :
    blocks.length = n ∧ r'.stat = r.stat ∧ r'.n_req_read = r.n_req_read ∧ r'.n_block_read = r.n_block_read + n := by
  induction n generalizing r blocks with
  | zero =>
    cases h
    simp
  | succ n ih =>
    simp only [read_blocks, bind, bind_eq_some_iff, Prod.exists] at h
    obtain ⟨r1, id, next, hblock, r2, rest, hrest, h⟩ := h
    cases h
    obtain ⟨hlen, hstat, hreq, hn⟩ := ih hrest
    obtain ⟨-, -, -, -, -, rfl⟩ := read_block_eq_some.1 hblock
    refine ⟨by simp [hlen], hstat, hreq, ?_⟩
    rw [hn]
    push_cast
    ring

theorem read_trace_req_eq_some :
    lcp_read_trace_req r = some (r', some (rec_, blocks)) ↔
      ∃ r1, _read_record r = some (r1, some rec_) ∧ read_blocks rec_.n_blocks r1 = some (r', blocks) := by
  unfold lcp_read_trace_req
  simp only [bind, bind_eq_some_iff, Prod.exists]
  constructor
  · rintro ⟨r1, _ | rec1, hrec, h⟩
    · cases h
    · simp only [bind_eq_some_iff, Prod.exists] at h
      obtain ⟨r2, blocks2, hblocks, h⟩ := h
      cases h
      exact ⟨r1, hrec, hblocks⟩
  · rintro ⟨r1, hrec, hblocks⟩
    refine ⟨r1, some rec_, hrec, ?_⟩
    simp [hblocks]

theorem read_trace_req_eq_none : lcp_read_trace_req r = some (r', none) ↔ _read_record r = some (r', none) := by
  unfold lcp_read_trace_req
  simp only [bind, bind_eq_some_iff, Prod.exists]
  constructor
  · rintro ⟨r1, _ | rec1, hrec, h⟩
    · cases h
      exact hrec
    · simp only [bind_eq_some_iff, Prod.exists] at h
      obtain ⟨r2, blocks2, -, h⟩ := h
      cases h
  · intro hrec
    exact ⟨r', none, hrec, rfl⟩

theorem reads_counts {reqs : List (LcpReqV1 × List (Nat × Int))} (h : Reads lcp_read_trace_req r reqs) :
    r.n_req_read + reqs.length = r.stat.n_req ∧ r.n_block_read + (reqs.map fun q => q.2.length).sum = r.stat.n_block ∧
    ∀ q ∈ reqs, q.2.length = q.1.n_blocks := by
  induction h with
  | done hd =>
    obtain ⟨hreq, hblock, -⟩ := read_record_eq_none.1 (read_trace_req_eq_none.1 hd)
    simp [hreq, hblock]
  | @more r r' q reqs hm _ ih =>
    obtain ⟨r1, hrec, hblocks⟩ := read_trace_req_eq_some.1 hm
    obtain ⟨-, -, -, -, rfl⟩ := read_record_eq_some.1 hrec
    obtain ⟨hlen, hstat, hreq, hblock⟩ := read_blocks_counts hblocks
    obtain ⟨ihreq, ihblock, ihlen⟩ := ih
    dsimp only at hstat hreq hblock
    rw [hstat] at ihreq ihblock
    simp only [length_cons, map_cons, sum_cons, forall_mem_cons]
    refine ⟨?_, ?_, hlen, ihlen⟩
    · omega
    · omega

theorem reads_flat {reqs : List (LcpReqV1 × List (Nat × Int))} (h : Reads lcp_read_trace_req r reqs) (p c : Int) :
    Reads (lcp_read_one_req llm_block_cost) (r.place 0 p c) (reqs.flatMap (flat llm_block_cost)) := by
  induction h generalizing p c with
  | done hd => exact .done (read_one_of_end (read_trace_req_eq_none.1 hd) p c)
  | @more r r' q reqs hm hl ih =>
    obtain ⟨hcount, -⟩ := reads_counts (.more hm hl)
    obtain ⟨r1, hrec, hblocks⟩ := read_trace_req_eq_some.1 hm
    rw [length_cons] at hcount
    apply Reads.of_eq (read_one_of_record hrec (by omega) p c)
    exact reads_blocks 0 hblocks (ih _ _)

/-! ## Rewinding -/

def flat_step (llm_block_cost : Int → Int) (r : LcpParams) (rewind : Bool) : Option LcpParams :=
  if rewind then some (reset_reader r) else (lcp_read_one_req llm_block_cost r).map Prod.fst

theorem read_record_file {rec_ : Option LcpReqV1} (h : _read_record r = some (r', rec_)) :
    r'.stat = r.stat ∧ r'.body = r.body := by
  cases rec_ with
  | none =>
    obtain ⟨-, -, rfl⟩ := read_record_eq_none.1 h
    exact ⟨rfl, rfl⟩
  | some rec_ =>
    obtain ⟨-, -, -, -, rfl⟩ := read_record_eq_some.1 h
    exact ⟨rfl, rfl⟩

theorem seek_block_file {fuel : Nat} {more : Bool} (h : seek_block fuel r = some (r', more)) :
    r'.stat = r.stat ∧ r'.body = r.body := by
  induction fuel generalizing r with
  | zero =>
    unfold seek_block at h
    split at h
    · cases h
      exact ⟨rfl, rfl⟩
    · cases h
  | succ fuel ih =>
    unfold seek_block at h
    split at h
    · cases h
      exact ⟨rfl, rfl⟩
    · simp only [bind, bind_eq_some_iff, Prod.exists] at h
      obtain ⟨r1, rec_, hrec, h⟩ := h
      rw [← (read_record_file hrec).1, ← (read_record_file hrec).2]
      cases rec_ with
      | none =>
        cases h
        exact ⟨rfl, rfl⟩
      | some rec_ =>
        have hfile := ih h
        exact hfile

theorem flat_step_file {rewind : Bool} (h : flat_step llm_block_cost r rewind = some r') :
    r'.stat = r.stat ∧ r'.body = r.body := by
  unfold flat_step at h
  split at h
  · cases h
    exact ⟨rfl, rfl⟩
  · unfold lcp_read_one_req at h
    simp only [map_eq_some_iff, bind, bind_eq_some_iff, Prod.exists] at h
    obtain ⟨r1, req, ⟨r2, more, hseek, h⟩, rfl⟩ := h
    rw [← (seek_block_file hseek).1, ← (seek_block_file hseek).2]
    split at h
    · cases h
      exact ⟨rfl, rfl⟩
    · simp only [bind_eq_some_iff, Prod.exists] at h
      obtain ⟨r3, id, next, hblock, h⟩ := h
      obtain ⟨-, -, -, -, -, rfl⟩ := read_block_eq_some.1 hblock
      cases h
      exact ⟨rfl, rfl⟩

theorem reset_reader_of_file {stat : LcpStat} {body : Bytes} (hstat : r.stat = stat) (hbody : r.body = body) :
    reset_reader r = open_body stat body := by
  subst hstat hbody
  rfl

/-- Reading block by block gives the blocks of the requests, from the start and after every rewind. -/
theorem lcp_flat_eq_per_request (llm_block_cost : Int → Int) (stat : LcpStat) (body : Bytes)
    (reqs : List (LcpReqV1 × List (Nat × Int))) (h : Reads lcp_read_trace_req (open_body stat body) reqs) :
    Reads (lcp_read_one_req llm_block_cost) (open_body stat body) (reqs.flatMap (flat llm_block_cost)) ∧
    (∀ q ∈ reqs, q.2.length = q.1.n_blocks) ∧
    ((reqs.map fun q => q.2.length).sum : Nat) = stat.n_block ∧
    ((reqs.flatMap (flat llm_block_cost)).length : Int) = stat.n_block ∧
    ∀ r, Reach (flat_step llm_block_cost) (fun _ _ => True) (open_body stat body) r →
      Reads (lcp_read_one_req llm_block_cost) (reset_reader r) (reqs.flatMap (flat llm_block_cost)) := by
  have hflat : Reads (lcp_read_one_req llm_block_cost) (open_body stat body) (reqs.flatMap (flat llm_block_cost)) :=
    reads_flat h 0 0
  obtain ⟨-, hblock, hlen⟩ := reads_counts h
  have hsum : ((reqs.map fun q => q.2.length).sum : Nat) = stat.n_block := by simpa [open_body] using hblock
  refine ⟨hflat, hlen, hsum, ?_, ?_⟩
  · rw [length_flatMap, ← hsum]
    simp [flat]
  · intro r hr
    have hfile : r.stat = stat ∧ r.body = body := by
      apply Reach.inv (fun r => r.stat = stat ∧ r.body = body) _ ⟨rfl, rfl⟩ hr
      intro s rewind t hs _ hstep
      rw [(flat_step_file hstep).1, (flat_step_file hstep).2]
      exact hs
    rw [reset_reader_of_file hfile.1 hfile.2]
    exact hflat

theorem lcp_flat_eq_per_request_of_two :
    let body : Bytes := List.replicate 116 0 ++ 1 :: List.replicate 19 0 ++ 1 :: List.replicate 7 0 ++ List.replicate 8 255
    Reads (lcp_read_one_req id) (open_body { n_req := 2, n_block := 1, max_blocks_per_req := 1, n_type := 1 } body)
      [{ obj_id := 1, obj_cost := 0, next_access_vtime := MAX_REUSE_DISTANCE }] := by
  intro body
  have hflat : [(lcp_req_of_bytes (body.take 68), []), (lcp_req_of_bytes ((body.drop 68).take 68), [(1, -1)])].flatMap (flat id) =
      [{ obj_id := 1, obj_cost := 0, next_access_vtime := MAX_REUSE_DISTANCE }] := by decide +kernel
  rw [← hflat]
  apply (lcp_flat_eq_per_request id _ body _ ?_).1
  have hread : read_all lcp_read_trace_req 3 (open_body { n_req := 2, n_block := 1, max_blocks_per_req := 1, n_type := 1 } body) =
      some [(lcp_req_of_bytes (body.take 68), []), (lcp_req_of_bytes ((body.drop 68).take 68), [(1, -1)])] := by decide +kernel
  exact Reads.of_read_all hread

end CacheSim.Lcp
