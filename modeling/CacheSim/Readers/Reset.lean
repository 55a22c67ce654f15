import CacheSim.Readers.Skipping

/-!
# Rewinding

`reset_reader` takes every trace type back to where its setup left it, but for what the reader keeps of a
row that stands for several requests, and for the offset of a compressed trace.
-/

namespace CacheSim.Readers

open Lib Binary Zstd
open Option (bind_eq_bind bind_eq_some_iff pure_def some.injEq)

/-! ## A line of csv -/

@[simp] theorem delim_csv_char (p : CsvParser) (c : UInt8) : (csv_char p c).1.delim_char = p.delim_char := by
  unfold csv_char
  split
  all_goals
    split_ifs
    all_goals rfl

@[simp] theorem delim_csv_parse (p : CsvParser) (line : Bytes) : (csv_parse p line).1.delim_char = p.delim_char := by
  induction line generalizing p with
  | nil => rfl
  | cons c line ih =>
    exact (ih _).trans (delim_csv_char p c)

theorem csv_fini_init (p : CsvParser) : (csv_fini p).1 = csv_init p.delim_char := by
  unfold csv_fini submit_rest
  split <;> rfl

def idx_after : Int → List CsvEvent → Int
  | idx, [] => idx
  | idx, .field _ :: events => idx_after (idx + 1) events
  | _, .row :: events => idx_after 1 events

theorem idx_after_append (idx : Int) (l l' : List CsvEvent) : idx_after idx (l ++ l') = idx_after (idx_after idx l) l' := by
  induction l generalizing idx with
  | nil => rfl
  | cons e l ih =>
    cases e with
    | field s => exact ih _
    | row => exact ih _

def Between (p : CsvParser) (idx : Int) : Prop := p.pstate = .ROW_NOT_BEGUN → idx = 1

variable {idx left₁ left₂ time time' : Int} {s s' : Csv} {req req' : Binary.Request} {fuel : Nat} {ok : Bool}

theorem between_csv_char (p : CsvParser) (c : UInt8) (h : Between p idx) :
    Between (csv_char p c).1 (idx_after idx (csv_char p c).2) := by
  unfold Between at *
  unfold csv_char
  split
  all_goals
    split_ifs
    all_goals simp_all [submit_field, submit_row, submit_char, idx_after]

theorem between_csv_parse (p : CsvParser) (line : Bytes) (h : Between p idx) :
    Between (csv_parse p line).1 (idx_after idx (csv_parse p line).2) := by
  induction line generalizing p idx with
  | nil => exact h
  | cons c line ih =>
    rw [csv_parse]
    rw [idx_after_append]
    exact ih _ (between_csv_char p c h)

theorem idx_after_csv_fini (p : CsvParser) (h : Between p idx) : idx_after idx (csv_fini p).2 = 1 := by
  unfold csv_fini submit_rest
  split
  · exact h ‹_›
  all_goals rfl

theorem curr_field_idx_csv_event {c : CsvConfig} {row row' : CsvRow} {e : CsvEvent} (h : csv_event c row e = some row') :
    row'.curr_field_idx = idx_after row.curr_field_idx [e] := by
  cases e with
  | field s =>
    obtain ⟨row1, -, rfl⟩ := Option.map_eq_some_iff.1 h
    rfl
  | row =>
    cases h
    rfl

theorem curr_field_idx_events {c : CsvConfig} {events : List CsvEvent} {row row' : CsvRow}
    (h : events.foldlM (csv_event c) row = some row') : row'.curr_field_idx = idx_after row.curr_field_idx events := by
  induction events generalizing row with
  | nil =>
    cases h
    rfl
  | cons e events ih =>
    rw [List.foldlM_cons, bind_eq_bind, bind_eq_some_iff] at h
    obtain ⟨row1, hfirst, h⟩ := h
    rw [ih h, curr_field_idx_csv_event hfirst, ← idx_after_append, List.singleton_append]

structure Csv.Ready (s : Csv) : Prop where
  parser : s.parser = csv_init s.parser.delim_char
  idx : s.curr_field_idx = 1

def Csv.Same (s s' : Csv) : Prop :=
  ({ s' with pos := s.pos, n_obj_id_is_num := s.n_obj_id_is_num, n_obj_id_is_not_num := s.n_obj_id_is_not_num } : Csv) = s

theorem Csv.Same.file (h : s.Same s') : s'.file = s.file := by rw [← show _ = s from h]

theorem Csv.Same.trans {s'' : Csv} (h : s.Same s') (h' : s'.Same s'') : s.Same s'' := by
  unfold Csv.Same at *
  rw [← h, ← h']

theorem csv_line_spec {line : Bytes} {left left' : Int} (hs : s.Ready)
    (h : csv_line s line left req = some (s', left', req')) : s'.Ready ∧ s'.pos = s.pos + line.length ∧ s.Same s' := by
  unfold csv_line at h
  simp only [bind_eq_bind, bind_eq_some_iff] at h
  obtain ⟨row, hrow, rfl, -, -⟩ := h
  have hbetween : Between s.parser s.curr_field_idx := fun _ => hs.idx
  have hidx : row.curr_field_idx = 1 := by
    rw [curr_field_idx_events hrow, idx_after_append]
    exact idx_after_csv_fini _ (between_csv_parse s.parser line hbetween)
  have hparser : (csv_fini (csv_parse s.parser line).1).1 = s.parser := by
    rw [csv_fini_init, delim_csv_parse, ← hs.parser]
  refine ⟨⟨?_, hidx⟩, rfl, ?_⟩
  · rw [hparser]
    exact hs.parser
  · unfold Csv.Same
    rw [hparser, hidx, ← hs.idx]

theorem getline_some {text line : Bytes} (h : getline text = some line) : 0 < line.length ∧ line.length ≤ text.length := by
  unfold getline at h
  split_ifs at h with hnil
  cases h
  have := List.length_pos_iff.2 hnil
  rw [List.length_take]
  omega

theorem csv_read_spec {left left' : Int} (hs : s.Ready)
    (h : csv_read_one_req fuel s left time req = some (s', left', time', req', ok)) :
    s'.Ready ∧ s.Same s' ∧ s.pos ≤ s'.pos ∧ (ok = true → s.pos < s'.pos ∧ s'.pos ≤ s.file.length) := by
  induction fuel generalizing s left req with
  | zero => cases h
  | succ fuel ih =>
    rw [csv_read_one_req] at h
    cases hline : getline (s.file.drop s.pos) with
    | none =>
      rw [hline] at h
      cases h
      exact ⟨hs, rfl, le_rfl, by simp⟩
    | some line =>
      rw [hline] at h
      simp only [bind_eq_bind, bind_eq_some_iff, Prod.exists] at h
      obtain ⟨s1, left₁, req1, hread, h⟩ := h
      obtain ⟨hready, hpos, hsame⟩ := csv_line_spec hs hread
      have hlen := getline_some hline
      rw [List.length_drop] at hlen
      have hfile : s1.file = s.file := hsame.file
      split_ifs at h
      · obtain ⟨hready', hsame', hle, hok⟩ := ih hready h
        refine ⟨hready', hsame.trans hsame', by omega, fun hok' => ?_⟩
        have := hok hok'
        rw [hfile] at this
        omega
      all_goals
        cases h
        exact ⟨hready, hsame, by omega, fun _ => by omega⟩

/-! ## What was left of a row -/

def Alike (left₁ time₁ left₂ time₂ : Int) : Prop := left₁ = left₂ ∧ time₁ = time₂ ∨ left₁ ≤ 0 ∧ left₂ ≤ 0

theorem Alike.left {time1 time2 : Int} (h : Alike left₁ time1 left₂ time2) :
    left₁ = left₂ ∨ left₁ ≤ 0 ∧ left₂ ≤ 0 := h.imp And.left id

def AlikeRow (row₁ row₂ : CsvRow) : Prop :=
  { row₁ with n_req_left := row₂.n_req_left } = row₂ ∧
    (row₁.n_req_left = row₂.n_req_left ∨ row₁.n_req_left ≤ 0 ∧ row₂.n_req_left ≤ 0)

theorem alike_csv_event (c : CsvConfig) {row1 row2 : CsvRow} (h : AlikeRow row1 row2) (e : CsvEvent) :
    Option.Rel AlikeRow (csv_event c row1 e) (csv_event c row2 e) := by
  obtain ⟨hrow, hleft⟩ := h
  rw [← hrow]
  cases e with
  | row => exact .some ⟨rfl, hleft⟩
  | field s =>
    refine map_rel (R := AlikeRow) ?_ fun row row' h => ⟨by rw [← h.1], h.2⟩
    unfold read_csv_field read_obj_id
    dsimp only
    split_ifs
    all_goals first
      | exact .none
      | exact .some ⟨rfl, hleft⟩
      | exact .some ⟨rfl, .inl rfl⟩

theorem alike_events (c : CsvConfig) {row1 row2 : CsvRow} (h : AlikeRow row1 row2) (events : List CsvEvent) :
    Option.Rel AlikeRow (events.foldlM (csv_event c) row1) (events.foldlM (csv_event c) row2) := by
  induction events generalizing row1 row2 with
  | nil => exact .some h
  | cons e events ih => exact bind_rel (alike_csv_event c h e) fun _ _ h => ih h

theorem alike_csv_line (s : Csv) (line : Bytes) (req : Binary.Request)
    (h : left₁ = left₂ ∨ left₁ ≤ 0 ∧ left₂ ≤ 0) :
    Option.Rel (fun t1 t2 => t1.1 = t2.1 ∧ t1.2.2 = t2.2.2 ∧ (t1.2.1 = t2.2.1 ∨ t1.2.1 ≤ 0 ∧ t2.2.1 ≤ 0))
      (csv_line s line left₁ req) (csv_line s line left₂ req) := by
  refine bind_rel (alike_events _ ⟨rfl, h⟩ _) fun row1 row2 hrow => .some ?_
  have hreq : row1.req = row2.req := by rw [← hrow.1]
  have hidx : row1.curr_field_idx = row2.curr_field_idx := by rw [← hrow.1]
  have hnum : row1.n_obj_id_is_num = row2.n_obj_id_is_num := by rw [← hrow.1]
  have hnot : row1.n_obj_id_is_not_num = row2.n_obj_id_is_not_num := by rw [← hrow.1]
  refine ⟨?_, hreq, hrow.2⟩
  rw [hidx, hnum, hnot]

def AlikeRead {σ : Type} (t₁ t₂ : ReadResult σ) : Prop :=
  t₁.1 = t₂.1 ∧ t₁.2.2.2 = t₂.2.2.2 ∧ (t₁.2.2.2.2 = true → Alike t₁.2.1 t₁.2.2.1 t₂.2.1 t₂.2.2.1)

theorem alike_csv_read (fuel : Nat) (s : Csv) (time1 time2 : Int) (req : Binary.Request)
    (h : left₁ = left₂ ∨ left₁ ≤ 0 ∧ left₂ ≤ 0) :
    Option.Rel AlikeRead (csv_read_one_req fuel s left₁ time1 req) (csv_read_one_req fuel s left₂ time2 req) := by
  induction fuel generalizing s left₁ left₂ req with
  | zero => exact .none
  | succ fuel ih =>
    rw [csv_read_one_req, csv_read_one_req]
    cases getline (s.file.drop s.pos) with
    | none => exact .some ⟨rfl, rfl, fun hok => by cases hok⟩
    | some line =>
      refine bind_rel (alike_csv_line s line req h) fun t1 t2 ht => ?_
      obtain ⟨s1, left₁, req1⟩ := t1
      obtain ⟨s2, left₂, req2⟩ := t2
      obtain ⟨rfl, rfl, hleft⟩ := ht
      dsimp only at hleft ⊢
      split_ifs
      · exact ih s1 req1 hleft
      all_goals
        refine .some ⟨rfl, rfl, fun _ => ?_⟩
        unfold Alike
        dsimp only
        omega

variable {b : Build}

theorem next_line_same {s s' : Txt} {line : Option Bytes} (h : next_line fuel s = some (s', line)) :
    ({ s' with pos := s.pos } : Txt) = s := by
  induction fuel generalizing s with
  | zero => cases h
  | succ fuel ih =>
    rw [next_line] at h
    cases hline : getline (s.file.drop s.pos) with
    | none =>
      rw [hline] at h
      cases h
      rfl
    | some text =>
      rw [hline] at h
      dsimp only at h
      split_ifs at h
      · have hrest := ih h
        rw [← show ({ ({ s with pos := s.pos + text.length } : Txt) with pos := s.pos } : Txt) = s from rfl, ← hrest]
      · cases h
        rfl

theorem txt_read_same {s s' : Txt} (h : txt_read_one_req s req = some (s', req', ok)) :
    ({ s' with pos := s.pos } : Txt) = s := by
  simp only [txt_read_one_req, bind_eq_bind, bind_eq_some_iff, Prod.exists] at h
  obtain ⟨s1, line, hline, h⟩ := h
  rw [← next_line_same hline]
  cases line with
  | none =>
    cases h
    rfl
  | some line =>
    split_ifs at h
    · simp only [bind_eq_some_iff] at h
      obtain ⟨-, -, h⟩ := h
      cases h
      rfl
    all_goals
      cases h
      rfl

theorem read_record_same {fields : Bytes → BinaryRequest → BinaryRequest} {s s' : Binary.Reader}
    {req req' : BinaryRequest} (h : read_record fields fuel s req = some (s', req', ok)) :
    Binary.reset_reader s' = Binary.reset_reader s := by
  induction fuel generalizing s req with
  | zero => cases h
  | succ fuel ih =>
    simp only [read_record, bind_eq_bind, bind_eq_some_iff, Prod.exists] at h
    obtain ⟨s1, record, hread, h⟩ := h
    have hsame : Binary.reset_reader s1 = Binary.reset_reader s := by
      unfold Binary.read_bytes at hread
      split_ifs at hread
      all_goals
        cases hread
        rfl
    rw [← hsame]
    cases record with
    | none =>
      cases h
      rfl
    | some record =>
      dsimp only at h
      split_ifs at h
      · exact ih h
      · cases h
        rfl

theorem lcp_read_same {cost : Int → Int} {s s' : Lcp.LcpParams} {block : Option CacheSim.Request}
    (h : Lcp.lcp_read_one_req cost s = some (s', block)) : Lcp.reset_reader s' = Lcp.reset_reader s := by
  have hstep : Lcp.flat_step cost s false = some s' := by
    unfold Lcp.flat_step
    rw [if_neg (by simp), h]
    rfl
  have hfile := Lcp.flat_step_file hstep
  rw [Lcp.reset_reader_of_file hfile.1 hfile.2]
  rfl

/-! ### Compressed traces -/

variable {d : Decoder}

variable {z z' : ZstdReader b.zstd} {s : Source b} {s' : Lcp.LcpParams}
   {r₀ r r' : Reader b} {l : List Binary.Request} {last : Option (Option Binary.Request)}

theorem zstd_read_file {n_byte : Nat} {z z' : ZstdReader d} {data : Bytes}
    (h : zstd_reader_read_bytes n_byte fuel z = some (z', data)) : z'.file = z.file := by
  induction fuel generalizing z with
  | zero =>
    unfold zstd_reader_read_bytes at h
    split_ifs at h
    cases h
    rfl
  | succ fuel ih =>
    unfold zstd_reader_read_bytes at h
    split_ifs at h
    · have hfile : (_decompress_from_buff z).1.file = z.file := by
        unfold _decompress_from_buff prepare _read_from_file
        dsimp only
        split_ifs <;> rfl
      rw [← hfile]
      revert h
      cases _decompress_from_buff z with
      | mk z1 status =>
        cases status with
        | ERR => exact fun h => by cases h
        | MY_EOF =>
          intro h
          cases h
          rfl
        | OK => exact ih
    · cases h
      rfl

theorem read_bytes_zstd_file {size : Nat} {data : Bytes}
    (h : _read_bytes_zstd b z size = some (z', data)) : z'.file = z.file := by
  simp only [_read_bytes_zstd, bind_eq_bind, bind_eq_some_iff, Prod.exists] at h
  obtain ⟨z1, data1, hread, -, -, h⟩ := h
  cases h
  exact zstd_read_file hread

theorem zstd_read_record_file {fields : Bytes → BinaryRequest → BinaryRequest}
    {s : Binary.Reader} {req req' : BinaryRequest} (h : zstd_read_record b fields fuel z s req = some (z', req', ok)) :
    z'.file = z.file := by
  induction fuel generalizing z req with
  | zero => cases h
  | succ fuel ih =>
    simp only [zstd_read_record, bind_eq_bind, bind_eq_some_iff, Prod.exists] at h
    obtain ⟨z1, record, hread, h⟩ := h
    rw [← read_bytes_zstd_file hread]
    split_ifs at h
    · cases h
      rfl
    · exact ih h
    · cases h
      rfl

/-- What the reads of a compressed lcp trace keep: the file, the header and, uncompressed, nothing. -/
def LcpFile (z : ZstdReader b.zstd) (s : Lcp.LcpParams) (z' : ZstdReader b.zstd) (s' : Lcp.LcpParams) : Prop :=
  z'.file = z.file ∧ s'.stat = s.stat ∧ s'.body = s.body

theorem zstd_lcp_record_file {s : Lcp.LcpParams} {rec_ : Option Lcp.LcpReqV1}
    (h : zstd_lcp_record b z s = some (z', s', rec_)) : LcpFile z s z' s' := by
  simp only [zstd_lcp_record, bind_eq_bind, bind_eq_some_iff, Prod.exists] at h
  obtain ⟨z1, data, hread, s1, rec1, hrec, h⟩ := h
  cases h
  have hfile := Lcp.read_record_file hrec
  refine ⟨?_, hfile⟩
  unfold zstd_lcp_bytes at hread
  split_ifs at hread
  · cases hread
    rfl
  · exact read_bytes_zstd_file hread

theorem zstd_seek_block_file {s : Lcp.LcpParams} {more : Bool}
    (h : zstd_seek_block b fuel z s = some (z', s', more)) : LcpFile z s z' s' := by
  induction fuel generalizing z s with
  | zero =>
    unfold zstd_seek_block at h
    split_ifs at h
    cases h
    exact ⟨rfl, rfl, rfl⟩
  | succ fuel ih =>
    unfold zstd_seek_block at h
    split_ifs at h
    · cases h
      exact ⟨rfl, rfl, rfl⟩
    · simp only [bind_eq_bind, bind_eq_some_iff, Prod.exists] at h
      obtain ⟨z1, s1, rec_, hrec, h⟩ := h
      obtain ⟨hz, hstat, hbody⟩ := zstd_lcp_record_file hrec
      cases rec_ with
      | none =>
        cases h
        exact ⟨hz, hstat, hbody⟩
      | some rec_ =>
        obtain ⟨hz', hstat', hbody'⟩ := ih h
        exact ⟨hz'.trans hz, hstat'.trans hstat, hbody'.trans hbody⟩

theorem zstd_lcp_read_file {cost : Int → Int} {s : Lcp.LcpParams} {block : Option CacheSim.Request}
    (h : zstd_lcp_read_one_req b cost z s = some (z', s', block)) : LcpFile z s z' s' := by
  simp only [zstd_lcp_read_one_req, bind_eq_bind, bind_eq_some_iff, Prod.exists] at h
  obtain ⟨z1, s1, more, hseek, h⟩ := h
  obtain ⟨hz, hstat, hbody⟩ := zstd_seek_block_file hseek
  split_ifs at h
  · cases h
    exact ⟨hz, hstat, hbody⟩
  · simp only [bind_eq_some_iff, Prod.exists] at h
    obtain ⟨z2, data, hread, s2, id, next, hblock, h⟩ := h
    obtain ⟨-, -, -, -, -, rfl⟩ := Lcp.read_block_eq_some.1 hblock
    cases h
    exact ⟨(read_bytes_zstd_file hread).trans hz, hstat, hbody⟩

/-! ## The place to go back to -/

def Source.Ready : Source b → Prop
  | .csv s => s.Ready
  | _ => True

def Source.is_csv : Source b → Bool
  | .csv _ => true
  | _ => false

structure Source.Keeps (s s' : Source b) : Prop where
  reset : s'.reset = s.reset
  is_csv : s'.is_csv = s.is_csv
  is_lcp : s'.is_lcp = s.is_lcp
  at_end : s.is_csv = true → s'.mmap_offset = s.mmap_offset ∧ s'.file_size = s.file_size

theorem csv_reset_same {s s' : Csv} (h : s.Same s') : csv_reset_reader s' = csv_reset_reader s := by
  rw [← show _ = s from h]
  rfl

theorem read_keeps {s' : Source b} {left left' : Int} (hs : s.Ready)
    (h : s.read_one_req left time req = some (s', left', time', req', ok)) :
    s'.Ready ∧ s.Keeps s' ∧ (s.is_csv = false → left' = left ∧ time' = time) := by
  cases s <;> simp only [Source.read_one_req, bind_eq_bind, bind_eq_some_iff, Prod.exists, pure_def] at h
  case csv t =>
    obtain ⟨t', left₁, time1, req1, ok1, hread, h⟩ := h
    cases h
    obtain ⟨hready, hsame, -⟩ := csv_read_spec hs hread
    refine ⟨hready, ⟨congrArg (some ∘ Source.csv) (csv_reset_same hsame), rfl, rfl, fun _ => ⟨?_, ?_⟩⟩, fun hcsv => by cases hcsv⟩
    · rw [← show _ = t from hsame]
      rfl
    · rw [← show _ = t from hsame]
      rfl
  case plain_txt t =>
    obtain ⟨t', req1, ok1, hread, h⟩ := h
    cases h
    refine ⟨trivial, ⟨?_, rfl, rfl, fun hcsv => by cases hcsv⟩, fun _ => ⟨rfl, rfl⟩⟩
    rw [← txt_read_same hread]
    rfl
  case bin t =>
    obtain ⟨t', req1, hread, h⟩ := h
    cases h
    simp only [binary_read_one_req, bind_eq_bind, bind_eq_some_iff] at hread
    obtain ⟨req2, -, hread⟩ := hread
    cases hread
    exact ⟨trivial, ⟨rfl, rfl, rfl, fun hcsv => by cases hcsv⟩, fun _ => ⟨rfl, rfl⟩⟩
  case records format t =>
    obtain ⟨t', q, ok1, hread, h⟩ := h
    cases h
    exact ⟨trivial, ⟨congrArg (some ∘ Source.records format) (read_record_same hread), rfl, rfl, fun hcsv => by cases hcsv⟩,
      fun _ => ⟨rfl, rfl⟩⟩
  case lcp cost t =>
    obtain ⟨t', block, hread, h⟩ := h
    cases h
    exact ⟨trivial, ⟨congrArg (some ∘ Source.lcp cost) (lcp_read_same hread), rfl, rfl, fun hcsv => by cases hcsv⟩,
      fun _ => ⟨rfl, rfl⟩⟩
  case zstd_records format z t =>
    obtain ⟨z', q, ok1, hread, h⟩ := h
    cases h
    refine ⟨trivial, ⟨?_, rfl, rfl, fun hcsv => by cases hcsv⟩, fun _ => ⟨rfl, rfl⟩⟩
    have hz : reset_zstd_reader z' = reset_zstd_reader z := by
      rw [reset_eq_create, reset_eq_create, zstd_read_record_file hread]
    simp only [Source.reset, zstd_rewind, hz]
  case zstd_lcp cost z t mmap_offset =>
    obtain ⟨z', t', block, hread, h⟩ := h
    cases h
    obtain ⟨hfile, hstat, hbody⟩ := zstd_lcp_read_file hread
    refine ⟨trivial, ⟨?_, rfl, rfl, fun hcsv => by cases hcsv⟩, fun _ => ⟨rfl, rfl⟩⟩
    have hz : reset_zstd_reader z' = reset_zstd_reader z := by rw [reset_eq_create, reset_eq_create, hfile]
    have ht : Lcp.reset_reader t' = Lcp.reset_reader t := by
      rw [Lcp.reset_reader_of_file hstat hbody]
      rfl
    simp only [Source.reset, zstd_rewind, hz, ht]

/-- What the readers of one trace have in common, and, but for csv, that nothing of a row is left. -/
structure Later (r₀ r : Reader b) : Prop where
  ready : r.source.Ready
  keeps : r₀.source.Keeps r.source
  options : ({ r with source := r₀.source, n_read_req := r₀.n_read_req, n_req_left := r₀.n_req_left
                      last_req_clock_time := r₀.last_req_clock_time } : Reader b) = r₀
  left : r.source.is_csv = false → r.n_req_left = 0 ∧ r.last_req_clock_time = -1
  started : 0 < r.n_req_left → r.source.mmap_offset < r.source.file_size

theorem Later.step (h : Later r₀ r) (hread : read_one_req r req = some (r', req', ok)) : Later r₀ r' := by
  unfold read_one_req at hread
  split_ifs at hread with hend hcap hleft
  · cases hread
    exact h
  · cases hread
    exact h
  · cases hread
    exact { h with left := fun hcsv => by have := (h.left hcsv).1; omega, started := fun _ => h.started hleft }
  · simp only [bind_eq_bind, bind_eq_some_iff, Prod.exists] at hread
    obtain ⟨s, left, time, q, ok', hsource, hread⟩ := hread
    cases hread
    obtain ⟨hready, hkeeps, hsame⟩ := read_keeps h.ready hsource
    have hall : r₀.source.Keeps s := by
      refine ⟨hkeeps.reset.trans h.keeps.reset, hkeeps.is_csv.trans h.keeps.is_csv, hkeeps.is_lcp.trans h.keeps.is_lcp, fun hcsv => ?_⟩
      have hbefore := h.keeps.at_end hcsv
      have hafter := hkeeps.at_end (h.keeps.is_csv.trans hcsv)
      exact ⟨hafter.1.trans hbefore.1, hafter.2.trans hbefore.2⟩
    refine ⟨hready, hall, h.options, fun hcsv => ?_, fun hpos => ?_⟩
    · have hcsv' : r.source.is_csv = false := hkeeps.is_csv.symm.trans hcsv
      obtain ⟨rfl, rfl⟩ := hsame hcsv'
      exact h.left hcsv'
    · cases hcsv : r.source.is_csv with
      | true =>
        have hafter := hkeeps.at_end hcsv
        show s.mmap_offset < s.file_size
        omega
      | false =>
        obtain ⟨rfl, -⟩ := hsame hcsv
        exact absurd hpos (by dsimp only; omega)

/-! ## The requests of a trace -/

def requests : Nat → Reader b → Binary.Request → List (Option (Option Binary.Request))
  | 0, _, _ => []
  | n + 1, r, req =>
    match read_one_req r req with
    | none => [none]
    | some (_, _, false) => [some none]
    | some (r, req, true) => some (some req) :: requests n r req

/-- A rewound reader delivers what a freshly opened one does. -/
def Restarts (r₀ r : Reader b) : Prop := ∃ r', reset_reader r = some r' ∧ ∀ n req, requests n r' req = requests n r₀ req

theorem requests_true (h : read_one_req r req = some (r', req', true)) (n : Nat) :
    requests (n + 1) r req = some (some req') :: requests n r' req' := by rw [requests, h]

theorem requests_false (h : read_one_req r req = some (r', req', false)) (n : Nat) :
    requests (n + 1) r req = [some none] := by rw [requests, h]

theorem requests_none (h : read_one_req r req = none) (n : Nat) :
    requests (n + 1) r req = [none] := by rw [requests, h]

theorem alike_bind {α σ : Type} {o : Option α} {k k' : α → Option (ReadResult σ)} (h : ∀ a, Option.Rel AlikeRead (k a) (k' a)) :
    Option.Rel AlikeRead (o.bind k) (o.bind k') := by
  cases o with
  | none => exact .none
  | some a => exact h a

theorem alike_source_read (s : Source b) {left₁ time1 left₂ time2 : Int} (req : Binary.Request) (h : Alike left₁ time1 left₂ time2) :
    Option.Rel AlikeRead (s.read_one_req left₁ time1 req) (s.read_one_req left₂ time2 req) := by
  cases s with
  | csv t =>
    refine bind_rel (alike_csv_read (t.file.length + 1) t time1 time2 req h.left) fun t1 t2 ht => .some ?_
    exact ⟨congrArg Source.csv ht.1, ht.2⟩
  | plain_txt | bin | records | lcp | zstd_records | zstd_lcp => exact alike_bind fun _ => .some ⟨rfl, rfl, fun _ => h⟩

structure AlikeReader (r₁ r₂ : Reader b) : Prop where
  same : ({ r₁ with n_req_left := r₂.n_req_left, last_req_clock_time := r₂.last_req_clock_time } : Reader b) = r₂
  left : Alike r₁.n_req_left r₁.last_req_clock_time r₂.n_req_left r₂.last_req_clock_time

theorem alike_read_one_req {r1 r2 : Reader b} (h : AlikeReader r1 r2) (req : Binary.Request) :
    Option.Rel (fun t1 t2 => t1.2 = t2.2 ∧ (t1.2.2 = true → AlikeReader t1.1 t2.1)) (read_one_req r1 req) (read_one_req r2 req) := by
  obtain ⟨hsame, hleft⟩ := h
  unfold read_one_req
  rw [← hsame]
  dsimp only
  split_ifs with hend hcap hpos1 hpos2 hpos2
  · exact .some ⟨rfl, fun hok => by cases hok⟩
  · exact .some ⟨rfl, fun hok => by cases hok⟩
  · obtain ⟨heq, htime⟩ := hleft.resolve_right (by omega)
    rw [heq, htime]
    exact .some ⟨rfl, fun _ => ⟨rfl, .inl ⟨rfl, rfl⟩⟩⟩
  · exact absurd hpos1 (by rcases hleft with ⟨heq, -⟩ | ⟨hle, -⟩ <;> omega)
  · exact absurd hpos2 (by rcases hleft with ⟨heq, -⟩ | ⟨-, hle⟩ <;> omega)
  · refine bind_rel (alike_source_read r1.source (blank req) hleft) fun t1 t2 ht => .some ?_
    obtain ⟨s1, left₁, time1, req1, ok1⟩ := t1
    obtain ⟨s2, left₂, time2, req2, ok2⟩ := t2
    obtain ⟨rfl, heq, hok⟩ := ht
    cases heq
    exact ⟨rfl, fun h => ⟨rfl, hok h⟩⟩

theorem requests_alike {r1 r2 : Reader b} (h : AlikeReader r1 r2) (n : Nat) (req : Binary.Request) :
    requests n r1 req = requests n r2 req := by
  induction n generalizing r1 r2 req with
  | zero => rfl
  | succ n ih =>
    have hcall := alike_read_one_req h req
    cases h1 : read_one_req r1 req with
    | none =>
      rw [h1] at hcall
      rw [requests_none h1, requests_none ((rel_none_iff hcall).1 rfl)]
    | some t1 =>
      rw [h1] at hcall
      obtain ⟨⟨s2, req2, ok2⟩, h2, heq, hrest⟩ := rel_some hcall
      obtain ⟨s1, req1, ok1⟩ := t1
      cases heq
      cases ok2 with
      | false => rw [requests_false h1, requests_false h2]
      | true => rw [requests_true h1, requests_true h2, ih (hrest rfl)]

/-! ## A row of which something is left -/

def Yields (r : Reader b) (req : Binary.Request) (l : List Binary.Request) (last : Option (Option Binary.Request)) : Prop :=
  requests (l.length + 1) r req = l.map (fun q => some (some q)) ++ [last]

theorem yields_cons {q : Binary.Request} :
    Yields r req (q :: l) last ↔ ∃ r', read_one_req r req = some (r', q, true) ∧ Yields r' q l last := by
  unfold Yields
  constructor
  · intro h
    cases hread : read_one_req r req with
    | none =>
      rw [requests_none hread] at h
      simp at h
    | some t =>
      obtain ⟨r', req', ok⟩ := t
      cases ok with
      | false =>
        rw [requests_false hread] at h
        simp at h
      | true =>
        rw [List.length_cons, requests_true hread, List.map_cons, List.cons_append, List.cons.injEq, some.injEq,
          some.injEq] at h
        obtain ⟨rfl, h⟩ := h
        exact ⟨r', rfl, h⟩
  · rintro ⟨r', hread, h⟩
    rw [List.length_cons, requests_true hread, h]
    rfl

theorem yields_nil_ne (h : Yields r req [] last)
    (hlast : ∀ q, last ≠ some (some q)) : read_one_req r req ≠ some (r', req', true) := by
  intro hread
  unfold Yields at h
  rw [List.length_nil, requests_true hread] at h
  exact hlast req' (by simpa [requests] using h.symm)

theorem Yields.unique {l' : List Binary.Request} {last' : Option (Option Binary.Request)}
    (h : Yields r req l last) (h' : Yields r req l' last') (hlast : ∀ q, last ≠ some (some q)) (hlast' : ∀ q, last' ≠ some (some q)) :
    l = l' ∧ last = last' := by
  induction l generalizing r req l' with
  | nil =>
    cases l' with
    | nil => exact ⟨rfl, by simpa using h.symm.trans h'⟩
    | cons q l' =>
      obtain ⟨r', hread, -⟩ := yields_cons.1 h'
      exact absurd hread (yields_nil_ne h hlast)
  | cons q l ih =>
    obtain ⟨r1, hread, hrest⟩ := yields_cons.1 h
    cases l' with
    | nil => exact absurd hread (yields_nil_ne h' hlast')
    | cons q' l' =>
      obtain ⟨r2, hread', hrest'⟩ := yields_cons.1 h'
      rw [hread] at hread'
      cases hread'
      obtain ⟨rfl, heq⟩ := ih hrest hrest'
      exact ⟨rfl, heq⟩

theorem yields_or (r : Reader b) (req : Binary.Request) :
    (∃ last, Yields r req [] last ∧ ∀ q, last ≠ some (some q)) ∨ ∃ r' q, read_one_req r req = some (r', q, true) := by
  cases hread : read_one_req r req with
  | none => exact .inl ⟨none, requests_none hread 0, nofun⟩
  | some t =>
    obtain ⟨r', q, ok⟩ := t
    cases ok with
    | false => exact .inl ⟨some none, requests_false hread 0, nofun⟩
    | true => exact .inr ⟨r', q, rfl⟩

theorem csv_yields {s : Csv} (hs : s.Ready) (hsource : r.source = .csv s) (req : Binary.Request) :
    ∃ l last, Yields r req l last ∧ ∀ q, last ≠ some (some q) := by
  induction hk : s.file.length - s.pos using Nat.strong_induction_on generalizing s r req with
  | _ k ih =>
    induction hl : r.n_req_left.toNat generalizing r req with
    | zero =>
      obtain hend | ⟨r', req', hread⟩ := yields_or r req
      · exact ⟨[], hend⟩
      have hcall := hread
      unfold read_one_req at hcall
      split_ifs at hcall
      · cases hcall
      · cases hcall
      · omega
      · rw [hsource] at hcall
        simp only [Source.read_one_req, bind_eq_bind, bind_eq_some_iff, Prod.exists, pure_def] at hcall
        obtain ⟨_, left, time, q, ok, ⟨s', left', time', q', ok', hcsv, hsome⟩, hcall⟩ := hcall
        cases hsome
        have hsource' : r'.source = .csv s' := by
          cases hcall
          rfl
        have hok : ok = true := by
          cases hcall
          rfl
        obtain ⟨hready, hsame, -, hpos⟩ := csv_read_spec hs hcsv
        obtain ⟨hlt, hle⟩ := hpos hok
        obtain ⟨l, last, hrest, hne⟩ := ih (s'.file.length - s'.pos) (by rw [hsame.file]; omega) hready hsource' req' rfl
        exact ⟨req' :: l, last, yields_cons.2 ⟨r', hread, hrest⟩, hne⟩
    | succ left ihl =>
      obtain hend | ⟨r', req', hread⟩ := yields_or r req
      · exact ⟨[], hend⟩
      have hcall := hread
      unfold read_one_req at hcall
      rw [if_pos (show r.n_req_left > 0 by omega)] at hcall
      split_ifs at hcall
      · cases hcall
      · cases hcall
      · rw [some.injEq] at hcall
        obtain ⟨rfl, hcall⟩ := Prod.mk.inj hcall
        obtain ⟨l, last, hrest, hne⟩ := ihl (r := { r with n_req_left := r.n_req_left - 1 }) hsource req' (by dsimp only; omega)
        exact ⟨req' :: l, last, yields_cons.2 ⟨_, hread, hrest⟩, hne⟩

def Reader.repeated (r : Reader b) (req : Binary.Request) : Binary.Request :=
  r.adjust { req with clock_time := r.last_req_clock_time }

theorem repeated_repeated (r : Reader b) (req : Binary.Request) : r.repeated (r.repeated req) = r.repeated req := by
  unfold Reader.repeated Reader.adjust
  split_ifs <;> rfl

theorem read_one_req_left (hend : r.source.mmap_offset < r.source.file_size) (hallows : r.Allows 1) (v : Nat)
    (req : Binary.Request) :
    read_one_req { r with n_req_left := ((v + 1 : Nat) : Int) } req =
      some ({ r with n_req_left := (v : Int) }, r.repeated req, true) := by
  unfold Reader.Allows at hallows
  unfold read_one_req
  rw [if_neg (by dsimp only; omega), if_neg (by dsimp only; omega), if_pos (by dsimp only; omega)]
  refine congrArg some (Prod.ext ?_ rfl)
  rw [show ((v + 1 : Nat) : Int) - 1 = v by omega]

theorem Yields.left (hstarts : r.source.mmap_offset < r.source.file_size) (hallows : r.Allows 1) {q : Binary.Request}
    (hq : r.repeated q = q) (v : Nat)
    (h : Yields { r with n_req_left := 0 } q l last) : Yields { r with n_req_left := (v : Int) } q (List.replicate v q ++ l) last := by
  induction v with
  | zero => simpa using h
  | succ v ih =>
    have hread := read_one_req_left hstarts hallows v q
    rw [hq] at hread
    exact yields_cons.2 ⟨_, hread, ih⟩

theorem requests_left_iff {s : Csv} (hs : s.Ready) (hsource : r₀.source = .csv s) (hleft : r₀.n_req_left = 0)
    (hread : r₀.n_read_req = 0) {left time : Int} (hstarted : 0 < left → r₀.source.mmap_offset < r₀.source.file_size) :
    (∀ n req, requests n { r₀ with n_req_left := left, last_req_clock_time := time } req = requests n r₀ req) ↔ left ≤ 0 := by
  constructor
  · intro h
    by_contra hpos
    obtain ⟨v, rfl⟩ : ∃ v : Nat, left = v := ⟨left.toNat, by omega⟩
    let r : Reader b := { r₀ with last_req_clock_time := time }
    have hallows : r.Allows 1 := by
      unfold Reader.Allows
      rw [show r.n_read_req = 0 from hread]
      omega
    obtain ⟨l, last, hfresh, hne⟩ := csv_yields hs hsource (r.repeated {})
    -- the fresh reader, and the rewound one when the rest of the row has been delivered
    have halike : AlikeReader r₀ { r with n_req_left := 0 } := ⟨rfl, .inr ⟨by omega, le_rfl⟩⟩
    have hrest : Yields { r with n_req_left := 0 } (r.repeated {}) l last :=
      (requests_alike halike _ _).symm.trans hfresh
    have hall := Yields.left (r := r) (hstarted (by omega)) hallows (repeated_repeated r {}) v hrest
    have hlength := congrArg List.length (Yields.unique hall ((h _ _).trans hfresh) hne hne).1
    simp only [List.length_append, List.length_replicate] at hlength
    omega
  · intro hle n req
    exact (requests_alike ⟨rfl, .inr ⟨by omega, hle⟩⟩ n req).symm

/-! ## The offset of a compressed trace -/

def Source.is_zstd : Source b → Bool
  | .zstd_records .. | .zstd_lcp .. => true
  | _ => false

def Source.offset_at (s : Source b) (o : Nat) : Source b :=
  match s with
  | .zstd_records format z t => .zstd_records format z { t with mmap_offset := o }
  | .zstd_lcp cost z t _ => .zstd_lcp cost z t o
  | s => s

theorem zstd_read_record_offset (fields : Bytes → BinaryRequest → BinaryRequest) (fuel : Nat)
    (z : ZstdReader b.zstd) (s : Binary.Reader)
    (o : Nat) (req : BinaryRequest) :
    zstd_read_record b fields fuel z { s with mmap_offset := o } req = zstd_read_record b fields fuel z s req := by
  induction fuel generalizing z req with
  | zero => rfl
  | succ fuel ih =>
    rw [zstd_read_record, zstd_read_record]
    simp only [ih]
    rfl

theorem offset_at_read (s : Source b) (o : Nat) (left time : Int) (req : Binary.Request) :
    (s.offset_at o).read_one_req left time req =
      (s.read_one_req left time req).map fun t => (if s.is_zstd then t.1.offset_at o else t.1, t.2) := by
  cases s with
  | zstd_records format z t =>
    simp only [Source.offset_at, Source.read_one_req, zstd_read_record_offset]
    cases zstd_read_record b format.fields b.fuel z t req.toBinaryRequest <;> rfl
  | zstd_lcp cost z t mmap_offset =>
    simp only [Source.offset_at, Source.read_one_req]
    cases zstd_lcp_read_one_req b cost z t <;> rfl
  | csv | plain_txt | bin | records | lcp => simp [Source.offset_at, Source.is_zstd]

theorem zstd_read_size {s' : Source b} {left left' : Int} (hs : s.is_zstd = true)
    (h : s.read_one_req left time req = some (s', left', time', req', ok)) :
    s'.is_zstd = true ∧ s'.file_size = s.file_size ∧ left' = left ∧ time' = time := by
  cases s with
  | zstd_records format z t =>
    simp only [Source.read_one_req, bind_eq_bind, bind_eq_some_iff, Prod.exists] at h
    obtain ⟨z', q, ok1, hread, h⟩ := h
    cases h
    exact ⟨rfl, rfl, rfl, rfl⟩
  | zstd_lcp cost z t mmap_offset =>
    simp only [Source.read_one_req, bind_eq_bind, bind_eq_some_iff, Prod.exists] at h
    obtain ⟨z', t', block, hread, h⟩ := h
    cases h
    exact ⟨rfl, congrArg List.length (zstd_lcp_read_file hread).1, rfl, rfl⟩
  | csv | plain_txt | bin | records | lcp => cases hs

theorem offset_at_spec (hs : s.is_zstd = true) (o : Nat) :
    (s.offset_at o).mmap_offset = o ∧ (s.offset_at o).file_size = s.file_size ∧ (s.offset_at o).is_lcp = s.is_lcp := by
  cases s with
  | zstd_records | zstd_lcp => exact ⟨rfl, rfl, rfl⟩
  | csv | plain_txt | bin | records | lcp => cases hs

theorem offset_at_read_one_req (hs : r.source.is_zstd = true) (hleft : r.n_req_left = 0) (hallows : r.Allows 1) {o : Nat}
    (ho : o < r.source.file_size) (req : Binary.Request) :
    read_one_req { r with source := r.source.offset_at o } req =
      (r.source.read_one_req 0 r.last_req_clock_time (blank req)).map fun t =>
        ({ r with source := t.1.offset_at o, n_read_req := r.n_read_req + 1, n_req_left := t.2.1, last_req_clock_time := t.2.2.1 },
          r.adjust t.2.2.2.1, t.2.2.2.2) := by
  obtain ⟨hoff, hsize, hlcp⟩ := offset_at_spec hs o
  have hread := read_one_req_read (r := { r with source := r.source.offset_at o }) (by dsimp only; omega) hallows hleft.le req
  rw [hread, offset_at_read, hs, hleft]
  unfold Reader.adjust
  rw [hlcp]
  cases r.source.read_one_req 0 r.last_req_clock_time (blank req) <;> rfl

theorem requests_offset (hs : r.source.is_zstd = true) (hleft : r.n_req_left = 0) {o1 o2 : Nat}
    (h1 : o1 < r.source.file_size) (h2 : o2 < r.source.file_size) (n : Nat) (req : Binary.Request) :
    requests n { r with source := r.source.offset_at o1 } req = requests n { r with source := r.source.offset_at o2 } req := by
  induction n generalizing r req with
  | zero => rfl
  | succ n ih =>
    by_cases hallows : r.Allows 1
    · have hread1 := offset_at_read_one_req hs hleft hallows h1 req
      have hread2 := offset_at_read_one_req hs hleft hallows h2 req
      cases hread : r.source.read_one_req 0 r.last_req_clock_time (blank req) with
      | none =>
        rw [hread] at hread1 hread2
        rw [requests_none hread1, requests_none hread2]
      | some t =>
        rw [hread] at hread1 hread2
        obtain ⟨s', left, time, q, ok⟩ := t
        obtain ⟨hs', hsize', rfl, rfl⟩ := zstd_read_size hs hread
        cases ok with
        | false => rw [requests_false hread1, requests_false hread2]
        | true =>
          rw [requests_true hread1, requests_true hread2]
          have hrest := ih (r := { r with source := s', n_read_req := r.n_read_req + 1, n_req_left := 0 }) hs' rfl
            (by rw [hsize']; exact h1) (by rw [hsize']; exact h2)
          exact congrArg _ (hrest _)
    · have hcap : ∀ o, requests (n + 1) { r with source := r.source.offset_at o } req = [some none] := fun o =>
        requests_false (read_one_req_end (r := { r with source := r.source.offset_at o }) (.inr hallows) req) n
      rw [hcap, hcap]

/-! ## Traces that were opened -/

theorem Source.Opened.ready (h : s.Opened) : s.Ready := by
  cases h with
  | @csv init file s hsetup =>
    simp only [csv_setup_reader, bind_eq_bind, bind_eq_some_iff, pure_def, some.injEq] at hsetup
    obtain ⟨delimiter, -, -, -, line, -, -, -, rfl⟩ := hsetup
    exact ⟨rfl, rfl⟩
  | headerless hs => cases hs <;> trivial
  | plain_txt | lcs | lcp | zstd_lcs | zstd_lcp => trivial

theorem opened_offset (h : s.Opened) : s.offset_at 0 = s := by
  cases h with
  | csv | plain_txt | lcs | lcp | zstd_lcp => rfl
  | headerless hs => cases hs <;> rfl
  | zstd_lcs hsetup =>
    simp only [zstd_lcs_setup, bind_eq_bind, bind_eq_some_iff] at hsetup
    obtain ⟨z, data, -, s1, -, -, rfl⟩ := hsetup
    rfl

theorem opened_reset (h : s.Opened) : s.reset = some (s.offset_at lcs_trace_header_size) := by
  cases h with
  | @csv init file s hsetup =>
    simp only [csv_setup_reader, bind_eq_bind, bind_eq_some_iff, pure_def, some.injEq] at hsetup
    obtain ⟨delimiter, -, has_header, -, line, hline, -, -, rfl⟩ := hsetup
    cases has_header with
    | true => simp [Source.reset, csv_reset_reader, Source.offset_at, hline]
    | false => simp [Source.reset, csv_reset_reader, Source.offset_at]
  | plain_txt => rfl
  | headerless hs =>
    cases hs with
    | bin _ _ _ _ hsetup =>
      simp only [binaryReader_setup, bind_eq_bind, bind_eq_some_iff, pure_def, some.injEq] at hsetup
      obtain ⟨-, -, obj_id, -, time, -, obj_size, -, obj_cost, -, op, -, ttl, -, next, -, item_size, -, -, -, rfl⟩ := hsetup
      rfl
    | records format zero =>
      rfl
  | @lcs _ _ s _ hsetup =>
    obtain ⟨-, -, hoffset, -, hstart, -⟩ := lcsReader_setup_spec hsetup rfl
    have hsame : Binary.reset_reader s = s :=
      congrArg (fun o => ({ s with mmap_offset := o } : Binary.Reader)) (hstart.trans hoffset.symm)
    exact congrArg (fun t => some (Source.records (lcs_format s.lcs_ver) t)) hsame
  | lcp cost hsetup =>
    simp only [Lcp.lcpReader_setup, bind_eq_bind, bind_eq_some_iff, pure_def, some.injEq] at hsetup
    obtain ⟨-, -, -, -, -, -, -, -, rfl⟩ := hsetup
    rfl
  | zstd_lcs hsetup =>
    simp only [zstd_lcs_setup, bind_eq_bind, bind_eq_some_iff, Prod.exists, pure_def, some.injEq,
      Prod.mk.injEq] at hsetup
    obtain ⟨z, data, hread, s1, hlcs, rfl, rfl⟩ := hsetup
    obtain ⟨-, -, -, -, hstart, -⟩ := lcsReader_setup_spec hlcs rfl
    have hz := reset_eq_create z
    rw [read_bytes_zstd_file hread] at hz
    simp only [Source.reset, zstd_rewind, hstart, hz, Source.offset_at]
    exact congrArg (Option.bind · _) hread
  | zstd_lcp cost hsetup =>
    simp only [zstd_lcp_setup, bind_eq_bind, bind_eq_some_iff, Prod.exists, pure_def, some.injEq,
      Prod.mk.injEq] at hsetup
    obtain ⟨z, data, hread, -, -, -, -, -, -, rfl, rfl⟩ := hsetup
    have hz := reset_eq_create z
    rw [read_bytes_zstd_file hread] at hz
    simp only [Source.reset, zstd_rewind, hz]
    exact congrArg (Option.bind · _) hread

theorem opened_later {k : Nat} (hopen : r₀.Opened) (hreach : Reached r₀ k r) : Later r₀ r := by
  obtain ⟨req0, req, n_ok, hread⟩ := hreach
  refine read_n_req_inv (Later r₀) Later.step ⟨hopen.source.ready, ⟨rfl, rfl, rfl, fun _ => ⟨rfl, rfl⟩⟩, rfl,
    fun _ => ?_, fun hpos => ?_⟩ hread
  · exact ⟨hopen.n_req_left, hopen.last_req_clock_time⟩
  · rw [hopen.n_req_left] at hpos
    cases hpos

/-- After any number of reads `reset_reader` starts the trace again if and only if nothing is left of a row that stands for
several requests, and a compressed trace is longer than its header, or holds no request. -/
theorem restarts_iff (r₀ r : Reader b) (k : Nat) (hopen : r₀.Opened) (hreach : Reached r₀ k r) :
    Restarts r₀ r ↔ r.n_req_left ≤ 0 ∧
      (r₀.source.is_zstd = true → lcs_trace_header_size < r₀.source.file_size ∨ ∀ req, requests 1 r₀ req = [some none]) := by
  have hlater := opened_later hopen hreach
  -- the rewound reader
  have hreset : reset_reader r = some { r₀ with
      source := r₀.source.offset_at lcs_trace_header_size
      n_req_left := r.n_req_left
      last_req_clock_time := r.last_req_clock_time } := by
    unfold reset_reader
    rw [hlater.keeps.reset, opened_reset hopen.source]
    refine congrArg some ?_
    rw [← hlater.options]
    simp only [hopen.n_read_req]
  have hiff : Restarts r₀ r ↔ ∀ n req, requests n { r₀ with
      source := r₀.source.offset_at lcs_trace_header_size
      n_req_left := r.n_req_left
      last_req_clock_time := r.last_req_clock_time } req = requests n r₀ req := by
    unfold Restarts
    rw [hreset]
    simp
  rw [hiff]
  cases hzstd : r₀.source.is_zstd with
  | false =>
    have hoffset : r₀.source.offset_at lcs_trace_header_size = r₀.source := by
      cases hs : r₀.source with
      | zstd_records | zstd_lcp =>
        rw [hs] at hzstd
        cases hzstd
      | csv | plain_txt | bin | records | lcp => rfl
    rw [hoffset]
    simp only [Bool.false_eq_true, false_implies, and_true]
    cases hcsv : r₀.source.is_csv with
    | true =>
      cases hs : r₀.source with
      | csv s =>
        have hready := hopen.source.ready
        rw [hs] at hready
        have hstarted : 0 < r.n_req_left → r₀.source.mmap_offset < r₀.source.file_size := by
          intro hpos
          have := hlater.started hpos
          have hsame := hlater.keeps.at_end hcsv
          omega
        rw [← hs]
        exact requests_left_iff hready hs hopen.n_req_left hopen.n_read_req hstarted
      | plain_txt | bin | records | lcp | zstd_records | zstd_lcp =>
        rw [hs] at hcsv
        cases hcsv
    | false =>
      obtain ⟨hleft, htime⟩ := hlater.left (hlater.keeps.is_csv.trans hcsv)
      refine iff_of_true (fun n req => ?_) hleft.le
      rw [hleft.trans hopen.n_req_left.symm, htime.trans hopen.last_req_clock_time.symm]
  | true =>
    have hcsv : r₀.source.is_csv = false := by
      cases hs : r₀.source with
      | csv =>
        rw [hs] at hzstd
        cases hzstd
      | plain_txt | bin | records | lcp | zstd_records | zstd_lcp => rfl
    obtain ⟨hleft, htime⟩ := hlater.left (hlater.keeps.is_csv.trans hcsv)
    rw [and_iff_right hleft.le, hleft.trans hopen.n_req_left.symm, htime.trans hopen.last_req_clock_time.symm]
    simp only [true_implies]
    obtain ⟨hoff, hsize, -⟩ := offset_at_spec hzstd lcs_trace_header_size
    by_cases hlong : lcs_trace_header_size < r₀.source.file_size
    · refine iff_of_true (fun n req => ?_) (.inl hlong)
      have hstart : 0 < r₀.source.file_size := by omega
      have heq := requests_offset hzstd hopen.n_req_left hlong hstart n req
      rwa [opened_offset hopen.source] at heq
    · rw [or_iff_right hlong]
      -- the rewound reader is at the end at once
      have hend : ∀ n req, requests (n + 1) { r₀ with source := r₀.source.offset_at lcs_trace_header_size } req = [some none] :=
        fun n req => requests_false (read_one_req_end (.inl (by dsimp only; omega)) req) n
      constructor
      · intro h req
        exact (h 1 req).symm.trans (hend 0 req)
      · intro h n req
        cases n with
        | zero => rfl
        | succ n =>
          rw [show requests (n + 1) _ req = [some none] from hend n req]
          have hone := h req
          unfold requests at hone ⊢
          cases hread : read_one_req r₀ req with
          | none =>
            rw [hread] at hone
            simp at hone
          | some t =>
            obtain ⟨r', req', ok⟩ := t
            rw [hread] at hone
            cases ok with
            | false => rfl
            | true => simp at hone

def counted_init : CsvInit where
  config := {
    time_field_idx := 1
    obj_id_field_idx := 2
    cnt_field_idx := 3
    hash_str := fun _ => 0
    strtod := strtoll0 }
  delimiter := 0x2c
  has_header_set := true

def counted_reader (file : Bytes) (cap : Int) : Option (Reader bare_build) :=
  (csv_setup_reader counted_init file).map fun s => { source := .csv s, cap_at_n_req := cap }

theorem counted_reader_opened {file : Bytes} {cap : Int} {r : Reader bare_build}
    (h : counted_reader file cap = some r) : r.Opened := by
  obtain ⟨s, hsetup, rfl⟩ := Option.map_eq_some_iff.1 h
  exact ⟨.csv hsetup, rfl, rfl, rfl⟩

theorem restarts_of_whole_row : ∃ r₀ r, counted_reader (ascii "7,5,2\n") 0 = some r₀ ∧ Reached r₀ 2 r ∧ Restarts r₀ r := by
  obtain ⟨r₀, hr0, hzstd, ⟨r, req, n_ok⟩, hread, hleft⟩ : ∃ r₀, counted_reader (ascii "7,5,2\n") 0 = some r₀ ∧
      r₀.source.is_zstd = false ∧ ∃ t, read_n_req 2 r₀ {} = some t ∧ t.1.n_req_left ≤ 0 := by decide +kernel
  have hreach : Reached r₀ 2 r := ⟨{}, req, n_ok, hread⟩
  refine ⟨r₀, r, hr0, hreach, (restarts_iff r₀ r 2 (counted_reader_opened hr0) hreach).2 ⟨hleft, fun h => ?_⟩⟩
  rw [hzstd] at h
  cases h

/-- A reset between the two requests of a row: the one that is left comes before the trace. -/
theorem rest_of_row_after_reset : ∃ r₀ r, counted_reader (ascii "7,5,2\n") 0 = some r₀ ∧ r₀.Opened ∧ Reached r₀ 1 r ∧
    (requests 4 r₀ {}).length = 3 ∧ (∃ r', reset_reader r = some r' ∧ (requests 4 r' {}).length = 4) ∧ ¬ Restarts r₀ r := by
  obtain ⟨r₀, hr0, hfresh, ⟨r, req, n_ok⟩, hread, r', hr', hrest⟩ : ∃ r₀, counted_reader (ascii "7,5,2\n") 0 = some r₀ ∧
      (requests 4 r₀ {}).length = 3 ∧ ∃ t, read_n_req 1 r₀ {} = some t ∧
        ∃ r', reset_reader t.1 = some r' ∧ (requests 4 r' {}).length = 4 := by decide +kernel
  refine ⟨r₀, r, hr0, counted_reader_opened hr0, ⟨{}, req, n_ok, hread⟩, hfresh, ⟨r', hr', hrest⟩, ?_⟩
  rintro ⟨r'', hr'', hsame⟩
  rw [hr'] at hr''
  cases hr''
  rw [hsame, hfresh] at hrest
  cases hrest

end CacheSim.Readers
