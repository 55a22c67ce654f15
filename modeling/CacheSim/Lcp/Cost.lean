import CacheSim.Lcp.Layout

/-!
# Cost models (`traceReader/customizedReader/llmCostModel.c`, `llmCostModel.h`)

The cost of a block by its position in its request. Sums and products are those of `int64_t`, which wrap
around on the machine; `Fits` says that they do not.
-/

namespace CacheSim.Lcp

open Lib Trace Option

def INT32_MAX : Int := 2 ^ 31 - 1

def int64 (v : Int) : Int := v.bmod (2 ^ 64)

theorem int64_of_fits {v : Int} (h : IsInt64 v) : int64 v = v := by
  obtain ⟨hlo, hhi⟩ := h
  apply Int.bmod_eq_of_le <;> omega

/-- `llm_cost_model_t`: a cost for each position when there is a table, else `a + b * position`. -/
structure LlmCostModel where
  a : Int := 1
  b : Int := 0
  table : List Int := []
deriving DecidableEq, Repr

def llm_cost_model_uniform : LlmCostModel := {}

def llm_block_cost (model : LlmCostModel) (position : Int) : Int :=
  if model.table ≠ [] then
    let last : Int := model.table.length - 1
    model.table.getD (if position < last then position else last).toNat 0
  else int64 (model.a + int64 (model.b * position))

def llm_cost_model_max (model : LlmCostModel) (n_positions : Int) : Int :=
  if n_positions ≤ 0 then 0
  else if model.table = [] then llm_block_cost model (n_positions - 1)
  else (model.table.take n_positions.toNat).foldl (fun max cost => if cost > max then cost else max) 0

def BlockFits (model : LlmCostModel) (position : Int) : Prop :=
  model.table = [] → IsInt64 (model.b * position) ∧ IsInt64 (model.a + model.b * position)

def MaxFits (model : LlmCostModel) (n_positions : Int) : Prop := 0 < n_positions → BlockFits model (n_positions - 1)

/-! ## Parsing -/

def tolower (c : UInt8) : UInt8 := if 65 ≤ c ∧ c ≤ 90 then c + 32 else c

def same_word (s t : Bytes) : Bool := s.map tolower = t.map tolower

def parse_int (s : Bytes) (lo hi : Int) : Option Int := do
  let s := s.dropWhile isspace
  guard (s ≠ [])
  let (neg, n, rest) ← read_number s
  let v : Int := if neg then -n else n
  -- `errno` is `ERANGE` for a number that a `long long` does not hold.
  guard (IsInt64 v)
  guard (rest.dropWhile isspace = [] ∧ lo ≤ v ∧ v ≤ hi)
  return v

def parse_linear (args : Bytes) : Except Bytes LlmCostModel :=
  let a_str := args.takeWhile (· ≠ ch ',')
  if a_str.length = args.length ∨ a_str.length ≥ 64 then
    .error (ascii "linear needs two coefficients, as linear:A,B")
  else
    match parse_int a_str 1 INT32_MAX, parse_int (args.drop (a_str.length + 1)) 0 INT32_MAX with
    | some a, some b => .ok { a := a, b := b }
    | _, _ => .error (ascii "linear:" ++ args ++ ascii ": A must be an integer from 1 to 2147483647 and B one from 0 to 2147483647, so that every block costs at least 1")

def lines : Bytes → List Bytes
  | [] => []
  | c :: s =>
    if c = 10 then [c] :: lines s
    else
      match lines s with
      | [] => [[c]]
      | line :: rest => (c :: line) :: rest

def parse_lines (path : Bytes) : Nat → List Int → List Bytes → Except Bytes (List Int)
  | _, table, [] => .ok table
  | line_no, table, line :: rest =>
    let p := (c_str line).dropWhile isspace
    if p = [] ∨ p.head? = some (ch '#') then parse_lines path (line_no + 1) table rest
    else
      match parse_int p 1 INT32_MAX with
      | none => .error (ascii "cost table '" ++ path ++ ascii "' line " ++ decimal (line_no + 1) ++
          ascii ": expected an integer from 1 to 2147483647")
      | some cost => parse_lines path (line_no + 1) (table ++ [cost]) rest

def parse_table (fopen : Bytes → Option Bytes) (path : Bytes) : Except Bytes LlmCostModel :=
  match fopen path with
  | none => .error (ascii "cannot open cost table '" ++ path ++ ascii "'")
  | some file => do
    let table ← parse_lines path 0 [] (lines file)
    if table = [] then
      throw (ascii "cost table '" ++ path ++ ascii "' has no costs")
    return { table := table }

def LLM_COST_MODEL_CHOICES : Bytes := ascii "uniform | position | qwen3coder30b_blksz_16 | linear:A,B | table:FILE"

/-- Of a message, `err` gets what its size has room for. -/
def llm_cost_model_parse (fopen : Bytes → Option Bytes) (err_size : Nat) (spec : Option Bytes) : Except Bytes LlmCostModel :=
  match spec with
  | none => .ok llm_cost_model_uniform
  | some spec =>
    Except.mapError (List.take (err_size - 1)) <|
      if same_word spec (ascii "uniform") then .ok llm_cost_model_uniform
      else if same_word spec (ascii "position") then .ok { llm_cost_model_uniform with b := 1 }
      else if same_word spec (ascii "qwen3coder30b_blksz_16") then .ok { llm_cost_model_uniform with a := 865, b := 2 }
      else if same_word (spec.take 7) (ascii "linear:") then parse_linear (spec.drop 7)
      else if same_word (spec.take 6) (ascii "table:") then parse_table fopen (spec.drop 6)
      else .error (ascii "unknown cost model '" ++ spec ++ ascii "', expected " ++ LLM_COST_MODEL_CHOICES)

example : llm_cost_model_parse (fun _ => some (ascii "# costs\n 7\n\n12 \n")) 1024 (some (ascii "Table:costs")) =
    .ok { table := [7, 12] } := by decide +kernel

/-! ## What the parser lets through -/

/-- Coefficients and costs are in the ranges that the parser asks for. -/
structure LlmCostModel.InRange (model : LlmCostModel) : Prop where
  a : 1 ≤ model.a ∧ model.a ≤ INT32_MAX
  b : 0 ≤ model.b ∧ model.b ≤ INT32_MAX
  table : ∀ cost ∈ model.table, 1 ≤ cost ∧ cost ≤ INT32_MAX

theorem parse_int_range {s : Bytes} {lo hi v : Int} (h : parse_int s lo hi = some v) : lo ≤ v ∧ v ≤ hi := by
  simp only [parse_int, bind, bind_eq_some_iff, guard_eq_some', Prod.exists] at h
  obtain ⟨-, -, neg, n, rest, -, -, -, -, hrange, hv⟩ := h
  cases hv
  exact hrange.2

theorem inRange_uniform : llm_cost_model_uniform.InRange := ⟨by decide, by decide, by simp [llm_cost_model_uniform]⟩

theorem parse_linear_inRange {args : Bytes} {model : LlmCostModel} (h : parse_linear args = .ok model) : model.InRange := by
  simp only [parse_linear] at h
  split at h
  · cases h
  · split at h
    · rename_i a b ha hb
      cases h
      exact ⟨parse_int_range ha, parse_int_range hb, by simp⟩
    · cases h

variable {path : Bytes}

theorem parse_lines_inRange {n : Nat} {table : List Int} {l : List Bytes} {costs : List Int}
    (h : parse_lines path n table l = .ok costs) (htable : ∀ cost ∈ table, 1 ≤ cost ∧ cost ≤ INT32_MAX) :
    ∀ cost ∈ costs, 1 ≤ cost ∧ cost ≤ INT32_MAX := by
  induction l generalizing n table with
  | nil =>
    cases h
    exact htable
  | cons line l ih =>
    simp only [parse_lines] at h
    split at h
    · exact ih h htable
    · split at h
      · cases h
      · rename_i cost hcost
        apply ih h
        intro c hc
        rcases List.mem_append.1 hc with hc | hc
        · exact htable c hc
        · rw [List.mem_singleton.1 hc]
          exact parse_int_range hcost

variable {fopen : Bytes → Option Bytes}

theorem parse_table_inRange {model : LlmCostModel} (h : parse_table fopen path = .ok model) : model.InRange := by
  unfold parse_table at h
  split at h
  · cases h
  · simp only [bind, Except.bind] at h
    split at h
    · cases h
    · rename_i table htable
      split at h
      · cases h
      · cases h
        exact { inRange_uniform with table := parse_lines_inRange htable (by simp) }

theorem llm_cost_model_parse_inRange {err_size : Nat} {spec : Option Bytes} {model : LlmCostModel}
    (h : llm_cost_model_parse fopen err_size spec = .ok model) : model.InRange := by
  unfold llm_cost_model_parse at h
  split at h
  · cases h
    exact inRange_uniform
  · have hok : ∀ {x : Except Bytes LlmCostModel}, x.mapError (List.take (err_size - 1)) = .ok model → x = .ok model := by
      intro x hx
      cases x with
      | error e => cases hx
      | ok m => exact hx
    replace h := hok h
    split_ifs at h
    · cases h
      exact inRange_uniform
    · cases h
      exact ⟨by decide, by decide, by simp [llm_cost_model_uniform]⟩
    · cases h
      exact ⟨by decide, by decide, by simp [llm_cost_model_uniform]⟩
    · exact parse_linear_inRange h
    · exact parse_table_inRange h

/-! ## One cost -/

variable {model : LlmCostModel} {position n_positions : Int}

theorem cost_of_table (hm : model.InRange) (htable : model.table ≠ []) (hpos : 0 ≤ position) :
    1 ≤ llm_block_cost model position ∧ llm_block_cost model position ≤ INT32_MAX := by
  have hlen : 0 < model.table.length := List.length_pos_iff.2 htable
  simp only [llm_block_cost, if_pos htable]
  apply hm.table
  rw [List.getD_eq_getElem?_getD, List.getElem?_eq_getElem (by split_ifs <;> omega)]
  exact List.getElem_mem _

theorem cost_of_linear (htable : model.table = []) (hfits : BlockFits model position) :
    llm_block_cost model position = model.a + model.b * position := by
  obtain ⟨hmul, hadd⟩ := hfits htable
  rw [llm_block_cost, if_neg (not_not.2 htable), int64_of_fits hmul, int64_of_fits hadd]

section

variable (hm : model.InRange)
include hm

theorem linear_mono (h : position < n_positions) :
    model.a + model.b * position ≤ model.a + model.b * (n_positions - 1) := by
  have hmul : model.b * position ≤ model.b * (n_positions - 1) := mul_le_mul_of_nonneg_left (by omega) hm.b.1
  omega

theorem linear_pos (h : 0 ≤ position) : 1 ≤ model.a + model.b * position := by
  have hmul : 0 ≤ model.b * position := mul_nonneg hm.b.1 h
  have ha := hm.a.1
  omega

theorem fits_of_last (hlast : model.a + model.b * (n_positions - 1) < 2 ^ 63) (hpos : 0 ≤ position)
    (hlt : position < n_positions) : BlockFits model position := by
  intro htable
  have hmul : 0 ≤ model.b * position := mul_nonneg hm.b.1 hpos
  have hle := linear_mono hm hlt
  have ha := hm.a.1
  exact ⟨⟨by omega, by omega⟩, by omega, by omega⟩

theorem cost_of_max (hmax : llm_cost_model_max model n_positions ≤ INT32_MAX)
    (hlast : model.table ≠ [] ∨ model.a + model.b * (n_positions - 1) < 2 ^ 63) (hpos : 0 ≤ position) (hlt : position < n_positions) :
    BlockFits model position ∧ 1 ≤ llm_block_cost model position ∧ llm_block_cost model position ≤ INT32_MAX := by
  by_cases htable : model.table = []
  · have hlast' := hlast.resolve_left (not_not.2 htable)
    have hfits := fits_of_last hm hlast' hpos hlt
    have hfits_last : BlockFits model (n_positions - 1) := fits_of_last hm hlast' (by omega) (by omega)
    rw [llm_cost_model_max, if_neg (by omega), if_pos htable, cost_of_linear htable hfits_last] at hmax
    rw [cost_of_linear htable hfits]
    exact ⟨hfits, linear_pos hm hpos, (linear_mono hm hlt).trans hmax⟩
  · exact ⟨fun h => absurd h htable, cost_of_table hm htable hpos⟩

end

/-! ## The reader -/

/-- A request of the block reader, a request of the request reader, or a rewind. -/
inductive ReaderCall where
  | lcp_read_one_req
  | lcp_read_trace_req
  | reset_reader

def call (model : LlmCostModel) (r : LcpParams) : ReaderCall → Option LcpParams
  | .lcp_read_one_req => (Lcp.lcp_read_one_req (llm_block_cost model) r).map Prod.fst
  | .lcp_read_trace_req => (Lcp.lcp_read_trace_req r).map Prod.fst
  | .reset_reader => some (Lcp.reset_reader r)

structure InRequest (stat : LcpStat) (r : LcpParams) : Prop where
  stat_eq : r.stat = stat
  pos : 0 ≤ r.block_pos
  left : 0 ≤ r.blocks_left
  le : r.blocks_left ≠ 0 → r.block_pos + r.blocks_left ≤ stat.max_blocks_per_req

variable {stat : LcpStat} {r r' : LcpParams}

theorem inRequest_reset (hstat : r.stat = stat) : InRequest stat (reset_reader r) := ⟨hstat, le_rfl, le_rfl, by simp [reset_reader]⟩

section

variable (hr : InRequest stat r)
include hr

theorem InRequest.seek {fuel : Nat} {more : Bool} (h : seek_block fuel r = some (r', more)) :
    InRequest stat r' ∧ (more = true → r'.blocks_left ≠ 0) := by
  induction fuel generalizing r with
  | zero =>
    unfold seek_block at h
    split at h
    · cases h
      exact ⟨hr, fun _ => by assumption⟩
    · cases h
  | succ fuel ih =>
    unfold seek_block at h
    split at h
    · cases h
      exact ⟨hr, fun _ => by assumption⟩
    · simp only [bind, bind_eq_some_iff, Prod.exists] at h
      obtain ⟨r1, rec_, hrec, h⟩ := h
      cases rec_ with
      | none =>
        cases h
        obtain ⟨-, -, rfl⟩ := read_record_eq_none.1 hrec
        exact ⟨hr, by simp⟩
      | some rec_ =>
        obtain ⟨-, -, -, hok, rfl⟩ := read_record_eq_some.1 hrec
        -- The blocks of the new record are at positions from 0.
        have hblocks := hok.blocks
        rw [hr.stat_eq] at hblocks
        apply ih _ h
        exact ⟨hr.stat_eq, le_rfl, Int.natCast_nonneg _, fun _ => by simpa using hblocks⟩

theorem InRequest.read {cost : Int → Int} {req : Option Request}
    (h : lcp_read_one_req cost r = some (r', req)) :
    InRequest stat r' ∧ ∀ q ∈ req, 0 ≤ r'.block_pos - 1 ∧ r'.block_pos - 1 < stat.max_blocks_per_req ∧
      q.obj_cost = cost (r'.block_pos - 1) := by
  simp only [lcp_read_one_req, bind, bind_eq_some_iff, Prod.exists] at h
  obtain ⟨r1, more, hseek, h⟩ := h
  obtain ⟨hr1, hleft⟩ := hr.seek hseek
  cases more with
  | false =>
    cases h
    exact ⟨hr1, by simp⟩
  | true =>
    simp only [Bool.not_true, Bool.false_eq_true, if_false, bind_eq_some_iff, Prod.exists] at h
    obtain ⟨r2, id, next, hblock, h⟩ := h
    obtain ⟨-, -, -, -, -, rfl⟩ := read_block_eq_some.1 hblock
    cases h
    have hne := hleft rfl
    have hle := hr1.le hne
    have hpos := hr1.pos
    have hnonneg := hr1.left
    refine ⟨⟨hr1.stat_eq, ?_, ?_, ?_⟩, ?_⟩
    · show 0 ≤ r1.block_pos + 1
      omega
    · show 0 ≤ r1.blocks_left - 1
      omega
    · intro _
      show r1.block_pos + 1 + (r1.blocks_left - 1) ≤ _
      omega
    · intro q hq
      cases hq
      simp only [add_sub_cancel_right, and_true]
      omega

theorem InRequest.blocks {n : Nat} {blocks : List (Nat × Int)} (h : read_blocks n r = some (r', blocks)) :
    InRequest stat r' := by
  induction n generalizing r blocks with
  | zero =>
    cases h
    exact hr
  | succ n ih =>
    simp only [read_blocks, bind, bind_eq_some_iff, Prod.exists] at h
    obtain ⟨r1, id, next, hblock, r2, l, hblocks, h⟩ := h
    cases h
    obtain ⟨-, -, -, -, -, rfl⟩ := read_block_eq_some.1 hblock
    apply ih _ hblocks
    exact { hr with }

theorem InRequest.call {c : ReaderCall} (h : call model r c = some r') : InRequest stat r' := by
  cases c with
  | lcp_read_one_req =>
    obtain ⟨⟨r1, req⟩, hread, rfl⟩ := map_eq_some_iff.1 h
    exact (hr.read hread).1
  | lcp_read_trace_req =>
    obtain ⟨⟨r1, req⟩, hread, rfl⟩ := map_eq_some_iff.1 h
    cases req with
    | none =>
      obtain ⟨-, -, rfl⟩ := read_record_eq_none.1 (read_trace_req_eq_none.1 hread)
      exact hr
    | some req =>
      obtain ⟨r2, hrec, hblocks⟩ := read_trace_req_eq_some.1 hread
      obtain ⟨-, -, -, -, rfl⟩ := read_record_eq_some.1 hrec
      apply InRequest.blocks _ hblocks
      exact { hr with }
  | reset_reader =>
    cases h
    exact inRequest_reset hr.stat_eq

end

variable {max : Int → Int}

theorem setup_eq_some {file : Bytes} (h : lcpReader_setup max file = some r) :
    InRequest r.stat r ∧ 0 ≤ r.stat.max_blocks_per_req ∧ max r.stat.max_blocks_per_req ≤ INT32_MAX := by
  simp only [lcpReader_setup, bind, bind_eq_some_iff, guard_eq_some'] at h
  obtain ⟨-, -, -, hheader, -, hmax, -, -, h⟩ := h
  cases h
  refine ⟨⟨rfl, le_rfl, le_rfl, by simp [open_body]⟩, ?_, hmax⟩
  simp only [_verify_lcp_header, decide_eq_true_eq] at hheader
  show 0 ≤ (lcp_header_of_bytes (file.take lcp_header_size)).stat.max_blocks_per_req
  omega

structure CostsBounded (model : LlmCostModel) (r : LcpParams) : Prop where
  max_fits : MaxFits model r.stat.max_blocks_per_req
  block : ∀ s s' req, Reach (call model) (fun _ _ => True) r s → lcp_read_one_req (llm_block_cost model) s = some (s', some req) →
    BlockFits model (s'.block_pos - 1) ∧ 1 ≤ req.obj_cost ∧ req.obj_cost ≤ INT32_MAX

/-- The guard of `lcpReader_setup` bounds the costs if and only if the cost at the last position of the header is
one that an `int64_t` holds. -/
theorem obj_cost_bounded_iff (fopen : Bytes → Option Bytes) (err_size : Nat) (spec : Option Bytes) (model : LlmCostModel)
    (file : Bytes) (r : LcpParams) (hmodel : llm_cost_model_parse fopen err_size spec = .ok model)
    (hsetup : lcpReader_setup (llm_cost_model_max model) file = some r) :
    CostsBounded model r ↔ model.table ≠ [] ∨ r.stat.max_blocks_per_req = 0 ∨
      model.a + model.b * (r.stat.max_blocks_per_req - 1) < 2 ^ 63 := by
  have hm := llm_cost_model_parse_inRange hmodel
  obtain ⟨hin, hnonneg, hmax⟩ := setup_eq_some hsetup
  constructor
  · intro h
    by_cases htable : model.table = []
    · by_cases hzero : r.stat.max_blocks_per_req = 0
      · exact .inr (.inl hzero)
      · exact .inr (.inr (h.max_fits (by omega) htable).2.2)
    · exact .inl htable
  · intro h
    have hpositions : ∀ p, 0 ≤ p → p < r.stat.max_blocks_per_req →
        BlockFits model p ∧ 1 ≤ llm_block_cost model p ∧ llm_block_cost model p ≤ INT32_MAX := by
      intro p hp hlt
      apply cost_of_max hm hmax _ hp hlt
      rcases h with h | h | h
      · exact .inl h
      · omega
      · exact .inr h
    refine ⟨fun hpos => (hpositions _ (by omega) (by omega)).1, ?_⟩
    intro s s' req hreach hread
    have hs : InRequest r.stat s := Reach.inv (InRequest r.stat) (fun _ _ _ hs _ hcall => hs.call hcall) hin hreach
    obtain ⟨hlo, hhi, hcost⟩ := (hs.read hread).2 req rfl
    rw [hcost]
    exact hpositions _ hlo hhi

/-! ## A header that is let through -/

def steep : LlmCostModel := { a := 1, b := INT32_MAX }

def steep_stat : LcpStat where
  n_req := 1
  n_block := 3
  n_unique_block := 1
  max_blocks_per_req := 2 ^ 62 + 1
  type_names := List.replicate 1024 0

def steep_body : Bytes :=
  (lcp_req_fields {
    start_time_us := 0, complete_time_us := 0, chat_id := -1, parent_chat_id := -1, session_next_req := -1, session_id := 0,
    user_id := 0, n_blocks := 3, input_length := -1, output_length := -1, turn := -1, type_id := -1 }).flatten ++
  lcp_blocks 0 [(1, MAX_REUSE_DISTANCE), (1, MAX_REUSE_DISTANCE), (1, MAX_REUSE_DISTANCE)]

def steep_file : Bytes := (lcp_header_fields steep_stat).flatten ++ steep_body

theorem steep_stat_fits : steep_stat.Fits :=
  ⟨by decide, by decide, by decide, by decide, by decide, by decide, by decide, by decide, by decide, by decide, by decide,
    List.length_replicate⟩

theorem steep_setup (hmax : max (2 ^ 62 + 1) ≤ 2 ^ 31 - 1) :
    lcpReader_setup max steep_file = some (open_body steep_stat steep_body) :=
  setup_of_header steep_stat_fits (by decide) hmax (by decide +kernel)

theorem obj_cost_bounded_of_flat : CostsBounded { a := 5 } (open_body steep_stat steep_body) := by
  have hmodel : llm_cost_model_parse (fun _ => none) 1024 (some (ascii "linear: 5 ,0")) = .ok { a := 5 } := by decide +kernel
  apply (obj_cost_bounded_iff (fun _ => none) 1024 _ _ steep_file _ hmodel (steep_setup (by decide))).2
  exact .inr (.inr (by decide))

/-- The guard sees the cost of position 2^62 wrapped around, and the third block costs more than an `int32_t` holds. -/
theorem steep_costs :
    llm_cost_model_parse (fun _ => none) 1024 (some (ascii "linear:1,2147483647")) = .ok steep ∧
    lcpReader_setup (llm_cost_model_max steep) steep_file = some (open_body steep_stat steep_body) ∧
    (read_all (lcp_read_one_req (llm_block_cost steep)) 4 (open_body steep_stat steep_body)).map (List.map Request.obj_cost) =
      some [1, 2147483648, 4294967295] ∧
    ¬ CostsBounded steep (open_body steep_stat steep_body) := by
  refine ⟨by decide +kernel, steep_setup (by decide), by decide +kernel, ?_⟩
  intro h
  have hfits := (h.max_fits (by decide) rfl).2.2
  exact absurd hfits (by decide)

end CacheSim.Lcp
