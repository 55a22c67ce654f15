import CacheSim.Binary.Layout
import CacheSim.Lib.NextUse
import Mathlib.Algebra.BigOperators.Group.Finset.Basic

/-!
# A trace converted to lcs and read back

The temporary file counts the next accesses from the end of the trace, the file that is written counts
them from its start.
-/

namespace CacheSim.Binary

open Lib List Function
open Option (bind_some elim_some getD_none getD_some map_none map_some)

def next_vtime (ids : List Nat) (i : Nat) : Int := (next_use ids i).elim MAX_REUSE_DISTANCE fun q => (q : Int) + 1

def annotated (requests : List BinaryRequest) : List BinaryRequest :=
  requests.mapIdx fun i req => { req with next_access_vtime := next_vtime (requests.map (·.obj_id)) i }

def last_size (requests : List BinaryRequest) (id : Nat) : Int :=
  ((requests.reverse.find? (·.obj_id = id)).map (·.obj_size)).getD 0

structure Describes (stat : LcsStat) (requests : List BinaryRequest) : Prop where
  n_req : stat.n_req = requests.length
  n_obj : stat.n_obj = (requests.map (·.obj_id)).toFinset.card
  n_req_byte : stat.n_req_byte = (requests.map (·.obj_size)).sum
  n_obj_byte : stat.n_obj_byte = ∑ id ∈ (requests.map (·.obj_id)).toFinset, last_size requests id
  start_timestamp : ∀ req ∈ requests.head?, stat.start_timestamp = req.clock_time
  end_timestamp : ∀ req ∈ requests.getLast?, stat.end_timestamp = req.clock_time

variable {v : Nat} {n_req : Int} {requests : List BinaryRequest} {req : BinaryRequest}

/-! ## Turning the file around -/

def turned (n_req : Int) (req : BinaryRequest) : BinaryRequest :=
  if req.next_access_vtime ≠ INT64_MAX then { req with next_access_vtime := n_req - req.next_access_vtime } else req

theorem turn_request (n_req : Int) (req : BinaryRequest) :
    turn_vtime n_req (lcs_req_of_request req) = lcs_req_of_request (turned n_req req) := by
  unfold turn_vtime turned
  show (if req.next_access_vtime ≠ INT64_MAX then _ else _) = _
  split_ifs <;> rfl

theorem features_turned (n_req : Int) (req : BinaryRequest) :
    lcs_feature_bytes v (turned n_req req) = lcs_feature_bytes v req := by
  unfold turned
  split_ifs <;> rfl

def entry (lcs_ver : Nat) (req : BinaryRequest) : Bytes :=
  (lcs_req_full_fields (lcs_req_of_request req)).flatten ++ lcs_feature_bytes lcs_ver req

def entry_size (lcs_ver : Nat) : Nat := lcs_full_req_entry_size + LCS_VER_TO_N_FEATURES lcs_ver * 4

theorem length_entry (v : Nat) (req : BinaryRequest) : (entry v req).length = entry_size v := by
  rw [entry, length_append, length_full_fields, length_feature_bytes, entry_size]

theorem reverse_record (h : (lcs_req_of_request req).Fits) {before rest : Bytes} (fuel : Nat) (ofile : Bytes) :
    reverse_records v n_req (before ++ (entry v req ++ rest)) (fuel + 1) (before.length + entry_size v) ofile =
      reverse_records v n_req (before ++ (entry v req ++ rest)) fuel before.length (ofile ++ written v (turned n_req req)) := by
  have hroom : before.length + entry_size v ≥ lcs_full_req_entry_size + LCS_VER_TO_N_FEATURES v * 4 := Nat.le_add_left _ _
  have hpos : before.length + entry_size v - (lcs_full_req_entry_size + LCS_VER_TO_N_FEATURES v * 4) = before.length :=
    Nat.add_sub_cancel _ _
  have hfull : ((before ++ (entry v req ++ rest)).drop before.length).take lcs_full_req_entry_size =
      (lcs_req_full_fields (lcs_req_of_request req)).flatten := by
    rw [drop_left, entry, append_assoc, ← length_full_fields (lcs_req_of_request req), take_left]
  have hfeatures : ((before ++ (entry v req ++ rest)).drop (before.length + lcs_full_req_entry_size)).take
      (LCS_VER_TO_N_FEATURES v * 4) = lcs_feature_bytes v req := by
    rw [← drop_drop, drop_left, entry, append_assoc, ← length_full_fields (lcs_req_of_request req), drop_left,
      ← length_feature_bytes v req, take_left]
  rw [reverse_records]
  dsimp only
  rw [if_pos hroom, hpos, hfull, hfeatures, full_of_fields h,
    turn_request, written, features_turned, append_assoc ofile]

theorem reverse_records_eq {reqs : List BinaryRequest} (h : ∀ req ∈ reqs, (lcs_req_of_request req).Fits) (rest : Bytes)
    {fuel : Nat} (hfuel : reqs.length < fuel) (ofile : Bytes) :
    reverse_records v n_req ((reqs.map (entry v)).flatten ++ rest) fuel ((reqs.map (entry v)).flatten.length) ofile =
      some (ofile ++ (reqs.reverse.map fun req => written v (turned n_req req)).flatten) := by
  -- from the last entry to the first
  induction reqs using List.reverseRecOn generalizing rest fuel ofile with
  | nil =>
    obtain ⟨fuel, rfl⟩ : ∃ m, fuel = m + 1 := ⟨fuel - 1, by simp at hfuel; omega⟩
    rw [reverse_records]
    rw [if_neg (by simp [lcs_full_req_entry_size])]
    simp
  | append_singleton reqs req ih =>
    rw [length_append, length_singleton] at hfuel
    obtain ⟨fuel, rfl⟩ : ∃ m, fuel = m + 1 := ⟨fuel - 1, by omega⟩
    have hsplit : ((reqs ++ [req]).map (entry v)).flatten = (reqs.map (entry v)).flatten ++ entry v req := by simp
    rw [hsplit, append_assoc, length_append, length_entry, reverse_record (h req (by simp)),
      ih (fun x hx => h x (by simp [hx])) _ (by omega)]
    simp

theorem count_op_eq (op : Nat) (stat : LcsStat) : ∃ a b c : Int, 0 ≤ a ∧ 0 ≤ b ∧ 0 ≤ c ∧ a + b + c ≤ 1 ∧
    count_op op stat = { stat with n_read := stat.n_read + a, n_write := stat.n_write + b, n_delete := stat.n_delete + c } := by
  unfold count_op
  split_ifs
  · exact ⟨1, 0, 0, by simp⟩
  · exact ⟨0, 1, 0, by simp⟩
  · exact ⟨0, 0, 1, by simp⟩
  · exact ⟨0, 0, 0, by simp⟩

def Conversion.next (s : Conversion) (id : Nat) : Option Int := (s.obj_map.lookup id).map ObjInfo.last_access_vtime

structure Converted (v : Nat) (s : Conversion) (req : BinaryRequest) (s' : Conversion) : Prop where
  next : s'.next = update s.next req.obj_id (some s.stat.n_req)
  version : s'.stat.version = s.stat.version
  n_req : s'.stat.n_req = s.stat.n_req + 1
  n_obj : s'.stat.n_obj = s.stat.n_obj + if s.next req.obj_id = none then 1 else 0
  n_req_byte : s'.stat.n_req_byte = s.stat.n_req_byte + req.obj_size
  n_obj_byte : s'.stat.n_obj_byte = s.stat.n_obj_byte + if s.next req.obj_id = none then req.obj_size else 0
  start_timestamp : s'.stat.start_timestamp = req.clock_time
  end_timestamp : s'.stat.end_timestamp = s.stat.end_timestamp
  ops : ∃ a b c : Int, 0 ≤ a ∧ 0 ≤ b ∧ 0 ≤ c ∧ a + b + c ≤ 1 ∧ s'.stat.n_read = s.stat.n_read + a ∧
    s'.stat.n_write = s.stat.n_write + b ∧ s'.stat.n_delete = s.stat.n_delete + c
  reverse : s'.reverse = s.reverse ++ entry v { req with next_access_vtime := (s.next req.obj_id).getD INT64_MAX }

variable {s : Conversion}

theorem convert_req_ok (hroom : s.stat.n_req + 1 ≤ n_req * 2) (req : BinaryRequest) :
    ∃ s', convert_req v false n_req s req = some s' ∧ Converted v s req s' := by
  have hnext : ∀ info : ObjInfo, info.last_access_vtime = s.stat.n_req →
      (fun id => ((s.obj_map.insert req.obj_id info).lookup id).map ObjInfo.last_access_vtime) =
        update s.next req.obj_id (some s.stat.n_req) := by
    intro info hinfo
    funext id
    rw [update_apply]
    split_ifs with hid
    · rw [hid, AList.lookup_insert, map_some, hinfo]
    · rw [AList.lookup_insert_ne hid]
      rfl
  unfold convert_req find_next
  cases hlookup : s.obj_map.lookup req.obj_id with
  | none =>
    have hnone : s.next req.obj_id = none := by rw [Conversion.next, hlookup, map_none]
    obtain ⟨a, b, c, ha, hb, hc, habc, hcount⟩ := count_op_eq
      (lcs_req_of_request { req with next_access_vtime := INT64_MAX }).op
      { s.stat with n_obj := s.stat.n_obj + 1, n_obj_byte := s.stat.n_obj_byte + req.obj_size }
    dsimp only
    rw [hcount, if_neg (by dsimp only; omega)]
    refine ⟨_, rfl, hnext _ rfl, rfl, rfl, ?_, rfl, ?_, rfl, rfl, ⟨a, b, c, ha, hb, hc, habc, rfl, rfl, rfl⟩, ?_⟩
    · rw [if_pos hnone]
    · rw [if_pos hnone]
    · rw [hnone, entry, ← append_assoc]
      rfl
  | some info =>
    have hsome : s.next req.obj_id = some info.last_access_vtime := by rw [Conversion.next, hlookup, map_some]
    obtain ⟨a, b, c, ha, hb, hc, habc, hcount⟩ := count_op_eq
      (lcs_req_of_request { req with next_access_vtime := info.last_access_vtime }).op s.stat
    dsimp only
    rw [if_neg (by simp : ¬ (info.size ≠ req.obj_size ∧ false = true))]
    rw [show ({ req with next_access_vtime := info.last_access_vtime, obj_size := req.obj_size } : BinaryRequest) =
      { req with next_access_vtime := info.last_access_vtime } from rfl, hcount, if_neg (by dsimp only; omega)]
    refine ⟨_, rfl, hnext _ rfl, rfl, rfl, ?_, rfl, ?_, rfl, rfl, ⟨a, b, c, ha, hb, hc, habc, rfl, rfl, rfl⟩, ?_⟩
    · rw [hsome, if_neg (by simp), add_zero]
    · rw [hsome, if_neg (by simp), add_zero]
    · rw [hsome, entry, ← append_assoc]
      rfl

/-! ## The header -/

theorem last_size_cons (req : BinaryRequest) (requests : List BinaryRequest) (id : Nat) :
    last_size (req :: requests) id =
      if id ∈ requests.map (·.obj_id) then last_size requests id else if req.obj_id = id then req.obj_size else 0 := by
  unfold last_size
  rw [reverse_cons, find?_append]
  split_ifs with hmem hreq
  · obtain ⟨x, hx, hid⟩ := mem_map.1 hmem
    obtain ⟨y, hy⟩ : ∃ y, requests.reverse.find? (·.obj_id = id) = some y := by
      rw [← Option.isSome_iff_exists, find?_isSome]
      exact ⟨x, by simpa using hx, by simpa using hid⟩
    rw [hy, Option.some_or]
  · have hnone : requests.reverse.find? (·.obj_id = id) = none := by
      rw [find?_eq_none]
      intro x hx hid
      exact hmem (mem_map.2 ⟨x, by simpa using hx, by simpa using hid⟩)
    simp [hnone, hreq]
  · have hnone : requests.reverse.find? (·.obj_id = id) = none := by
      rw [find?_eq_none]
      intro x hx hid
      exact hmem (mem_map.2 ⟨x, by simpa using hx, by simpa using hid⟩)
    simp [hnone, hreq]

theorem last_sizes_cons (req : BinaryRequest) (requests : List BinaryRequest) :
    ∑ id ∈ ((req :: requests).map (·.obj_id)).toFinset, last_size (req :: requests) id =
      ∑ id ∈ (requests.map (·.obj_id)).toFinset, last_size requests id +
        if req.obj_id ∈ requests.map (·.obj_id) then 0 else req.obj_size := by
  have hold : ∑ id ∈ (requests.map (·.obj_id)).toFinset, last_size (req :: requests) id =
      ∑ id ∈ (requests.map (·.obj_id)).toFinset, last_size requests id := by
    apply Finset.sum_congr rfl
    intro id hid
    rw [last_size_cons, if_pos (mem_toFinset.1 hid)]
  rw [map_cons, toFinset_cons]
  split_ifs with hmem
  · rw [Finset.insert_eq_self.2 (mem_toFinset.2 hmem), hold, add_zero]
  · rw [Finset.sum_insert (mt mem_toFinset.1 hmem), hold, last_size_cons, if_neg hmem, if_pos rfl, add_comm]

theorem Describes.converted {s s' : Conversion} (h : Describes s.stat requests) (hconv : Converted v s req s')
    (hseen : s.next req.obj_id = none ↔ req.obj_id ∉ requests.map (·.obj_id))
    (hend : ∀ r ∈ (req :: requests).getLast?, s.stat.end_timestamp = r.clock_time) : Describes s'.stat (req :: requests) := by
  refine ⟨?_, ?_, ?_, ?_, ?_, ?_⟩
  · rw [hconv.n_req, h.n_req, length_cons]
    rfl
  · rw [hconv.n_obj, h.n_obj, map_cons, toFinset_cons]
    split_ifs with hnone
    · rw [Finset.card_insert_of_notMem (mt mem_toFinset.1 (hseen.1 hnone))]
      rfl
    · rw [Finset.insert_eq_self.2 (mem_toFinset.2 (not_not.1 (mt hseen.2 hnone))), add_zero]
  · rw [hconv.n_req_byte, h.n_req_byte, map_cons, sum_cons, add_comm]
  · rw [hconv.n_obj_byte, h.n_obj_byte, last_sizes_cons]
    split_ifs with hnone hmem hmem
    · exact absurd hmem (hseen.1 hnone)
    · rfl
    · rfl
    · exact absurd (hseen.2 hmem) hnone
  · intro r hr
    cases hr
    exact hconv.start_timestamp
  · intro r hr
    rw [hconv.end_timestamp]
    exact hend r hr

/-! ## The next accesses -/

variable {k : Nat}

theorem annotated_drop (hk : k < requests.length) : (annotated requests).drop k =
    { requests[k] with next_access_vtime := next_vtime (requests.map (·.obj_id)) k } :: (annotated requests).drop (k + 1) := by
  have hlen : k < (annotated requests).length := by rwa [annotated, length_mapIdx]
  rw [drop_eq_getElem_cons hlen]
  simp only [annotated, getElem_mapIdx]

theorem next_vtime_eq (hk : k < requests.length) {seen : Nat → Option Int}
    (hseen : Seen id ((requests.drop (k + 1)).map (·.obj_id)) (k + 2) seen) :
    next_vtime (requests.map (·.obj_id)) k = (seen requests[k].obj_id).getD MAX_REUSE_DISTANCE := by
  unfold next_vtime next_use
  rw [hseen, getElem?_map, getElem?_eq_getElem hk, map_some, bind_some, ← map_drop, id]
  cases first_use ((requests.drop (k + 1)).map (·.obj_id)) requests[k].obj_id with
  | none => rfl
  | some j =>
    simp only [map_some, elim_some, getD_some]
    omega

/-- The state of the pass before request `k`, when the requests from there on are done. -/
structure Passed (v : Nat) (requests : List BinaryRequest) (k : Nat) (s : Conversion) : Prop where
  version : s.stat.version = 1
  describes : Describes s.stat (requests.drop k)
  end_timestamp : ∀ req ∈ requests.getLast?, s.stat.end_timestamp = req.clock_time
  ops : 0 ≤ s.stat.n_read ∧ 0 ≤ s.stat.n_write ∧ 0 ≤ s.stat.n_delete ∧
    s.stat.n_read + s.stat.n_write + s.stat.n_delete ≤ s.stat.n_req
  seen : Seen id ((requests.drop k).map (·.obj_id)) (k + 1) fun id => (s.next id).map (requests.length - ·)
  reverse : ∃ reqs : List BinaryRequest, s.reverse = (reqs.map (entry v)).flatten ∧
    reqs.reverse.map (turned requests.length) = (annotated requests).drop k ∧ ∀ req ∈ reqs, (lcs_req_of_request req).Fits

theorem passed_start {t : Int} (hend : ∀ req ∈ requests.getLast?, t = req.clock_time) :
    Passed v requests requests.length { stat := { end_timestamp := t } } := by
  have hdone : requests.drop requests.length = [] := drop_length
  refine ⟨rfl, ?_, hend, ⟨le_rfl, le_rfl, le_rfl, le_rfl⟩, ?_, ⟨[], rfl, ?_, by simp⟩⟩
  · rw [hdone]
    exact ⟨rfl, rfl, rfl, rfl, by simp, by simp⟩
  · rw [hdone]
    exact seen_nil id _
  · rw [drop_eq_nil_of_le (by simp [annotated])]
    rfl

theorem Passed.entry_turned (h : Passed v requests (k + 1) s) (hk : k < requests.length)
    (hn : (requests.length : Int) < 2 ^ 63) :
    IsInt64 ((s.next requests[k].obj_id).getD INT64_MAX) ∧
      turned requests.length { requests[k] with next_access_vtime := (s.next requests[k].obj_id).getD INT64_MAX } =
        { requests[k] with next_access_vtime := next_vtime (requests.map (·.obj_id)) k } := by
  have hseen := h.seen
  rw [next_vtime_eq hk hseen]
  have hid : (s.next requests[k].obj_id).map ((requests.length : Int) - ·) =
      (first_use ((requests.drop (k + 1)).map (·.obj_id)) requests[k].obj_id).map fun j : Nat => (k : Int) + 2 + j := hseen _
  unfold turned
  cases hnext : s.next requests[k].obj_id with
  | none =>
    refine ⟨by decide, ?_⟩
    rfl
  | some x =>
    rw [hnext] at hid
    obtain ⟨j, hj, hx⟩ := Option.map_eq_some_iff.1 hid.symm
    have hlt := (List.getElem?_eq_some_iff.1 (first_use_eq_some hj)).1
    rw [length_map, length_drop] at hlt
    have hlast : (k : Int) + 2 + j = requests.length - x := hx
    rw [getD_some, map_some, getD_some]
    refine ⟨⟨by omega, by omega⟩, ?_⟩
    rw [if_pos (by show x ≠ INT64_MAX; unfold INT64_MAX; omega)]

theorem Passed.step (h : Passed v requests (k + 1) s) (hk : k < requests.length)
    (hfits : requests[k].Fits v) (hn : (requests.length : Int) < 2 ^ 63) :
    ∃ s', convert_req v false requests.length s requests[k] = some s' ∧ Passed v requests k s' := by
  have hlen := h.describes.n_req
  rw [length_drop] at hlen
  have hroom : s.stat.n_req + 1 ≤ (requests.length : Int) * 2 := by omega
  obtain ⟨s', hstep, hconv⟩ := convert_req_ok hroom requests[k]
  obtain ⟨hnext, hturned⟩ := h.entry_turned hk hn
  have hdrop : requests.drop k = requests[k] :: requests.drop (k + 1) := drop_eq_getElem_cons hk
  refine ⟨s', hstep, hconv.version.trans h.version, ?_, ?_, ?_, ?_, ?_⟩
  · rw [hdrop]
    apply h.describes.converted hconv
    · rw [← first_use_eq_none, ← Option.map_eq_none_iff (f := ((requests.length : Int) - ·)),
        ← Option.map_eq_none_iff (f := fun j : Nat => ((k + 1 : Nat) : Int) + 1 + j)]
      exact Eq.congr_left (h.seen _)
    · intro r hr
      rw [← hdrop, getLast?_drop, if_neg (by omega)] at hr
      exact h.end_timestamp r hr
  · intro r hr
    rw [hconv.end_timestamp]
    exact h.end_timestamp r hr
  · obtain ⟨a, b, c, ha, hb, hc, habc, hread, hwrite, hdelete⟩ := hconv.ops
    obtain ⟨hr, hw, hd, hsum⟩ := h.ops
    rw [hread, hwrite, hdelete, hconv.n_req]
    omega
  · have hseen := h.seen
    have hupdate : (fun id => (s'.next id).map ((requests.length : Int) - ·)) =
        update (fun id => (s.next id).map ((requests.length : Int) - ·)) requests[k].obj_id (some ((k : Int) + 1)) := by
      funext id
      rw [hconv.next, update_apply, update_apply]
      split_ifs with hid
      · rw [map_some]
        congr 1
        omega
      · rfl
    rw [hdrop, map_cons, hupdate]
    exact hseen.cons Function.injective_id requests[k].obj_id
  · obtain ⟨reqs, hreverse, hann, hreqs⟩ := h.reverse
    refine ⟨reqs ++ [{ requests[k] with next_access_vtime := (s.next requests[k].obj_id).getD INT64_MAX }], ?_, ?_, ?_⟩
    · rw [hconv.reverse, hreverse]
      simp
    · rw [reverse_concat, map_cons, hturned, hann, annotated_drop hk]
    · intro req hreq
      rcases mem_append.1 hreq with hold | hnew
      · exact hreqs req hold
      · rw [mem_singleton.1 hnew]
        exact (hfits.with_next _).full hnext

theorem passed_run {t : Int} (hend : ∀ req ∈ requests.getLast?, t = req.clock_time) (hfits : ∀ req ∈ requests, req.Fits v)
    (hn : (requests.length : Int) < 2 ^ 63) : ∃ s, runs (convert_req v false requests.length) { stat := { end_timestamp := t } }
      requests.reverse = some s ∧ Passed v requests 0 s := by
  suffices hfrom : ∀ m k, k + m = requests.length → ∃ s, runs (convert_req v false requests.length)
      { stat := { end_timestamp := t } } (requests.drop k).reverse = some s ∧ Passed v requests k s by
    simpa using hfrom requests.length 0 (by omega)
  intro m
  induction m with
  | zero =>
    rintro k rfl
    refine ⟨_, ?_, passed_start hend⟩
    rw [drop_eq_nil_of_le (by omega)]
    rfl
  | succ m ih =>
    intro k hk
    have hlt : k < requests.length := by omega
    obtain ⟨s, hrun, hpassed⟩ := ih (k + 1) (by omega)
    obtain ⟨s', hstep, hpassed'⟩ := hpassed.step hlt (hfits _ (getElem_mem hlt)) hn
    refine ⟨s', ?_, hpassed'⟩
    rw [drop_eq_getElem_cons hlt, reverse_cons, runs_append, hrun, bind_some, runs_cons, hstep]
    rfl

/-! ## The file -/

theorem last_sizes_le (h : ∀ req ∈ requests, 0 < req.obj_size) :
    0 ≤ ∑ id ∈ (requests.map (·.obj_id)).toFinset, last_size requests id ∧
      ∑ id ∈ (requests.map (·.obj_id)).toFinset, last_size requests id ≤ (requests.map (·.obj_size)).sum ∧
      (requests.length : Int) ≤ (requests.map (·.obj_size)).sum := by
  induction requests with
  | nil => simp
  | cons req requests ih =>
    obtain ⟨hlo, hhi, hlen⟩ := ih fun x hx => h x (by simp [hx])
    have hpos := h req (by simp)
    rw [last_sizes_cons, map_cons, sum_cons, length_cons]
    split_ifs <;> omega

theorem Passed.stat_fits (h : Passed v requests 0 s) (hfits : ∀ req ∈ requests, req.Fits v) (hne : requests ≠ [])
    (hsum : (requests.map (·.obj_size)).sum < 2 ^ 63) {analysis : Bytes} (hanalysis : analysis.length = 7920) :
    LcsStat.Fits { s.stat with analysis := analysis } := by
  have hdescribes := h.describes
  rw [drop_zero] at hdescribes
  obtain ⟨hlo, hhi, hlen⟩ := last_sizes_le fun req hreq => (hfits req hreq).obj_size.1
  have hcard := toFinset_card_le (requests.map (·.obj_id))
  rw [length_map] at hcard
  have hn_req := hdescribes.n_req
  have hn_obj := hdescribes.n_obj
  have hn_req_byte := hdescribes.n_req_byte
  have hn_obj_byte := hdescribes.n_obj_byte
  obtain ⟨hr, hw, hd, hops⟩ := h.ops
  have htime : ∀ req ∈ requests, IsInt64 req.clock_time := by
    intro req hreq
    obtain ⟨hlo, hhi⟩ := (hfits req hreq).clock_time
    exact ⟨by omega, by omega⟩
  refine ⟨by rw [h.version]; decide, ⟨?_, ?_⟩, ⟨?_, ?_⟩, ⟨?_, ?_⟩, ⟨?_, ?_⟩, ?_, ?_, ⟨?_, ?_⟩, ⟨?_, ?_⟩, ⟨?_, ?_⟩, hanalysis⟩
  case refine_9 =>
    rw [hdescribes.start_timestamp _ (head?_eq_some_head hne)]
    exact htime _ (head_mem hne)
  case refine_10 =>
    rw [h.end_timestamp _ (getLast?_eq_some_getLast hne)]
    exact htime _ (getLast_mem hne)
  all_goals
    dsimp only
    omega

theorem setup_written {stat : LcsStat} {size : Nat} (zero obj : Bool) (body : Bytes) (hstat : stat.Fits) (hreq : 0 < stat.n_req)
    (hobj : 0 ≤ stat.n_obj) (hsize : lcs_item_size v = some size) (hv : v < 2 ^ 64) :
    setup_reader .lcs zero obj (_write_lcs_header v stat ++ body) = some
      { mapped_file := _write_lcs_header v stat ++ body, trace_type := .lcs, lcs_ver := v, mmap_offset := lcs_trace_header_size
        item_size := size, trace_start_offset := lcs_trace_header_size, n_total_req := stat.n_req, ignore_size_zero_req := zero
        ignore_obj_size := obj, read_direction := .forward } := by
  have hlen : (_write_lcs_header v stat).length = lcs_trace_header_size := length_lcs_header v hstat.analysis
  have hfile : (_write_lcs_header v stat ++ body).length = lcs_trace_header_size + body.length := by
    rw [length_append, hlen]
  have hpos : 0 < lcs_trace_header_size := by decide
  have hverify : _verify_lcs_header (lcs_header_of_bytes (_write_lcs_header v stat)) = true := by
    rw [lcs_header_of_fields hstat hv]
    simp [_verify_lcs_header]
    omega
  have hdata : (_write_lcs_header v stat ++ body).take lcs_trace_header_size = _write_lcs_header v stat := by
    rw [← hlen, take_left]
  unfold setup_reader
  rw [if_neg (by rw [← length_eq_zero_iff, hfile]; omega)]
  unfold lcsReader_setup read_bytes Reader.file_size
  dsimp only
  rw [if_neg (by omega), if_pos (by omega), drop_zero, hdata]
  simp only [bind, bind_some, hverify, guard, if_true, pure]
  rw [lcs_header_of_fields hstat hv]
  simp only [hsize, bind_some, map_some, count_records, hreq.ne', if_false, Nat.zero_add]

theorem next_vtime_ok (hn : (requests.length : Int) < 2 ^ 63) (i : Nat) :
    IsInt64 (next_vtime (requests.map (·.obj_id)) i) ∧ next_vtime (requests.map (·.obj_id)) i ≠ -1 := by
  unfold next_vtime
  cases h : next_use (requests.map (·.obj_id)) i with
  | none => exact ⟨by decide, by decide⟩
  | some q =>
    have hlt := (next_use_bound h).2
    rw [length_map] at hlt
    exact ⟨⟨by dsimp only [elim_some]; omega, by dsimp only [elim_some]; omega⟩, by dsimp only [elim_some]; omega⟩

theorem reads_written {r : Reader} (h : Laid r (requests.map (written v))) (hstart : r.mmap_offset = r.trace_start_offset)
    (htype : r.trace_type = .lcs) (hver : r.lcs_ver = v) (hv : 1 ≤ v) (hsize : r.ignore_obj_size = false)
    (hok : ∀ req ∈ requests, req.Fits v ∧ IsInt64 req.next_access_vtime ∧ req.next_access_vtime ≠ -1) (old : BinaryRequest) :
    Reads (deliver read_one_req) (r, old) (requests.map (stored v)) := by
  have hat : r.at 0 = r := by
    have hoffset : r.trace_start_offset + 0 * r.item_size = r.mmap_offset := by omega
    rw [Reader.at, hoffset]
  have hfields : r.fields = lcs_fields v := by
    unfold Reader.fields
    rw [htype, hver]
  have hstored : ∀ req ∈ requests, ∀ old, stored v (r.fields (written v req) old) = stored v req := by
    intro req hreq old
    obtain ⟨hfits, hnext, hne⟩ := hok req hreq
    rw [hfields, stored_written hfits hv hnext hne]
  have hraw : r.Raw (requests.map (written v)) := by
    intro record hrecord old
    obtain ⟨req, hreq, rfl⟩ := mem_map.1 hrecord
    -- the size is the third field
    have hthird : (r.fields (written v req) old).obj_size = req.obj_size := congrArg (·.getD 2 0) (hstored req hreq old)
    have hpos := (hok req hreq).1.obj_size.1
    simp [Reader.skips, hthird, hpos.ne']
  have hreads := reads_forward h hraw old
  rw [hat, map_map] at hreads
  rw [map_congr_left (g := r.delivers ∘ written v)]
  · exact hreads
  · intro req hreq
    unfold Function.comp Reader.delivers Reader.shown
    rw [hsize, if_neg (by simp), hver, hstored req hreq]

theorem convert_ok (_analyze_trace : Analysis) (hv : 1 ≤ v ∧ v ≤ 8) (hne : requests ≠ []) (hfits : ∀ req ∈ requests, req.Fits v)
    (hsum : (requests.map (·.obj_size)).sum < 2 ^ 63) : ∃ stat : LcsStat, stat.Fits ∧ Describes stat requests ∧
      convert_to_lcs _analyze_trace requests.length false v requests.reverse =
        some (_write_lcs_header v stat ++ ((annotated requests).map (written v)).flatten) := by
  have hn : (requests.length : Int) < 2 ^ 63 := (last_sizes_le fun req hreq => (hfits req hreq).obj_size.1).2.2.trans_lt hsum
  obtain ⟨s, hrun, hpassed⟩ := passed_run (t := (requests.getLast hne).clock_time)
    (by simp [getLast?_eq_some_getLast hne]) hfits hn
  have hdescribes := hpassed.describes
  rw [drop_zero] at hdescribes
  obtain ⟨reqs, hreverse, hann, hfull⟩ := hpassed.reverse
  obtain ⟨analysis, hanalysis⟩ : ∃ a, a = (_analyze_trace s.stat s.obj_map s.tenant_cnt s.ttl_cnt).1 := ⟨_, rfl⟩
  refine ⟨{ s.stat with analysis := analysis }, hpassed.stat_fits hfits hne hsum
    (hanalysis ▸ (_analyze_trace s.stat s.obj_map s.tenant_cnt s.ttl_cnt).2),
    { hdescribes with }, ?_⟩
  have hfuel : reqs.length < s.reverse.length + 1 := by
    have hlength : (reqs.map (entry v)).flatten.length = (reqs.map (entry v)).length * entry_size v :=
      length_flatten_eq (by simp [length_entry])
    rw [hreverse, hlength, length_map]
    have : reqs.length * 1 ≤ reqs.length * entry_size v := Nat.mul_le_mul_left _ (by unfold entry_size lcs_full_req_entry_size; omega)
    omega
  have hrecords : (reqs.reverse.map fun req => written v (turned s.stat.n_req req)) = (annotated requests).map (written v) := by
    rw [drop_zero] at hann
    rw [← hann, map_map, hdescribes.n_req]
    rfl
  have hturn : ∀ header, reverse_records v s.stat.n_req ((reqs.map (entry v)).flatten ++ []) (s.reverse.length + 1)
      (reqs.map (entry v)).flatten.length header = _ := reverse_records_eq hfull [] hfuel
  rw [append_nil, ← hreverse, hrecords] at hturn
  unfold convert_to_lcs _reverse_file
  rw [head?_reverse, getLast?_eq_some_getLast hne]
  simp only [bind, bind_some, hrun, guard, if_pos hdescribes.n_req, pure]
  rw [if_neg (by omega), ← hanalysis, hturn]

/-- Reading the file that is written for a trace delivers the fields that the version has, each next access
counted from the start of the trace, and its header describes the trace. -/
theorem lcs_round_trip (_analyze_trace : Analysis) (lcs_ver : Nat) (requests : List BinaryRequest) (zero : Bool)
    (hver : 1 ≤ lcs_ver ∧ lcs_ver ≤ 8) (hne : requests ≠ []) (hfits : ∀ req ∈ requests, req.Fits lcs_ver)
    (hsum : (requests.map (·.obj_size)).sum < 2 ^ 63) :
    ∃ file r stat, convert_to_lcs _analyze_trace requests.length false lcs_ver requests.reverse = some file ∧
      setup_reader .lcs zero false file = some r ∧ r.lcs_ver = lcs_ver ∧
      (∀ old, Reads (deliver read_one_req) (r, old) ((annotated requests).map (stored lcs_ver))) ∧
      (lcs_header_of_bytes (file.take lcs_trace_header_size)).stat = stat ∧ Describes stat requests := by
  obtain ⟨stat, hstat, hdescribes, hconvert⟩ := convert_ok _analyze_trace hver hne hfits hsum
  obtain ⟨size, hsize⟩ : ∃ size, lcs_item_size lcs_ver = some size := by
    have hsome : ∀ v ≤ 8, 1 ≤ v → (lcs_item_size v).isSome := by decide
    exact Option.isSome_iff_exists.1 (hsome lcs_ver hver.2 hver.1)
  have hlength := (last_sizes_le fun req hreq => (hfits req hreq).obj_size.1).2.2
  have hpos := length_pos_iff.2 hne
  have hreq : 0 < stat.n_req := by
    rw [hdescribes.n_req]
    omega
  have hobj : 0 ≤ stat.n_obj := by
    rw [hdescribes.n_obj]
    omega
  have hsetup := setup_written zero false ((annotated requests).map (written lcs_ver)).flatten hstat hreq hobj hsize (by omega)
  have hheader := length_lcs_header lcs_ver hstat.analysis
  refine ⟨_, _, stat, hconvert, hsetup, rfl, ?_, ?_, hdescribes⟩
  · have hrecords : ∀ record ∈ (annotated requests).map (written lcs_ver), record.length = size := by
      intro record hrecord
      obtain ⟨req, -, rfl⟩ := mem_map.1 hrecord
      exact length_written hsize req
    apply reads_written _ rfl rfl rfl hver.1 rfl
    · intro req hmem
      obtain ⟨i, hi, rfl⟩ := mem_mapIdx.1 hmem
      exact ⟨(hfits _ (getElem_mem hi)).with_next _, next_vtime_ok (by omega) i⟩
    · exact { typed := ⟨hsize, rfl⟩, file := ⟨_, hheader, rfl⟩, sizes := hrecords, pos := item_size_pos hsize }
  · rw [← hheader, take_left, lcs_header_of_fields hstat (by omega)]

def three_requests : List BinaryRequest :=
  [{ clock_time := 10, obj_id := 7, obj_size := 30, op := OP_GET, tenant_id := 1, ttl := -1, features := [5] },
    { clock_time := 11, obj_id := 8, obj_size := 40, op := OP_SET, tenant_id := 2, features := [6] },
    { clock_time := 12, obj_id := 7, obj_size := 50, op := OP_GET, tenant_id := 1, features := [-5] }]

example : (annotated three_requests).map (·.next_access_vtime) = [3, MAX_REUSE_DISTANCE, MAX_REUSE_DISTANCE] := by decide

theorem lcs_round_trip_of_three : ∃ file r stat,
    convert_to_lcs (fun _ _ _ _ => ⟨List.replicate 7920 0, length_replicate⟩)
      three_requests.length false 4 three_requests.reverse = some file ∧
      setup_reader .lcs true false file = some r ∧ r.lcs_ver = 4 ∧
      (∀ old, Reads (deliver read_one_req) (r, old) ((annotated three_requests).map (stored 4))) ∧
      (lcs_header_of_bytes (file.take lcs_trace_header_size)).stat = stat ∧ Describes stat three_requests := by
  refine lcs_round_trip _ 4 three_requests true (by decide) (by decide) ?_ (by decide)
  simp only [three_requests, forall_mem_cons]
  refine ⟨?_, ?_, ?_, by simp⟩
  all_goals
    constructor
    all_goals decide

end CacheSim.Binary
