import CacheSim.Readers.Csv

/-!
# One line back in a text trace (`go_back_one_req`, `reader_set_read_pos`, `read_last_req` of `traceReader/reader.c`)

The file is searched from the position back, a chunk at a time. The end of each chunk is not looked at, and the
next chunk begins one byte lower than the last one did. `none` is a write in front of the buffer, or a search
that has not ended within its fuel.
-/

namespace CacheSim.Readers

open Lib Binary List

def PER_SEEK_SIZE : Nat := 256

def strrchr (c : UInt8) : Bytes → Option Nat
  | [] => none
  | x :: s =>
    match strrchr c s with
    | some i => some (i + 1)
    | none => if x = c then some 0 else none

def fseek_back (pos n : Nat) : Nat := if n ≤ pos then pos - n else pos

/-- The loop of `go_back_one_req`, `total` being `total_seek_size`; the value returned is true when the function returns 0. -/
def search_back (file : Bytes) (trace_start_offset max_seek_size : Nat) : Nat → Nat → Nat → Option (Nat × Bool)
  | 0, _, _ => none
  | fuel + 1, pos, total =>
    if total < max_seek_size then
      let seek_size := min PER_SEEK_SIZE (max_seek_size - total)
      let base := fseek_back pos seek_size
      let line_buf := (file.drop base).take (seek_size - 1)
      let pos := base + line_buf.length
      -- the last byte that was read makes way for the end of the string
      if line_buf = [] then none
      else
        match strrchr 10 (c_str line_buf.dropLast) with
        | some i => some (fseek_back pos (seek_size - (i + 2)), true)
        | none =>
          if seek_size < PER_SEEK_SIZE then some (trace_start_offset, true)
          else if total + seek_size < max_seek_size then
            search_back file trace_start_offset max_seek_size fuel (fseek_back pos PER_SEEK_SIZE) (total + seek_size)
          else some (pos, false)
    else some (pos, false)

def go_back_one_req (file : Bytes) (trace_start_offset pos : Nat) : Option (Nat × Bool) :=
  if pos ≤ trace_start_offset then some (pos, false)
  else search_back file trace_start_offset (pos - trace_start_offset) (pos + 1) pos 0

/-- The loop of `reader_set_read_pos(reader, 1.0)` over the white space at the end; `c` was read last. -/
def back_over_space (file : Bytes) : Nat → Nat → UInt8 → Option Nat
  | 0, _, _ => none
  | fuel + 1, pos, c =>
    if isspace c then
      let pos := fseek_back pos 2
      match file[pos]? with
      | some c => back_over_space file fuel (pos + 1) c
      | none => back_over_space file fuel pos c
    else some pos

def set_read_pos_end (file : Bytes) : Option Nat := do
  let c ← file.getLast?
  back_over_space file (file.length + 1) file.length c

def read_last_line (file : Bytes) (trace_start_offset : Nat) : Option Bytes := do
  let pos ← set_read_pos_end file
  let (pos, _) ← go_back_one_req file trace_start_offset pos
  getline (file.drop pos)

/-- The line that holds the byte before a position starts at `L`. -/
structure LineBefore (file : Bytes) (start pos L : Nat) : Prop where
  le : start ≤ L
  lt : L < pos
  newline : start < L → file[L - 1]? = some 10
  line : ∀ i, L ≤ i → i + 1 < pos → file[i]? ≠ some 10

def chunks_before (pos L : Nat) : Nat := (pos - L + 1) / 257

/-- The search comes to the start of the line: it reads the newline before it, in a chunk that lies in the file, or the first
line is the one that is looked for, and the last chunk is neither full nor a single byte. -/
def Found (start pos L : Nat) : Prop :=
  3 ≤ (pos - L + 1) % 257 ∧ (start < L ∨ 0 < start ∧ 1 ≤ chunks_before pos L) ∧
      257 * chunks_before pos L + min 256 (pos - start - 256 * chunks_before pos L) ≤ pos ∨
    L = start ∧ 2 ≤ pos - start ∧ pos - start < 256 ∨
    L = 0 ∧ start = 0 ∧ 2 ≤ pos % 256

/-- The line is shorter than a chunk, or it is not the first and no chunk can begin before the file. -/
def Near (start pos L : Nat) : Prop := pos - L < 256 ∨ start < L ∧ pos - start ≤ 256 * start

/-! ## One chunk -/

section

variable {file : Bytes} {start most fuel pos total : Nat} {c : UInt8} {s : Bytes} {base n L p q : Nat}

theorem strrchr_none (h : ∀ i : Nat, s[i]? ≠ some c) : strrchr c s = none := by
  induction s with
  | nil => rfl
  | cons x s ih =>
    rw [strrchr, ih fun i => h (i + 1)]
    exact if_neg fun hx => h 0 (congrArg some hx)

theorem strrchr_some {i : Nat} (hi : s[i]? = some c) (hlast : ∀ j, i < j → s[j]? ≠ some c) : strrchr c s = some i := by
  induction s generalizing i with
  | nil => simp at hi
  | cons x s ih =>
    cases i with
    | zero =>
      rw [strrchr, strrchr_none fun j => hlast (j + 1) (by omega)]
      exact if_pos (by simpa using hi)
    | succ i => rw [strrchr, ih hi fun j hj => hlast (j + 1) (by omega)]

theorem strrchr_mem {i : Nat} (h : strrchr c s = some i) : s[i]? = some c := by
  induction s generalizing i with
  | nil => cases h
  | cons x s ih =>
    rw [strrchr] at h
    cases hs : strrchr c s with
    | some j =>
      rw [hs] at h
      cases h
      exact ih hs
    | none =>
      rw [hs] at h
      split_ifs at h with hx
      cases h
      rw [hx]
      rfl

def window (file : Bytes) (base seek_size : Nat) : Bytes := c_str ((file.drop base).take (seek_size - 1)).dropLast

theorem window_get (htext : 0 ∉ file) (hlen : base + n ≤ file.length) (i : Nat) :
    (window file base n)[i]? = if i + 2 < n then file[base + i]? else none := by
  have hstr : window file base n = ((file.drop base).take (n - 1)).dropLast := by
    unfold window c_str
    rw [takeWhile_eq_self_iff]
    intro c hc
    have hmem : c ∈ file := mem_of_mem_drop (mem_of_mem_take (mem_of_mem_dropLast hc))
    simpa using fun h : c = 0 => htext (h ▸ hmem)
  have hsub : min (n - 1) (file.length - base) - 1 = n - 2 := by omega
  rw [hstr, dropLast_eq_take, take_take, length_take, length_drop, hsub, getElem?_take, getElem?_drop]
  split_ifs <;> first | rfl | omega

theorem fseek_back_of_le (h : n ≤ pos) : fseek_back pos n = pos - n := if_pos h

theorem line_buf_ne_nil (hn : 2 ≤ n) (hlen : base + n ≤ file.length) : (file.drop base).take (n - 1) ≠ [] := by
  apply ne_nil_of_length_pos
  rw [length_take, length_drop]
  omega

theorem search_back_succ (htotal : total < most) (hn : n = min 256 (most - total)) (hbase : base = fseek_back pos n)
    (hone : 2 ≤ n) (hlen : base + n ≤ file.length) :
    search_back file start most (fuel + 1) pos total =
      match strrchr 10 (window file base n) with
      | some i => some (fseek_back (base + (n - 1)) (n - (i + 2)), true)
      | none =>
        if n < 256 then some (start, true)
        else if total + n < most then search_back file start most fuel (fseek_back (base + (n - 1)) 256) (total + n)
        else some (base + (n - 1), false) := by
  have hread : ((file.drop base).take (n - 1)).length = n - 1 := by
    rw [length_take, length_drop]
    omega
  rw [search_back, if_pos htotal]
  simp only [PER_SEEK_SIZE, ← hn, ← hbase, if_neg (line_buf_ne_nil hone hlen), hread]
  rfl

section

variable (htext : 0 ∉ file)
include htext

theorem search_back_hit (htotal : total < most) {x : Nat} (hn : n = min 256 (most - total))
    (hbase : base = fseek_back pos n) (hlen : base + n ≤ file.length) (hle : base ≤ x) (hlt : x + 2 < base + n)
      (hx : file[x]? = some 10)
    (hline : ∀ i, x < i → i + 2 < base + n → file[i]? ≠ some 10) :
    search_back file start most (fuel + 1) pos total = some (x + 1, true) := by
  have hlast : strrchr 10 (window file base n) = some (x - base) := by
    apply strrchr_some
    · rw [window_get htext hlen, if_pos (by omega), show base + (x - base) = x by omega]
      exact hx
    · intro j hj
      rw [window_get htext hlen]
      split_ifs with hin
      · exact hline _ (by omega) (by omega)
      · simp
  rw [search_back_succ htotal hn hbase (by omega) hlen, hlast]
  dsimp only
  rw [fseek_back_of_le (by omega), show base + (n - 1) - (n - (x - base + 2)) = x + 1 by omega]

theorem window_none (hlen : base + n ≤ file.length)
    (hline : ∀ i, base ≤ i → i + 2 < base + n → file[i]? ≠ some 10) : strrchr 10 (window file base n) = none := by
  apply strrchr_none
  intro i
  rw [window_get htext hlen]
  split_ifs with hin
  · exact hline _ (by omega) (by omega)
  · simp

theorem search_back_full (hlen : pos ≤ file.length) (hline : ∀ i, L ≤ i → i + 1 < pos → file[i]? ≠ some 10)
    (t : Nat) (hmore : 256 * t < most) (hpos : 257 * t + L ≤ pos + 1) (hroom : 257 * t ≤ pos) :
    search_back file start most (fuel + t) pos 0 = search_back file start most fuel (pos - 257 * t) (256 * t) := by
  induction t generalizing fuel with
  | zero => rfl
  | succ t ih =>
    rw [show fuel + (t + 1) = fuel + 1 + t by omega, ih (by omega) (by omega) (by omega)]
    have hbase : pos - 257 * t - 256 = fseek_back (pos - 257 * t) 256 := (fseek_back_of_le (by omega)).symm
    have hnone : strrchr 10 (window file (pos - 257 * t - 256) 256) = none :=
      window_none htext (by omega) fun i hi hlt => hline i (by omega) (by omega)
    have hsize : 256 = min 256 (most - 256 * t) := by omega
    have hnext : pos - 257 * t - 256 + (256 - 1) - 256 = pos - 257 * (t + 1) := by
      clear * - hroom
      omega
    rw [search_back_succ (by omega) hsize hbase (by omega) (by omega), hnone]
    rw [if_neg (by omega), if_pos (by omega), fseek_back_of_le (by omega), hnext]
    rfl

theorem search_back_chunk (hlen : pos ≤ file.length) (hL : LineBefore file start pos L)
    (hstart : 0 < start → file[start - 1]? = some 10) (hgap : 3 ≤ (pos - L + 1) % 257)
    (hlater : start < L ∨ 0 < start ∧ 1 ≤ chunks_before pos L)
    (hroom : 257 * chunks_before pos L + min 256 (pos - start - 256 * chunks_before pos L) ≤ pos)
      (hfuel : chunks_before pos L < fuel) :
    search_back file start (pos - start) fuel pos 0 = some (L, true) := by
  obtain ⟨hle, -, hnewline, hline⟩ := hL
  have hdiv := Nat.div_add_mod (pos - L + 1) 257
  have hmod := Nat.mod_lt (pos - L + 1) (show 257 > 0 by decide)
  unfold chunks_before at *
  generalize (pos - L + 1) / 257 = t at *
  generalize (pos - L + 1) % 257 = d at *
  obtain ⟨rest, rfl⟩ : ∃ rest, fuel = rest + 1 + t := ⟨fuel - t - 1, by omega⟩
  rw [search_back_full htext hlen hline t (by omega) (by omega) (by omega)]
  have hx : file[L - 1]? = some 10 := by
    rcases hle.eq_or_lt with rfl | hlt'
    · exact hstart (by omega)
    · exact hnewline hlt'
  have hbase : pos - 257 * t - min 256 (pos - start - 256 * t) = fseek_back (pos - 257 * t) (min 256 (pos - start - 256 * t)) :=
    (fseek_back_of_le (by omega)).symm
  rw [search_back_hit htext (by omega) rfl hbase (by omega) (x := L - 1) (by omega) (by omega)
    hx fun i hi hi' => hline i (by omega) (by omega),
    show L - 1 + 1 = L by omega]

theorem search_back_none (hlen : p ≤ file.length) (hline : ∀ i, i + 1 < p → file[i]? ≠ some 10)
    (hlast : 2 ≤ p % 256) (htotal : total < p) (hmod : total % 256 = 0) (hpos : total = 0 ∧ pos = p ∨ 256 ≤ total ∧ pos + 257 ≤ p)
    (hfuel : p - total < fuel) : search_back file 0 p fuel pos total = some (0, true) := by
  induction fuel generalizing pos total with
  | zero => omega
  | succ fuel ih =>
    have hbase : fseek_back pos (min 256 (p - total)) + min 256 (p - total) ≤ p := by
      unfold fseek_back
      split_ifs <;> omega
    have hnone : strrchr 10 (window file (fseek_back pos (min 256 (p - total))) (min 256 (p - total))) = none :=
      window_none htext (by omega) fun i hi hlt => hline i (by omega)
    rw [search_back_succ htotal rfl rfl (by omega) (by omega), hnone]
    split_ifs with hshort hmore
    · rfl
    · refine ih hmore (by omega) (.inr ⟨by omega, ?_⟩) (by omega)
      unfold fseek_back
      split_ifs <;> omega
    · omega

theorem search_back_inv (hlen : fseek_back pos (min 256 (most - total)) + min 256 (most - total) ≤ file.length)
    (h : search_back file start most (fuel + 1) pos total = some (q, true)) :
    2 ≤ most - total ∧ (q = start ∨
      (∃ i, fseek_back pos (min 256 (most - total)) ≤ i ∧ i + 2 < fseek_back pos (min 256 (most - total)) + min 256 (most - total) ∧
        q = i + 1) ∨
      256 < most - total ∧ search_back file start most fuel (fseek_back (fseek_back pos 256 + 255) 256)
        (total + 256) = some (q, true)) := by
  by_cases hone : 2 ≤ most - total
  · refine ⟨hone, ?_⟩
    rw [search_back_succ (by omega) rfl rfl (by omega) hlen] at h
    generalize hn : min 256 (most - total) = n at h hlen ⊢
    cases hfound : strrchr 10 (window file (fseek_back pos n) n) with
    | some i =>
      have hi := strrchr_mem hfound
      rw [window_get htext hlen] at hi
      split_ifs at hi with hin
      rw [hfound] at h
      dsimp only at h
      rw [fseek_back_of_le (by omega)] at h
      cases h
      exact .inr (.inl ⟨fseek_back pos n + i, by omega, by omega, by omega⟩)
    | none =>
      rw [hfound] at h
      split_ifs at h with hshort hmore
      · cases h
        exact .inl rfl
      · obtain rfl : n = 256 := by omega
        exact .inr (.inr ⟨by omega, h⟩)
      · cases h
  · have hbuf : (file.drop (fseek_back pos (min PER_SEEK_SIZE (most - total)))).take (min PER_SEEK_SIZE (most - total) - 1) = [] := by
      rw [show min PER_SEEK_SIZE (most - total) - 1 = 0 by unfold PER_SEEK_SIZE; omega, take_zero]
    rw [search_back] at h
    simp only [hbuf] at h
    split_ifs at h
    cases h

section

variable (hlen : p ≤ file.length)
include hlen

theorem search_back_lt
    (hpos : total = 0 ∧ pos = p ∨ 256 ≤ total ∧ pos + 257 ≤ p) (hmost : most ≤ p)
    (h : search_back file start most fuel pos total = some (q, true)) : q = start ∨ q + 2 ≤ p := by
  induction fuel generalizing pos total with
  | zero => cases h
  | succ fuel ih =>
    have hend : fseek_back pos (min 256 (most - total)) + min 256 (most - total) ≤ p := by
      unfold fseek_back
      split_ifs <;> omega
    obtain ⟨-, rfl | ⟨i, -, hlt, rfl⟩ | ⟨hmore, hrest⟩⟩ := search_back_inv htext (by omega) h
    · exact .inl rfl
    · exact .inr (by omega)
    · refine ih (.inr ⟨by omega, ?_⟩) hrest
      unfold fseek_back
      split_ifs <;> omega

theorem search_back_gap (hle : start ≤ p) (hfile : p - start ≤ 256 * start)
    {j : Nat} (hpos : pos = p - 257 * j) (htotal : total = 256 * j) (hj : 256 * j < p - start)
    (h : search_back file start (p - start) fuel pos total = some (q, true)) : q = start ∨ 3 ≤ (p - q + 1) % 257 := by
  induction fuel generalizing pos total j with
  | zero => cases h
  | succ fuel ih =>
    have hbase : fseek_back pos (min 256 (p - start - total)) = pos - min 256 (p - start - total) := fseek_back_of_le (by omega)
    obtain ⟨-, rfl | ⟨i, hi, hlt, rfl⟩ | ⟨hmore, hrest⟩⟩ := search_back_inv htext (by rw [hbase]; omega) h
    · exact .inl rfl
    · exact .inr (by omega)
    · refine ih (j := j + 1) ?_ (by omega) (by omega) hrest
      rw [fseek_back_of_le (show 256 ≤ pos by omega), fseek_back_of_le (by omega)]
      omega

/-! ## The start of the line -/

theorem go_back_of_found (hstart : 0 < start → file[start - 1]? = some 10)
    (hL : LineBefore file start p L) (h : Found start p L) : go_back_one_req file start p = some (L, true) := by
  have hlt : start < p := hL.le.trans_lt hL.lt
  unfold go_back_one_req
  rw [if_neg (by omega)]
  rcases h with ⟨hgap, hlater, hroom⟩ | ⟨rfl, htwo, hshort⟩ | ⟨rfl, rfl, hlast⟩
  · refine search_back_chunk htext hlen hL hstart hgap hlater hroom ?_
    omega
  · have hn : p - L = min 256 (p - L - 0) := by omega
    have hbase : L = fseek_back p (p - L) := by
      rw [fseek_back_of_le (by omega)]
      omega
    rw [search_back_succ (by omega) hn hbase htwo (by omega),
      window_none htext (by omega) fun i hi hi' => hL.line i hi (by omega)]
    exact if_pos hshort
  · exact search_back_none htext hlen (fun i hi => hL.line i (Nat.zero_le i) hi) hlast (by omega) rfl (.inl ⟨rfl, rfl⟩) (by omega)

theorem found_of_go_back (hL : LineBefore file start p L) (hnear : Near start p L)
    (h : go_back_one_req file start p = some (L, true)) : Found start p L := by
  obtain ⟨hle, hlt, -, -⟩ := hL
  unfold go_back_one_req at h
  rw [if_neg (by omega)] at h
  unfold Found chunks_before
  rcases hnear with hshort | ⟨hlater, hfile⟩
  · rcases search_back_lt htext hlen (.inl ⟨rfl, rfl⟩) (by omega) h with heq | htwo
    · have hone := (search_back_inv htext (by rw [fseek_back_of_le (by omega)]; omega) h).1
      omega
    · by_cases heq : L = start
      · omega
      · refine .inl ⟨?_, .inl (by omega), ?_⟩ <;> omega
  · have hgap := (search_back_gap htext hlen (by omega) hfile (j := 0) (by omega) rfl (by omega) h).resolve_left hlater.ne'
    exact .inl ⟨hgap, .inl hlater, by omega⟩

end

end

theorem back_over_space_spec {e : Nat} (hpos : 1 ≤ e) (hc : file[e - 1]? = some c) (hblack : isspace c = false)
    (hwhite : ∀ i c, e ≤ i → file[i]? = some c → isspace c = true) (hle : e ≤ p) {d : UInt8} (hd : file[p - 1]? = some d)
    (hfuel : p - e < fuel) : back_over_space file fuel p d = some e := by
  induction fuel generalizing p d with
  | zero => omega
  | succ fuel ih =>
    rw [back_over_space]
    rcases hle.eq_or_lt with rfl | hlt
    · rw [hc] at hd
      cases hd
      rw [hblack]
      rfl
    · have hlen := (List.getElem?_eq_some_iff.1 hd).1
      have hnext : file[p - 2]? = some file[p - 2] := getElem?_eq_getElem (by omega)
      rw [if_pos (hwhite _ d (by omega) hd), fseek_back_of_le (by omega)]
      simp only [hnext]
      exact ih (by omega) (by rw [show p - 2 + 1 - 1 = p - 2 by omega]; exact hnext) (by omega)

theorem getline_last {text : Bytes} (hne : text ≠ []) (h : ∀ i, i + 1 < text.length → text[i]? ≠ some 10) :
    getline text = some text := by
  have hlen : text.length ≤ (text.takeWhile (· ≠ 10)).length + 1 := by
    clear hne
    induction text with
    | nil => simp
    | cons c text ih =>
      rcases text.eq_nil_or_concat with rfl | ⟨_, _, rfl⟩
      · simp
      · have hc : c ≠ 10 := fun hc => h 0 (by simp) (congrArg some hc)
        rw [takeWhile_cons_of_pos (by simpa using hc), length_cons, length_cons]
        exact Nat.succ_le_succ (ih fun i hi => h (i + 1) (by rw [length_cons]; omega))
  unfold getline
  rw [if_neg hne, take_of_length_le hlen]

end

/-- At or before the start of the trace `go_back_one_req` returns 1. Elsewhere it comes to the start of the line before the position
if `Found`, and for lines that are shorter than a chunk, or where no seek can fail, only if. From behind the last byte that is not white
space, when the last line has one, this leads to the last line. -/
theorem go_back_one_req_iff (file : Bytes) (start : Nat) (htext : 0 ∉ file) (hstart : 0 < start → file[start - 1]? = some 10) :
    (∀ pos ≤ start, go_back_one_req file start pos = some (pos, false)) ∧
    (∀ pos L, pos ≤ file.length → LineBefore file start pos L →
      (Found start pos L → go_back_one_req file start pos = some (L, true)) ∧
      (Near start pos L → go_back_one_req file start pos = some (L, true) → Found start pos L)) ∧
    ∀ L pos c, LineBefore file start file.length L → L < pos → file[pos - 1]? = some c → isspace c = false →
      (∀ i c, pos ≤ i → file[i]? = some c → isspace c = true) → Found start pos L →
        read_last_line file start = some (file.drop L) := by
  refine ⟨fun pos hle => if_pos hle, fun pos L hlen hL => ⟨go_back_of_found htext hlen hstart hL, found_of_go_back htext hlen hL⟩, ?_⟩
  intro L pos c hL hlt hc hblack hwhite hfound
  have hlen := (List.getElem?_eq_some_iff.1 hc).1
  have hend : set_read_pos_end file = some pos := by
    have hlast : file[file.length - 1]? = some file[file.length - 1] := getElem?_eq_getElem (by omega)
    unfold set_read_pos_end
    rw [getLast?_eq_getElem?, hlast]
    exact back_over_space_spec (by omega) hc hblack hwhite (by omega) hlast (by omega)
  have hline : LineBefore file start pos L := ⟨hL.le, hlt, hL.newline, fun i hi hi' => hL.line i hi (by omega)⟩
  have hlast : getline (file.drop L) = some (file.drop L) := by
    refine getline_last (ne_nil_of_length_pos (by rw [length_drop]; omega)) fun i hi => ?_
    rw [length_drop] at hi
    rw [getElem?_drop]
    exact hL.line _ (by omega) (by omega)
  simp only [read_last_line, hend, go_back_of_found htext (by omega) hstart hline hfound, Option.bind_eq_bind, Option.bind_some, hlast]

theorem go_back_of_three : go_back_one_req (ascii "ab\ncd\n") 0 6 = some (3, true) ∧
    read_last_line (ascii "ab\ncd\n") 0 = some (ascii "cd\n") := by
  obtain ⟨-, hback, hlast⟩ := go_back_one_req_iff (ascii "ab\ncd\n") 0 (by decide +kernel) (fun h => absurd h (by decide))
  have hline : LineBefore (ascii "ab\ncd\n") 0 6 3 := ⟨by decide, by decide, fun _ => by decide +kernel, fun i hi hi' => by
    obtain rfl | rfl : i = 3 ∨ i = 4 := by omega
    all_goals decide +kernel⟩
  refine ⟨(hback 6 3 (by decide +kernel) hline).1 (.inl (by decide)), ?_⟩
  refine hlast 3 5 100 hline (by decide) (by decide +kernel) (by decide +kernel) (fun i c hi hc => ?_) (.inl (by decide))
  have hsix : (ascii "ab\ncd\n").length = 6 := by decide +kernel
  have hlt := (List.getElem?_eq_some_iff.1 hc).1
  obtain rfl : i = 5 := by omega
  cases hc
  rfl

/-- A last line of one byte is passed by, at the end of the file without a newline as well as from `reader_set_read_pos` with one. -/
theorem one_byte_line_passed : LineBefore (ascii "ab\nc") 0 4 3 ∧ go_back_one_req (ascii "ab\nc") 0 4 = some (0, true) ∧
    read_last_line (ascii "ab\nc\n") 0 = some (ascii "ab\n") := by
  refine ⟨⟨by decide, by decide, fun _ => by decide +kernel, fun i hi hi' => by omega⟩, by decide +kernel, by decide +kernel⟩

end CacheSim.Readers
