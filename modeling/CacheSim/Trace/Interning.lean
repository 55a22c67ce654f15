import CacheSim.Trace.Model
import CacheSim.Lib.NextUse

/-!
# The numbers of blocks and categories

An interned block stands for the whole path from its root.
-/

namespace CacheSim.Trace

open Lib List

/-! ## Keys in the order of their first appearance -/

section
variable {κ : Type} [DecidableEq κ]

def note (seen : List κ) (key : κ) : List κ := if key ∈ seen then seen else seen ++ [key]

def firsts (l : List κ) : List κ := l.foldl note []

theorem firsts_concat (l : List κ) (x : κ) : firsts (l ++ [x]) = note (firsts l) x := by simp [firsts]

structure Interned (seen : List κ) (ids : Interner κ) : Prop where
  nodup : seen.Nodup
  lookup : ∀ k, ids.lookup k = (first_use seen k).map (· + 1)
  length : ids.entries.length = seen.length

theorem interned_empty : Interned ([] : List κ) ∅ := ⟨nodup_nil, fun _ => rfl, rfl⟩

variable {seen : List κ} {ids : Interner κ}

theorem Interned.intern (h : Interned seen ids) (key : κ) :
    ∃ ids' n, Trace.intern ids key = (ids', n + 1) ∧ Interned (note seen key) ids' ∧ (note seen key)[n]? = some key := by
  unfold Trace.intern note
  rw [h.lookup]
  cases hn : first_use seen key with
  | some n =>
    have hkey := first_use_eq_some hn
    rw [if_pos (mem_of_getElem? hkey)]
    exact ⟨ids, n, rfl, h, hkey⟩
  | none =>
    have hout := first_use_eq_none.1 hn
    rw [if_neg hout]
    refine ⟨ids.insert key (seen.length + 1), seen.length, by simp [h.length], ⟨?_, ?_, ?_⟩, by simp⟩
    · simpa using h.nodup.concat hout
    · intro k
      rw [first_use_concat]
      rcases eq_or_ne k key with rfl | hne
      · simp [hn]
      · rw [AList.lookup_insert_ne hne, h.lookup, if_neg (Ne.symm hne), Option.or_none]
    · have hnot : key ∉ ids := by
        rw [← AList.lookup_eq_none, h.lookup, hn]
        rfl
      rw [AList.entries_insert_of_notMem hnot, length_cons, h.length, length_append, length_singleton]

theorem prefix_note (seen : List κ) (key : κ) : seen <+: note seen key := by
  unfold note
  split_ifs
  · exact prefix_rfl
  · exact prefix_append _ _

omit [DecidableEq κ] in
theorem getElem?_of_le {l l' : List κ} (h : l <+: l') {n : Nat} {x : κ} (hx : l[n]? = some x) : l'[n]? = some x := by
  obtain ⟨t, rfl⟩ := h
  rw [getElem?_append_left (List.getElem?_eq_some_iff.1 hx).1, hx]

omit [DecidableEq κ] in
theorem number_unique (h : seen.Nodup) {m n : Nat} {x : κ} (hm : seen[m]? = some x) (hn : seen[n]? = some x) : m = n :=
  (getElem?_inj (List.getElem?_eq_some_iff.1 hm).1 h).1 (hm.trans hn.symm)

theorem firsts_note {out : List Nat} (hout : firsts out = (List.range seen.length).map (· + 1)) {key : κ} {n : Nat}
    (hn : (note seen key)[n]? = some key) (hnote : (note seen key).Nodup) :
    firsts (out ++ [n + 1]) = (List.range (note seen key).length).map (· + 1) := by
  rw [firsts_concat, hout]
  by_cases hin : key ∈ seen
  · have heq : note seen key = seen := if_pos hin
    rw [heq] at hn ⊢
    have hlt := (List.getElem?_eq_some_iff.1 hn).1
    exact if_pos (by simpa using hlt)
  · have heq : note seen key = seen ++ [key] := if_neg hin
    rw [heq] at hn hnote ⊢
    have hlast : n = seen.length := number_unique hnote hn (by simp)
    subst hlast
    rw [note, if_neg (by simp), length_append, length_singleton, range_succ, map_append]
    rfl

end

/-! ## Paths -/

inductive Path (seen : List (Nat × Nat)) : Nat → List Nat → Prop where
  | root : Path seen 0 []
  | step {n parent raw : Nat} {path : List Nat} (hkey : seen[n]? = some (parent, raw)) (hpath : Path seen parent path) :
    Path seen (n + 1) (path ++ [raw])

variable {seen seen' : List (Nat × Nat)}

theorem Path.mono {id : Nat} {path : List Nat} (h : Path seen id path) (hle : seen <+: seen') : Path seen' id path := by
  induction h with
  | root => exact .root
  | step hkey _ ih => exact .step (getElem?_of_le hle hkey) ih

theorem Path.unique {id : Nat} {path path' : List Nat} (h : Path seen id path) (h' : Path seen id path') : path = path' := by
  induction h generalizing path' with
  | root => cases h' with | root => rfl
  | step hkey _ ih =>
    cases h' with
    | step hkey' hpath' =>
      rw [hkey] at hkey'
      cases hkey'
      rw [ih hpath']

theorem Path.inj (hnodup : seen.Nodup) {id id' : Nat} {path : List Nat} (h : Path seen id path)
    (h' : Path seen id' path) : id = id' := by
  induction h generalizing id' with
  | root =>
    generalize hnil : ([] : List Nat) = p at h'
    cases h' with
    | root => rfl
    | step => simp at hnil
  | step hkey _ ih =>
    generalize hp : _ ++ [_] = p at h'
    cases h' with
    | root => simp at hp
    | step hkey' hpath' =>
      obtain ⟨rfl, heq⟩ := append_inj' hp rfl
      cases heq
      rw [ih hpath'] at hkey
      rw [number_unique hnodup hkey hkey']

def Labels (seen : List (Nat × Nat)) (path raws : List Nat) (ids : List ObjId) : Prop :=
  ids.length = raws.length ∧ ∀ (j : Nat) id, ids[j]? = some id → Path seen id (path ++ raws.take (j + 1))

theorem Labels.mono {path raws : List Nat} {ids : List ObjId} (h : Labels seen path raws ids) (hle : seen <+: seen') :
    Labels seen' path raws ids := ⟨h.1, fun j id hid => (h.2 j id hid).mono hle⟩

theorem intern_path_spec {blocks : Interner (Nat × Nat)} (h : Interned seen blocks) {parent : Nat} {path : List Nat}
    (hpath : Path seen parent path) (raws : List Nat) {out : List Nat} (hout : firsts out = (List.range seen.length).map (· + 1)) :
    ∃ seen' blocks' ids, intern_path blocks parent raws = (blocks', ids) ∧ Interned seen' blocks' ∧ seen <+: seen' ∧
      Labels seen' path raws ids ∧ firsts (out ++ ids) = (List.range seen'.length).map (· + 1) := by
  induction raws generalizing blocks parent path seen out with
  | nil => exact ⟨seen, blocks, [], rfl, h, prefix_rfl, ⟨rfl, by simp⟩, by simpa using hout⟩
  | cons raw raws ih =>
    obtain ⟨blocks1, n, hintern, h1, hn⟩ := h.intern (parent, raw)
    have hle1 := prefix_note seen (parent, raw)
    have hstep : Path (note seen (parent, raw)) (n + 1) (path ++ [raw]) := .step hn (hpath.mono hle1)
    obtain ⟨seen', blocks', ids, heq, h', hle, hlabels, hfirsts⟩ := ih h1 hstep (firsts_note hout hn h1.nodup)
    refine ⟨seen', blocks', (n + 1) :: ids, by simp only [intern_path, hintern, heq], h', hle1.trans hle, ?_, ?_⟩
    · refine ⟨by simp [hlabels.1], ?_⟩
      intro j id hid
      cases j with
      | zero =>
        cases hid
        simpa using hstep.mono hle
      | succ j => simpa using hlabels.2 j id hid
    · simpa using hfirsts

/-! ## Categories -/

theorem split_last_inj {α : Type} {c : α} {l1 l2 l1' l2' : List α} (h : c ∉ l2) (h' : c ∉ l2')
    (heq : l1 ++ c :: l2 = l1' ++ c :: l2') :
    l1 = l1' ∧ l2 = l2' := by
  simp only [append_eq_append_iff, cons_eq_append_iff] at heq
  rcases heq with ⟨d, rfl, ⟨rfl, -, rfl⟩ | ⟨e, rfl, rfl⟩⟩ | ⟨d, rfl, ⟨rfl, -, rfl⟩ | ⟨e, rfl, rfl⟩⟩ <;> simp_all

theorem turn_text_inj {turn turn' : Int} :
    (if turn ≥ 0 then decimal turn.toNat else ascii "-") = (if turn' ≥ 0 then decimal turn'.toNat else ascii "-") ↔
      turn = turn' ∨ turn < 0 ∧ turn' < 0 := by
  have hminus : ∀ n, decimal n ≠ ascii "-" := by
    intro n h
    have := isdigit_decimal (h ▸ mem_singleton_self _ : ch '-' ∈ decimal n)
    revert this
    decide
  split_ifs with h h' h'
  · rw [decimal_injective.eq_iff]
    omega
  · simp only [hminus, false_iff]
    omega
  · simp only [(hminus _).symm, false_iff]
    omega
  · simp only [true_iff]
    omega

theorem separator_notMem (turn : Int) : 0x1f ∉ if turn ≥ 0 then decimal turn.toNat else ascii "-" := by
  split_ifs
  · intro h
    have := isdigit_decimal h
    revert this
    decide
  · decide

theorem category_key_inj {type type' : Bytes} {turn turn' : Int} :
    category_key type turn = category_key type' turn' ↔ type = type' ∧ (turn = turn' ∨ turn < 0 ∧ turn' < 0) := by
  have htype : (if type.isEmpty then ascii "-" else ascii "t" ++ type) = (if type'.isEmpty then ascii "-" else ascii "t" ++ type') ↔
      type = type' := by
    constructor
    · intro h
      split_ifs at h with ht ht' ht'
      · rw [isEmpty_iff.1 ht, isEmpty_iff.1 ht']
      · exact absurd (List.cons.inj (h : ch '-' :: [] = ch 't' :: type')).1 (by decide)
      · exact absurd (List.cons.inj (h : ch 't' :: type = ch '-' :: [])).1 (by decide)
      · exact append_cancel_left h
    · rintro rfl
      rfl
  rw [← htype, ← turn_text_inj, category_key, category_key]
  constructor
  · exact split_last_inj (separator_notMem turn) (separator_notMem turn')
  · rintro ⟨h, h'⟩
    rw [h, h']

def Categorised (cats : List Bytes) (r : TraceRequest) : Prop :=
  if r.type = [] ∧ r.turn < 0 then r.category = 0
  else ∃ n, cats[n]? = some (category_key r.type r.turn) ∧ r.category = n + 1

theorem Categorised.mono {cats cats' : List Bytes} {r : TraceRequest} (h : Categorised cats r) (hle : cats <+: cats') :
    Categorised cats' r := by
  unfold Categorised at h ⊢
  split_ifs at h ⊢ with hnone
  · exact h
  · obtain ⟨n, hn, hcat⟩ := h
    exact ⟨n, getElem?_of_le hle hn, hcat⟩

theorem Categorised.eq_zero_iff {cats : List Bytes} {r : TraceRequest} (h : Categorised cats r) :
    r.category = 0 ↔ r.type = [] ∧ r.turn < 0 := by
  unfold Categorised at h
  split_ifs at h with hnone
  · simp [h, hnone]
  · simp only [hnone, iff_false]
    omega

theorem Categorised.key {cats : List Bytes} {r : TraceRequest} (h : Categorised cats r) (hz : r.category ≠ 0) :
    ∃ n, cats[n]? = some (category_key r.type r.turn) ∧ r.category = n + 1 := by
  unfold Categorised at h
  split_ifs at h
  · exact absurd h hz
  · exact h

theorem Categorised.eq_iff {cats : List Bytes} (hnodup : cats.Nodup) {r r' : TraceRequest} (h : Categorised cats r)
    (h' : Categorised cats r') :
    r.category = r'.category ↔ r.type = r'.type ∧ (r.turn = r'.turn ∨ r.turn < 0 ∧ r'.turn < 0) := by
  by_cases hz : r.category = 0
  · have hr := h.eq_zero_iff.1 hz
    rw [hz, eq_comm, h'.eq_zero_iff, hr.1]
    constructor
    · rintro ⟨ht, hturn⟩
      exact ⟨ht.symm, .inr ⟨hr.2, hturn⟩⟩
    · rintro ⟨ht, hturn⟩
      refine ⟨ht.symm, ?_⟩
      omega
  by_cases hz' : r'.category = 0
  · have hr' := h'.eq_zero_iff.1 hz'
    rw [hz', h.eq_zero_iff, hr'.1]
    constructor
    · rintro ⟨ht, hturn⟩
      exact ⟨ht, .inr ⟨hturn, hr'.2⟩⟩
    · rintro ⟨ht, hturn⟩
      refine ⟨ht, ?_⟩
      omega
  · rw [← category_key_inj]
    obtain ⟨n, hn, hcat⟩ := h.key hz
    obtain ⟨n', hn', hcat'⟩ := h'.key hz'
    rw [hcat, hcat', Nat.add_right_cancel_iff]
    constructor
    · rintro rfl
      exact Option.some.inj (hn.symm.trans hn')
    · intro hkey
      exact number_unique hnodup hn (hkey ▸ hn')

theorem intern_category_spec {cats : List Bytes} {ids : Interner Bytes} (h : Interned cats ids) (r : TraceRequest)
    (hr : r.category = (intern_category ids r.type r.turn).2) :
    ∃ cats', Interned cats' (intern_category ids r.type r.turn).1 ∧ cats <+: cats' ∧ Categorised cats' r := by
  unfold intern_category at hr ⊢
  by_cases hnone : r.type = [] ∧ r.turn < 0
  · rw [if_pos (by simpa using hnone)] at hr ⊢
    exact ⟨cats, h, prefix_rfl, by rw [Categorised, if_pos hnone]; exact hr⟩
  · rw [if_neg (by simpa using hnone)] at hr ⊢
    obtain ⟨ids', n, heq, h', hn⟩ := h.intern (category_key r.type r.turn)
    rw [heq] at hr ⊢
    refine ⟨_, h', prefix_note _ _, ?_⟩
    rw [Categorised, if_neg hnone]
    exact ⟨n, hn, hr⟩

/-! ## Whole files -/

/-- What the requests so far say about the interners, `raws` being the raw ids of their lines. -/
structure Reading (raws : List (List Nat)) (out : List TraceRequest) (s : QwenJsonlReader)
  (seen : List (Nat × Nat)) (cats : List Bytes) : Prop where
  blocks : Interned seen s.blocks
  categories : Interned cats s.categories
  dense : firsts (out.flatMap fun r => r.blocks) = (List.range seen.length).map (· + 1)
  labels : List.Forall₂ (fun r raw => Labels seen [] raw r.blocks) out raws
  categorised : ∀ r ∈ out, Categorised cats r

variable (strtod : Bytes → Option Int) {raws : List (List Nat)} {out : List TraceRequest} {s : QwenJsonlReader} {cats : List Bytes}

section

variable (h : Reading raws out s seen cats)
include h

theorem Reading.line (line : Bytes) (hline : hash_ids line ≠ []) :
    ∃ s' r seen' cats', read_line strtod .kPrefix s line = (s', some r) ∧
      Reading (raws ++ [hash_ids line]) (out ++ [r]) s' seen' cats' := by
  obtain ⟨seen', blocks', ids, heq, hblocks, hle, hlabels, hdense⟩ := intern_path_spec h.blocks .root (hash_ids line) h.dense
  obtain ⟨s', r, hread, hb, hs, hc, hcat⟩ : ∃ s' r, read_line strtod .kPrefix s line = (s', some r) ∧ r.blocks = ids ∧
      s'.blocks = blocks' ∧ s'.categories = (intern_category s.categories r.type r.turn).1 ∧
      r.category = (intern_category s.categories r.type r.turn).2 := by
    refine ⟨_, _, by rw [read_line, if_neg (by simpa using hline), heq], rfl, rfl, rfl, rfl⟩
  obtain ⟨cats', hcats, hle', hr⟩ := intern_category_spec h.categories r hcat
  refine ⟨s', r, seen', cats', hread, ⟨?_, ?_, ?_, ?_, ?_⟩⟩
  · rw [hs]
    exact hblocks
  · rw [hc]
    exact hcats
  · rw [flatMap_append, flatMap_singleton, hb]
    exact hdense
  · apply rel_append
    · exact h.labels.imp fun _ _ hlab => hlab.mono hle
    · exact .cons (hb ▸ hlabels) .nil
  · intro r' hr'
    rcases mem_append.1 hr' with hr' | hr'
    · exact (h.categorised r' hr').mono hle'
    · rw [mem_singleton.1 hr']
      exact hr

def emitted (lines : List Bytes) : List (List Nat) := (lines.map hash_ids).filter fun raws => !raws.isEmpty

theorem Reading.lines (lines : List Bytes) :
    ∃ s' seen' cats', Reading (raws ++ emitted lines) (out ++ read_lines strtod .kPrefix s lines) s' seen' cats' := by
  induction lines generalizing raws out s seen cats with
  | nil => exact ⟨s, seen, cats, by simpa [emitted, read_lines] using h⟩
  | cons line lines ih =>
    by_cases hline : hash_ids line = []
    · have hread : read_line strtod .kPrefix s line = (s, none) := by simp [read_line, hline]
      have hemit : emitted (line :: lines) = emitted lines := by simp [emitted, hline]
      rw [read_lines, hread, hemit]
      exact ih h
    · obtain ⟨s1, r, seen1, cats1, hread, h1⟩ := h.line strtod line hline
      have hemit : emitted (line :: lines) = hash_ids line :: emitted lines := by simp [emitted, hline]
      rw [read_lines, hread, hemit]
      simpa using ih h1

def block_at (out : List TraceRequest) (i j : Nat) : Option ObjId := out[i]?.bind fun r => r.blocks[j]?

def prefix_at (raws : List (List Nat)) (i j : Nat) : Option (List Nat) := raws[i]?.map fun l => l.take (j + 1)

theorem Reading.path {i j : Nat} {b : ObjId} (hb : block_at out i j = some b) :
    ∃ path, prefix_at raws i j = some path ∧ Path seen b path := by
  obtain ⟨r, hr, hb⟩ := Option.bind_eq_some_iff.1 hb
  obtain ⟨hi, rfl⟩ := List.getElem?_eq_some_iff.1 hr
  have hi' : i < raws.length := h.labels.length_eq ▸ hi
  have hlab := (forall₂_iff_get.1 h.labels).2 i hi hi'
  exact ⟨raws[i].take (j + 1), by simp [prefix_at, hi'], by simpa using hlab.2 j b hb⟩

end

/-- Two positions have the same block exactly when the raw ids up to them agree; blocks are numbered
without a gap; the category stands for the type and the turn. -/
theorem prefix_interning (strtod : Bytes → Option Int) (lines : List Bytes) :
    ((read_lines strtod .kPrefix {} lines).map fun r => r.blocks.length) = (emitted lines).map List.length ∧
    (∀ i j i' j' b b', block_at (read_lines strtod .kPrefix {} lines) i j = some b →
      block_at (read_lines strtod .kPrefix {} lines) i' j' = some b' →
      (b = b' ↔ prefix_at (emitted lines) i j = prefix_at (emitted lines) i' j')) ∧
    (∃ n, firsts ((read_lines strtod .kPrefix {} lines).flatMap fun r => r.blocks) = (List.range n).map (· + 1)) ∧
    (∀ r ∈ read_lines strtod .kPrefix {} lines, ∀ r' ∈ read_lines strtod .kPrefix {} lines,
      (r.category = r'.category ↔ r.type = r'.type ∧ (r.turn = r'.turn ∨ r.turn < 0 ∧ r'.turn < 0))) ∧
    ∀ r ∈ read_lines strtod .kPrefix {} lines, (r.category = 0 ↔ r.type = [] ∧ r.turn < 0) := by
  have hinit : Reading [] [] {} [] [] := ⟨interned_empty, interned_empty, rfl, .nil, by simp⟩
  obtain ⟨s, seen, cats, h⟩ := hinit.lines strtod lines
  rw [nil_append, nil_append] at h
  refine ⟨?_, ?_, ⟨_, h.dense⟩, ?_, ?_⟩
  · apply ext_getElem?
    intro i
    by_cases hi : i < (emitted lines).length
    · have hi' : i < (read_lines strtod .kPrefix {} lines).length := h.labels.length_eq ▸ hi
      have hlab := (forall₂_iff_get.1 h.labels).2 i hi' hi
      simpa [hi, hi'] using hlab.1
    · have hi' : ¬ i < (read_lines strtod .kPrefix {} lines).length := h.labels.length_eq ▸ hi
      simp [hi, hi']
  · intro i j i' j' b b' hb hb'
    obtain ⟨path, hpath, hb⟩ := h.path hb
    obtain ⟨path', hpath', hb'⟩ := h.path hb'
    rw [hpath, hpath', Option.some.injEq]
    constructor
    · rintro rfl
      exact hb.unique hb'
    · rintro rfl
      exact hb.inj h.blocks.nodup hb'
  · intro r hr r' hr'
    exact (h.categorised r hr).eq_iff h.categories.nodup (h.categorised r' hr')
  · intro r hr
    exact (h.categorised r hr).eq_zero_iff

/-- Two lines whose paths part after the first id. -/
example : (read_lines (fun _ => none) .kPrefix {} [ascii "\x7b\"hash_ids\":[5,7]\x7d", ascii "\x7b\"hash_ids\":[5, 9]\x7d"]).map
    (·.blocks) = [[1, 2], [1, 3]] := by decide +kernel

end CacheSim.Trace
