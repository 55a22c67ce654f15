import CacheSim.Trace.Written
import CacheSim.Trace.Interning

/-!
# Writing JSONL and reading it back

Ids that were interned once are interned to themselves.
-/

namespace CacheSim.Trace

open Lib List

def write_jsonl (requests : List TraceRequest) : Bytes := requests.flatMap fun r => append_jsonl r ++ [10]

def getlines (line : Bytes) : Bytes → List Bytes
  | [] => if line.isEmpty then [] else [line]
  | c :: s => if c = 10 then line :: getlines [] s else getlines (line ++ [c]) s

theorem getlines_line {s : Bytes} (hs : 10 ∉ s) (line rest : Bytes) :
    getlines line (s ++ 10 :: rest) = (line ++ s) :: getlines [] rest := by
  induction s generalizing line with
  | nil => simp [getlines]
  | cons c s ih =>
    have hc : c ≠ 10 := fun h => hs (h ▸ mem_cons_self)
    rw [cons_append, getlines, if_neg hc, ih fun hmem => hs (by simp [hmem])]
    simp

theorem getlines_write_jsonl {requests : List TraceRequest} (h : ∀ r ∈ requests, Printable r) :
    getlines [] (write_jsonl requests) = requests.map append_jsonl := by
  induction requests with
  | nil => rfl
  | cons r requests ih =>
    have hr := h r (by simp)
    have hline := hr.line_notMem (by decide) hr.newline (by decide) (by decide)
    rw [write_jsonl, flatMap_cons, append_assoc, singleton_append, getlines_line hline, nil_append, map_cons]
    exact congrArg _ (ih fun r hr => h r (by simp [hr]))

def upto (n : Nat) : List Nat := (List.range n).map (· + 1)

theorem mem_upto {n k : Nat} : k ∈ upto n ↔ 1 ≤ k ∧ k ≤ n := by
  simp only [upto, mem_map, mem_range]
  constructor
  · rintro ⟨a, ha, rfl⟩
    omega
  · rintro ⟨hlo, hhi⟩
    exact ⟨k - 1, by omega, by omega⟩

theorem upto_succ (n : Nat) : upto (n + 1) = upto n ++ [n + 1] := by simp [upto, range_succ]

def Follows (m : Nat) (l : List Nat) : Prop := ∃ n, l.foldl note (upto m) = upto n

theorem le_foldl_note (seen l : List Nat) : seen <+: l.foldl note seen := by
  induction l generalizing seen with
  | nil => exact prefix_rfl
  | cons x l ih => exact (prefix_note seen x).trans (ih _)

theorem Follows.cons {m k : Nat} {l : List Nat} (h : Follows m (k :: l)) :
    (1 ≤ k ∧ k ≤ m ∧ Follows m l) ∨ (k = m + 1 ∧ Follows (m + 1) l) := by
  obtain ⟨n, hn⟩ := h
  rw [foldl_cons, note] at hn
  split_ifs at hn with hmem
  · exact .inl ⟨(mem_upto.1 hmem).1, (mem_upto.1 hmem).2, n, hn⟩
  · right
    obtain ⟨rest, hrest⟩ := le_foldl_note (upto m ++ [k]) l
    have hk : (upto n)[m]? = some k := by
      rw [← hn, ← hrest, append_assoc, getElem?_append_right (by simp [upto])]
      simp [upto]
    have hkm : k = m + 1 := by
      simp only [upto, getElem?_map, Option.map_eq_some_iff] at hk
      obtain ⟨a, ha, rfl⟩ := hk
      have := List.getElem?_eq_some_iff.1 ha
      obtain ⟨hlt, heq⟩ := this
      simp at heq
      omega
    refine ⟨hkm, n, ?_⟩
    rw [upto_succ, ← hkm]
    exact hn

theorem getElem?_upto {n m : Nat} (h : m < n) : (upto n)[m]? = some (m + 1) := by
  rw [upto, getElem?_map, getElem?_range h]
  rfl

/-! ## Sessions and users -/

def id_text (k : Nat) : Bytes := append_int (int64 k)

theorem id_text_inj {a b : Nat} (ha : a < 2 ^ 64) (hb : b < 2 ^ 64) (h : id_text a = id_text b) : a = b := by
  have hread := strtoull_append_int ha (ends_comma [])
  rw [← id_text, h, id_text, strtoull_append_int hb (ends_comma [])] at hread
  exact (Prod.mk.inj (Option.some.inj hread)).1.symm

structure Texts (n : Nat) (ids : Interner Bytes) : Prop where
  interned : Interned ((upto n).map id_text) ids
  fits : n < 2 ^ 64

theorem texts_empty : Texts 0 ∅ := ⟨interned_empty, by decide⟩

variable {n k : Nat} {ids : Interner Bytes}

theorem Texts.intern (h : Texts n ids) (hk : k < 2 ^ 64) (hnext : (1 ≤ k ∧ k ≤ n) ∨ k = n + 1) :
    ∃ ids', Trace.intern ids (id_text k) = (ids', k) ∧ Texts (max n k) ids' := by
  obtain ⟨ids', m, heq, hids', hm⟩ := h.interned.intern (id_text k)
  have hfits := h.fits
  rcases hnext with ⟨hlo, hhi⟩ | rfl
  · have hget : ((upto n).map id_text)[k - 1]? = some (id_text k) := by
      rw [getElem?_map, getElem?_upto (by omega), Nat.sub_add_cancel hlo]
      rfl
    have hnote : note ((upto n).map id_text) (id_text k) = (upto n).map id_text := if_pos (mem_of_getElem? hget)
    rw [hnote] at hids' hm
    have hmk : m = k - 1 := number_unique hids'.nodup hm hget
    refine ⟨ids', ?_, ?_⟩
    · rw [heq, hmk, Nat.sub_add_cancel hlo]
    · rw [max_eq_left hhi]
      exact ⟨hids', hfits⟩
  · have hnot : id_text (n + 1) ∉ (upto n).map id_text := by
      intro hmem
      obtain ⟨a, ha, htext⟩ := mem_map.1 hmem
      have hle := (mem_upto.1 ha).2
      have := id_text_inj (by omega) hk htext
      omega
    have hnote : note ((upto n).map id_text) (id_text (n + 1)) = (upto (n + 1)).map id_text := by
      rw [note, if_neg hnot, upto_succ, map_append]
      rfl
    rw [hnote] at hids' hm
    have hlast : ((upto (n + 1)).map id_text)[n]? = some (id_text (n + 1)) := by
      rw [getElem?_map, getElem?_upto n.lt_succ_self]
      rfl
    have hmn : m = n := number_unique hids'.nodup hm hlast
    refine ⟨ids', by rw [heq, hmn], ?_⟩
    rw [max_eq_right (by omega)]
    exact ⟨hids', hk⟩

/-! ## Blocks -/

def edges (parent : Nat) : List Nat → List (Nat × Nat)
  | [] => []
  | id :: ids => (parent, id) :: edges id ids

def SameParent (e e' : Nat × Nat) : Prop := e.2 = e'.2 → e.1 = e'.1

structure Edges (seen : List (Nat × Nat)) (blocks : Interner (Nat × Nat)) : Prop where
  interned : Interned seen blocks
  numbers : seen.map Prod.snd = upto seen.length

variable {seen : List (Nat × Nat)} {blocks : Interner (Nat × Nat)} {parent : Nat} {e : Nat × Nat}

theorem Edges.number (h : Edges seen blocks) {m : Nat} (he : seen[m]? = some e) : e.2 = m + 1 := by
  have hsnd : (seen.map Prod.snd)[m]? = some e.2 := by rw [getElem?_map, he]; rfl
  have hlt := (List.getElem?_eq_some_iff.1 he).1
  rw [h.numbers, getElem?_upto hlt] at hsnd
  exact (Option.some.inj hsnd).symm

theorem Edges.intern_new (h : Edges seen blocks) (he : e ∉ seen) :
    ∃ blocks', Trace.intern blocks e = (blocks', seen.length + 1) ∧ Interned (seen ++ [e]) blocks' := by
  obtain ⟨blocks', m, heq, hblocks', hm⟩ := h.interned.intern e
  have hnote : note seen e = seen ++ [e] := if_neg he
  rw [hnote] at hblocks' hm
  have hmn : m = seen.length := number_unique hblocks'.nodup hm (by simp)
  exact ⟨blocks', by rw [heq, hmn], hblocks'⟩

variable {id : Nat}

theorem Edges.intern (h : Edges seen blocks) (hnext : (1 ≤ id ∧ id ≤ seen.length) ∨ id = seen.length + 1)
    (hsame : ∀ e ∈ seen, SameParent e (parent, id)) :
    ∃ blocks', Trace.intern blocks (parent, id) = (blocks', id) ∧ Edges (note seen (parent, id)) blocks' := by
  by_cases he : (parent, id) ∈ seen
  · obtain ⟨blocks', m, heq, hblocks', hm⟩ := h.interned.intern (parent, id)
    have hnote : note seen (parent, id) = seen := if_pos he
    rw [hnote] at hblocks' hm ⊢
    have hid : id = m + 1 := h.number hm
    exact ⟨blocks', by rw [heq, ← hid], hblocks', h.numbers⟩
  · have hnote : note seen (parent, id) = seen ++ [(parent, id)] := if_neg he
    have hid : id = seen.length + 1 := by
      rcases hnext with ⟨hlo, hhi⟩ | hid
      · -- the block is known, with its parent
        have hlt : id - 1 < seen.length := by omega
        obtain ⟨e, hget⟩ : ∃ e, seen[id - 1]? = some e := ⟨_, getElem?_eq_getElem hlt⟩
        have hnum : e.2 = id - 1 + 1 := h.number hget
        rw [Nat.sub_add_cancel hlo] at hnum
        have hparent : e.1 = parent := hsame e (mem_of_getElem? hget) hnum
        have hpair : e = (parent, id) := Prod.ext hparent hnum
        exact absurd (hpair ▸ mem_of_getElem? hget) he
      · exact hid
    obtain ⟨blocks', heq, hblocks'⟩ := h.intern_new he
    rw [hnote]
    refine ⟨blocks', by rw [heq, ← hid], hblocks', ?_⟩
    rw [map_append, h.numbers, length_append, length_singleton, upto_succ, hid]
    rfl

theorem Edges.intern_ne (h : Edges seen blocks) (he : e ∈ seen) (hsame : ¬ SameParent e (parent, id)) :
    (Trace.intern blocks (parent, id)).2 ≠ id := by
  unfold SameParent at hsame
  push Not at hsame
  have hnot : (parent, id) ∉ seen := by
    intro hmem
    obtain ⟨m, hm⟩ := mem_iff_getElem?.1 he
    obtain ⟨m', hm'⟩ := mem_iff_getElem?.1 hmem
    have hnum := h.number hm
    have hnum' := h.number hm'
    have hmm : m = m' := by
      omega
    rw [hmm, hm'] at hm
    cases hm
    exact hsame.2 rfl
  obtain ⟨blocks', heq, -⟩ := h.intern_new hnot
  obtain ⟨m, hm⟩ := mem_iff_getElem?.1 he
  have hnum := h.number hm
  have hlt := (List.getElem?_eq_some_iff.1 hm).1
  rw [heq]
  omega

theorem mem_note {α : Type} [DecidableEq α] {l : List α} {x y : α} : x ∈ note l y ↔ x ∈ l ∨ x = y := by
  unfold note
  split_ifs with hy
  · constructor
    · exact .inl
    · rintro (hx | rfl)
      · exact hx
      · exact hy
  · simp

theorem Edges.follows (h : Edges seen blocks) {l : List Nat} (hnext : Follows seen.length (id :: l)) {blocks' : Interner (Nat × Nat)}
    (h' : Edges (note seen (parent, id)) blocks') : Follows (note seen (parent, id)).length l := by
  by_cases he : (parent, id) ∈ seen
  · have hnote : note seen (parent, id) = seen := if_pos he
    obtain ⟨m, hm⟩ := mem_iff_getElem?.1 he
    have hnum : id = m + 1 := h.number hm
    have hlt := (List.getElem?_eq_some_iff.1 hm).1
    rw [hnote]
    rcases hnext.cons with ⟨-, -, hl⟩ | ⟨hid, -⟩
    · exact hl
    · omega
  · have hnote : note seen (parent, id) = seen ++ [(parent, id)] := if_neg he
    rw [hnote] at h' ⊢
    have hnum : id = seen.length + 1 := h'.number (m := seen.length) (e := (parent, id)) (by simp)
    rw [length_append, length_singleton]
    rcases hnext.cons with ⟨-, hle, -⟩ | ⟨-, hl⟩
    · omega
    · exact hl

/-- The blocks of a request come back exactly when each follows the block it always follows. -/
theorem Edges.path (h : Edges seen blocks) {ids more : List Nat} (hfol : Follows seen.length (ids ++ more)) :
    ((intern_path blocks parent ids).2 = ids ↔
      (edges parent ids).Pairwise SameParent ∧ ∀ e ∈ seen, ∀ e' ∈ edges parent ids, SameParent e e') ∧
    ((intern_path blocks parent ids).2 = ids → ∃ seen', Edges seen' (intern_path blocks parent ids).1 ∧ Follows seen'.length more ∧
      ∀ e, e ∈ seen' ↔ e ∈ seen ∨ e ∈ edges parent ids) := by
  induction ids generalizing seen blocks parent with
  | nil => exact ⟨by simp [intern_path, edges], fun _ => ⟨seen, h, hfol, by simp [edges]⟩⟩
  | cons id ids ih =>
    by_cases hsame : ∀ e ∈ seen, SameParent e (parent, id)
    · obtain ⟨blocks', heq, h'⟩ := h.intern (hfol.cons.imp (fun hc => ⟨hc.1, hc.2.1⟩) fun hc => hc.1) hsame
      have hpath : intern_path blocks parent (id :: ids) = ((intern_path blocks' id ids).1, id :: (intern_path blocks' id ids).2) := by
        rw [intern_path, heq]
      obtain ⟨hiff, hnext⟩ := ih h' (h.follows hfol h')
      rw [hpath]
      refine ⟨?_, ?_⟩
      · rw [List.cons.injEq, eq_self_iff_true, true_and, hiff, edges, pairwise_cons]
        simp only [mem_note, mem_cons]
        constructor
        · rintro ⟨hpair, hseen⟩
          refine ⟨⟨fun e' he' => hseen _ (.inr rfl) e' he', hpair⟩, ?_⟩
          rintro e he e' (rfl | he')
          · exact hsame e he
          · exact hseen e (.inl he) e' he'
        · rintro ⟨⟨hfirst, hpair⟩, hseen⟩
          refine ⟨hpair, ?_⟩
          rintro e (he | rfl) e' he'
          · exact hseen e he e' (.inr he')
          · exact hfirst e' he'
      · intro heq'
        obtain ⟨seen', hseen', hmore, hmem⟩ := hnext (List.cons.inj heq').2
        refine ⟨seen', hseen', hmore, ?_⟩
        intro e
        rw [hmem, mem_note, edges, mem_cons, or_assoc]
    · push Not at hsame
      obtain ⟨e, he, hne⟩ := hsame
      have hhead : (intern_path blocks parent (id :: ids)).2 ≠ id :: ids := by
        intro heq'
        exact h.intern_ne he hne (List.cons.inj heq').1
      refine ⟨?_, fun heq' => absurd heq' hhead⟩
      constructor
      · exact fun heq' => absurd heq' hhead
      · rintro ⟨-, hseen⟩
        exact absurd (hseen e he (parent, id) (by simp [edges])) hne

theorem Texts.field (h : Texts n ids) (hk : k < 2 ^ 64) {p : Prop} [Decidable p] {rest : List Nat}
    (hfol : Follows n ((k :: rest).filter (· ≠ 0))) :
    ((intern_field ids (if k = 0 ∨ p then none else some (append_int (int64 k)))).2 = k ↔ (p → k = 0)) ∧
    ((p → k = 0) → ∃ n', Texts n' (intern_field ids (if k = 0 ∨ p then none else some (append_int (int64 k)))).1 ∧
      Follows n' (rest.filter (· ≠ 0))) := by
  by_cases hzero : k = 0
  · have hrest : Follows n (rest.filter (· ≠ 0)) := by simpa [hzero] using hfol
    rw [if_pos (.inl hzero)]
    exact ⟨by simp [intern_field, hzero], fun _ => ⟨n, h, hrest⟩⟩
  · have hcons : Follows n (k :: rest.filter (· ≠ 0)) := by simpa [hzero] using hfol
    by_cases hhidden : p
    · rw [if_pos (.inr hhidden)]
      refine ⟨?_, fun himp => absurd (himp hhidden) hzero⟩
      constructor
      · intro heq
        exact absurd heq.symm hzero
      · exact fun himp => absurd (himp hhidden) hzero
    · rw [if_neg (by simp [hzero, hhidden])]
      obtain ⟨ids', heq, h'⟩ := h.intern hk (hcons.cons.imp (fun hc => ⟨hc.1, hc.2.1⟩) fun hc => hc.1)
      have hfield : intern_field ids (some (append_int (int64 k))) = (ids', k) := heq
      rw [hfield]
      refine ⟨by simp [hhidden], fun _ => ⟨max n k, h', ?_⟩⟩
      rcases hcons.cons with ⟨-, hle, hl⟩ | ⟨rfl, hl⟩
      · rwa [max_eq_left hle]
      · rwa [max_eq_right (by omega)]

/-! ## Requests -/

/-- What comes back of a request besides its blocks: all, when no later field has the name that its type is, and no
number below -1 was written as `null`. -/
structure Kept (r : TraceRequest) : Prop where
  hash_ids : r.type ≠ ascii "hash_ids"
  turn_key : r.type = ascii "turn" → r.turn < 0
  session_key : r.type = ascii "session_id" → r.session = 0
  user_key : r.type = ascii "user_id" → r.user = 0
  input_length : -1 ≤ r.input_length
  output_length : -1 ≤ r.output_length
  turn : -1 ≤ r.turn

structure Back (s : QwenJsonlReader) (seen : List (Nat × Nat)) (ns nu : Nat) (requests : List TraceRequest) : Prop where
  blocks : Edges seen s.blocks
  sessions : Texts ns s.sessions
  users : Texts nu s.users
  numbered : Numbered s.n_emitted s.categories requests
  blocks_follow : Follows seen.length (requests.flatMap fun r => r.blocks)
  sessions_follow : Follows ns ((requests.map fun r => r.session).filter (· ≠ 0))
  users_follow : Follows nu ((requests.map fun r => r.user).filter (· ≠ 0))
  printable : ∀ r ∈ requests, Printable r

variable {s : QwenJsonlReader} {ns nu : Nat} {r : TraceRequest} {requests : List TraceRequest}

theorem Kept.turn_eq (h : Kept r) : (if r.type = ascii "turn" then -1 else max r.turn (-1)) = r.turn := by
  have hlo := h.turn
  split_ifs with htype
  · have := h.turn_key htype
    omega
  · omega

theorem Back.same (h : Back s seen ns nu (r :: requests)) (hhash : r.type ≠ ascii "hash_ids") :
    untouched (read_back s r).2 = untouched r ↔ Kept r ∧ (intern_path s.blocks 0 r.blocks).2 = r.blocks := by
  have hr := h.printable r (by simp)
  obtain ⟨hindex, hcategory, -⟩ := h.numbered
  obtain ⟨hsession, -⟩ := h.sessions.field hr.session (p := r.type = ascii "session_id") h.sessions_follow
  obtain ⟨huser, -⟩ := h.users.field hr.user (p := r.type = ascii "user_id") h.users_follow
  constructor
  · intro heq
    have hturn : (if r.type = ascii "turn" then -1 else max r.turn (-1)) = r.turn := (congrArg TraceRequest.turn heq :)
    have hinput : max r.input_length (-1) = r.input_length := (congrArg TraceRequest.input_length heq :)
    have houtput : max r.output_length (-1) = r.output_length := (congrArg TraceRequest.output_length heq :)
    refine ⟨⟨hhash, ?_, hsession.1 (congrArg TraceRequest.session heq :),
      huser.1 (congrArg TraceRequest.user heq :), by omega, by omega, ?_⟩,
      (congrArg TraceRequest.blocks heq :)⟩
    · intro htype
      rw [if_pos htype] at hturn
      omega
    · split_ifs at hturn <;> omega
  · rintro ⟨hkept, hblocks⟩
    have hturn := hkept.turn_eq
    have hinput : max r.input_length (-1) = r.input_length := max_eq_left hkept.input_length
    have houtput : max r.output_length (-1) = r.output_length := max_eq_left hkept.output_length
    simp only [read_back, hturn, hinput, houtput, hsession.2 hkept.session_key, huser.2 hkept.user_key, hblocks, ← hcategory, ← hindex]
    rfl

theorem Back.step (h : Back s seen ns nu (r :: requests)) (hkept : Kept r) (hblocks : (intern_path s.blocks 0 r.blocks).2 = r.blocks) :
    ∃ seen' ns' nu', Back (read_back s r).1 seen' ns' nu' requests ∧ ∀ e, e ∈ seen' ↔ e ∈ seen ∨ e ∈ edges 0 r.blocks := by
  have hr := h.printable r (by simp)
  obtain ⟨-, -, hnum⟩ := h.numbered
  obtain ⟨-, hsession⟩ := h.sessions.field hr.session (p := r.type = ascii "session_id") h.sessions_follow
  obtain ⟨-, huser⟩ := h.users.field hr.user (p := r.type = ascii "user_id") h.users_follow
  obtain ⟨ns', hns, hsessions⟩ := hsession hkept.session_key
  obtain ⟨nu', hnu, husers⟩ := huser hkept.user_key
  obtain ⟨seen', hseen, hfollow, hmem⟩ := (h.blocks.path h.blocks_follow).2 hblocks
  refine ⟨seen', ns', nu', ⟨hseen, hns, hnu, ?_, hfollow, hsessions, husers, fun r hr => h.printable r (by simp [hr])⟩, hmem⟩
  have hcats : (read_back s r).1.categories = (intern_category s.categories r.type r.turn).1 := by
    simp only [read_back, hkept.turn_eq]
  rw [hcats]
  exact hnum

theorem length_read_lines_le (strtod : Bytes → Option Int) (mode : BlockIdMode) (s : QwenJsonlReader) (lines : List Bytes) :
    (read_lines strtod mode s lines).length ≤ lines.length := by
  induction lines generalizing s with
  | nil => exact Nat.le_refl _
  | cons line lines ih =>
    rw [read_lines]
    split
    · exact (ih _).trans (Nat.le_succ _)
    · exact Nat.succ_le_succ (ih _)

theorem Back.lines {strtod : Bytes → Option Int} (hstrtod : ReadsSeconds strtod) (h : Back s seen ns nu requests) :
    (read_lines strtod .kPrefix s (requests.map append_jsonl)).map untouched = requests.map untouched ↔
      (∀ r ∈ requests, Kept r) ∧ (requests.flatMap fun r => edges 0 r.blocks).Pairwise SameParent ∧
      ∀ e ∈ seen, ∀ e' ∈ requests.flatMap fun r => edges 0 r.blocks, SameParent e e' := by
  induction requests generalizing s seen ns nu with
  | nil => simp [read_lines]
  | cons r requests ih =>
    have hline := (h.printable r (by simp)).read_line hstrtod s
    by_cases hhash : r.type = ascii "hash_ids"
    · -- the line is skipped, and the list is too short
      rw [if_pos hhash] at hline
      rw [map_cons, read_lines, hline]
      constructor
      · intro heq
        have hlen := congrArg List.length heq
        have hle := length_read_lines_le strtod .kPrefix s (requests.map append_jsonl)
        simp only [length_map, length_cons] at hlen hle
        omega
      · rintro ⟨hkept, -⟩
        exact absurd hhash (hkept r (by simp)).hash_ids
    · rw [if_neg hhash] at hline
      have hsplit : (read_lines strtod .kPrefix s ((r :: requests).map append_jsonl)).map untouched = (r :: requests).map untouched ↔
          untouched (read_back s r).2 = untouched r ∧
          (read_lines strtod .kPrefix (read_back s r).1 (requests.map append_jsonl)).map untouched = requests.map untouched := by
        rw [map_cons, read_lines, hline, map_cons, map_cons, List.cons.injEq]
      have hpath : (intern_path s.blocks 0 r.blocks).2 = r.blocks ↔
          (edges 0 r.blocks).Pairwise SameParent ∧ ∀ e ∈ seen, ∀ e' ∈ edges 0 r.blocks, SameParent e e' :=
        (h.blocks.path h.blocks_follow).1
      rw [hsplit, h.same hhash, flatMap_cons, pairwise_append, forall_mem_cons]
      simp only [mem_append]
      constructor
      · rintro ⟨⟨hkept, hblocks⟩, hrest⟩
        obtain ⟨seen', ns', nu', hback, hmem⟩ := h.step hkept hblocks
        obtain ⟨hkepts, hpair, hseen⟩ := (ih hback).1 hrest
        obtain ⟨hpair1, hseen1⟩ := hpath.1 hblocks
        refine ⟨⟨hkept, hkepts⟩, ⟨hpair1, hpair, fun e he e' he' => hseen e ((hmem e).2 (.inr he)) e' he'⟩, ?_⟩
        rintro e he e' (he' | he')
        · exact hseen1 e he e' he'
        · exact hseen e ((hmem e).2 (.inl he)) e' he'
      · rintro ⟨⟨hkept, hkepts⟩, ⟨hpair1, hpair, hcross⟩, hseen⟩
        have hblocks := hpath.2 ⟨hpair1, fun e he e' he' => hseen e he e' (.inl he')⟩
        obtain ⟨seen', ns', nu', hback, hmem⟩ := h.step hkept hblocks
        refine ⟨⟨hkept, hblocks⟩, (ih hback).2 ⟨hkepts, hpair, ?_⟩⟩
        intro e he e' he'
        rcases (hmem e).1 he with he | he
        · exact hseen e he e' (.inr he')
        · exact hcross e he e' he'

/-! ## Annotations -/

theorem eq_of_untouched {r r' : TraceRequest} (h : untouched r = untouched r') (hnext : r.next_access_vtime = r'.next_access_vtime)
    (hsession : r.session_next_access = r'.session_next_access) : r = r' := by
  cases r
  cases r'
  simp only [untouched, without_session, TraceRequest.mk.injEq] at h hnext hsession ⊢
  simp [h, hnext, hsession]

theorem oracle_unique {l l' : List TraceRequest} (h : Oracle (fun _ => false) l) (h' : Oracle (fun _ => false) l')
    (hsame : l.map untouched = l'.map untouched) : l = l' := by
  have hserved : served (fun _ => false) l' = l' := by simp [served]
  have hnext : l.map (fun r => r.next_access_vtime) = l'.map fun r => r.next_access_vtime := by
    have hvtimes := h'.same_vtimes h (by rw [hserved]; exact hsame)
    rwa [hserved] at hvtimes
  have hlen : l.length = l'.length := by simpa using congrArg List.length hsame
  apply ext_getElem hlen
  intro i hi hi'
  have hget : ∀ {β : Type} (f : TraceRequest → β), l.map f = l'.map f → f l[i] = f l'[i] := by
    intro β f hf
    have := congrArg (fun m => m[i]?) hf
    simpa [hi, hi'] using this
  apply eq_of_untouched (hget untouched hsame) (hget _ hnext)
  have hsplit : ∀ {m : List TraceRequest} (hm : i < m.length), m = m.take i ++ m[i] :: m.drop (i + 1) := by
    intro m hm
    rw [getElem_cons_drop, take_append_drop]
  have hr := h.session _ _ _ (hsplit hi) rfl
  have hr' := h'.session _ _ _ (hsplit hi') rfl
  rw [hr, hr', sessions_congr hsame, length_take, length_take, min_eq_left hi.le, min_eq_left hi'.le]

theorem load_trace_eq_iff {l requests : List TraceRequest} (hne : requests ≠ []) (hsize : ∀ r ∈ requests, r.blocks.length < 2 ^ 63)
    (horacle : Oracle (fun _ => false) requests) :
    load_trace false l INT64_MAX = .ok requests ↔ l.map untouched = requests.map untouched := by
  obtain ⟨hsame, hout⟩ := annotate_spec l INT64_MAX
  unfold load_trace
  by_cases hl : l = []
  · rw [hl, isEmpty_nil, if_pos rfl, map_nil, eq_comm (a := []), map_eq_nil_iff]
    constructor
    · intro h
      cases h
    · intro h
      exact absurd h hne
  · rw [if_neg (by simpa using hl), if_pos (by simp), Except.ok.injEq]
    constructor
    · intro heq
      rw [← hsame, heq]
    · intro heq
      have hskip : ∀ r ∈ annotate_session_next_access (annotate_next_access l INT64_MAX) INT64_MAX,
        oversized INT64_MAX r.blocks = false := by
        intro r hr
        have hmem : untouched r ∈ requests.map untouched := by
          rw [← heq, ← hsame]
          exact mem_map_of_mem hr
        obtain ⟨r', hr', huntouched⟩ := mem_map.1 hmem
        have hblocks : r'.blocks = r.blocks := (congrArg TraceRequest.blocks huntouched :)
        have hcard := toFinset_card_le r.blocks
        have hlen := hsize r' hr'
        rw [hblocks] at hlen
        unfold oversized INT64_MAX
        rw [decide_eq_false_iff_not]
        omega
      exact oracle_unique (hout.congr_skip hskip) horacle (hsame.trans heq)

/-- The requests come back exactly when every one is kept and each block always follows the same block; loading them then
restores the next accesses too. -/
theorem jsonl_round_trip (strtod : Bytes → Option Int) (hstrtod : ReadsSeconds strtod) (requests : List TraceRequest)
    (hprint : ∀ r ∈ requests, Printable r) (hnum : Numbered 0 ∅ requests)
    (hblocks : ∃ n, firsts (requests.flatMap fun r => r.blocks) = upto n)
    (hsessions : ∃ n, firsts ((requests.map fun r => r.session).filter (· ≠ 0)) = upto n)
    (husers : ∃ n, firsts ((requests.map fun r => r.user).filter (· ≠ 0)) = upto n) :
    ((read_lines strtod .kPrefix {} (getlines [] (write_jsonl requests))).map untouched = requests.map untouched ↔
      (∀ r ∈ requests, Kept r) ∧ (requests.flatMap fun r => edges 0 r.blocks).Pairwise SameParent) ∧
    (requests ≠ [] → Oracle (fun _ => false) requests →
      (load_trace false (read_lines strtod .kPrefix {} (getlines [] (write_jsonl requests))) INT64_MAX = .ok requests ↔
        (∀ r ∈ requests, Kept r) ∧ (requests.flatMap fun r => edges 0 r.blocks).Pairwise SameParent)) := by
  have hback : Back {} [] 0 0 requests := ⟨⟨interned_empty, rfl⟩, texts_empty, texts_empty, hnum, hblocks, hsessions, husers, hprint⟩
  have hiff : (read_lines strtod .kPrefix {} (getlines [] (write_jsonl requests))).map untouched = requests.map untouched ↔
      (∀ r ∈ requests, Kept r) ∧ (requests.flatMap fun r => edges 0 r.blocks).Pairwise SameParent := by
    rw [getlines_write_jsonl hprint, hback.lines hstrtod]
    simp
  refine ⟨hiff, ?_⟩
  intro hne horacle
  rw [load_trace_eq_iff hne (fun r hr => (hprint r hr).size) horacle]
  exact hiff

/-- Digits, and after a point six more, as microseconds. -/
def strtod_decimal (s : Bytes) : Option Int :=
  let digits := s.takeWhile isdigit
  if digits.isEmpty then none
  else some (value digits * 1000000 + value (((s.drop digits.length).drop 1).take 6))

theorem value_six (m : Nat) (hm : m < 1000000) : value ([100000, 10000, 1000, 100, 10, 1].map fun p => digit (m / p % 10)) = m := by
  have hdigit : ∀ p, (digit (m / p % 10)).toNat - 48 = m / p % 10 := by
    intro p
    rw [toNat_digit (Nat.mod_lt _ (by decide))]
    omega
  simp only [value, map_cons, map_nil, foldl_cons, foldl_nil, hdigit]
  omega

theorem readsSeconds_decimal : ReadsSeconds strtod_decimal := by
  intro us hus rest
  obtain ⟨n, rfl⟩ := Int.eq_ofNat_of_zero_le hus
  have hmod : n % 1000000 < 1000000 := Nat.mod_lt _ (by decide)
  generalize hsix : ([100000, 10000, 1000, 100, 10, 1].map fun p => digit (n % 1000000 / p % 10)) = six
  have hlen : six.length = 6 := by rw [← hsix]; rfl
  have htext : append_seconds n ++ ch ',' :: rest = decimal (n / 1000000) ++ (ch '.' :: (six ++ ch ',' :: rest)) := by
    rw [append_seconds_eq, hsix]
    simp only [append_assoc, cons_append]
  have hdot : Ends (ch '.' :: (six ++ ch ',' :: rest)) := by
    intro c hc
    cases hc
    decide
  unfold strtod_decimal
  simp only [htext, takeWhile_decimal _ hdot, drop_left, drop_one, tail_cons]
  rw [if_neg (by simpa using decimal_ne_nil _), take_left' hlen, ← hsix, value_six _ hmod, value_decimal]
  congr 1
  omega

def lost_request : TraceRequest := { timestamp := 1000000, start_timestamp := 1000000, blocks := [1], category := 1, type := ascii "hash_ids" }

theorem printable_lost : Printable lost_request :=
  ⟨⟨by decide, by decide, by decide, by decide, by decide, by decide, by decide, by decide⟩, by decide,
    by decide, by decide, by decide,
    by decide, by decide, by decide, by decide, by decide⟩

/-- It is a request that a reader hands out, and its line is skipped. -/
theorem jsonl_loses_request : Printable lost_request ∧ Numbered 0 ∅ [lost_request] ∧
    (read_lines strtod_decimal .kPrefix {} (getlines [] (write_jsonl [lost_request]))).map untouched ≠ [lost_request].map untouched :=
  ⟨printable_lost, ⟨rfl, by decide +kernel, trivial⟩, by decide +kernel⟩

theorem jsonl_round_trip_of_two :
    let requests : List TraceRequest := [
      { timestamp := 1500000, start_timestamp := 1000000, blocks := [1, 2], session := 1, category := 1, turn := 0, type := ascii "chat",
        next_access_vtime := [3, MAX_REUSE_DISTANCE], session_next_access := 1 },
      { index := 1, timestamp := 2000000, start_timestamp := 2000000, blocks := [1, 3], session := 1, category := 2, turn := 1,
        type := ascii "chat", next_access_vtime := [MAX_REUSE_DISTANCE, MAX_REUSE_DISTANCE] }]
    load_trace false (read_lines strtod_decimal .kPrefix {} (getlines [] (write_jsonl requests))) INT64_MAX = .ok requests := by
  intro requests
  have hprint : ∀ r ∈ requests, Printable r := by
    intro r hr
    rcases mem_pair.1 hr with rfl | rfl
    all_goals exact ⟨by constructor <;> decide, by decide, by decide, by decide, by decide, by decide,
      by decide, by decide, by decide, by decide⟩
  have hnum : Numbered 0 ∅ requests := ⟨rfl, by decide +kernel, rfl, by decide +kernel, trivial⟩
  have hkept : ∀ r ∈ requests, Kept r := by
    intro r hr
    rcases mem_pair.1 hr with rfl | rfl
    all_goals constructor <;> decide
  have hpair : (requests.flatMap fun r => edges 0 r.blocks).Pairwise SameParent := by
    unfold SameParent
    decide
  have horacle : Oracle (fun _ => false) requests := by
    have hout := (annotate_spec requests INT64_MAX).2
    exact hout.congr_skip (by decide +kernel)
  have htrip := jsonl_round_trip strtod_decimal readsSeconds_decimal requests hprint hnum ⟨3, by decide⟩ ⟨1, by decide⟩ ⟨0, by decide⟩
  exact (htrip.2 (by simp [requests]) horacle).2 ⟨hkept, hpair⟩

end CacheSim.Trace
