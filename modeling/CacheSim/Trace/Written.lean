import CacheSim.Trace.Readable

/-!
# Reading a line that was written

The reader scans for keys, and a line is what stands between its quotes.
-/

namespace CacheSim.Trace

open Lib List

/-! ## The pieces of a line -/

def number_field (key v : Bytes) : List Bytes := [key, ch ':' :: v ++ [ch ',']]

def text_field (key v : Bytes) : List Bytes := [key, [ch ':'], v, [ch ',']]

variable (r : TraceRequest)

def type_field : List Bytes := if r.type.isEmpty then [] else text_field (ascii "type") r.type

def id_field (key : Bytes) (id : Nat) : List Bytes := if id = 0 then [] else text_field key (append_int (int64 id))

def first_pairs : List (Bytes × Bytes) := [
  (ascii "chat_id", append_int r.chat_id),
  (ascii "parent_chat_id", append_int r.parent_chat_id),
  (ascii "timestamp", append_seconds r.timestamp),
  (ascii "timestamp_arrival", append_seconds r.start_timestamp),
  (ascii "input_length", append_int_or_null r.input_length),
  (ascii "output_length", append_int_or_null r.output_length)]

def first_keys : List Bytes := ["chat_id", "parent_chat_id", "timestamp", "timestamp_arrival", "input_length", "output_length"].map ascii

def number_fields (pairs : List (Bytes × Bytes)) : List Bytes := pairs.flatMap fun f => number_field f.1 f.2

def first_fields : List Bytes := number_fields (first_pairs r)

def ids_text (blocks : List ObjId) : Bytes := ((blocks.map fun id => append_int (int64 id)).intersperse (ascii ",")).flatten

def line_pieces : List Bytes :=
  first_fields r ++ type_field r ++ number_field (ascii "turn") (append_int_or_null r.turn) ++
  id_field (ascii "session_id") r.session ++ id_field (ascii "user_id") r.user ++
  [ascii "hash_ids", ascii ":[" ++ ids_text r.blocks ++ ascii "]\x7d"]

theorem pieces_number_field (key v : Bytes) : pieces (number_field key v) = quote :: key ++ quote :: ch ':' :: v ++ [ch ','] := by
  simp [number_field, pieces]

theorem comma_text_field (p : Prop) [Decidable p] (key v : Bytes) :
    ch ',' :: pieces (if p then [] else text_field key v) =
      (if p then [] else ch ',' :: quote :: key ++ [quote, ch ':', quote] ++ v ++ [quote]) ++ [ch ','] := by
  split_ifs
  · rfl
  · simp [text_field, pieces]

theorem comma_id_field (key : Bytes) (id : Nat) :
    ch ',' :: pieces (id_field key id) = append_id (ch ',' :: quote :: key ++ [quote, ch ':', quote]) id ++ [ch ','] :=
  comma_text_field (id = 0) key (append_int (int64 id))

theorem comma_type_field (r : TraceRequest) :
    ch ',' :: pieces (type_field r) = (if r.type.isEmpty then [] else ascii ",\"type\":\"" ++ r.type ++ ascii "\"") ++ [ch ','] :=
  comma_text_field (r.type.isEmpty = true) (ascii "type") r.type

theorem append_jsonl_eq (r : TraceRequest) : append_jsonl r = 0x7b :: pieces (line_pieces r) := by
  have h1 : ascii "\x7b\"chat_id\":" = 0x7b :: quote :: ascii "chat_id" ++ [quote, ch ':'] := rfl
  have h2 : ascii ",\"parent_chat_id\":" = ch ',' :: quote :: ascii "parent_chat_id" ++ [quote, ch ':'] := rfl
  have h3 : ascii ",\"timestamp\":" = ch ',' :: quote :: ascii "timestamp" ++ [quote, ch ':'] := rfl
  have h4 : ascii ",\"timestamp_arrival\":" = ch ',' :: quote :: ascii "timestamp_arrival" ++ [quote, ch ':'] := rfl
  have h5 : ascii ",\"input_length\":" = ch ',' :: quote :: ascii "input_length" ++ [quote, ch ':'] := rfl
  have h6 : ascii ",\"output_length\":" = ch ',' :: quote :: ascii "output_length" ++ [quote, ch ':'] := rfl
  have h7 : ascii ",\"turn\":" = ch ',' :: quote :: ascii "turn" ++ [quote, ch ':'] := rfl
  have h8 : ascii ",\"session_id\":\"" = ch ',' :: quote :: ascii "session_id" ++ [quote, ch ':', quote] := rfl
  have h9 : ascii ",\"user_id\":\"" = ch ',' :: quote :: ascii "user_id" ++ [quote, ch ':', quote] := rfl
  have h10 : ascii ",\"hash_ids\":[" = ch ',' :: quote :: ascii "hash_ids" ++ quote :: ascii ":[" := rfl
  -- a comma moves from after a field that may be missing to before it
  have hmove : ∀ {l : List Bytes} {text : Bytes}, ch ',' :: pieces l = text ++ [ch ','] →
      ∀ rest, ch ',' :: (pieces l ++ rest) = text ++ ch ',' :: rest := by
    intro l text h rest
    rw [← cons_append, h, append_assoc, singleton_append]
  unfold append_jsonl line_pieces first_fields number_fields first_pairs ids_text
  rw [h1, h2, h3, h4, h5, h6, h7, h8, h9, h10]
  simp only [flatMap_cons, flatMap_nil, pieces_append, pieces_number_field, pieces, append_nil, append_assoc,
    cons_append, nil_append]
  rw [hmove (comma_type_field r), hmove (comma_id_field (ascii "session_id") r.session), hmove (comma_id_field (ascii "user_id") r.user)]
  simp only [append_assoc, cons_append]

variable {word v : Bytes} {l post : List Bytes}

theorem strstr_line (word text : Bytes) : strstr (quoted word) (0x7b :: text) = strstr (quoted word) text :=
  strstr_skip (s := [0x7b]) (by decide) word text

theorem find_field_pieces (hword : quote ∉ word) (hl : ∀ s ∈ l, quote ∉ s) (h : word ∉ l) :
    find_field (0x7b :: pieces (l ++ word :: (ch ':' :: v) :: post)) (quoted word) = some ((v ++ pieces post).dropWhile isblank) := by
  unfold find_field
  rw [strstr_line, strstr_pieces hword hl h]
  simp only [bind, Option.bind, drop_left]
  rfl

variable {c : UInt8}

theorem find_field_value (hword : quote ∉ word) (hl : ∀ s ∈ l, quote ∉ s) (h : word ∉ l) (hblank : isblank c = false)
    (hcolon : c ≠ ch ':') : find_field (0x7b :: pieces (l ++ word :: (c :: v) :: post)) (quoted word) = none := by
  unfold find_field
  rw [strstr_line, strstr_pieces hword hl h]
  simp only [bind, Option.bind, drop_left, cons_append, dropWhile_cons, hblank]
  simp [hcolon]

theorem find_field_absent (hword : quote ∉ word) (hl : ∀ s ∈ l, quote ∉ s) (h : word ∉ l) :
    find_field (0x7b :: pieces l) (quoted word) = none := by
  unfold find_field
  rw [strstr_line, strstr_pieces_of_notMem hword hl h]
  rfl

/-! ## Numbers -/

theorem isblank_of_isdigit (h : isdigit c = true) : isblank c = false := by
  simp [isblank, ne_of_isdigit h (show isdigit (ch ' ') = false by decide), ne_of_isdigit h (show isdigit (ch '\t') = false by decide)]

variable {rest : Bytes}

theorem strtoll_append_int {v : Int} (hv : IsInt64 v) (h : Ends rest) : strtoll (append_int v ++ rest) = v := by
  obtain ⟨hlo, hhi⟩ := hv
  unfold append_int strtoll
  split_ifs with hneg
  · rw [read_number_minus _ h]
    dsimp only
    omega
  · rw [read_number_decimal _ h]
    dsimp only
    omega

theorem strtoull_append_int {n : Nat} (hn : n < 2 ^ 64) (h : Ends rest) :
    strtoull (append_int (int64 n) ++ rest) = some (n, rest) := by
  unfold append_int strtoull
  have hmod : int64 n = if n < 2 ^ 63 then (n : Int) else (n : Int) - 2 ^ 64 := by
    unfold int64
    split_ifs with hlt
    · apply Int.bmod_eq_of_le <;> omega
    · rw [← Int.sub_bmod_right]
      apply Int.bmod_eq_of_le <;> push_cast <;> omega
  rw [hmod]
  by_cases hlt : n < 2 ^ 63
  · rw [if_pos hlt, if_neg (by omega), read_number_decimal _ h]
    simp only [Option.map_some]
    rw [if_neg (by omega)]
    rfl
  · have habs : ((n : Int) - 2 ^ 64).natAbs = 2 ^ 64 - n := by omega
    rw [if_neg hlt, if_pos (by omega), habs, read_number_minus _ h]
    simp only [Option.map_some, Option.some.injEq, Prod.mk.injEq, and_true]
    rw [if_neg (by omega), if_pos trivial]
    omega

theorem ofInt_digit {d : Nat} (h : d < 10) : UInt8.ofInt (48 + (d : Int)) = digit d := by
  have hmod : ((48 + (d : Int)) % 2 ^ 8).toNat = 48 + d := by omega
  rw [UInt8.ofInt, hmod, digit]

theorem append_seconds_eq (us : Nat) :
    append_seconds us =
      decimal (us / 1000000) ++ ch '.' :: [100000, 10000, 1000, 100, 10, 1].map fun p => digit (us % 1000000 / p % 10) := by
  have hdigit : ∀ p : Nat, UInt8.ofInt (48 + (((us : Int).tmod 1000000).tdiv p).tmod 10) = digit (us % 1000000 / p % 10) :=
    fun p => ofInt_digit (d := us % 1000000 / p % 10) (Nat.mod_lt _ (by decide))
  have hint : append_int ((us : Int).tdiv 1000000) = decimal (us / 1000000) := by
    rw [show (us : Int).tdiv 1000000 = ((us / 1000000 : Nat) : Int) from rfl, append_int, if_neg (by omega), Int.natAbs_natCast]
  simp only [← hdigit]
  rfl

/-! ## The characters of a line -/

def plain : Bytes := ascii "abcdefghijklmnopqrstuvwxyz_0123456789-.,:[]\x7d"

theorem plain_of_isdigit (h : isdigit c = true) : c ∈ plain := by
  have hplain : ∀ d < 10, digit d ∈ plain := by decide
  simp only [isdigit, decide_eq_true_eq, UInt8.le_iff_toNat_le] at h
  have h48 : (48 : UInt8).toNat = 48 := rfl
  have h57 : (57 : UInt8).toNat = 57 := rfl
  have hd : c.toNat - 48 < 10 := by omega
  have hc : c = digit (c.toNat - 48) := by
    rw [← UInt8.toNat_inj, toNat_digit hd]
    omega
  rw [hc]
  exact hplain _ hd

theorem decimal_plain (n : Nat) : decimal n ⊆ plain := fun _ hc => plain_of_isdigit (isdigit_decimal hc)

theorem append_int_plain (v : Int) : append_int v ⊆ plain := by
  unfold append_int
  split_ifs
  · exact cons_subset.2 ⟨by decide, decimal_plain _⟩
  · exact decimal_plain _

theorem append_int_or_null_plain (v : Int) : append_int_or_null v ⊆ plain := by
  unfold append_int_or_null
  split_ifs
  · decide
  · exact append_int_plain v

theorem append_seconds_plain (us : Nat) : append_seconds us ⊆ plain := by
  rw [append_seconds_eq]
  apply append_subset.2 ⟨decimal_plain _, cons_subset.2 ⟨by decide, ?_⟩⟩
  intro c hc
  obtain ⟨p, -, rfl⟩ := mem_map.1 hc
  exact plain_of_isdigit (isdigit_digit (Nat.mod_lt _ (by decide)))

def more_ids : List ObjId → Bytes
  | [] => []
  | id :: ids => ch ',' :: append_int (int64 id) ++ more_ids ids

theorem ids_text_cons (id : ObjId) (ids : List ObjId) : ids_text (id :: ids) = append_int (int64 id) ++ more_ids ids := by
  induction ids generalizing id with
  | nil => simp [ids_text, more_ids]
  | cons id' ids ih =>
    have htext : ids_text (id :: id' :: ids) = append_int (int64 id) ++ (ascii "," ++ ids_text (id' :: ids)) := by
      simp only [ids_text, map_cons, intersperse_cons_cons, flatten_cons]
    have hcomma : ascii "," = [ch ','] := rfl
    rw [htext, ih, more_ids, hcomma, singleton_append, cons_append]

theorem more_ids_plain (ids : List ObjId) : more_ids ids ⊆ plain := by
  induction ids with
  | nil => exact nil_subset _
  | cons id ids ih =>
    exact append_subset.2 ⟨cons_subset.2 ⟨by decide, append_int_plain _⟩, ih⟩

theorem ids_text_plain (blocks : List ObjId) : ids_text blocks ⊆ plain := by
  cases blocks with
  | nil => exact nil_subset _
  | cons id ids =>
    rw [ids_text_cons]
    exact append_subset.2 ⟨append_int_plain _, more_ids_plain ids⟩

theorem number_field_plain {key v : Bytes} (hkey : key ⊆ plain) (hv : v ⊆ plain) : ∀ s ∈ number_field key v, s ⊆ plain := by
  intro s hs
  rcases mem_pair.1 hs with rfl | rfl
  · exact hkey
  · exact append_subset.2 ⟨cons_subset.2 ⟨by decide, hv⟩, by decide⟩

theorem text_field_plain {key v : Bytes} (hkey : key ⊆ plain) : ∀ s ∈ text_field key v, s = v ∨ s ⊆ plain := by
  intro s hs
  simp only [text_field, mem_cons, not_mem_nil, or_false] at hs
  rcases hs with rfl | rfl | rfl | rfl
  · exact .inr hkey
  · exact .inr (by decide)
  · exact .inl rfl
  · exact .inr (by decide)

variable {key : Bytes}

theorem id_field_plain (hkey : key ⊆ plain) (id : Nat) : ∀ s ∈ id_field key id, s ⊆ plain := by
  intro s hs
  unfold id_field at hs
  split_ifs at hs
  · cases hs
  · rcases text_field_plain hkey s hs with hv | hplain
    · rw [hv]
      exact append_int_plain _
    · exact hplain

theorem first_fields_plain {r : TraceRequest} (htime : 0 ≤ r.timestamp) (hstart : 0 ≤ r.start_timestamp) :
    ∀ s ∈ first_fields r, s ⊆ plain := by
  obtain ⟨us, hus⟩ := Int.eq_ofNat_of_zero_le htime
  obtain ⟨us', hus'⟩ := Int.eq_ofNat_of_zero_le hstart
  intro s hs
  obtain ⟨f, hf, hs⟩ := mem_flatMap.1 hs
  have hkeys : ∀ key ∈ first_keys, key ⊆ plain := by decide
  have hkey : f.1 ∈ first_keys := mem_map_of_mem hf
  apply number_field_plain (hkeys _ hkey) _ s hs
  simp only [first_pairs, mem_cons, not_mem_nil, or_false, hus, hus'] at hf
  rcases hf with rfl | rfl | rfl | rfl | rfl | rfl
  · exact append_int_plain _
  · exact append_int_plain _
  · exact append_seconds_plain us
  · exact append_seconds_plain us'
  · exact append_int_or_null_plain _
  · exact append_int_or_null_plain _

theorem type_field_plain {r : TraceRequest} : ∀ s ∈ type_field r, s = r.type ∨ s ⊆ plain := by
  intro s hs
  unfold type_field at hs
  split_ifs at hs
  · cases hs
  · exact text_field_plain (by decide) s hs

theorem line_pieces_plain {r : TraceRequest} (htime : 0 ≤ r.timestamp) (hstart : 0 ≤ r.start_timestamp) :
    ∀ s ∈ line_pieces r, s = r.type ∨ s ⊆ plain := by
  intro s hs
  simp only [line_pieces, mem_append] at hs
  rcases hs with ((((hs | hs) | hs) | hs) | hs) | hs
  · exact .inr (first_fields_plain htime hstart s hs)
  · exact type_field_plain s hs
  · exact .inr (number_field_plain (by decide) (append_int_or_null_plain _) s hs)
  · exact .inr (id_field_plain (by decide) _ s hs)
  · exact .inr (id_field_plain (by decide) _ s hs)
  · right
    rcases mem_pair.1 hs with rfl | rfl
    · decide
    · exact append_subset.2 ⟨append_subset.2 ⟨by decide, ids_text_plain _⟩, by decide⟩

/-! ## The fields of a line -/

theorem find_number_field {t : Bytes} (hword : quote ∉ word) (hl : ∀ s ∈ l, quote ∉ s) (h : word ∉ l) (hv : v = c :: t)
    (hblank : isblank c = false) :
    find_field (0x7b :: pieces (l ++ number_field word v ++ post)) (quoted word) = some (v ++ ch ',' :: pieces post) := by
  have hsplit : l ++ number_field word v ++ post = l ++ word :: (ch ':' :: (v ++ [ch ','])) :: post := by simp [number_field]
  rw [hsplit, find_field_pieces hword hl h, hv, cons_append, cons_append, dropWhile_cons, hblank]
  simp

theorem append_int_head (n : Int) : ∃ c t, append_int n = c :: t ∧ isblank c = false ∧ starts_number (c :: t) = true := by
  unfold append_int
  obtain ⟨d, t, ht, hd⟩ := decimal_head n.natAbs
  split_ifs
  · exact ⟨ch '-', _, rfl, by decide, by simp [starts_number]⟩
  · exact ⟨d, t, ht, isblank_of_isdigit hd, by simp [starts_number, hd]⟩

theorem ends_comma (rest : Bytes) : Ends (ch ',' :: rest) := by
  intro c hc
  cases hc
  decide

theorem int_field_append_int {n absent : Int} (hn : IsInt64 n) (hword : quote ∉ word) (hl : ∀ s ∈ l, quote ∉ s) (h : word ∉ l) :
    int_field (0x7b :: pieces (l ++ number_field word (append_int n) ++ post)) (quoted word) absent = n := by
  obtain ⟨c, t, ht, hblank, hstarts⟩ := append_int_head n
  have hnumber : starts_number (append_int n ++ ch ',' :: pieces post) = true := by
    rw [ht]
    exact hstarts
  unfold int_field
  rw [find_number_field hword hl h ht hblank]
  dsimp only
  rw [if_pos hnumber, strtoll_append_int hn (ends_comma _)]

theorem int_field_append_int_or_null {n : Int} (hn : IsInt64 n) (hword : quote ∉ word) (hl : ∀ s ∈ l, quote ∉ s) (h : word ∉ l) :
    int_field (0x7b :: pieces (l ++ number_field word (append_int_or_null n) ++ post)) (quoted word) (-1) = max n (-1) := by
  by_cases hneg : n < 0
  · have hnull : append_int_or_null n = ch 'n' :: ascii "ull" := by rw [append_int_or_null, if_pos hneg]; rfl
    unfold int_field
    rw [find_number_field hword hl h hnull (by decide), hnull]
    dsimp only
    rw [if_neg (by simp [starts_number, isdigit, ch])]
    omega
  · rw [append_int_or_null, if_neg hneg, int_field_append_int hn hword hl h]
    omega

theorem double_field_append_seconds {strtod : Bytes → Option Int} (us : Nat)
    (hstrtod : ∀ rest, strtod (append_seconds us ++ ch ',' :: rest) = some us) {absent : Int} (hword : quote ∉ word)
    (hl : ∀ s ∈ l, quote ∉ s) (h : word ∉ l) :
    double_field strtod (0x7b :: pieces (l ++ number_field word (append_seconds us) ++ post)) (quoted word) absent = us := by
  obtain ⟨d, t, ht, hd⟩ := decimal_head (us / 1000000)
  have hhead : ∃ t, append_seconds us = d :: t := by
    rw [append_seconds_eq, ht]
    exact ⟨_, rfl⟩
  obtain ⟨t', ht'⟩ := hhead
  unfold double_field
  rw [find_number_field hword hl h ht' (isblank_of_isdigit hd), Option.bind_some, hstrtod]
  rfl

theorem string_field_text_field (hword : quote ∉ word) (hl : ∀ s ∈ l, quote ∉ s) (h : word ∉ l) (hv : quote ∉ v) :
    string_field (0x7b :: pieces (l ++ text_field word v ++ post)) (quoted word) = some v := by
  have hsplit : l ++ text_field word v ++ post = l ++ word :: [ch ':'] :: v :: [ch ','] :: post := by simp [text_field]
  have hfield : find_field (0x7b :: pieces (l ++ text_field word v ++ post)) (quoted word) =
      some (quote :: (v ++ quote :: ch ',' :: pieces post)) := by
    rw [hsplit, find_field_pieces hword hl h, nil_append, pieces, cons_append, dropWhile_cons_of_neg (by decide), pieces]
    rfl
  have htake : (v ++ quote :: ch ',' :: pieces post).takeWhile (· ≠ quote) = v := by
    rw [takeWhile_append_of_pos]
    · simp
    · intro c hc
      simpa using fun heq : c = quote => hv (heq ▸ hc)
  unfold string_field
  rw [hfield]
  simp only [bind, Option.bind, guard]
  rw [if_pos ⟨rfl, by simp [quote]⟩]
  exact congrArg some htake

theorem find_field_in_text (hword : quote ∉ word) (hl : ∀ s ∈ l, quote ∉ s) (h : word ∉ l) (hkey : quote ∉ key)
    (hne : word ≠ key) (hcolon : word ≠ [ch ':']) :
    find_field (0x7b :: pieces (l ++ text_field key word ++ post)) (quoted word) = none := by
  have hsplit : l ++ text_field key word ++ post = (l ++ [key, [ch ':']]) ++ word :: (ch ',' :: []) :: post := by simp [text_field]
  rw [hsplit]
  apply find_field_value hword
  · intro s hs
    rcases mem_append.1 hs with hs | hs
    · exact hl s hs
    · rcases mem_pair.1 hs with rfl | rfl
      · exact hkey
      · decide
  · intro hmem
    rcases mem_append.1 hmem with hmem | hmem
    · exact h hmem
    · rcases mem_pair.1 hmem with heq | heq
      · exact hne heq
      · exact hcolon heq
  · decide
  · decide

/-! ## Keys and values -/

def is_key (word : Bytes) : Bool := quote ∉ word ∧ word.head?.any fun c => 97 ≤ c

section

variable (h : is_key word = true)
include h

theorem quote_notMem_of_is_key : quote ∉ word := by
  simp only [is_key, decide_eq_true_eq] at h
  exact h.1

theorem ne_of_is_key (hc : (97 : UInt8) ≤ c → False) (t : Bytes) : word ≠ c :: t := by
  rintro rfl
  simp only [is_key, head?_cons, Option.any_some, decide_eq_true_eq] at h
  exact hc h.2

theorem notMem_number_field (hne : word ≠ key) : word ∉ number_field key v := by
  intro hmem
  rcases mem_pair.1 hmem with heq | heq
  · exact hne heq
  · exact ne_of_is_key h (by decide) _ heq

theorem notMem_text_field (hne : word ≠ key) (hv : word ≠ v) : word ∉ text_field key v := by
  simp only [text_field, mem_cons, not_mem_nil, or_false, not_or]
  exact ⟨hne, ne_of_is_key h (by decide) _, hv, ne_of_is_key h (by decide) _⟩

theorem ne_append_int (n : Int) : word ≠ append_int n := by
  obtain ⟨c, t, ht, -, hstarts⟩ := append_int_head n
  rw [ht]
  apply ne_of_is_key h
  intro hc
  simp only [starts_number, head?_cons, Option.any_some, Bool.or_eq_true, decide_eq_true_eq] at hstarts
  rcases hstarts with rfl | hdigit
  · exact absurd hc (by decide)
  · simp only [isdigit, decide_eq_true_eq] at hdigit
    exact absurd (UInt8.le_trans hc hdigit.2) (by decide)

theorem notMem_id_field (hne : word ≠ key) (id : Nat) : word ∉ id_field key id := by
  unfold id_field
  split_ifs
  · simp
  · exact notMem_text_field h hne (ne_append_int h _)

theorem notMem_type_field (hne : word ≠ ascii "type") {r : TraceRequest} (hv : word ≠ r.type) : word ∉ type_field r := by
  unfold type_field
  split_ifs
  · simp
  · exact notMem_text_field h hne hv

theorem notMem_number_fields {pairs : List (Bytes × Bytes)} (hne : word ∉ pairs.map Prod.fst) :
    word ∉ number_fields pairs := by
  intro hmem
  obtain ⟨f, hf, hmem⟩ := mem_flatMap.1 hmem
  exact notMem_number_field h (fun heq => hne (heq ▸ mem_map_of_mem hf)) hmem

theorem notMem_first_fields (hne : word ∉ first_keys) (r : TraceRequest) : word ∉ first_fields r :=
  notMem_number_fields h hne

end

/-! ## What is read of a line -/

/-- A request that one line can hold. -/
structure Printable (r : TraceRequest) : Prop where
  sized : Sized r
  timestamp : 0 ≤ r.timestamp
  start_timestamp : 0 ≤ r.start_timestamp
  quote : Lib.quote ∉ r.type
  newline : 10 ∉ r.type
  session : r.session < 2 ^ 64
  user : r.user < 2 ^ 64
  blocks : ∀ b ∈ r.blocks, b < 2 ^ 64
  nonempty : r.blocks ≠ []
  size : r.blocks.length < 2 ^ 63

variable {r : TraceRequest}

theorem Printable.notMem (h : Printable r) {c : UInt8} (hplain : c ∉ plain) (htype : c ∉ r.type) : ∀ s ∈ line_pieces r, c ∉ s := by
  intro s hs
  rcases line_pieces_plain h.timestamp h.start_timestamp s hs with rfl | hsub
  · exact htype
  · exact fun hmem => hplain (hsub hmem)

theorem Printable.line_notMem (h : Printable r) {c : UInt8} (hplain : c ∉ plain) (htype : c ∉ r.type) (hquote : c ≠ Lib.quote)
    (hbrace : c ≠ 0x7b) : c ∉ append_jsonl r := by
  have hpieces : ∀ l : List Bytes, (∀ s ∈ l, c ∉ s) → c ∉ pieces l := by
    intro l
    induction l with
    | nil => simp [pieces]
    | cons s l ih =>
      intro hl
      have hs := hl s (by simp)
      have hrest := ih fun s hs => hl s (by simp [hs])
      simp [pieces, hquote, hs, hrest]
  rw [append_jsonl_eq]
  simp [hbrace, hpieces _ (h.notMem hplain htype)]

theorem Printable.c_str (h : Printable r) : Lib.c_str (append_jsonl r) = append_jsonl r := by
  have hzero := h.line_notMem (by decide) h.sized.type (by decide) (by decide)
  unfold Lib.c_str
  rw [takeWhile_eq_self_iff]
  intro c hc
  simpa using fun heq : c = 0 => hzero (heq ▸ hc)

structure Place (r : TraceRequest) (word : Bytes) (l here : List Bytes) : Prop where
  split : ∃ post, line_pieces r = l ++ here ++ post
  key : is_key word = true
  first : word ∉ l

theorem Place.quote_notMem {here : List Bytes} (hp : Place r word l here) (h : Printable r) : ∀ s ∈ l, Lib.quote ∉ s := by
  obtain ⟨post, hsplit⟩ := hp.split
  intro s hs
  exact h.notMem (by decide) h.quote s (by rw [hsplit]; simp [hs])

theorem Printable.int_field (h : Printable r) {n absent : Int}
    (hp : Place r word l (number_field word (append_int n))) (hn : IsInt64 n) :
    Trace.int_field (append_jsonl r) (quoted word) absent = n := by
  obtain ⟨post, hsplit⟩ := hp.split
  rw [append_jsonl_eq, hsplit]
  exact int_field_append_int hn (quote_notMem_of_is_key hp.key) (hp.quote_notMem h) hp.first

theorem Printable.int_or_null_field (h : Printable r) {n : Int} (hp : Place r word l (number_field word (append_int_or_null n)))
    (hn : IsInt32 n) : int32 (Trace.int_field (append_jsonl r) (quoted word) (-1)) = max n (-1) := by
  obtain ⟨post, hsplit⟩ := hp.split
  obtain ⟨hlo, hhi⟩ := hn
  rw [append_jsonl_eq, hsplit, int_field_append_int_or_null ⟨by omega, by omega⟩ (quote_notMem_of_is_key hp.key)
    (hp.quote_notMem h) hp.first]
  apply Int.bmod_eq_of_le
  · omega
  · omega

variable {strtod : Bytes → Option Int} {fuel : Nat}

section

variable (h : Printable r)
include h

theorem Printable.double_field {us absent : Int} (hus : 0 ≤ us)
    (hstrtod : ∀ rest, strtod (append_seconds us ++ ch ',' :: rest) = some us)
      (hp : Place r word l (number_field word (append_seconds us))) :
    Trace.double_field strtod (append_jsonl r) (quoted word) absent = us := by
  obtain ⟨post, hsplit⟩ := hp.split
  obtain ⟨n, rfl⟩ := Int.eq_ofNat_of_zero_le hus
  rw [append_jsonl_eq, hsplit]
  exact double_field_append_seconds n hstrtod (quote_notMem_of_is_key hp.key) (hp.quote_notMem h) hp.first

theorem Printable.string_field (hp : Place r word l (text_field word v)) (hv : Lib.quote ∉ v) :
    Trace.string_field (append_jsonl r) (quoted word) = some v := by
  obtain ⟨post, hsplit⟩ := hp.split
  rw [append_jsonl_eq, hsplit]
  exact string_field_text_field (quote_notMem_of_is_key hp.key) (hp.quote_notMem h) hp.first hv

theorem Printable.find_absent (hkey : is_key word = true) (hnot : word ∉ line_pieces r) :
    find_field (append_jsonl r) (quoted word) = none := by
  rw [append_jsonl_eq]
  exact find_field_absent (quote_notMem_of_is_key hkey) (h.notMem (by decide) h.quote) hnot

theorem Printable.find_hidden (hkey : is_key r.type = true) (hnot : r.type ∉ first_keys) (hne : r.type ≠ ascii "type") :
    find_field (append_jsonl r) (quoted r.type) = none := by
  have hempty : ¬ r.type.isEmpty = true := by
    intro hempty
    rw [isEmpty_iff.1 hempty] at hkey
    cases hkey
  have hsplit : ∃ post, line_pieces r = first_fields r ++ text_field (ascii "type") r.type ++ post := by
    refine ⟨number_field (ascii "turn") (append_int_or_null r.turn) ++ id_field (ascii "session_id") r.session ++
      id_field (ascii "user_id") r.user ++ [ascii "hash_ids", ascii ":[" ++ ids_text r.blocks ++ ascii "]\x7d"], ?_⟩
    rw [line_pieces, type_field, if_neg hempty]
    simp only [append_assoc]
  have hp : Place r r.type (first_fields r) (text_field (ascii "type") r.type) := ⟨hsplit, hkey, notMem_first_fields hkey hnot r⟩
  obtain ⟨post, hsplit⟩ := hsplit
  rw [append_jsonl_eq, hsplit]
  exact find_field_in_text h.quote (hp.quote_notMem h) hp.first (by decide) hne (ne_of_is_key hkey (by decide) _)

end

/-! ## The array -/

theorem append_int_starts (n : Int) :
    ∃ c t, append_int n = c :: t ∧ c ≠ ch ']' ∧ decide (c = ch ' ' ∨ c = ch ',') = false := by
  obtain ⟨c, t, ht, -, hstarts⟩ := append_int_head n
  refine ⟨c, t, ht, ?_⟩
  simp only [starts_number, head?_cons, Option.any_some, Bool.or_eq_true, decide_eq_true_eq] at hstarts
  rcases hstarts with rfl | hdigit
  · exact ⟨by decide, by decide⟩
  · have hspace : c ≠ ch ' ' := ne_of_isdigit hdigit (by decide)
    have hcomma : c ≠ ch ',' := ne_of_isdigit hdigit (by decide)
    exact ⟨ne_of_isdigit hdigit (by decide), by simp [hspace, hcomma]⟩

theorem raw_ids_next {id : Nat} {text rest : Bytes} (hid : id < 2 ^ 64) (hrest : Ends rest)
    (hhead : ¬ (text.head? = none ∨ text.head? = some (ch ']')))
    (hdrop : (text.dropWhile fun c => c = ch ' ' ∨ c = ch ',') = append_int (int64 id) ++ rest) :
    raw_ids (fuel + 1) text = id :: raw_ids fuel rest := by
  obtain ⟨c, t, ht, hne, -⟩ := append_int_starts (int64 id)
  have hc : (append_int (int64 id) ++ rest).head? = some c := by
    rw [ht]
    rfl
  rw [raw_ids, if_neg hhead]
  simp only [hdrop]
  rw [hc, if_neg (by simp [hne]), strtoull_append_int hid hrest]

theorem ends_more_ids (ids : List ObjId) : Ends (more_ids ids ++ ascii "]\x7d") := by
  intro c hc
  cases ids with
  | nil =>
    cases hc
    decide
  | cons id ids =>
    cases hc
    decide

variable {ids : List ObjId}

theorem raw_ids_more (hids : ∀ b ∈ ids, b < 2 ^ 64) (hfuel : ids.length < fuel) :
    raw_ids fuel (more_ids ids ++ ascii "]\x7d") = ids := by
  induction ids generalizing fuel with
  | nil =>
    obtain ⟨fuel, rfl⟩ : ∃ k, fuel = k + 1 := ⟨fuel - 1, by simp at hfuel; omega⟩
    rfl
  | cons id ids ih =>
    rw [length_cons] at hfuel
    obtain ⟨fuel, rfl⟩ : ∃ k, fuel = k + 1 := ⟨fuel - 1, by omega⟩
    obtain ⟨c, t, ht, -, hskip⟩ := append_int_starts (int64 id)
    rw [raw_ids_next (hids id (by simp)) (ends_more_ids ids)]
    · rw [ih (fun b hb => hids b (by simp [hb])) (by omega)]
    · rw [more_ids]
      simp only [cons_append, head?_cons]
      decide
    · rw [more_ids, append_assoc, cons_append, dropWhile_cons_of_pos (by decide), ht, cons_append,
        dropWhile_cons_of_neg (by simpa using hskip)]

theorem raw_ids_text (hne : ids ≠ []) (hids : ∀ b ∈ ids, b < 2 ^ 64) (hfuel : ids.length < fuel) :
    raw_ids fuel (ids_text ids ++ ascii "]\x7d") = ids := by
  obtain ⟨id, ids, rfl⟩ := exists_cons_of_ne_nil hne
  rw [length_cons] at hfuel
  obtain ⟨fuel, rfl⟩ : ∃ k, fuel = k + 1 := ⟨fuel - 1, by omega⟩
  obtain ⟨c, t, ht, hbracket, hskip⟩ := append_int_starts (int64 id)
  rw [ids_text_cons, append_assoc, raw_ids_next (hids id (by simp)) (ends_more_ids ids)]
  · rw [raw_ids_more (fun b hb => hids b (by simp [hb])) (by omega)]
  · rw [ht]
    simp [hbracket]
  · rw [ht, cons_append, dropWhile_cons_of_neg (by simpa using hskip)]

theorem length_le_ids_text (ids : List ObjId) : ids.length ≤ (ids_text ids).length := by
  have hmore : ∀ ids : List ObjId, ids.length ≤ (more_ids ids).length := by
    intro ids
    induction ids with
    | nil => exact Nat.zero_le _
    | cons id ids ih =>
      rw [more_ids, length_append, length_cons, length_cons]
      omega
  cases ids with
  | nil => exact Nat.zero_le _
  | cons id ids =>
    obtain ⟨c, t, ht, -⟩ := append_int_starts (int64 id)
    have := hmore ids
    rw [ids_text_cons, ht, length_append, length_cons, length_cons]
    omega

/-- The ids that a line is written with are read from it, up to the largest `uint64_t`. -/
theorem Printable.hash_ids (h : Printable r) :
    Trace.hash_ids (append_jsonl r) = if r.type = ascii "hash_ids" then [] else r.blocks := by
  unfold Trace.hash_ids
  rw [h.c_str, show ascii "\"hash_ids\"" = quoted (ascii "hash_ids") from rfl]
  split_ifs with htype
  · rw [← htype, h.find_hidden (by rw [htype]; decide) (by rw [htype]; decide) (by rw [htype]; decide)]
  · have hkey : is_key (ascii "hash_ids") = true := by decide
    generalize hl : first_fields r ++ type_field r ++ number_field (ascii "turn") (append_int_or_null r.turn) ++
      id_field (ascii "session_id") r.session ++ id_field (ascii "user_id") r.user = l
    have hsplit : line_pieces r = l ++ ascii "hash_ids" :: (ch ':' :: (ch '[' :: (ids_text r.blocks ++ ascii "]\x7d"))) :: [] := by
      rw [line_pieces, hl]
      rfl
    have hnot : ascii "hash_ids" ∉ l := by
      rw [← hl]
      simp only [mem_append, not_or]
      exact ⟨⟨⟨⟨notMem_first_fields hkey (by decide) r, notMem_type_field hkey (by decide) (Ne.symm htype)⟩,
        notMem_number_field hkey (by decide)⟩, notMem_id_field hkey (by decide) _⟩, notMem_id_field hkey (by decide) _⟩
    have hquote : ∀ s ∈ l, Lib.quote ∉ s := fun s hs => h.notMem (by decide) h.quote s (by rw [hsplit]; simp [hs])
    have hfield : find_field (append_jsonl r) (quoted (ascii "hash_ids")) = some (ch '[' :: (ids_text r.blocks ++ ascii "]\x7d")) := by
      rw [append_jsonl_eq, hsplit, find_field_pieces (by decide) hquote hnot, pieces, append_nil,
        dropWhile_cons_of_neg (by decide)]
    rw [hfield]
    apply raw_ids_text h.nonempty h.blocks
    have := length_le_ids_text r.blocks
    rw [length_cons, length_append]
    omega

/-! ## The other fields -/

theorem place_first {k : Nat} {key text : Bytes} (hk : (first_pairs r)[k]? = some (key, text)) :
    Place r key (number_fields ((first_pairs r).take k)) (number_field key text) := by
  have hkeys : ∀ key ∈ first_keys, is_key key = true := by decide
  have hnodup : first_keys.Nodup := by decide
  have hkey : first_keys[k]? = some key := by
    rw [show first_keys = (first_pairs r).map Prod.fst from rfl, getElem?_map, hk]
    rfl
  have hsplit : first_pairs r = (first_pairs r).take k ++ (key, text) :: (first_pairs r).drop (k + 1) := by
    obtain ⟨hlt, heq⟩ := List.getElem?_eq_some_iff.1 hk
    rw [← heq, getElem_cons_drop, take_append_drop]
  refine ⟨?_, hkeys key (mem_of_getElem? hkey), ?_⟩
  · refine ⟨number_fields ((first_pairs r).drop (k + 1)) ++ (type_field r ++ (number_field (ascii "turn") (append_int_or_null r.turn) ++
      (id_field (ascii "session_id") r.session ++ (id_field (ascii "user_id") r.user ++
      [ascii "hash_ids", ascii ":[" ++ ids_text r.blocks ++ ascii "]\x7d"])))), ?_⟩
    have hfields : first_fields r = number_fields ((first_pairs r).take k) ++ (number_field key text ++
        number_fields ((first_pairs r).drop (k + 1))) := by
      conv_lhs => rw [first_fields, number_fields, hsplit, flatMap_append, flatMap_cons]
      rfl
    rw [line_pieces, hfields]
    simp only [append_assoc]
  · apply notMem_number_fields (hkeys key (mem_of_getElem? hkey))
    intro hmem
    have htake : ((first_pairs r).take k).map Prod.fst = first_keys.take k := map_take
    rw [htake] at hmem
    obtain ⟨m, hm⟩ := mem_iff_getElem?.1 hmem
    have hmk : m < k := by
      have := (List.getElem?_eq_some_iff.1 hm).1
      rw [length_take] at this
      omega
    rw [getElem?_take_of_lt hmk] at hm
    exact hmk.ne (getElem?_inj (List.getElem?_eq_some_iff.1 hm).1 hnodup |>.1 (hm.trans hkey.symm))

theorem place_turn (hturn : r.type ≠ ascii "turn") :
    Place r (ascii "turn") (first_fields r ++ type_field r) (number_field (ascii "turn") (append_int_or_null r.turn)) := by
  have hkey : is_key (ascii "turn") = true := by decide
  refine ⟨?_, hkey, ?_⟩
  · simp only [line_pieces, append_assoc]
    exact ⟨_, rfl⟩
  · rw [mem_append, not_or]
    exact ⟨notMem_first_fields hkey (by decide) r, notMem_type_field hkey (by decide) hturn.symm⟩

theorem place_type (htype : r.type ≠ []) : Place r (ascii "type") (first_fields r) (text_field (ascii "type") r.type) := by
  have hkey : is_key (ascii "type") = true := by decide
  refine ⟨?_, hkey, notMem_first_fields hkey (by decide) r⟩
  rw [line_pieces, type_field, if_neg (by simpa using htype)]
  exact ⟨_, rfl⟩

theorem Printable.type (h : Printable r) : (Trace.string_field (append_jsonl r) (ascii "\"type\"")).getD [] = r.type := by
  rw [show ascii "\"type\"" = quoted (ascii "type") from rfl]
  by_cases htype : r.type = []
  · have hkey : is_key (ascii "type") = true := by decide
    have hnot : ascii "type" ∉ line_pieces r := by
      simp only [line_pieces, type_field, htype, isEmpty_nil, if_true, append_nil, mem_append, not_or]
      refine ⟨⟨⟨⟨notMem_first_fields hkey (by decide) r, notMem_number_field hkey (by decide)⟩, notMem_id_field hkey (by decide) _⟩,
        notMem_id_field hkey (by decide) _⟩, ?_⟩
      rw [mem_pair, not_or]
      exact ⟨by decide, ne_of_is_key hkey (by decide) _⟩
    rw [Trace.string_field, h.find_absent hkey hnot, htype]
    rfl
  · rw [h.string_field (place_type htype) h.quote]
    rfl

theorem Printable.turn (h : Printable r) :
    int32 (Trace.int_field (append_jsonl r) (ascii "\"turn\"") (-1)) = if r.type = ascii "turn" then -1 else max r.turn (-1) := by
  rw [show ascii "\"turn\"" = quoted (ascii "turn") from rfl]
  split_ifs with htype
  · rw [← htype, Trace.int_field, h.find_hidden (by rw [htype]; decide) (by rw [htype]; decide) (by rw [htype]; decide)]
    decide
  · exact h.int_or_null_field (place_turn htype) h.sized.turn

theorem Printable.id_text (h : Printable r) {id : Nat} (hsplit : line_pieces r = l ++ id_field key id ++ post)
    (hkey : is_key key = true) (hfirst : key ∉ first_keys) (hne : key ≠ ascii "type") (hl : r.type ≠ key → key ∉ l) (hpost : key ∉ post) :
    Trace.string_field (append_jsonl r) (quoted key) = if id = 0 ∨ r.type = key then none else some (append_int (int64 id)) := by
  by_cases htype : r.type = key
  · rw [if_pos (.inr htype), ← htype, Trace.string_field, h.find_hidden (by rwa [htype]) (by rwa [htype]) (by rwa [htype])]
    rfl
  · by_cases hid : id = 0
    · have hnot : key ∉ line_pieces r := by
        rw [hsplit, id_field, if_pos hid, append_nil, mem_append, not_or]
        exact ⟨hl htype, hpost⟩
      rw [if_pos (.inl hid), Trace.string_field, h.find_absent hkey hnot]
      rfl
    · have hp : Place r key l (text_field key (append_int (int64 id))) := by
        rw [id_field, if_neg hid] at hsplit
        exact ⟨⟨post, hsplit⟩, hkey, hl htype⟩
      rw [if_neg (by simp [hid, htype])]
      apply h.string_field hp
      intro hmem
      have hplain := append_int_plain (int64 id) hmem
      revert hplain
      decide

theorem hash_piece_notMem (hkey : is_key key = true) (hne : key ≠ ascii "hash_ids") :
    key ∉ [ascii "hash_ids", ascii ":[" ++ ids_text r.blocks ++ ascii "]\x7d"] := by
  rw [mem_pair, not_or]
  exact ⟨hne, ne_of_is_key hkey (by decide) _⟩

section

variable (h : Printable r)
include h

theorem Printable.session_text :
    Trace.string_field (append_jsonl r) (ascii "\"session_id\"") =
      if r.session = 0 ∨ r.type = ascii "session_id" then none else some (append_int (int64 r.session)) := by
  have hkey : is_key (ascii "session_id") = true := by decide
  have hsplit : line_pieces r =
      (first_fields r ++ type_field r ++ number_field (ascii "turn") (append_int_or_null r.turn)) ++ id_field (ascii "session_id") r.session ++
      (id_field (ascii "user_id") r.user ++ [ascii "hash_ids", ascii ":[" ++ ids_text r.blocks ++ ascii "]\x7d"]) := by
    simp only [line_pieces, append_assoc]
  apply h.id_text hsplit hkey (by decide) (by decide)
  · intro htype
    simp only [mem_append, not_or]
    exact ⟨⟨notMem_first_fields hkey (by decide) r, notMem_type_field hkey (by decide) htype.symm⟩,
      notMem_number_field hkey (by decide)⟩
  · rw [mem_append, not_or]
    exact ⟨notMem_id_field hkey (by decide) _, hash_piece_notMem hkey (by decide)⟩

theorem Printable.user_text :
    Trace.string_field (append_jsonl r) (ascii "\"user_id\"") =
      if r.user = 0 ∨ r.type = ascii "user_id" then none else some (append_int (int64 r.user)) := by
  have hkey : is_key (ascii "user_id") = true := by decide
  apply h.id_text (l := first_fields r ++ type_field r ++ number_field (ascii "turn") (append_int_or_null r.turn) ++
    id_field (ascii "session_id") r.session) rfl hkey (by decide) (by decide)
  · intro htype
    simp only [mem_append, not_or]
    exact ⟨⟨⟨notMem_first_fields hkey (by decide) r, notMem_type_field hkey (by decide) htype.symm⟩,
      notMem_number_field hkey (by decide)⟩,
      notMem_id_field hkey (by decide) _⟩
  · exact hash_piece_notMem hkey (by decide)

/-! ## The whole line -/

def read_back (s : QwenJsonlReader) (r : TraceRequest) : QwenJsonlReader × TraceRequest :=
  let (blocks, ids) := intern_path s.blocks 0 r.blocks
  let turn := if r.type = ascii "turn" then -1 else max r.turn (-1)
  let (categories, category) := intern_category s.categories r.type turn
  let (sessions, session) := intern_field s.sessions
    (if r.session = 0 ∨ r.type = ascii "session_id" then none else some (append_int (int64 r.session)))
  let (users, user) := intern_field s.users (if r.user = 0 ∨ r.type = ascii "user_id" then none else some (append_int (int64 r.user)))
  ({ n_emitted := s.n_emitted + 1, blocks := blocks, sessions := sessions, users := users, categories := categories }, {
    index := s.n_emitted
    timestamp := r.timestamp
    start_timestamp := r.start_timestamp
    blocks := ids
    session := session
    user := user
    category := category
    chat_id := r.chat_id
    parent_chat_id := r.parent_chat_id
    input_length := max r.input_length (-1)
    output_length := max r.output_length (-1)
    turn := turn
    type := r.type })

/-- `strtod` reads what `append_seconds` writes, up to the comma. -/
def ReadsSeconds (strtod : Bytes → Option Int) : Prop :=
  ∀ us : Int, 0 ≤ us → ∀ rest, strtod (append_seconds us ++ ch ',' :: rest) = some us

theorem Printable.lengths :
    int32 (Trace.int_field (append_jsonl r) (ascii "\"input_length\"") (-1)) = max r.input_length (-1) ∧
    int32 (Trace.int_field (append_jsonl r) (ascii "\"output_length\"") (-1)) = max r.output_length (-1) := by
  have hin : (first_pairs r)[4]? = some (ascii "input_length", append_int_or_null r.input_length) := rfl
  have hout : (first_pairs r)[5]? = some (ascii "output_length", append_int_or_null r.output_length) := rfl
  rw [show ascii "\"input_length\"" = quoted (ascii "input_length") from rfl,
    show ascii "\"output_length\"" = quoted (ascii "output_length") from rfl]
  exact ⟨h.int_or_null_field (place_first hin) h.sized.input_length, h.int_or_null_field (place_first hout) h.sized.output_length⟩

theorem Printable.chat_ids :
    Trace.int_field (append_jsonl r) (ascii "\"chat_id\"") (-1) = r.chat_id ∧
    Trace.int_field (append_jsonl r) (ascii "\"parent_chat_id\"") (-1) = r.parent_chat_id := by
  have hchat : (first_pairs r)[0]? = some (ascii "chat_id", append_int r.chat_id) := rfl
  have hparent : (first_pairs r)[1]? = some (ascii "parent_chat_id", append_int r.parent_chat_id) := rfl
  rw [show ascii "\"chat_id\"" = quoted (ascii "chat_id") from rfl,
    show ascii "\"parent_chat_id\"" = quoted (ascii "parent_chat_id") from rfl]
  exact ⟨h.int_field (place_first hchat) h.sized.chat_id, h.int_field (place_first hparent) h.sized.parent_chat_id⟩

theorem Printable.times (hstrtod : ReadsSeconds strtod) :
    (∀ absent, Trace.double_field strtod (append_jsonl r) (ascii "\"timestamp\"") absent = r.timestamp) ∧
    ∀ absent, Trace.double_field strtod (append_jsonl r) (ascii "\"timestamp_arrival\"") absent = r.start_timestamp := by
  have htime : (first_pairs r)[2]? = some (ascii "timestamp", append_seconds r.timestamp) := rfl
  have hstart : (first_pairs r)[3]? = some (ascii "timestamp_arrival", append_seconds r.start_timestamp) := rfl
  rw [show ascii "\"timestamp\"" = quoted (ascii "timestamp") from rfl,
    show ascii "\"timestamp_arrival\"" = quoted (ascii "timestamp_arrival") from rfl]
  exact ⟨fun _ => h.double_field h.timestamp (hstrtod _ h.timestamp) (place_first htime),
    fun _ => h.double_field h.start_timestamp (hstrtod _ h.start_timestamp) (place_first hstart)⟩

theorem Printable.read_line (hstrtod : ReadsSeconds strtod) (s : QwenJsonlReader) :
    Trace.read_line strtod .kPrefix s (append_jsonl r) =
      if r.type = ascii "hash_ids" then (s, none) else ((read_back s r).1, some (read_back s r).2) := by
  unfold Trace.read_line
  rw [h.hash_ids]
  by_cases htype : r.type = ascii "hash_ids"
  · rw [if_pos htype, if_pos htype]
    rfl
  · have hblocks : ¬ r.blocks.isEmpty = true := by simpa using h.nonempty
    rw [if_neg htype, if_neg htype, if_neg hblocks]
    simp only [h.c_str, (h.times hstrtod).1, (h.times hstrtod).2, h.chat_ids.1, h.chat_ids.2, h.lengths.1, h.lengths.2, h.turn, h.type,
      h.session_text, h.user_text]
    rfl

end

end CacheSim.Trace
