import CacheSim.Trace.Model
import CacheSim.Lib.NextUse
import Mathlib.Algebra.BigOperators.Ring.Finset

/-!
# The next accesses

After `load_trace` the blocks and sessions that the simulator serves carry their next use among what it
serves.
-/

namespace CacheSim.Trace

open Lib Prefixsim List Option

variable {skip : List ObjId → Bool} {requests out : List TraceRequest} {cache_size : Int}

def served (skip : List ObjId → Bool) (requests : List TraceRequest) : List TraceRequest :=
  requests.filter fun r => !skip r.blocks

def accesses (skip : List ObjId → Bool) (requests : List TraceRequest) : List ObjId :=
  (served skip requests).flatMap fun r => r.blocks

def sessions (skip : List ObjId → Bool) (requests : List TraceRequest) : List (Option Nat) :=
  requests.map fun r => if skip r.blocks then none else some r.session

def next_vtime (l : List ObjId) (p : Nat) : Int := ((next_use l p).map fun q : Nat => (q : Int) + 1).getD MAX_REUSE_DISTANCE

def next_request (l : List (Option Nat)) (p : Nat) : Int := ((next_use l p).map Int.ofNat).getD INT64_MAX

structure Oracle (skip : List ObjId → Bool) (requests : List TraceRequest) : Prop where
  block : ∀ pre r post, requests = pre ++ r :: post → skip r.blocks = false →
    r.next_access_vtime.length = r.blocks.length ∧
    ∀ j < r.blocks.length,
      r.next_access_vtime[j]? = some (next_vtime (accesses skip requests) ((accesses skip pre).length + j))
  session : ∀ pre r post, requests = pre ++ r :: post → skip r.blocks = false →
    r.session_next_access = next_request (sessions skip requests) pre.length

/-- A reader, by what its `next()` returns and whether it brings next uses along. A `std::vector` holds
the requests. -/
structure TraceReader where
  requests : List TraceRequest
  annotated : Bool
  fits : requests.length < 2 ^ 63

variable (r : TraceRequest)

def without_session : TraceRequest := { r with session_next_access := 0 }

def untouched : TraceRequest := { without_session r with next_access_vtime := [] }

theorem exceeds_cache_eq (cache_size : Int) :
    exceeds_cache r cache_size = decide (cache_size < (r.blocks.toFinset.card : Int)) := by
  unfold exceeds_cache
  split_ifs with h
  · have := r.blocks.toFinset_card_le
    rw [eq_comm, decide_eq_false_iff_not]
    omega
  · rfl

def oversized (cache_size : Int) (blocks : List ObjId) : Bool := cache_size < (blocks.toFinset.card : Int)

/-! ## The pass over the blocks -/

theorem annotate_blocks_spec (blocks rest : List ObjId) (base : Int) (s : BlockPass)
    (hseen : Seen id rest (base + blocks.length) s.next_seen) (hv : s.vtime = base + blocks.length - 1) :
    ∃ next t, annotate_blocks blocks s = (next, t) ∧ next.length = blocks.length ∧
      Seen id (blocks ++ rest) base t.next_seen ∧ t.vtime = base - 1 ∧
      ∀ pre x post, blocks = pre ++ x :: post → next[pre.length]? = some
        (((first_use (post ++ rest) x).map fun k : Nat => base + pre.length + 1 + (k : Int)).getD MAX_REUSE_DISTANCE) := by
  induction blocks generalizing base with
  | nil => exact ⟨[], s, rfl, rfl, by simpa using hseen, by simpa using hv, by simp⟩
  | cons id blocks ih =>
    rw [length_cons] at hseen hv
    obtain ⟨next, t, heq, hlen, hseen', hv', hnext⟩ := ih (base + 1)
      (by convert hseen using 1; push_cast; ring) (by rw [hv]; push_cast; ring)
    refine ⟨_, _, by rw [annotate_blocks, heq], by simp [hlen], ?_, ?_, ?_⟩
    · rw [hv', add_sub_cancel_right]
      exact hseen'.cons Function.injective_id id
    · rw [hv']
      ring
    · intro pre x post hsplit
      cases pre with
      | nil =>
        cases hsplit
        rw [length_nil, getElem?_cons_zero, hseen' id]
        simp
      | cons y pre =>
        cases hsplit
        rw [length_cons, getElem?_cons_succ, hnext pre x post rfl]
        push_cast
        ring_nf

theorem accesses_cons_skip {r : TraceRequest} (h : skip r.blocks = true) : accesses skip (r :: requests) = accesses skip requests := by
  simp [accesses, served, h]

theorem accesses_cons {r : TraceRequest} (h : skip r.blocks = false) :
    accesses skip (r :: requests) = r.blocks ++ accesses skip requests := by
  simp [accesses, served, h]

theorem accesses_append (l1 l2 : List TraceRequest) : accesses skip (l1 ++ l2) = accesses skip l1 ++ accesses skip l2 := by
  simp [accesses, served]

theorem exceeds_cache_eq_oversized (cache_size : Int) :
    exceeds_cache r cache_size = oversized cache_size r.blocks := exceeds_cache_eq r cache_size

def Ahead (skip : List ObjId → Bool) (base : Int) (requests : List TraceRequest) : Prop :=
  ∀ pre r post, requests = pre ++ r :: post → skip r.blocks = false →
    r.next_access_vtime.length = r.blocks.length ∧
    ∀ b₁ x b₂, r.blocks = b₁ ++ x :: b₂ → r.next_access_vtime[b₁.length]? = some
      (((first_use (b₂ ++ accesses skip post) x).map fun k : Nat =>
        base + (accesses skip pre).length + b₁.length + 1 + (k : Int)).getD MAX_REUSE_DISTANCE)

variable {base : Int}

theorem Ahead.cons {r : TraceRequest} (h : Ahead skip (base + (accesses skip [r]).length) requests)
    (hr : skip r.blocks = false → r.next_access_vtime.length = r.blocks.length ∧
      ∀ b1 x b2, r.blocks = b1 ++ x :: b2 → r.next_access_vtime[b1.length]? = some
        (((first_use (b2 ++ accesses skip requests) x).map fun k : Nat => base + b1.length + 1 + (k : Int)).getD MAX_REUSE_DISTANCE)) :
    Ahead skip base (r :: requests) := by
  intro pre r' post hsplit hskip
  cases pre with
  | nil =>
    cases hsplit
    simpa [accesses, served] using hr hskip
  | cons y pre =>
    cases hsplit
    obtain ⟨hlen, hnext⟩ := h pre r' post rfl hskip
    refine ⟨hlen, ?_⟩
    intro b1 x b2 hb
    rw [hnext b1 x b2 hb, show accesses skip (r :: pre) = accesses skip [r] ++ accesses skip pre from accesses_append [r] pre]
    rw [length_append]
    push_cast
    ring_nf

variable {l l' : List TraceRequest}

theorem accesses_congr (h : l.map (fun r => r.blocks) = l'.map fun r => r.blocks) : accesses skip l = accesses skip l' := by
  have hmap : ∀ l, accesses skip l = ((l.map fun r => r.blocks).filter fun b => !skip b).flatten := by
    intro l
    rw [List.filter_map, ← flatMap_def]
    rfl
  rw [hmap, hmap, h]

theorem blocks_of_untouched (h : l.map untouched = l'.map untouched) :
    l.map (fun r => r.blocks) = l'.map fun r => r.blocks := by
  have hblocks := congrArg (List.map fun r : TraceRequest => r.blocks) h
  rwa [List.map_map, List.map_map] at hblocks

theorem annotate_requests_spec (cache_size : Int) (requests : List TraceRequest) (base : Int) :
    ∃ out t, annotate_requests cache_size requests
        { vtime := base + (accesses (oversized cache_size) requests).length - 1 } = (out, t) ∧
      Seen id (accesses (oversized cache_size) requests) base t.next_seen ∧ t.vtime = base - 1 ∧
      out.map untouched = requests.map untouched ∧ Ahead (oversized cache_size) base out := by
  induction requests generalizing base with
  | nil => exact ⟨[], _, rfl, seen_nil id base, by simp [accesses, served], rfl, by simp [Ahead]⟩
  | cons r requests ih =>
    cases hskip : oversized cache_size r.blocks with
    | true =>
      obtain ⟨out, t, heq, hseen, hv, hsame, hahead⟩ := ih base
      rw [accesses_cons_skip hskip, annotate_requests, heq, exceeds_cache_eq_oversized, hskip]
      refine ⟨_, _, rfl, hseen, hv, ?_, ?_⟩
      · simp [hsame, untouched, without_session]
      apply Ahead.cons
      · simpa [accesses, served, hskip] using hahead
      · intro h
        exact absurd (h.symm.trans hskip) Bool.false_ne_true
    | false =>
      obtain ⟨out, t, heq, hseen, hv, hsame, hahead⟩ := ih (base + r.blocks.length)
      obtain ⟨next, t', heq', hlen, hseen', hv', hnext⟩ := annotate_blocks_spec r.blocks _ base t hseen (by rw [hv])
      have hstart : base + (accesses (oversized cache_size) (r :: requests)).length - 1 =
          base + r.blocks.length + (accesses (oversized cache_size) requests).length - 1 := by
        rw [accesses_cons hskip, length_append]
        push_cast
        ring
      rw [hstart, accesses_cons hskip, annotate_requests, heq, exceeds_cache_eq_oversized, hskip]
      dsimp only
      rw [heq']
      refine ⟨_, _, rfl, hseen', hv', ?_, ?_⟩
      · simp [hsame, untouched, without_session]
      apply Ahead.cons
      · simpa [accesses, served, hskip] using hahead
      · intro _
        refine ⟨hlen, ?_⟩
        intro b1 x b2 hb
        rw [accesses_congr (blocks_of_untouched hsame)]
        exact hnext b1 x b2 hb

theorem annotate_next_access_spec (requests : List TraceRequest) (cache_size : Int) :
    (annotate_next_access requests cache_size).map untouched = requests.map untouched ∧
      Ahead (oversized cache_size) 1 (annotate_next_access requests cache_size) := by
  have htotal : ((requests.filter fun r => !exceeds_cache r cache_size).map fun r => (r.blocks.length : Int)).sum =
      1 + (accesses (oversized cache_size) requests).length - 1 := by
    rw [accesses, length_flatMap, served]
    simp only [exceeds_cache_eq_oversized]
    rw [Nat.cast_list_sum, List.map_map, add_sub_cancel_left]
    rfl
  obtain ⟨out, t, heq, -, -, hsame, hahead⟩ := annotate_requests_spec cache_size requests 1
  have hout : annotate_next_access requests cache_size = out := by
    unfold annotate_next_access
    dsimp only
    rw [htotal, heq]
  rw [hout]
  exact ⟨hsame, hahead⟩

/-! ## The pass over the sessions -/

theorem sessions_append (l1 l2 : List TraceRequest) : sessions skip (l1 ++ l2) = sessions skip l1 ++ sessions skip l2 :=
  map_append

def SessionsAhead (skip : List ObjId → Bool) (i : Int) (requests : List TraceRequest) : Prop :=
  ∀ pre r post, requests = pre ++ r :: post → skip r.blocks = false →
    r.session_next_access =
      ((first_use (sessions skip post) (some r.session)).map fun k : Nat => i + pre.length + 1 + (k : Int)).getD INT64_MAX

theorem SessionsAhead.cons {i : Int} {r : TraceRequest} (h : SessionsAhead skip (i + 1) requests)
    (hr : skip r.blocks = false → r.session_next_access =
      ((first_use (sessions skip requests) (some r.session)).map fun k : Nat => i + 1 + (k : Int)).getD INT64_MAX) :
    SessionsAhead skip i (r :: requests) := by
  intro pre r' post hsplit hskip
  cases pre with
  | nil =>
    cases hsplit
    simpa using hr hskip
  | cons y pre =>
    cases hsplit
    rw [h pre r' post rfl hskip]
    rw [length_cons]
    push_cast
    ring_nf

theorem sessions_congr (h : l.map untouched = l'.map untouched) : sessions skip l = sessions skip l' := by
  have hmap : ∀ l, sessions skip l = (l.map untouched).map fun r => if skip r.blocks then none else some r.session := by
    intro l
    rw [List.map_map]
    rfl
  rw [hmap, hmap, h]

theorem untouched_of_without_session (h : l.map without_session = l'.map without_session) :
    l.map untouched = l'.map untouched := by
  have hmap := congrArg (List.map fun r : TraceRequest => { r with next_access_vtime := [] }) h
  rwa [List.map_map, List.map_map] at hmap

theorem annotate_sessions_spec (cache_size : Int) (requests : List TraceRequest) (i : Int) :
    ∃ out seen, annotate_sessions cache_size i requests = (out, seen) ∧
      Seen some (sessions (oversized cache_size) requests) i seen ∧
      out.map without_session = requests.map without_session ∧ SessionsAhead (oversized cache_size) i out := by
  induction requests generalizing i with
  | nil => exact ⟨[], _, rfl, seen_nil some i, rfl, by simp [SessionsAhead]⟩
  | cons r requests ih =>
    obtain ⟨out, seen, heq, hseen, hsame, hahead⟩ := ih (i + 1)
    cases hskip : oversized cache_size r.blocks with
    | true =>
      have hcons : sessions (oversized cache_size) (r :: requests) = none :: sessions (oversized cache_size) requests := by
        simp [sessions, hskip]
      rw [hcons, annotate_sessions, heq, exceeds_cache_eq_oversized, hskip]
      refine ⟨_, _, rfl, hseen.skip (by simp), ?_, ?_⟩
      · simp [hsame, without_session]
      apply hahead.cons
      intro h
      exact absurd (h.symm.trans hskip) Bool.false_ne_true
    | false =>
      have hcons : sessions (oversized cache_size) (r :: requests) = some r.session :: sessions (oversized cache_size) requests := by
        simp [sessions, hskip]
      rw [hcons, annotate_sessions, heq, exceeds_cache_eq_oversized, hskip]
      refine ⟨_, _, rfl, hseen.cons (some_injective _) r.session, ?_, ?_⟩
      · simp [hsame, without_session]
      apply hahead.cons
      intro _
      rw [sessions_congr (untouched_of_without_session hsame)]
      exact congrArg (fun o => o.getD INT64_MAX) (hseen r.session)

/-! ## Both passes -/

theorem Ahead.congr (h : Ahead skip base l')
    (hsame : l.map without_session = l'.map without_session) : Ahead skip base l := by
  rintro pre r post rfl hskip
  rw [map_append, map_cons] at hsame
  obtain ⟨pre', tail, rfl, hpre, htail⟩ := map_eq_append_iff.1 hsame.symm
  obtain ⟨r', post', rfl, hr, hpost⟩ := map_eq_cons_iff.1 htail
  have hblocks : r'.blocks = r.blocks := by simpa [without_session] using congrArg TraceRequest.blocks hr
  have hvtime : r'.next_access_vtime = r.next_access_vtime := by
    simpa [without_session] using congrArg TraceRequest.next_access_vtime hr
  have hacc : ∀ {l l' : List TraceRequest}, l.map without_session = l'.map without_session →
      accesses skip l = accesses skip l' :=
    fun h => accesses_congr (blocks_of_untouched (untouched_of_without_session h))
  have hnext := h pre' r' post' rfl (hblocks ▸ hskip)
  rwa [hblocks, hvtime, hacc hpre, hacc hpost] at hnext

theorem oracle_of_ahead (hblock : Ahead skip 1 requests) (hsession : SessionsAhead skip 0 requests) : Oracle skip requests where
  block := by
    rintro pre r post rfl hskip
    obtain ⟨hlen, hnext⟩ := hblock pre r post rfl hskip
    refine ⟨hlen, ?_⟩
    intro j hj
    have hsplit : r.blocks = r.blocks.take j ++ r.blocks[j] :: r.blocks.drop (j + 1) := by
      rw [getElem_cons_drop, take_append_drop]
    have hj' : (r.blocks.take j).length = j := length_take_of_le hj.le
    have hacc : accesses skip (pre ++ r :: post) =
        (accesses skip pre ++ r.blocks.take j) ++ r.blocks[j] :: (r.blocks.drop (j + 1) ++ accesses skip post) := by
      have hblocks := congrArg (· ++ accesses skip post) hsplit
      rw [accesses_append, accesses_cons hskip, hblocks]
      simp only [append_assoc, cons_append]
    have hpos : (accesses skip pre).length + j = (accesses skip pre ++ r.blocks.take j).length := by
      rw [length_append, hj']
    have := hnext _ _ _ hsplit
    rw [hj'] at this
    rw [this, next_vtime, hpos, hacc, next_use_split, Option.map_map]
    congr 3
    funext k
    simp only [Function.comp_apply, length_append, hj']
    push_cast
    ring
  session := by
    rintro pre r post rfl hskip
    have hpre : pre.length = (sessions skip pre).length := (length_map _).symm
    rw [hsession pre r post rfl hskip, next_request, sessions_append]
    have hcons : sessions skip (r :: post) = some r.session :: sessions skip post := by simp [sessions, hskip]
    rw [hcons, hpre, next_use_split, Option.map_map]
    congr 2
    funext k
    simp only [Function.comp_apply, Int.ofNat_eq_natCast]
    push_cast
    ring

theorem Oracle.congr_skip {skip' : List ObjId → Bool} (h : Oracle skip requests)
    (heq : ∀ r ∈ requests, skip r.blocks = skip' r.blocks) : Oracle skip' requests := by
  have hacc : ∀ l, (∀ r ∈ l, r ∈ requests) → accesses skip l = accesses skip' l := by
    intro l hl
    have hfilter : served skip l = served skip' l := filter_congr fun r hr => by rw [heq r (hl r hr)]
    rw [accesses, accesses, hfilter]
  have hsessions : sessions skip requests = sessions skip' requests := map_congr_left fun r hr => by rw [heq r hr]
  have hpre : ∀ {pre r post}, requests = pre ++ r :: post → ∀ x ∈ pre, x ∈ requests := by
    rintro pre r post rfl x hx
    exact mem_append_left _ hx
  constructor
  · intro pre r post hsplit hskip
    rw [← heq r (by simp [hsplit])] at hskip
    rw [← hacc pre (hpre hsplit), ← hacc requests fun _ h => h]
    exact h.block pre r post hsplit hskip
  · intro pre r post hsplit hskip
    rw [← heq r (by simp [hsplit])] at hskip
    rw [← hsessions]
    exact h.session pre r post hsplit hskip

theorem annotate_spec (requests : List TraceRequest) (cache_size : Int) :
    (annotate_session_next_access (annotate_next_access requests cache_size) cache_size).map untouched = requests.map untouched ∧
      Oracle (oversized cache_size) (annotate_session_next_access (annotate_next_access requests cache_size) cache_size) := by
  obtain ⟨hsame, hahead⟩ := annotate_next_access_spec requests cache_size
  obtain ⟨out, seen, heq, -, hsame', hahead'⟩ := annotate_sessions_spec cache_size (annotate_next_access requests cache_size) 0
  have hout : annotate_session_next_access (annotate_next_access requests cache_size) cache_size = out := by
    rw [annotate_session_next_access, heq]
  rw [hout]
  exact ⟨(untouched_of_without_session hsame').trans hsame, oracle_of_ahead (hahead.congr hsame') hahead'⟩

/-- The next uses that the reader brings are right wherever `load_trace` keeps them: in an annotated trace
of which nothing is skipped. -/
def Trusted (reader : TraceReader) (cache_size : Int) : Prop :=
  reader.annotated = true → (∀ r ∈ reader.requests, exceeds_cache r cache_size = false) → Oracle (fun _ => false) reader.requests

theorem load_trace_spec (reader : TraceReader) (hload : load_trace reader.annotated reader.requests cache_size = .ok out) :
    out.map untouched = reader.requests.map untouched ∧ (Oracle (oversized cache_size) out ↔ Trusted reader cache_size) := by
  unfold load_trace at hload
  dsimp only at hload
  split_ifs at hload with _ hpass
  · cases hload
    obtain ⟨hsame, horacle⟩ := annotate_spec reader.requests cache_size
    refine ⟨hsame, iff_of_true horacle fun hannotated hnone => ?_⟩
    simp only [hannotated, Bool.not_true, Bool.false_or, List.any_eq_true] at hpass
    obtain ⟨r, hr, hexceeds⟩ := hpass
    exact absurd ((hnone r hr).symm.trans hexceeds) Bool.false_ne_true
  · -- the stored times stay, and no request is skipped
    cases hload
    simp only [Bool.or_eq_true, Bool.not_eq_true', not_or, Bool.not_eq_false, List.any_eq_true, not_exists, not_and,
      Bool.not_eq_true] at hpass
    have hnone : ∀ r ∈ reader.requests, oversized cache_size r.blocks = false := by
      simpa only [exceeds_cache_eq_oversized] using hpass.2
    refine ⟨rfl, fun horacle _ _ => horacle.congr_skip hnone, fun htrusted => ?_⟩
    exact (htrusted hpass.1 hpass.2).congr_skip fun r hr => (hnone r hr).symm

/-! ## Leaving out what is skipped -/

def vtimes (l : List ObjId) : Nat → List (List ObjId) → List (List Int)
  | _, [] => []
  | p, blocks :: rest => (List.range blocks.length).map (fun j => next_vtime l (p + j)) :: vtimes l (p + blocks.length) rest

theorem Oracle.vtimes (h : Oracle skip requests) :
    (served skip requests).map (fun r => r.next_access_vtime) =
      Trace.vtimes (accesses skip requests) 0 ((served skip requests).map fun r => r.blocks) := by
  have hsuffix : ∀ post pre, requests = pre ++ post → (served skip post).map (fun r => r.next_access_vtime) =
      Trace.vtimes (accesses skip requests) (accesses skip pre).length ((served skip post).map fun r => r.blocks) := by
    intro post
    induction post with
    | nil => simp [served, Trace.vtimes]
    | cons r post ih =>
      intro pre hsplit
      have htail := ih (pre ++ [r]) (by simp [hsplit])
      cases hskip : skip r.blocks with
      | true =>
        have hcons : served skip (r :: post) = served skip post := by simp [served, hskip]
        rw [accesses_append, accesses_cons_skip hskip] at htail
        rw [hcons, htail]
        simp [accesses, served]
      | false =>
        have hcons : served skip (r :: post) = r :: served skip post := by simp [served, hskip]
        obtain ⟨hlen, hnext⟩ := h.block pre r post hsplit hskip
        rw [accesses_append, accesses_cons hskip, length_append, length_append] at htail
        rw [hcons, map_cons, map_cons, Trace.vtimes, htail]
        congr 1
        · apply ext_getElem?
          intro j
          by_cases hj : j < r.blocks.length
          · rw [hnext j hj]
            simp [hj]
          · rw [getElem?_eq_none (by omega), getElem?_eq_none (by simpa using not_lt.1 hj)]
  exact hsuffix requests [] rfl

theorem split_of_served {i : Nat} {r : TraceRequest} (h : (served skip requests)[i]? = some r) :
    ∃ pre post, requests = pre ++ r :: post ∧ (served skip pre).length = i ∧ skip r.blocks = false := by
  have hi : i < (served skip requests).length := (List.getElem?_eq_some_iff.1 h).1
  have hsplit : served skip requests = (served skip requests).take i ++ r :: (served skip requests).drop (i + 1) := by
    rw [← (List.getElem?_eq_some_iff.1 h).2, getElem_cons_drop, take_append_drop]
  obtain ⟨l1, l2, rfl, hpre, hrest⟩ := filter_eq_append_iff.1 hsplit
  obtain ⟨l3, l4, rfl, hnone, hr, -⟩ := filter_eq_cons_iff.1 hrest
  refine ⟨l1 ++ l3, l4, by simp, ?_, by simpa using hr⟩
  rw [served, filter_append, filter_eq_nil_iff.2 hnone, append_nil, hpre, length_take, min_eq_left hi.le]

theorem filter_sessions (l : List TraceRequest) :
    (sessions skip l).filter Option.isSome = (served skip l).map fun r => some r.session := by
  induction l with
  | nil => rfl
  | cons r l ih =>
    rw [sessions, map_cons, ← sessions]
    cases hskip : skip r.blocks with
    | true => simpa [served, hskip] using ih
    | false => simpa [served, hskip] using ih

theorem next_request_served {pre post : List TraceRequest} {r : TraceRequest} (hskip : skip r.blocks = false) :
    next_use ((served skip (pre ++ r :: post)).map fun r => some r.session) (served skip pre).length =
      (next_use (sessions skip (pre ++ r :: post)) pre.length).map
        (rank Option.isSome (sessions skip (pre ++ r :: post))) := by
  have hlen : (served skip pre).length = ((sessions skip pre).filter Option.isSome).length := by
    rw [filter_sessions, length_map]
  have hpre : pre.length = (sessions skip pre).length := (length_map _).symm
  have hcons : sessions skip (r :: post) = some r.session :: sessions skip post := by simp [sessions, hskip]
  rw [← filter_sessions, hlen, hpre, sessions_append, hcons, next_use_filter rfl]

theorem next_request_lt_iff {l : List (Option Nat)} (hl : l.length < 2 ^ 63) {p q : Nat} (hp : ∃ x, l[p]? = some (some x)) :
    (((next_use l p).map (rank Option.isSome l)).map Int.ofNat).getD INT64_MAX <
        (((next_use l q).map (rank Option.isSome l)).map Int.ofNat).getD INT64_MAX ↔ next_request l p < next_request l q := by
  have hrank : ∀ v, rank Option.isSome l v ≤ v := fun v => (length_filter_le _ _).trans (length_take_le _ _)
  unfold next_request INT64_MAX
  cases hv : next_use l p with
  | none =>
    cases hw : next_use l q with
    | none => simp
    | some w =>
      have := (next_use_bound hw).2
      have := hrank w
      simp only [map_none, getD_none, map_some, getD_some, Int.ofNat_eq_natCast]
      omega
  | some v =>
    have := (next_use_bound hv).2
    have := hrank v
    cases hw : next_use l q with
    | none =>
      simp only [map_none, getD_none, map_some, getD_some, Int.ofNat_eq_natCast]
      omega
    | some w =>
      simp only [map_some, getD_some, Int.ofNat_eq_natCast, Int.ofNat_lt]
      constructor
      · intro h
        by_contra hle
        exact absurd (rank_mono (not_lt.1 hle)) (not_le.2 h)
      · intro h
        obtain ⟨x, hx⟩ := hp
        exact rank_lt ((getElem?_next_use hv).trans hx) rfl h

def SameOrder (l l' : List Int) : Prop :=
  l.length = l'.length ∧ ∀ (i j : Nat) a b a' b', l[i]? = some a → l[j]? = some b → l'[i]? = some a' → l'[j]? = some b' →
    (a < b ↔ a' < b')

theorem sessions_of_served (hsame : out.map untouched = (served skip requests).map untouched) :
    sessions skip out = (served skip requests).map fun r => some r.session := by
  rw [sessions_congr hsame, sessions]
  apply map_congr_left
  intro r hr
  have hskip : skip r.blocks = false := by simpa using (mem_filter.1 hr).2
  simp [hskip]

section

variable (h : Oracle skip requests)
include h

section

variable (hout : Oracle skip out)
include hout

theorem Oracle.session_rank
    (hsame : out.map untouched = (served skip requests).map untouched) {i : Nat} {r r' : TraceRequest}
    (hr : (served skip requests)[i]? = some r) (hr' : out[i]? = some r') :
    ∃ p, (∃ x, (sessions skip requests)[p]? = some (some x)) ∧
      r.session_next_access = next_request (sessions skip requests) p ∧
      r'.session_next_access =
        (((next_use (sessions skip requests) p).map (rank Option.isSome (sessions skip requests))).map Int.ofNat).getD INT64_MAX := by
  obtain ⟨pre, post, rfl, hlen, hskip⟩ := split_of_served hr
  have hblocks : r'.blocks = r.blocks := by
    have heq := congrArg (fun l => l[i]?) hsame
    simp only [getElem?_map, hr, hr', map_some, some.injEq] at heq
    simpa [untouched, without_session] using congrArg TraceRequest.blocks heq
  refine ⟨pre.length, ⟨r.session, by simp [sessions, hskip]⟩, h.session pre r post rfl hskip, ?_⟩
  have hi : i < out.length := (List.getElem?_eq_some_iff.1 hr').1
  have hsplit : out = out.take i ++ r' :: out.drop (i + 1) := by
    rw [← (List.getElem?_eq_some_iff.1 hr').2, getElem_cons_drop, take_append_drop]
  rw [hout.session _ r' _ hsplit (hblocks ▸ hskip), length_take, min_eq_left hi.le, next_request,
    sessions_of_served hsame, ← hlen, next_request_served hskip]

theorem Oracle.same_order (hfits : requests.length < 2 ^ 63)
    (hsame : out.map untouched = (served skip requests).map untouched) :
    SameOrder (out.map fun r => r.session_next_access) ((served skip requests).map fun r => r.session_next_access) := by
  constructor
  · simpa using congrArg List.length hsame
  · intro i j a b a' b' ha hb ha' hb'
    simp only [getElem?_map, map_eq_some_iff] at ha hb ha' hb'
    obtain ⟨r1, h1, rfl⟩ := ha
    obtain ⟨r2, h2, rfl⟩ := hb
    obtain ⟨r3, h3, rfl⟩ := ha'
    obtain ⟨r4, h4, rfl⟩ := hb'
    obtain ⟨p, hp, hwhole, hrank⟩ := h.session_rank hout hsame h3 h1
    obtain ⟨q, -, hwhole', hrank'⟩ := h.session_rank hout hsame h4 h2
    rw [hwhole, hwhole', hrank, hrank']
    exact next_request_lt_iff (by simpa [sessions] using hfits) hp

theorem Oracle.same_vtimes
    (hsame : out.map untouched = (served skip requests).map untouched) :
    out.map (fun r => r.next_access_vtime) = (served skip requests).map fun r => r.next_access_vtime := by
  have hblocks := blocks_of_untouched hsame
  have hall : served skip out = out := by
    apply filter_eq_self.2
    intro r hr
    have hmem : r.blocks ∈ (served skip requests).map fun r => r.blocks := hblocks ▸ mem_map_of_mem hr
    obtain ⟨r', hr', heq⟩ := mem_map.1 hmem
    rw [← heq]
    exact (mem_filter.1 hr').2
  have hacc : accesses skip out = accesses skip requests := by
    rw [accesses_congr hblocks, accesses, accesses, served, filter_eq_self.2]
    intro r hr
    exact (mem_filter.1 hr).2
  have hv := hout.vtimes
  rw [hall, hacc, hblocks, ← h.vtimes] at hv
  exact hv

end

end

/-- After `load_trace` every request that `serve` does not skip has the next accesses of its blocks
and of its session among what is served, if those that are kept from the reader are right. A trace without
the skipped requests has the same ones, for sessions up to the numbering. -/
theorem load_trace_oracle (config : SimulatorConfig) (reader : TraceReader)
    (hload : load_trace reader.annotated reader.requests config.cache_size_blocks = .ok out) :
    out.map untouched = reader.requests.map untouched ∧
    (Oracle (fun blocks => skips config { blocks := blocks }) out ↔ Trusted reader config.cache_size_blocks) ∧
    ∀ (reader' : TraceReader) out', Trusted reader config.cache_size_blocks → Trusted reader' config.cache_size_blocks →
      load_trace reader'.annotated reader'.requests config.cache_size_blocks = .ok out' →
      reader'.requests.map untouched = (reader.requests.filter fun r => !skips config r.view).map untouched →
      out'.map (fun r => r.next_access_vtime) = (out.filter fun r => !skips config r.view).map (fun r => r.next_access_vtime) ∧
      SameOrder (out'.map fun r => r.session_next_access)
        ((out.filter fun r => !skips config r.view).map fun r => r.session_next_access) := by
  obtain ⟨hsame, horacle⟩ := load_trace_spec reader hload
  refine ⟨hsame, horacle, ?_⟩
  intro reader' out' htrusted htrusted' hload' hkept
  obtain ⟨hsame', horacle'⟩ := load_trace_spec reader' hload'
  rw [← horacle] at htrusted
  rw [← horacle'] at htrusted'
  have hserved : (served (oversized config.cache_size_blocks) out).map untouched =
      (served (oversized config.cache_size_blocks) reader.requests).map untouched := by
    have hmap : ∀ l : List TraceRequest, (served (oversized config.cache_size_blocks) l).map untouched =
        (l.map untouched).filter fun r => !oversized config.cache_size_blocks r.blocks := by
      intro l
      rw [List.filter_map]
      rfl
    rw [hmap, hmap, hsame]
  have hout' := (hsame'.trans hkept).trans hserved.symm
  have hfits : out.length < 2 ^ 63 := by
    have := congrArg List.length hsame
    rw [length_map, length_map] at this
    rw [this]
    exact reader.fits
  exact ⟨htrusted.same_vtimes htrusted' hout', htrusted.same_order htrusted' hfits hout'⟩

def sample_reader : TraceReader where
  requests := [{ blocks := [1], session := 1 }, { blocks := [2], session := 2 }, { blocks := [1, 3, 4], session := 1 },
    { blocks := [5], session := 3 }, { blocks := [2], session := 2 }]
  annotated := false
  fits := by decide

/-- What is left of it when the third request, which does not fit, is not there. -/
def annotated_reader : TraceReader where
  requests := [{ blocks := [1], session := 1, next_access_vtime := [MAX_REUSE_DISTANCE] },
    { blocks := [2], session := 2, next_access_vtime := [4], session_next_access := 3 },
    { blocks := [5], session := 3, next_access_vtime := [MAX_REUSE_DISTANCE] },
    { blocks := [2], session := 2, next_access_vtime := [MAX_REUSE_DISTANCE] }]
  annotated := true
  fits := by decide

theorem annotated_reader_trusted : Trusted annotated_reader 2 := by
  intro _ hnone
  let bare : TraceReader := { requests := annotated_reader.requests.map untouched, annotated := false, fits := by decide }
  have hload : load_trace bare.annotated bare.requests 2 = .ok annotated_reader.requests := by decide
  exact ((load_trace_spec bare hload).2.2 nofun).congr_skip fun r hr => (exceeds_cache_eq_oversized r 2).symm.trans (hnone r hr)

theorem load_trace_oracle_of_sample : ∃ out, load_trace false sample_reader.requests 2 = .ok out ∧
    Oracle (fun blocks => skips { cache_size_blocks := 2 } { blocks := blocks }) out ∧
    load_trace true annotated_reader.requests 2 = .ok annotated_reader.requests ∧
    annotated_reader.requests.map (fun r => r.next_access_vtime) =
      (out.filter fun r => !skips { cache_size_blocks := 2 } r.view).map fun r => r.next_access_vtime := by
  have htrusted : Trusted sample_reader 2 := nofun
  have hload : load_trace true annotated_reader.requests 2 = .ok annotated_reader.requests := by decide
  obtain ⟨-, horacle, hdeleted⟩ := load_trace_oracle { cache_size_blocks := 2 } sample_reader rfl
  exact ⟨_, rfl, horacle.2 htrusted, hload, (hdeleted annotated_reader _ htrusted annotated_reader_trusted hload (by decide)).1⟩

end CacheSim.Trace
