import CacheSim.ClockPro.Model

/-!
# What gets alone do to a ClockPro cache

Admission looks at the cold objects before anything is evicted.
-/

namespace CacheSim.ClockPro

open Lib Option Function

variable {s s' : State} {p : Ptr} {o : Obj} {req : Request}

theorem write_eq (h : s.heap p = some o) (f : Obj → Obj) :
    write s p f = some { s with heap := update s.heap p (some (f o)) } := by
  simp [write, h]

structure Linked (s : State) : Prop where
  hot : ∀ h, s.hand_hot = some h → ∃ o, s.heap h = some o
  prev : ∀ p o, s.heap p = some o → ∃ q o', o.prev = some q ∧ s.heap q = some o'
  table : ∀ id p, s.hashtable id = some p → ∃ o, s.heap p = some o
  fresh : ∀ p o, s.heap p = some o → p < s.fresh

/-- A state that gets reach from an empty cache: all that is resident is cold. -/
structure Filling (cache_size mem_cold_max : Int) (s : State) : Prop where
  linked : Linked s
  cache_size : s.cache_size = cache_size
  cold_max : s.mem_cold_max = mem_cold_max
  cold : s.mem_cold = s.occupied_byte
  nonneg : 0 ≤ s.mem_cold
  fits : s.mem_cold ≤ mem_cold_max
  no_test : ∀ id, s.ht_test id = none

def resident (s : State) (id : ObjId) : Prop := ∃ p, s.hashtable id = some p

theorem init_filling (cache_size : Nat) (init_ref : Bool) :
    Filling cache_size (round53 cache_size) (ClockPro_init cache_size (round53 cache_size) init_ref) := by
  refine ⟨⟨?_, ?_, ?_, ?_⟩, rfl, rfl, rfl, Int.le_refl _, Int.natCast_nonneg _, fun _ => rfl⟩
  · intro h hh
    cases hh
  · intro p o ho
    cases ho
  · intro id p hp
    cases hp
  · intro p o ho
    cases ho

theorem Linked.write (h : Linked s) {f : Obj → Obj} (ho : s.heap p = some o) (hprev : (f o).prev = o.prev) :
    Linked { s with heap := update s.heap p (some (f o)) } := by
  obtain ⟨h1, h2, h3, h4⟩ := h
  constructor <;> intro q <;> grind

variable {cs max : Int}

theorem ClockPro_find_spec (h : Filling cs max s) (req : Request) :
    ∃ s' hit, ClockPro_find s req = some (s', hit) ∧ Filling cs max s' ∧ s'.hashtable = s.hashtable ∧
      s'.mem_cold = s.mem_cold ∧ (hit = true ↔ resident s req.obj_id) := by
  unfold ClockPro_find resident
  rcases hp : s.hashtable req.obj_id with _ | p
  · exact ⟨s, false, rfl, h, rfl, rfl, by simp⟩
  · obtain ⟨o, ho⟩ := h.linked.table _ p hp
    have hlinked : Linked { s with heap := update s.heap p (some { o with referenced := true }) } :=
      h.linked.write (f := ({ · with referenced := true })) ho rfl
    refine ⟨_, true, ?_, { h with linked := hlinked }, rfl, rfl, by simp⟩
    dsimp only
    rw [write_eq ho]
    rfl

/-! ## Insertion -/

structure Entering (p : Ptr) (s : State) : Prop where
  hot : ∀ h, s.hand_hot = some h → h ≠ p ∧ ∃ o, s.heap h = some o
  prev : ∀ q o, q ≠ p → s.heap q = some o → ∃ q' o', o.prev = some q' ∧ q' ≠ p ∧ s.heap q' = some o'
  table : ∀ id q, s.hashtable id = some q → ∃ o, s.heap q = some o
  fresh : ∀ q o, s.heap q = some o → q < s.fresh

theorem Entering.enter_clock (h : Entering p s) (ho : s.heap p = some o) :
    ∃ heap hot cold test, ClockPro.enter_clock s p = some
        { s with heap := heap, hand_hot := hot, hand_cold := cold, hand_test := test } ∧
      Linked { s with heap := heap, hand_hot := hot, hand_cold := cold, hand_test := test } := by
  obtain ⟨h1, h2, h3, h4⟩ := h
  unfold ClockPro.enter_clock
  rcases hh : s.hand_hot with _ | q
  · refine ⟨update s.heap p (some { o with next := some p, prev := some p }), some p, some p, some p, ?_, ?_⟩
    · simp only [write_eq ho, bind_eq_bind]
      rfl
    · constructor <;> intro x <;> grind
  · obtain ⟨hqp, oq, hq⟩ := h1 q hh
    obtain ⟨r, or, hr, hrp, hrheap⟩ := h2 q oq hqp hq
    have hprev : ClockPro.prev s q = some r := by simp [ClockPro.prev, hq, hr]
    -- the heap after the writes to `hand_hot` and to the new object
    set heap := update (update s.heap q (some { oq with prev := some p })) p
      (some { o with next := some q, prev := some r }) with hheap
    obtain ⟨or', hor', -⟩ : ∃ or', heap r = some or' ∧ or'.prev = if r = q then some p else or.prev := by
      by_cases hrq : r = q
      · exact ⟨{ oq with prev := some p }, by simp [hheap, hrq, update_of_ne hqp], by simp [hrq]⟩
      · exact ⟨or, by simp [hheap, update_of_ne hrp, update_of_ne hrq, hrheap], by simp [hrq]⟩
    refine ⟨update heap r (some { or' with next := some p }), s.hand_hot, s.hand_cold, s.hand_test, ?_, ?_⟩
    · let s1 : State := { s with heap := update s.heap q (some { oq with prev := some p }) }
      let s2 : State := { s with heap := heap }
      have hp : s1.heap p = some o := by
        show update s.heap q _ p = _
        rw [update_of_ne hqp.symm, ho]
      have w1 : ClockPro.write s q ({ · with prev := some p }) = some s1 := write_eq hq _
      have w2 : ClockPro.write s1 p ({ · with next := some q, prev := some r }) = some s2 := write_eq hp _
      have w3 := write_eq (s := s2) hor' ({ · with next := some p })
      simp only [hprev, set_prev, set_next, bind_eq_bind, bind_some]
      rw [w1, bind_some, w2, bind_some, w3]
    · constructor <;> intro x <;> grind

theorem ClockPro_insert_spec (fuel : Nat) (h : Filling cs max s) (hsize : 1 ≤ req.obj_size)
    (hfit : s.mem_cold + req.obj_size ≤ max) : ∃ s', ClockPro_insert fuel s req = some s' ∧ Filling cs max s' ∧
      s'.hashtable = update s.hashtable req.obj_id (some s.fresh) := by
  let o : Obj := { obj_id := req.obj_id, obj_size := req.obj_size, referenced := s.init_ref, status := .CLOCKPRO_COLD }
  let t : State := { s with
    heap := update s.heap s.fresh (some o), fresh := s.fresh + 1
    hashtable := update s.hashtable req.obj_id (some s.fresh)
    occupied_byte := s.occupied_byte + req.obj_size, n_obj := s.n_obj + 1 }
  have ho : t.heap s.fresh = some o := by simp [t]
  have hentering : Entering s.fresh t := by
    obtain ⟨h1, h2, h3, h4⟩ := h.linked
    have hfresh : s.heap s.fresh = none := by
      rcases hf : s.heap s.fresh with _ | o'
      · rfl
      · exact absurd (h4 _ _ hf) (Nat.lt_irrefl _)
    constructor <;> intro x <;> grind
  obtain ⟨heap, hot, cold, test, henter, hlinked⟩ := hentering.enter_clock ho
  refine ⟨{ t with heap := heap, hand_hot := hot, hand_cold := cold, hand_test := test, mem_cold :=
    s.mem_cold + req.obj_size }, ?_, ?_, rfl⟩
  · simp only [ClockPro_insert, h.no_test, cache_insert_base, alloc]
    have hcold : ∀ t0 : State, t0.heap s.fresh = some { obj_id := req.obj_id, obj_size := req.obj_size } →
        write t0 s.fresh ({ · with referenced := s.init_ref, status := .CLOCKPRO_COLD }) =
          some { t0 with heap := update t0.heap s.fresh (some o) } := fun t0 h0 => write_eq h0 _
    rw [hcold _ (by simp)]
    simp only [update_idem, bind_eq_bind, bind_some]
    rw [show enter_clock _ s.fresh = _ from henter]
    rfl
  · refine ⟨{ hlinked with }, h.cache_size, h.cold_max, ?_, ?_, hfit, h.no_test⟩
    · rw [h.cold]
    · have hnonneg := h.nonneg
      show 0 ≤ s.mem_cold + req.obj_size
      omega

/-! ## Gets -/

theorem ClockPro_get_spec (fuel : Nat) (h : Filling cs max s) (hmax : max ≤ cs) (hsize : 1 ≤ req.obj_size) :
    ∃ s' hit, ClockPro_get fuel s req = some (s', hit) ∧ Filling cs max s' ∧
      (resident s' req.obj_id ↔ resident s req.obj_id ∨ s.mem_cold + req.obj_size ≤ s.mem_cold_max) := by
  have hcounted : Filling cs max { s with n_req := s.n_req + 1 } :=
    { h with linked := { h.linked with } }
  obtain ⟨s1, hit, hfind, hfill, htable, hcold, hhit⟩ := ClockPro_find_spec hcounted req
  have hsame : resident s1 req.obj_id ↔ resident s req.obj_id := by
    unfold resident
    rw [htable]
  have hhit' : hit = true ↔ resident s req.obj_id := hhit
  have hmem : s1.mem_cold = s.mem_cold := hcold
  have hlimit : s1.mem_cold_max = s.mem_cold_max := hfill.cold_max.trans h.cold_max.symm
  cases hit with
  | true =>
    have hres := hhit'.1 rfl
    exact ⟨s1, true, CacheOps.cache_get_base_hit hfind, hfill, by simp [hsame, hres]⟩
  | false =>
    have hmiss : ¬ resident s req.obj_id := fun hr => Bool.noConfusion (hhit'.2 hr)
    by_cases hfit : s.mem_cold + req.obj_size ≤ s.mem_cold_max
    · have hfit1 : s1.mem_cold + req.obj_size ≤ max := by rw [hmem, ← h.cold_max]; exact hfit
      obtain ⟨s2, hins, hfill2, htable2⟩ := ClockPro_insert_spec fuel hfill hsize hfit1
      have hcs := hfill.cache_size
      have hnonneg := hfill.nonneg
      have hocc := hfill.cold
      have hcan : ClockPro_can_insert s1 req = true := by
        simp only [ClockPro_can_insert, Bool.and_eq_true, Bool.not_eq_true', decide_eq_false_iff_not, decide_eq_true_eq]
        constructor
        · omega
        · rw [hfill.cold_max]
          exact hfit1
      have hroom : (ops fuel).full_for req s1 = false := by
        rw [CacheOps.full_for_false_iff]
        show s1.occupied_byte + req.obj_size + 0 ≤ s1.cache_size
        omega
      refine ⟨s2, false, CacheOps.cache_get_base_insert hfind ?_ (whileLoop_stop _ _ _ _ hroom) hins, hfill2, ?_⟩
      · show some (s1, ClockPro_can_insert s1 req) = _
        rw [hcan]
      · simp [resident, htable2, hfit]
    · have hcan : ClockPro_can_insert s1 req = false := by
        simp only [ClockPro_can_insert, Bool.and_eq_false_iff, decide_eq_false_iff_not]
        right
        rw [hmem, hlimit]
        exact hfit
      refine ⟨s1, false, CacheOps.cache_get_base_reject hfind ?_, hfill, by simp [hsame, hfit]⟩
      show some (s1, ClockPro_can_insert s1 req) = _
      rw [hcan]

def get_step (fuel : Nat) (s : State) (req : Request) : Option State := (ClockPro_get fuel s req).map Prod.fst

/-- After every run of gets the cache is not over its size, and a get leaves its object resident if and only if
it was resident or passes the admission gate. All that is resident is cold, so what passes still fits the cache. -/
theorem gets_admit (fuel : Nat) (cache_size : Nat) (hexact : round53 cache_size ≤ cache_size) (init_ref : Bool)
    (reqs : List Request) (hsizes : ∀ req ∈ reqs, 1 ≤ req.obj_size) :
    ∃ s, runs (get_step fuel) (ClockPro_init cache_size (round53 cache_size) init_ref) reqs = some s ∧
      s.occupied_byte ≤ cache_size ∧ s.mem_cold = s.occupied_byte ∧ s.mem_cold_max = round53 cache_size ∧
      ∀ req, 1 ≤ req.obj_size → ∃ s' hit, ClockPro_get fuel s req = some (s', hit) ∧ s'.occupied_byte ≤ cache_size ∧
        (resident s' req.obj_id ↔ resident s req.obj_id ∨ s.mem_cold + req.obj_size ≤ s.mem_cold_max) := by
  have hmax : (round53 cache_size : Int) ≤ cache_size := by exact_mod_cast hexact
  have hocc : ∀ {s : State}, Filling cache_size (round53 cache_size) s → s.occupied_byte ≤ cache_size := by
    intro s h
    rw [← h.cold]
    exact Int.le_trans h.fits hmax
  have hstep : ∀ s req, Filling cache_size (round53 cache_size) s → 1 ≤ req.obj_size →
      ∃ s', get_step fuel s req = some s' ∧ Filling cache_size (round53 cache_size) s' := by
    intro s req h hsize
    obtain ⟨s', hit, hget, hfill, -⟩ := ClockPro_get_spec fuel h hmax hsize
    exact ⟨s', by simp [get_step, hget], hfill⟩
  obtain ⟨s, hrun, hfill⟩ := runs_total _ (fun req => 1 ≤ req.obj_size) hstep reqs _ hsizes
    (init_filling cache_size init_ref)
  refine ⟨s, hrun, hocc hfill, hfill.cold, hfill.cold_max, ?_⟩
  intro req hsize
  obtain ⟨s', hit, hget, hfill', hres⟩ := ClockPro_get_spec fuel hfill hmax hsize
  exact ⟨s', hit, hget, hocc hfill', hres⟩

theorem gets_admit_two : ∃ s, runs (get_step 3) (ClockPro_init 2 (round53 2) false) [{ obj_id := 1 }, { obj_id := 2 }] = some s ∧
    s.occupied_byte ≤ (2 : Nat) ∧ s.mem_cold = s.occupied_byte ∧ s.mem_cold_max = round53 2 ∧
    ∀ req, 1 ≤ req.obj_size → ∃ s' hit, ClockPro_get 3 s req = some (s', hit) ∧ s'.occupied_byte ≤ (2 : Nat) ∧
      (resident s' req.obj_id ↔ resident s req.obj_id ∨ s.mem_cold + req.obj_size ≤ s.mem_cold_max) :=
  gets_admit 3 2 (by decide) false _ (by decide)

/-- Object 1 fills the cache of one byte, and object 2 is refused. -/
theorem not_gets_admit_all : ¬ ∀ cache_size : Nat, ∀ reqs : List Request,
    (∀ req ∈ reqs, 1 ≤ req.obj_size ∧ req.obj_size ≤ cache_size) → ∀ last, reqs.getLast? = some last →
      ∀ fuel s, runs (get_step fuel) (ClockPro_init cache_size) reqs = some s →
        resident s last.obj_id ∧ s.occupied_byte ≤ cache_size := by
  intro hclaim
  obtain ⟨s, hs, hnone⟩ : ∃ s, runs (get_step 1) (ClockPro_init 1) [{ obj_id := 1 }, { obj_id := 2 }] = some s ∧
    (s.hashtable 2).isNone := by
    decide +kernel
  obtain ⟨⟨p, hp⟩, -⟩ := hclaim 1 [{ obj_id := 1 }, { obj_id := 2 }] (by decide) { obj_id := 2 } rfl 1 s hs
  rw [hp] at hnone
  cases hnone

end CacheSim.ClockPro
