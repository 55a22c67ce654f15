import CacheSim.LruK.Model

/-!
# The five containers of LRU-K
-/

namespace CacheSim.LruK

open Lib List Function NodeLists

structure Times (R : ObjId → Prop) (now : Int) (log : Log) : Prop where
  nonempty : ∀ x, R x → log x ≠ []
  past : ∀ x, R x → ∀ t ∈ log x, t ≤ now
  apart : ∀ x y t, R x → R y → t ∈ log x → t ∈ log y → x = y

variable {R R' : ObjId → Prop} {now : Int} {log : Log} {id : ObjId}

theorem Times.sub (h : Times R now log) (hR : ∀ x, R' x → R x) : Times R' now log :=
  ⟨fun x hx => h.nonempty x (hR x hx), fun x hx => h.past x (hR x hx), fun x y t hx hy => h.apart x y t (hR x hx) (hR y hy)⟩

theorem Times.add (h : Times R now log) (hfresh : ∀ x, R x → ∀ t ∈ log x, t < now) {l : List Int}
    (hl : ∀ t ∈ l, R id ∧ t ∈ log id) (hR : ∀ x, R' x → x = id ∨ R x) : Times R' now (update log id (l ++ [now])) := by
  have hold {x : ObjId} {t : Int} (hx : R' x) (ht : t ∈ update log id (l ++ [now]) x) :
      x = id ∧ t = now ∨ R x ∧ t ∈ log x := by
    rcases eq_or_ne x id with rfl | hne
    · rw [update_self, mem_append, mem_singleton] at ht
      rcases ht with ht | rfl
      · exact .inr (hl t ht)
      · exact .inl ⟨rfl, rfl⟩
    · rw [update_of_ne hne] at ht
      exact .inr ⟨(hR x hx).resolve_left hne, ht⟩
  refine ⟨fun x hx => ?_, fun x hx t ht => ?_, fun x y t hx hy htx hty => ?_⟩
  · rcases eq_or_ne x id with rfl | hne
    · simp
    · rw [update_of_ne hne]
      exact h.nonempty x ((hR x hx).resolve_left hne)
  · rcases hold hx ht with ⟨-, rfl⟩ | ⟨hRx, ht⟩
    · exact le_rfl
    · exact h.past x hRx t ht
  · rcases hold hx htx with ⟨rfl, rfl⟩ | ⟨hRx, hx'⟩ <;> rcases hold hy hty with ⟨rfl, hnow⟩ | ⟨hRy, hy'⟩
    · rfl
    · exact absurd (hfresh y hRy t hy') (lt_irrefl t)
    · exact absurd (hnow ▸ hfresh x hRx t hx') (lt_irrefl _)
    · exact h.apart x y t hRx hRy hx' hy'

def entries (m : ObjId → Option Int) (x : ObjId) : Option (Int × ObjId) := (m x).map (·, x)

theorem entries_update (m : ObjId → Option Int) (id : ObjId) (v : Option Int) :
    entries (update m id v) = update (entries m) id (v.map (·, id)) := by
  funext x
  rcases eq_or_ne x id with rfl | hne <;> simp [entries, *]

structure Inv (s : State) (log : Log) : Prop where
  cache : s.cache.Inv
  k_pos : 1 ≤ s.k
  times : Times (· ∈ s.cache.q) s.cache.n_req log
  history : ∀ x, s.history x = if x ∈ s.cache.q then some (window s.k (log x)) else none
  located : s.fifo.Located
  young : ∀ x, (s.fifo.slot x).isSome ↔ x ∈ s.cache.q ∧ (log x).length < s.k
  order : (s.fifo.items ()).Pairwise fun x y => first (log x) < first (log y)
  old : ∀ x, s.pq_map x = if x ∈ s.cache.q ∧ s.k ≤ (log x).length then some (kth s.k (log x)) else none
  pq : Indexed toLex s.pq (entries s.pq_map)

variable {s : State} {req : Request}

theorem Inv.mem_items (h : Inv s log) {x : ObjId} : x ∈ s.fifo.items () ↔ x ∈ s.cache.q ∧ (log x).length < s.k := by
  rw [h.located.mem_items, ← h.young]
  rcases s.fifo.slot x with _ | ⟨⟨⟩, a⟩ <;> simp

variable {a : Int × ObjId}

section

variable (h : Inv s log)
include h

theorem Inv.mem_pq : a ∈ s.pq ↔ s.pq_map a.2 = some a.1 := by
  rw [h.pq.mem]
  simp [entries, Prod.ext_iff]

theorem Inv.key_ne (t : Int) (ha : a ∈ s.pq) (hne : ∀ t', s.pq_map id = some t' → a ≠ (t', id)) :
    toLex a ≠ toLex (t, id) := by
  intro heq
  cases toLex.injective heq
  exact hne t (h.mem_pq.1 ha) rfl

/-! ## Lookup -/

def Fresh (s : State) (log : Log) : Prop := ∀ x ∈ s.cache.q, ∀ t ∈ log x, t < s.cache.n_req

theorem tick : Inv (ops.count_req s) log ∧ Fresh (ops.count_req s) log := by
  have hfresh : Fresh (ops.count_req s) log := fun x hx t ht => Int.lt_add_one_of_le (h.times.past x hx t ht)
  refine ⟨{ h with cache := ⟨h.cache.occupied, h.cache.n_obj⟩, times := { h.times with past := ?_ } }, hfresh⟩
  exact fun x hx t ht => (hfresh x hx t ht).le

theorem find_hit (hfresh : Fresh s log) (hid : req.obj_id = id) (hx : id ∈ s.cache.q) :
    ∃ s', LRU_K_find s req = (s', true) ∧ s'.cache = s.cache ∧ s'.k = s.k ∧
      Inv s' (update log id (log id ++ [s.cache.n_req])) := by
  obtain ⟨o, ho⟩ := Table.exists_lookup hx
  set log' := update log id (log id ++ [s.cache.n_req])
  have htimes : Times (· ∈ s.cache.q) s.cache.n_req log' :=
    h.times.add hfresh (fun t ht => ⟨hx, ht⟩) fun x hx => .inr hx
  have hself : log' id = log id ++ [s.cache.n_req] := update_self ..
  have hother : ∀ x ≠ id, log' x = log x := fun x hne => update_of_ne hne ..
  have hfirst : ∀ x ∈ s.cache.q, first (log' x) = first (log x) := by
    intro x hx
    rcases eq_or_ne x id with rfl | hne
    · rw [hself, first_append (h.times.nonempty _ hx)]
    · rw [hother x hne]
  have hhist : push s.k ((s.history id).getD []) s.cache.n_req = window s.k (log' id) := by
    rw [h.history, if_pos hx, hself, Option.getD_some, push_window h.k_pos]
  have hhistory : ∀ x, update s.history id (some (window s.k (log' id))) x =
    if x ∈ s.cache.q then some (window s.k (log' x)) else none := by
    intro x
    rcases eq_or_ne x id with rfl | hne
    · rw [update_self, if_pos hx]
    · rw [update_of_ne hne, h.history, hother x hne]
  have horder : (s.fifo.items ()).Pairwise fun x y => first (log' x) < first (log' y) := by
    apply h.order.imp_of_mem
    intro x y hx hy hlt
    rwa [hfirst x (h.mem_items.1 hx).1, hfirst y (h.mem_items.1 hy).1]
  have hlen : (log' id).length = (log id).length + 1 := by simp [hself]
  have hmap : s.k ≤ (log id).length + 1 → ∀ x, update s.pq_map id (some (kth s.k (log' id))) x =
      if x ∈ s.cache.q ∧ s.k ≤ (log' x).length then some (kth s.k (log' x)) else none := by
    intro hk x
    by_cases hne : x = id
    · rw [hne, update_self, if_pos ⟨hx, hlen ▸ hk⟩]
    · rw [update_of_ne hne, h.old, hother x hne]
  have hold : s.pq_map id = if s.k ≤ (log id).length then some (kth s.k (log id)) else none := by
    rw [h.old]
    simp only [hx, true_and]
  have hyoung := h.young id
  unfold LRU_K_find
  rw [hid, ho]
  dsimp only
  rw [hhist, length_window, hlen]
  split_ifs with hgrown hin
  · rw [Bool.and_eq_true, decide_eq_true_eq] at hgrown
    obtain ⟨hin, hk⟩ := hgrown
    have hlt := (hyoung.1 hin).2
    obtain ⟨⟨⟨⟩, a⟩, hslot⟩ := Option.isSome_iff_exists.1 hin
    have hnone : s.pq_map id = none := by rw [hold, if_neg (by omega)]
    refine ⟨_, rfl, rfl, rfl, h.cache, h.k_pos, htimes, hhistory, h.located.unlink id, fun x => ?_, ?_, hmap (by omega), ?_⟩
    · rw [unlink_slot]
      by_cases hne : x = id
      · rw [hne, update_self, hlen]
        simp
        omega
      · rw [update_of_ne hne, h.young, hother x hne]
    · rw [h.located.items_unlink hslot, update_self]
      exact horder.sublist erase_sublist
    · rw [entries_update]
      apply h.pq.insert
      · simp [entries, hnone]
      · exact fun a ha => h.key_ne _ ha (by simp [hnone])
  · have hge : s.k ≤ (log id).length := by
      by_contra hlt
      simp [hyoung.2 ⟨hx, by omega⟩] at hin
    rw [if_pos hge] at hold
    refine ⟨_, rfl, rfl, rfl, h.cache, h.k_pos, htimes, hhistory, h.located, fun x => ?_, horder, hmap (by omega), ?_⟩
    · dsimp only
      by_cases hne : x = id
      · rw [hne, h.young, hlen]
        omega
      · rw [h.young, hother x hne]
    · rw [entries_update, hold]
      apply h.pq.rekey
      · simp [entries, hold]
      · intro a ha hne
        apply h.key_ne _ ha
        rw [hold]
        rintro t ⟨⟩
        exact hne
  · rw [Bool.not_eq_true, Bool.not_eq_false'] at hin
    rw [hin, Bool.true_and, decide_eq_true_eq] at hgrown
    refine ⟨_, rfl, rfl, rfl, h.cache, h.k_pos, htimes, hhistory, h.located, fun x => ?_, horder, fun x => ?_, h.pq⟩
    · by_cases hne : x = id
      · rw [hne, h.young, hlen]
        simp only [hx, true_and]
        omega
      · rw [h.young, hother x hne]
    · dsimp only
      by_cases hne : x = id
      · rw [hne, hold, hlen, if_neg (by omega), if_neg (by omega)]
      · rw [h.old, hother x hne]

end

/-! ## Insertion and removal -/

theorem insert_cache (s : State) (req : Request) : (LRU_K_insert s req).cache = s.cache.FIFO_insert req () := by
  unfold LRU_K_insert
  dsimp only
  split_ifs <;> rfl

theorem insert_spec (h : Inv s log) (hfresh : Fresh s log) (hid : req.obj_id = id) (hx : id ∉ s.cache.q) :
    Inv (LRU_K_insert s req) (update log id [s.cache.n_req]) := by
  set log' := update log id [s.cache.n_req]
  have hself : log' id = [s.cache.n_req] := update_self ..
  have hother : ∀ x ≠ id, log' x = log x := fun x hne => update_of_ne hne ..
  have hmem : ∀ x, x ∈ (s.cache.FIFO_insert req ()).q ↔ x = id ∨ x ∈ s.cache.q := by
    intro x
    rw [← hid]
    exact AList.mem_insert _
  have htimes : Times (· ∈ (s.cache.FIFO_insert req ()).q) s.cache.n_req log' :=
    h.times.add hfresh (l := []) (by simp) fun x => (hmem x).1
  have hslot : s.fifo.slot id = none := by
    by_contra hne
    exact hx ((h.young id).1 (Option.isSome_iff_ne_none.2 hne)).1
  have hnone : s.pq_map id = none := by
    rw [h.old]
    simp [hx]
  have hcache : (s.cache.FIFO_insert req ()).Inv := h.cache.insert () (hid ▸ hx)
  have hhistory : ∀ x, update s.history id (some [s.cache.n_req]) x =
      if x ∈ (s.cache.FIFO_insert req ()).q then some (window s.k (log' x)) else none := by
    intro x
    by_cases hne : x = id
    · have hk := h.k_pos
      have hdrop : 1 - s.k = 0 := by omega
      rw [hne, update_self, if_pos ((hmem id).2 (.inl rfl)), hself]
      simp [window, hdrop]
    · rw [update_of_ne hne, h.history, hother x hne]
      simp only [hmem, hne, false_or]
  have hne_of_mem : ∀ x ∈ s.fifo.items (), x ≠ id := by
    rintro x hx' rfl
    exact hx (h.mem_items.1 hx').1
  have horder : (s.fifo.items ()).Pairwise fun x y => first (log' x) < first (log' y) := by
    apply h.order.imp_of_mem
    intro x y hx hy hlt
    rwa [hother x (hne_of_mem x hx), hother y (hne_of_mem y hy)]
  have hk := h.k_pos
  unfold LRU_K_insert
  rw [hid]
  dsimp only
  split_ifs with hone
  · refine ⟨hcache, hk, htimes, hhistory, h.located, fun x => ?_, horder, fun x => ?_, ?_⟩ <;> dsimp only
    · by_cases hne : x = id
      · simp [hne, hslot, hself, hone]
      · simp [h.young, hmem, hne, hother x hne]
    · by_cases hne : x = id
      · simp [hne, hmem, hself, hone, kth, window, first]
      · simp [h.old, hmem, hne, hother x hne]
    · rw [entries_update]
      apply h.pq.insert
      · simp [entries, hnone]
      · exact fun a ha => h.key_ne _ ha (by simp [hnone])
  · refine ⟨hcache, hk, htimes, hhistory, h.located.push hslot (), fun x => ?_, ?_, fun x => ?_, h.pq⟩ <;> dsimp only
    · by_cases hne : x = id
      · simp [NodeLists.push, hne, hmem, hself]
        omega
      · simp [NodeLists.push, h.young, hmem, hne, hother x hne]
    · rw [items_push, update_self, pairwise_append]
      refine ⟨horder, pairwise_singleton _ _, fun x hx y hy => ?_⟩
      rw [mem_singleton.1 hy, hself, hother x (hne_of_mem x hx)]
      have hres := (h.mem_items.1 hx).1
      obtain ⟨t, l, hl⟩ := exists_cons_of_ne_nil (h.times.nonempty x hres)
      have hlt := hfresh x hres t (by simp [hl])
      simpa [hl, first] using hlt
    · by_cases hne : x = id
      · simp [hne, hnone, hself]
        omega
      · simp [h.old, hmem, hne, hother x hne]

def drop (s : State) (id : ObjId) (o : FifoObj Unit) : State := { s with
  history := update s.history id none
  fifo := s.fifo.unlink id
  pq := match s.pq_map id with
    | none => s.pq
    | some kth_vtime => set_erase toLex (kth_vtime, id) s.pq
  pq_map := update s.pq_map id none
  cache := s.cache.cache_remove_obj_base id o }

variable {o : FifoObj Unit}

theorem drop_spec (h : Inv s log) (ho : s.cache.q.lookup id = some o) : Inv (drop s id o) log := by
  have hmem : ∀ x, x ∈ (drop s id o).cache.q ↔ x ≠ id ∧ x ∈ s.cache.q := fun x => AList.mem_erase
  refine ⟨h.cache.remove ho, h.k_pos, h.times.sub fun x hx => ((hmem x).1 hx).2, fun x => ?_, h.located.unlink id, fun x => ?_, ?_,
    fun x => ?_, ?_⟩
  · by_cases hne : x = id
    · simp [drop, hne, Fifo.cache_remove_obj_base]
    · simp only [hmem]
      simp [drop, hne, h.history]
  · rw [hmem]
    show ((s.fifo.unlink id).slot x).isSome ↔ _
    rw [unlink_slot]
    by_cases hne : x = id
    · simp [hne]
    · simp [hne, h.young, drop]
  · show ((s.fifo.unlink id).items ()).Pairwise _
    rcases hslot : s.fifo.slot id with _ | ⟨⟨⟩, a⟩
    · rw [unlink_none hslot]
      exact h.order
    · rw [h.located.items_unlink hslot, update_self]
      exact h.order.sublist erase_sublist
  · show update s.pq_map id none x = _
    simp only [hmem]
    by_cases hne : x = id
    · simp [hne]
    · simp [hne, h.old, drop]
  · show Indexed toLex (drop s id o).pq (entries (update s.pq_map id none))
    rw [entries_update]
    unfold drop
    cases hold : s.pq_map id with
    | none =>
      have hnone : entries s.pq_map id = none := by simp [entries, hold]
      rw [Option.map_none, ← hnone, update_eq_self]
      exact h.pq
    | some t => exact h.pq.erase (by simp [entries, hold])

theorem Inv.old_none (h : Inv s log) (hin : (s.fifo.slot id).isSome) : s.pq_map id = none := by
  have hyoung := (h.young id).1 hin
  rw [h.old, if_neg]
  omega

theorem remove_spec (h : Inv s log) (ho : s.cache.q.lookup id = some o) : LRU_K_remove s id = (drop s id o, true) := by
  unfold LRU_K_remove drop
  rw [ho]
  dsimp only
  split_ifs with hin
  · have hold := h.old_none hin
    have hsame : update s.pq_map id none = s.pq_map := by rw [← hold, update_eq_self]
    simp [hold]
  · rw [unlink_none (by simpa using hin)]
    cases hold : s.pq_map id with
    | none =>
      have hsame : update s.pq_map id none = s.pq_map := by rw [← hold, update_eq_self]
      simp [hsame]
    | some t => rfl

/-- `x` goes before `y`: it has fewer than `k` accesses, and `y` has `k` or came later; or both have `k`, and the `k`-th last one of
`x` is older. -/
def Before (k : Nat) (log : Log) (x y : ObjId) : Prop :=
  if (log x).length < k then (log y).length < k → first (log x) < first (log y)
  else k ≤ (log y).length ∧ kth k (log x) < kth k (log y)

structure Evicts (log : Log) (s : State) (v : ObjId) (t : State) : Prop where
  to_evict : LRU_K_to_evict s = some v
  evict : LRU_K_evict s = some t
  resident : v ∈ s.cache.q
  victim : ∀ y ∈ s.cache.q, y ≠ v → Before s.k log v y
  left : ∀ x, x ∈ t.cache.q ↔ x ∈ s.cache.q ∧ x ≠ v

theorem pop_eq_unlink {q : NodeLists Unit ObjId} (h : q.Located) {l : List ObjId} (hl : q.items () = id :: l) :
    q.pop () = q.unlink id := by
  unfold NodeLists.items at hl
  rcases hn : q.nodes () with _ | ⟨⟨a, i⟩, ns⟩
  · simp [hn] at hl
  · obtain rfl : i = id := by simp_all
    have hslot := (h.slot i () a).2 (by simp [hn])
    simp [NodeLists.pop, NodeLists.unlink, hslot, hn, NodeLists.cut]

theorem evict_spec (h : Inv s log) (hne : s.cache.q.entries ≠ []) : ∃ v o, s.cache.q.lookup v = some o ∧
    Evicts log s v (drop s v o) := by
  have hleft (v : ObjId) (o : FifoObj Unit) (x : ObjId) : x ∈ (drop s v o).cache.q ↔ x ∈ s.cache.q ∧ x ≠ v :=
    AList.mem_erase.trans and_comm
  rcases hitems : s.fifo.items () with _ | ⟨v, l⟩
  · have hyoung : ∀ x ∈ s.cache.q, s.k ≤ (log x).length := by
      intro x hx
      by_contra hlt
      have hin := h.mem_items.2 ⟨hx, not_le.1 hlt⟩
      simp [hitems] at hin
    have hentry : ∀ x ∈ s.cache.q, entries s.pq_map x = some (kth s.k (log x), x) := by
      intro x hx
      simp [entries, h.old, hx, hyoung x hx]
    obtain ⟨e, r, he⟩ := exists_cons_of_ne_nil hne
    have hres : e.1 ∈ s.cache.q := Table.mem_of_lookup (Table.lookup_of_mem_entries (by simp [he]))
    obtain ⟨v, a, hbegin, ha, hleast⟩ := h.pq.begin (hentry e.1 hres)
    have hv : v ∈ s.cache.q := by
      by_contra hv
      simp [entries, h.old, hv] at ha
    cases (hentry v hv).symm.trans ha
    obtain ⟨o, ho⟩ := Table.exists_lookup hv
    have hslot : s.fifo.slot v = none := by
      by_contra hin
      have hlt := ((h.young v).1 (Option.isSome_iff_ne_none.2 hin)).2
      have hge := hyoung v hv
      omega
    have hold : s.pq_map v = some (kth s.k (log v)) := by rw [h.old, if_pos ⟨hv, hyoung v hv⟩]
    refine ⟨v, o, ho, ?_, ?_, hv, fun y hy hyv => ?_, hleft v o⟩
    · simp [LRU_K_to_evict, hitems, hbegin, ho]
    · simp [LRU_K_evict, hitems, hbegin, ho, drop, hold, unlink_none hslot]
    · unfold Before
      rw [if_neg (by have := hyoung v hv; omega)]
      refine ⟨hyoung y hy, ?_⟩
      have hle := Prod.Lex.monotone_fst _ _ (hleast y _ (hentry y hy) hyv).le
      refine hle.lt_of_ne fun heq => hyv ?_
      have heq : kth s.k (log v) = kth s.k (log y) := heq
      apply h.times.apart y v _ hy hv (kth_mem h.k_pos (h.times.nonempty y hy))
      rw [← heq]
      exact kth_mem h.k_pos (h.times.nonempty v hv)
  · obtain ⟨hv, hlt⟩ := h.mem_items.1 (by simp [hitems] : v ∈ s.fifo.items ())
    obtain ⟨o, ho⟩ := Table.exists_lookup hv
    have hold := h.old_none ((h.young v).2 ⟨hv, hlt⟩)
    have hsame : update s.pq_map v none = s.pq_map := by rw [← hold, update_eq_self]
    refine ⟨v, o, ho, ?_, ?_, hv, fun y hy hyv => ?_, hleft v o⟩
    · simp [LRU_K_to_evict, hitems]
    · simp [LRU_K_evict, hitems, ho, drop, hold, pop_eq_unlink h.located hitems]
    · unfold Before
      rw [if_pos hlt]
      intro hlty
      have hin := h.mem_items.2 ⟨hy, hlty⟩
      have horder := h.order
      rw [hitems] at hin horder
      exact (pairwise_cons.1 horder).1 y ((mem_cons.1 hin).resolve_left hyv)

/-! ## Gets -/

theorem get_spec (h : Inv s log) (req : Request) : ∃ t hit, LRU_K_get s req = some (t, hit) ∧
    Inv t (note s t log (.get req)) ∧ (hit = true ↔ req.obj_id ∈ s.cache.q) ∧
    (hit = false → ∃ l u, Trail (Evicts log) (ops.count_req s) l u ∧ (t = u ∨ t = LRU_K_insert u req)) := by
  obtain ⟨hinv, hfresh⟩ := tick h
  have hcount : (ops.count_req s).cache.q = s.cache.q := rfl
  by_cases hx : req.obj_id ∈ s.cache.q
  · obtain ⟨t, hfind, hcache, -, hinv'⟩ := find_hit hinv hfresh rfl hx
    refine ⟨t, true, CacheOps.cache_get_base_hit (congrArg some hfind), ?_, by simp [hx], by simp⟩
    simpa [note, hcache, hcount, hx] using hinv'
  · have hfind : ops.find (ops.count_req s) req = some (ops.count_req s, false) := by
      simp [ops, LRU_K_find, AList.lookup_eq_none.2 hx]
    by_cases hroom : req.obj_size + s.cache.obj_md_size ≤ s.cache.cache_size
    · let Room (u : State) : Prop := Inv u log ∧ Fresh u log ∧ req.obj_id ∉ u.cache.q ∧
        req.obj_size + u.cache.obj_md_size ≤ u.cache.cache_size
      have hstep (u : State) (hu : Room u) (hfull : ops.full_for req u = true) : ∃ v w, LRU_K_evict u = some w ∧
          Evicts log u v w ∧ Room w ∧ w.cache.q.entries.length < u.cache.q.entries.length := by
        obtain ⟨hu, hfreshu, hxu, hroomu⟩ := hu
        rw [CacheOps.full_for_iff] at hfull
        simp only [ops] at hfull
        obtain ⟨v, o, ho, hv⟩ := evict_spec hu (Fifo.entries_ne_nil_of_occupied hu.cache (by omega))
        have hlen := (Table.perm_erase ho).length_eq
        rw [length_cons] at hlen
        refine ⟨v, _, hv.evict, hv, ⟨drop_spec hu ho, fun x hx => hfreshu x ((hv.left x).1 hx).1,
          fun hx => hxu ((hv.left _).1 hx).1, hroomu⟩, ?_⟩
        show (u.cache.q.erase v).entries.length < _
        omega
      obtain ⟨l, u, hloop, htrail, ⟨hu, hfreshu, hxu, -⟩, -⟩ :=
        whileLoop_trail Room (fun u => u.cache.q.entries.length) hstep ⟨hinv, hfresh, hx, hroom⟩
      refine ⟨LRU_K_insert u req, false, CacheOps.cache_get_base_insert hfind (by simp [ops, hroom]) hloop rfl, ?_, by simp [hx],
        fun _ => ⟨l, u, htrail, .inr rfl⟩⟩
      have hin : req.obj_id ∈ (u.cache.FIFO_insert req ()).q := (AList.mem_insert _).2 (.inl rfl)
      simpa [note, insert_cache, hx, Fifo.FIFO_insert] using insert_spec hu hfreshu rfl hxu
    · refine ⟨ops.count_req s, false, CacheOps.cache_get_base_reject hfind (by simp [ops, not_le.1 hroom]), ?_, by simp [hx],
        fun _ => ⟨[], _, .refl, .inl rfl⟩⟩
      simpa [note, hcount, hx] using hinv

end CacheSim.LruK
