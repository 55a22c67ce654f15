import CacheSim.Lirs.Proofs

/-!
# Runs of gets and direct evictions

The ids may come with other sizes each time.
-/

namespace CacheSim.Lirs

open Lib Function

variable {P : Setup} {s : State} {x : ObjId}

def Setup.resize (P : Setup) (x : ObjId) (size : Int) (hsize : 0 < size) : Setup :=
  { P with
    sz := update P.sz x size
    sz_pos := fun y => by
      by_cases hy : y = x
      · rw [hy, update_self]
        exact hsize
      · rw [update_of_ne hy]
        exact P.sz_pos y }

theorem total_resize {l : List ObjId} (hx : x ∉ l) (size : Int) (hsize : 0 < size) :
    (P.resize x size hsize).total l = P.total l := by
  unfold Setup.total
  congr 1
  apply List.map_congr_left
  intro y hy
  have hne : y ≠ x := fun heq => hx (heq ▸ hy)
  exact update_of_ne hne _ _

theorem Core.notMem_lirs (h : s.LRU_s.q.lookup x = none) : x ∉ lirs (stack s.LRU_s) := by
  intro hx
  obtain ⟨o, ho, -⟩ := mem_lirs.1 hx
  rw [h] at ho
  cases ho

theorem Sound.resize (h : Sound P none s) (hS : s.LRU_s.q.lookup x = none) (hQ : s.LRU_q.q.lookup x = none) (size : Int)
    (hsize : 0 < size) : Sound (P.resize x size hsize) none s := by
  have hN : s.LRU_nh.q.lookup x = none := by
    by_contra hn
    obtain ⟨o, ho, -⟩ := (h.tables.nh x).1 hn
    rw [hS] at ho
    cases ho
  have hsame : ∀ {y : ObjId} {c : Lru Md} {o : FifoObj Md}, c.q.lookup x = none → c.q.lookup y = some o →
      (P.resize x size hsize).sz y = P.sz y := by
    intro y c o hx hy
    have hne : y ≠ x := by
      rintro rfl
      rw [hx] at hy
      cases hy
    exact update_of_ne hne _ _
  obtain ⟨h1, h2, h3, h4, h5, h6⟩ := h.tables
  have hc := h.counts
  refine ⟨⟨{ h.frame with },
    ⟨fun y o hy => ?_, fun y o hy => ?_, h3, h4, h5, h6⟩, h.top, { hc with lirs := ?_, hirs := ?_ }⟩,
    h.queue, fun y n hy => ?_, ?_⟩
  · rw [hsame hS hy]
    exact h1 y o hy
  · rw [hsame hQ hy]
    exact h2 y o hy
  · rw [total_resize (Core.notMem_lirs hS)]
    exact hc.lirs
  · rw [total_resize (lookup_none_iff_keys.1 hQ)]
    exact hc.hirs
  · rw [hsame hN hy]
    exact h.sizes y n hy
  · rw [total_resize (lookup_none_iff_keys.1 hN)]
    exact h.nonresident

/-! ## The steps -/

inductive Step where
  | get (req : Request)
  | evict (req : Request)

def step (s : State) : Step → Option State
  | .get req => get_step s req
  | .evict req => LIRS_evict s req

def CanStep (s : State) : Step → Prop
  | .get req => 0 < req.obj_size ∧ CanGet s req
  | .evict req => CanEvict s req

instance (s : State) (a : Step) : Decidable (CanStep s a) := by
  cases a with
  | get req => exact inferInstanceAs (Decidable (0 < req.obj_size ∧ CanGet s req))
  | evict req => exact inferInstanceAs (Decidable (CanEvict s req))

def Consistent (cache_size : Nat) (s : State) : Prop :=
  ∃ P : Setup, P.cache_size = cache_size ∧ Sound P none s

variable {cache_size : Nat} {req : Request}

theorem Consistent.get (h : Consistent cache_size s) (hsize : 0 < req.obj_size)
    (hcan : CanGet s req) : ∃ s' hit, LIRS_get s req = some (s', hit) ∧ Consistent cache_size s' := by
  obtain ⟨P, hcs, hsound⟩ := h
  by_cases hnew : s.LRU_s.q.lookup req.obj_id = none ∧ s.LRU_q.q.lookup req.obj_id = none
  · obtain ⟨s', hit, hget, hsound', -⟩ := LIRS_get_spec (hsound.resize hnew.1 hnew.2 req.obj_size hsize)
      (fun _ _ => (update_self req.obj_id req.obj_size P.sz).symm) hcan
    exact ⟨s', hit, hget, P.resize req.obj_id req.obj_size hsize, hcs, hsound'⟩
  · obtain ⟨s', hit, hget, hsound', -⟩ := LIRS_get_spec hsound (fun hS hQ => absurd ⟨hS, hQ⟩ hnew) hcan
    exact ⟨s', hit, hget, P, hcs, hsound'⟩

theorem Consistent.evict (h : Consistent cache_size s) (hcan : CanEvict s req) :
    ∃ s', LIRS_evict s req = some s' ∧ Consistent cache_size s' := by
  obtain ⟨P, hcs, hsound⟩ := h
  by_cases hres : residents s = []
  · exact ⟨s, LIRS_evict_empty hsound hcan hres, P, hcs, hsound⟩
  · obtain ⟨s', hev, hfrees⟩ := LIRS_evict_frees hsound hcan hres
    exact ⟨s', hev, P, hcs, hfrees.sound⟩

theorem reach_consistent (hcs : 2 ≤ cache_size) (hr : Reach step CanStep (LIRS_init cache_size false) s) :
    Consistent cache_size s := by
  apply Reach.inv (Consistent cache_size) _ _ hr
  · intro t a t' ht hcan hstep
    cases a with
    | get req =>
      obtain ⟨v, hit, hget, hv⟩ := ht.get hcan.1 hcan.2
      simp only [step, get_step, hget, Option.map_some, Option.some.injEq] at hstep
      exact hstep ▸ hv
    | evict req =>
      obtain ⟨v, hev, hv⟩ := ht.evict hcan
      cases hev.symm.trans hstep
      exact hv
  · have hgood := init_good (fun _ => 1) (fun _ => Int.one_pos) hcs
    exact ⟨_, rfl, hgood.core, init_ledger _ _ _⟩

/-! ## Direct evictions -/

def size_of (s : State) (x : ObjId) : Int :=
  match s.LRU_s.q.lookup x, s.LRU_q.q.lookup x with
  | some obj_s, _ => obj_s.obj_size
  | none, some obj_q => obj_q.obj_size
  | none, none => 0

def Counted (s : State) : Prop :=
  ∃ ids : Finset ObjId, (∀ x, x ∈ ids ↔ found s x) ∧ s.n_obj = ids.card ∧ s.occupied_byte = ∑ x ∈ ids, size_of s x

theorem Core.size_of_found (h : Core P none s) (hx : found s x) : size_of s x = P.sz x := by
  unfold size_of
  rcases hS : s.LRU_s.q.lookup x with _ | o
  · rcases hQ : s.LRU_q.q.lookup x with _ | q
    · have hmem := (found_iff h x).1 hx
      rw [residents, List.mem_append] at hmem
      rcases hmem with hmem | hmem
      · exact absurd hmem (Core.notMem_lirs hS)
      · exact absurd hmem (lookup_none_iff_keys.1 hQ)
    · rw [(h.tables.Q_rec x q hQ).1]
  · exact (h.tables.S_rec x o hS).1

theorem Consistent.counted (h : Consistent cache_size s) : Counted s := by
  obtain ⟨P, -, hsound⟩ := h
  obtain ⟨ids, hids, hcard, hsum⟩ := hsound.toCore.counted
  refine ⟨ids, hids, hcard, hsum.trans (Finset.sum_congr rfl fun x hx => ?_)⟩
  exact (hsound.toCore.size_of_found ((hids x).1 hx)).symm

/-- In a run whose steps all find what they take for granted every state is counted right, and a direct
eviction that does so too returns, frees something, and brings no block back. -/
theorem evictions_free {cache_size : Nat} (hcs : 2 ≤ cache_size) {s : State}
    (hr : Reach step CanStep (LIRS_init cache_size false) s) :
    Counted s ∧ ((∃ x, found s x) → ∀ req, CanEvict s req → ∃ s', LIRS_evict s req = some s' ∧
      s'.occupied_byte < s.occupied_byte ∧ Counted s' ∧ ∀ x, found s' x → found s x) := by
  have hcons := reach_consistent hcs hr
  refine ⟨hcons.counted, ?_⟩
  rintro ⟨x, hx⟩ req hcan
  obtain ⟨P, hsize, hsound⟩ := hcons
  have hres : residents s ≠ [] := List.ne_nil_of_mem ((found_iff hsound.toCore x).1 hx)
  obtain ⟨s', hev, hfrees⟩ := LIRS_evict_frees hsound hcan hres
  have hcons' : Consistent cache_size s' := ⟨P, hsize, hfrees.sound⟩
  refine ⟨s', hev, hfrees.less, hcons'.counted, fun y hy => ?_⟩
  rw [found_iff hfrees.sound.toCore] at hy
  exact (found_iff hsound.toCore y).2 (hfrees.narrows.residents y hy)

theorem evictions_free_two : ∃ s, Reach step CanStep (LIRS_init 2 false) s ∧
    ∃ s', LIRS_evict s { obj_id := 5 } = some s' ∧ s'.occupied_byte < s.occupied_byte ∧ Counted s' ∧
      ∀ x, found s' x → found s x := by
  obtain ⟨s, hs, hone, hcan⟩ : ∃ s, runs (fun s a => if CanStep s a then step s a else none) (LIRS_init 2 false)
      [.get { obj_id := 1 }, .get { obj_id := 2 }, .evict { obj_id := 5 }] = some s ∧ found s 1 ∧ CanEvict s { obj_id := 5 } := by
    decide +kernel
  have hreach := Reach.of_checked hs
  obtain ⟨-, hevict⟩ := evictions_free le_rfl hreach
  exact ⟨s, hreach, hevict ⟨1, hone⟩ { obj_id := 5 } hcan⟩

/-- Block 1 is demoted while block 2 is on top of `S`, and pruning leaves it there. Block 1 comes back on
top of it, and the next eviction takes block 2 for an LIR one: nothing is counted, and block 1 is found. -/
theorem not_evictions_free : ¬ ∀ cache_size : Nat, 2 ≤ cache_size → ∀ steps : List Step,
    (∀ a ∈ steps, ∀ req, a = .get req ∨ a = .evict req → 0 < req.obj_size) →
    ∀ s, runs step (LIRS_init cache_size false) steps = some s → (∃ x, found s x) →
    ∀ req : Request, 0 < req.obj_size → ¬ found s req.obj_id → ∃ s', LIRS_evict s req = some s' ∧
      s'.occupied_byte < s.occupied_byte ∧ Counted s' ∧ ∀ x, found s' x → found s x := by
  intro hclaim
  obtain ⟨s, hs, hone, hfive, u, hev, hnone, hfound⟩ : ∃ s, runs step (LIRS_init 2 false)
      [.get { obj_id := 1 }, .get { obj_id := 2 }, .evict { obj_id := 5 }, .evict { obj_id := 5 }, .get { obj_id := 1 }] = some s ∧
        found s 1 ∧ ¬ found s 5 ∧ ∃ s', LIRS_evict s { obj_id := 5 } = some s' ∧ s'.n_obj = 0 ∧ found s' 1 := by decide +kernel
  obtain ⟨s', hev', -, ⟨ids, hids, hcard, -⟩, -⟩ := hclaim 2 le_rfl _ (by simp) s hs ⟨1, hone⟩ { obj_id := 5 } Int.one_pos hfive
  cases hev.symm.trans hev'
  have hmem := Finset.card_pos.2 ⟨1, (hids 1).2 hfound⟩
  omega

end CacheSim.Lirs

/-!
## Removals

`LIRS_remove` undoes what the other calls have done for a block, but for the record in `LRU_nh` and
the metadata of the object.
-/

namespace CacheSim.Lirs

open Lib List Table

variable {P : Setup} {s s' : State} {x : ObjId} {id : ObjId}

/-- A freed object still reads as before. -/
abbrev unchanged : FifoObj Md → FifoObj Md := fun o => o

def gone (s : State) (x : ObjId) : Prop := ∃ o, s.LRU_s.q.lookup x = some o ∧ is_nonresident o = true

instance (s : State) (x : ObjId) : Decidable (gone s x) :=
  decidable_of_iff ((s.LRU_s.q.lookup x).any is_nonresident = true) (by simp [gone, Option.any_eq_true])

def Listed (s : State) : Prop :=
  ∃ ids : Finset ObjId, (∀ x, x ∈ ids ↔ gone s x) ∧ (∀ x, x ∈ s.LRU_nh.q ↔ x ∈ ids) ∧ s.nonresident = ∑ x ∈ ids, size_of s x

theorem mem_nh_iff (h : Core P none s) : x ∈ s.LRU_nh.q ↔ gone s x := by
  rw [← AList.lookup_isSome, ← Option.ne_none_iff_isSome, h.tables.nh]
  unfold gone is_nonresident
  constructor
  · rintro ⟨o, ho, hmd⟩
    exact ⟨o, ho, by rw [hmd]; rfl⟩
  · rintro ⟨o, ho, hnr⟩
    rw [Bool.and_eq_true, Bool.not_eq_true', Bool.not_eq_true'] at hnr
    refine ⟨o, ho, ?_⟩
    rcases hmd : o.md with ⟨is_LIR, in_cache⟩
    rw [hmd] at hnr
    obtain ⟨rfl, rfl⟩ := hnr
    rfl

theorem Sound.listed (h : Sound P none s) : Listed s := by
  refine ⟨s.LRU_nh.q.keys.toFinset, fun x => ?_, fun x => ?_, ?_⟩
  · rw [mem_toFinset, ← AList.mem_keys, mem_nh_iff h.toCore]
  · rw [mem_toFinset, AList.mem_keys]
  · have hnodup : s.LRU_nh.q.keys.Nodup := s.LRU_nh.q.nodupKeys
    rw [sum_toFinset _ hnodup, h.nonresident, Setup.total]
    congr 1
    apply List.map_congr_left
    intro x hx
    obtain ⟨o, ho, -⟩ := (mem_nh_iff h.toCore).1 (AList.mem_keys.2 hx)
    rw [size_of, ho]
    exact ((h.tables.S_rec x o ho).1).symm

/-! ## Taking a block out -/

variable {o : FifoObj Md}

theorem lirs_erase {S : Lru Md} (hx : S.q.lookup x = some o) :
    (lirs (stack S)).Perm ((if o.md.is_LIR then [x] else []) ++ lirs (stack (S.LRU_remove x).1)) := by
  obtain ⟨l1, l2, hs, herase, -⟩ := split_at hx
  rw [stack, stack, Lru.LRU_remove_q, herase, hs, map_append, map_append, map_cons]
  rcases hlir : o.md.is_LIR with _ | _
  · simp
  · simp only [lirs_append, if_true]
    exact perm_middle

theorem remove_LIR (h : Sound P none s) (hx : s.LRU_s.q.lookup x = some o) (hlir : o.md.is_LIR = true) :
    ∃ s', LIRS_remove s unchanged x = some (s', true) ∧ Sound P none s' ∧ (residents s).Perm (x :: residents s') := by
  have hsize := (h.tables.S_rec x o hx).1
  have hperm := lirs_erase hx
  rw [hlir, if_pos rfl, singleton_append] at hperm
  let s1 : State := { s with
    LRU_s := (s.LRU_s.LRU_remove x).1, lirs_count := s.lirs_count - o.obj_size
    occupied_byte := s.occupied_byte - o.obj_size, n_obj := s.n_obj - 1 }
  have hcore1 : Core P none s1 := by
    refine ⟨h.frame, ?_, (fun _ _ hy => nomatch hy), ?_⟩
    · have ht := h.tables.erase_S (x := x) fun _ hy => nomatch hy
      rw [← lookup_erase_eq_update, Function.update_eq_self_iff.2 (h.tables.lir_notMem_N hx hlir).symm,
        ← Lru.LRU_remove_q] at ht
      exact ht
    · have hc := (h.counts.of_perm hperm.symm (.refl _)).drop_LIR
      rw [← hsize] at hc
      exact hc
  have hsound1 : Sound P none s1 := ⟨hcore1, { h with }⟩
  obtain ⟨s', hprune, -, -, hQ, d, hd, hhir⟩ := LIRS_prune_spec hcore1
  refine ⟨s', ?_, hsound1.prune hprune, ?_⟩
  · simp only [LIRS_remove, unchanged, hx, hlir]
    exact Option.map_eq_some_iff.2 ⟨s', hprune, rfl⟩
  · have hlirs : lirs (stack s'.LRU_s) = lirs (stack (s.LRU_s.LRU_remove x).1) := by
      rw [show stack (s.LRU_s.LRU_remove x).1 = _ from hd, lirs_append, lirs_of_hir hhir, append_nil]
    rw [residents, residents, hlirs, hQ, ← cons_append]
    exact hperm.append_right _

variable {q : FifoObj Md}

theorem queue_remove (h : s.LRU_q.Inv) (hq : s.LRU_q.q.lookup x = some q) : (s.LRU_q.LRU_remove x).1.Inv := by
  unfold Lru.LRU_remove Fifo.FIFO_remove
  rw [hq]
  exact h.remove hq

theorem keys_remove (hq : s.LRU_q.q.lookup x = some q) : s.LRU_q.q.keys.Perm (x :: (s.LRU_q.LRU_remove x).1.q.keys) := by
  rw [Lru.LRU_remove_q]
  exact (perm_erase hq).map Sigma.fst

theorem remove_HIR (h : Sound P none s) (hq : s.LRU_q.q.lookup x = some q) :
    ∃ s', LIRS_remove s unchanged x = some (s', true) ∧ Sound P none s' ∧ (residents s).Perm (x :: residents s') := by
  obtain ⟨rfl, -⟩ := h.tables.Q_rec x q hq
  have hkeys := keys_remove hq
  have hc := (h.counts.of_perm (.refl _) hkeys.symm).drop_Q
  rcases hx : s.LRU_s.q.lookup x with _ | o
  · have hcore : Core P none { s with
        LRU_q := (s.LRU_q.LRU_remove x).1, hirs_count := s.hirs_count - P.sz x
        occupied_byte := s.occupied_byte - P.sz x, n_obj := s.n_obj - 1 } := by
      refine ⟨h.frame, ?_, (fun _ _ hy => nomatch hy), hc⟩
      have ht := h.tables.evict_Q hx
      rw [← lookup_erase_eq_update, ← Lru.LRU_remove_q] at ht
      exact ht
    refine ⟨_, ?_, ⟨hcore, queue_remove h.queue hq, h.sizes, h.nonresident⟩, ?_⟩
    · simp only [LIRS_remove, hx, hq, if_true]
    · exact (hkeys.append_left _).trans perm_middle
  · obtain ⟨hsize, -, -⟩ := h.tables.S_rec x o hx
    have hmd := h.tables.Q_in_S x _ o hq hx
    have hperm := lirs_erase hx
    rw [hmd, if_neg Bool.false_ne_true, nil_append] at hperm
    have hcore : Core P none { s with
        LRU_s := (s.LRU_s.LRU_remove x).1, LRU_q := (s.LRU_q.LRU_remove x).1, hirs_count := s.hirs_count - P.sz x
        occupied_byte := s.occupied_byte - P.sz x, n_obj := s.n_obj - 1 } := by
      refine ⟨h.frame, ?_, (fun _ _ hy => nomatch hy), hc.of_perm hperm.symm (.refl _)⟩
      have ht := h.tables.erase_both hx hmd
      rw [← lookup_erase_eq_update, ← lookup_erase_eq_update, ← Lru.LRU_remove_q, ← Lru.LRU_remove_q] at ht
      exact ht
    refine ⟨_, ?_, ⟨hcore, queue_remove h.queue hq, h.sizes, h.nonresident⟩, ?_⟩
    · simp only [LIRS_remove, unchanged, hx, hq, hmd, hsize, Bool.false_eq_true, if_false, if_true]
    · exact (hperm.append hkeys).trans perm_middle

structure Removed (s : State) (id : ObjId) (s' : State) (res : Bool) : Prop where
  result : res = true ↔ found s id
  others : ∀ x ≠ id, (found s' x ↔ found s x)
  n_obj : res = true → s'.n_obj = s.n_obj - 1
  occupied : res = true → s'.occupied_byte = s.occupied_byte - (size_of s id + s.obj_md_size)
  listed : Listed s'

theorem Sound.removed (h : Sound P none s) (h' : Sound P none s') (hperm : (residents s).Perm (id :: residents s')) :
    Removed s id s' true := by
  have hmem : id ∈ residents s := hperm.mem_iff.2 mem_cons_self
  have hfound := (found_iff h.toCore id).2 hmem
  refine ⟨iff_of_true rfl hfound, fun x hx => ?_, fun _ => ?_, fun _ => ?_, h'.listed⟩
  · rw [found_iff h'.toCore, found_iff h.toCore, hperm.mem_iff, mem_cons]
    exact (or_iff_right hx).symm
  · have hlen := hperm.length_eq
    rw [length_cons, residents, residents, length_append, length_append] at hlen
    rw [h.counts.n_obj, h'.counts.n_obj]
    omega
  · have htotal := P.total_perm hperm
    rw [P.total_cons, ← h.toCore.occupied_eq, ← h'.toCore.occupied_eq] at htotal
    rw [h.toCore.size_of_found hfound, h.frame.no_md]
    omega

theorem removed_unknown (hx : s.LRU_s.q.lookup id = none) (hq : s.LRU_q.q.lookup id = none) (hl : Listed s)
    (freed : FifoObj Md → FifoObj Md) : ∃ s' res, LIRS_remove s freed id = some (s', res) ∧ Removed s id s' res := by
  have habsent : ¬ found s id := by simp [found, LIRS_find, Lru.LRU_find_probe, hx, hq]
  refine ⟨s, false, ?_, iff_of_false Bool.false_ne_true habsent, fun _ _ => Iff.rfl, ?_, ?_, hl⟩
  · simp only [LIRS_remove, hx, hq]
  · exact fun hres => absurd hres Bool.false_ne_true
  · exact fun hres => absurd hres Bool.false_ne_true

theorem LIRS_remove_iff (h : Sound P none s) (id : ObjId) :
    (∃ s' res, LIRS_remove s unchanged id = some (s', res) ∧ Removed s id s' res) ↔ ¬ gone s id := by
  constructor
  · rintro ⟨s', res, hrem, hremoved⟩ ⟨o, ho, hnr⟩
    have habsent : ¬ found s id := by
      rw [found_iff h.toCore, residents, List.mem_append, not_or]
      have hlists := (h.tables.nh id).1 (by
        rw [Option.ne_none_iff_isSome, AList.lookup_isSome]
        exact (mem_nh_iff h.toCore).2 ⟨o, ho, hnr⟩)
      obtain ⟨o', ho', hmd⟩ := hlists
      refine ⟨fun hlir => ?_, fun hQ => ?_⟩
      · obtain ⟨o1, ho1, hlir⟩ := mem_lirs.1 hlir
        rw [ho'] at ho1
        cases ho1
        rw [hmd] at hlir
        cases hlir
      · obtain ⟨q, hq⟩ := exists_lookup (AList.mem_keys.2 hQ)
        have hres := h.tables.Q_in_S id q o' hq ho'
        rw [hmd] at hres
        cases hres
    apply habsent
    apply hremoved.result.1
    rw [is_nonresident, Bool.and_eq_true, Bool.not_eq_true', Bool.not_eq_true'] at hnr
    simp only [LIRS_remove, unchanged, ho, hnr.1, Bool.false_eq_true, if_false] at hrem
    rcases hq : s.LRU_q.q.lookup id with _ | q <;> simp only [hq, Option.some.injEq, Prod.mk.injEq] at hrem
    · exact hrem.2.symm
    · exact hrem.2.symm
  · intro hgone
    rcases hq : s.LRU_q.q.lookup id with _ | q
    · rcases hx : s.LRU_s.q.lookup id with _ | o
      · exact removed_unknown hx hq h.listed unchanged
      · have hlir : o.md.is_LIR = true := by
          rcases hmd : o.md with ⟨is_LIR, in_cache⟩
          cases is_LIR with
          | true => rfl
          | false =>
            cases in_cache with
            | true =>
              obtain ⟨q, hq'⟩ := (h.tables.S_in_Q id o hx hmd).resolve_right (by simp)
              rw [hq] at hq'
              cases hq'
            | false => exact absurd ⟨o, hx, by rw [is_nonresident, hmd]; rfl⟩ hgone
        obtain ⟨s', hrem, hsound, hperm⟩ := remove_LIR h hx hlir
        exact ⟨s', true, hrem, h.removed hsound hperm⟩
    · obtain ⟨s', hrem, hsound, hperm⟩ := remove_HIR h hq
      exact ⟨s', true, hrem, h.removed hsound hperm⟩

theorem LIRS_prune_occupied (h : LIRS_prune s = some s') : s'.occupied_byte = s.occupied_byte := by
  refine (whileLoop_inv (fun t => t.occupied_byte = s.occupied_byte) ?_ _ s s' rfl h).1
  intro t t' ht _ hstep
  simp only [LIRS_prune_step, bind, Option.bind_eq_some_iff] at hstep
  obtain ⟨e, -, S, -, hstep⟩ := hstep
  cases hstep
  rw [← ht]
  dsimp only
  split_ifs <;> rfl

theorem LIRS_remove_occupied {freed : FifoObj Md → FifoObj Md} {res : Bool} (hfound : found s id)
    (h : LIRS_remove s freed id = some (s', res)) :
    ∃ o, size_of s id = o.obj_size ∧ s'.occupied_byte = s.occupied_byte - (freed o).obj_size := by
  unfold found LIRS_find at hfound
  simp only [Lru.LRU_find_probe] at hfound
  unfold LIRS_remove at h
  unfold size_of
  rcases hx : s.LRU_s.q.lookup id with _ | o <;> simp only [hx] at h hfound ⊢
  · rcases hq : s.LRU_q.q.lookup id with _ | q <;> simp only [hq] at h hfound ⊢
    · cases hfound
    · split_ifs at h
      cases h
      exact ⟨q, rfl, rfl⟩
  · refine ⟨o, rfl, ?_⟩
    split_ifs at h with hlir hin
    · obtain ⟨t, ht, heq⟩ := Option.map_eq_some_iff.1 h
      cases heq
      exact LIRS_prune_occupied ht
    · split at h <;> cases h <;> rfl
    · simp [hlir, hin] at hfound

/-- A block in one of the stacks is freed before its size is read. -/
theorem LIRS_remove_any_iff (hQ : ∀ q, s.LRU_q.q.lookup id = some q → q.md.in_cache = true) (hl : Listed s) (hmd : 0 ≤ s.obj_md_size)
    (hgone : (∃ s' res, LIRS_remove s unchanged id = some (s', res) ∧ Removed s id s' res) → ¬ gone s id) :
    (∀ freed, ∃ s' res, LIRS_remove s freed id = some (s', res) ∧ Removed s id s' res) ↔ ¬ found s id ∧ ¬ gone s id := by
  constructor
  · intro h
    refine ⟨fun hfound => ?_, hgone (h unchanged)⟩
    obtain ⟨s', res, hrem, hremoved⟩ := h fun o => { o with obj_size := o.obj_size - 1 }
    obtain ⟨o, hsize, hocc⟩ := LIRS_remove_occupied hfound hrem
    have hgiven := hremoved.occupied (hremoved.result.2 hfound)
    dsimp only at hocc
    omega
  · rintro ⟨habsent, hnot⟩
    unfold found LIRS_find at habsent
    simp only [Lru.LRU_find_probe] at habsent
    rcases hx : s.LRU_s.q.lookup id with _ | o
    · rcases hq : s.LRU_q.q.lookup id with _ | q
      · exact removed_unknown hx hq hl
      · simp [hx, hq, hQ q hq] at habsent
    · refine absurd ⟨o, hx, ?_⟩ hnot
      simpa [hx, is_nonresident] using habsent

/-! ## Sizes of one -/

theorem two_le_hirs_limit {cache_size : Nat} (h : 200 ≤ cache_size) : 2 ≤ hirs_limit_of cache_size := by
  have hcs : 200 ≤ round53 cache_size := by
    by_contra hlt
    have hle := (round53_le_iff (n := cache_size) (m := 199) (by decide)).1 (by omega)
    omega
  have hprod : 2 ^ 60 ≤ hirs_ratio * round53 cache_size :=
    calc 2 ^ 60 ≤ hirs_ratio * 200 := by decide
      _ ≤ hirs_ratio * round53 cache_size := Nat.mul_le_mul_left _ hcs
  have hround := pow_le_round53 hprod
  have hdiv : 2 ≤ round53 (hirs_ratio * round53 cache_size) / 2 ^ 59 := by
    rw [Nat.le_div_iff_mul_le (Nat.two_pow_pos 59)]
    exact hround
  exact hdiv.trans (Nat.le_max_right _ _)

theorem room_of_units (h : Sound P none s) (hunit : ∀ x, P.sz x = 1) (htwo : 2 ≤ P.hirs_limit) {req : Request}
    (hreq : req.obj_size = 1) : Room s req := by
  intro _ _
  have hsizes := LIR_sizes_eq h.toCore
  have hfit := h.counts.lirs_fit
  unfold LIR_sizes at hsizes
  rw [hsizes, hreq, h.frame.lirs_limit, h.frame.hirs_limit]
  rcases (lirs (stack s.LRU_s)).reverse with _ | ⟨y, l⟩
  · rw [map_nil, demoted]
    omega
  · rw [map_cons, hunit, demoted]
    split_ifs
    · rw [demoted_of_le _ (by omega)]
      omega
    · omega

end CacheSim.Lirs
