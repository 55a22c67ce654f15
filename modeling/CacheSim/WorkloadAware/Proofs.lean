import CacheSim.WorkloadAware.Model

/-!
# What becomes of the candidate of WorkloadAware

The entry of the candidate is off the heap when the eviction comes, and nothing puts it back: the
eviction sees the classes that are left.
-/

namespace CacheSim.WorkloadAware

open Lib List Option AList Table

variable {D : Type} [LinearOrder D] {F : Doubles D} {s t : State D} {x : ObjId} {m : BlockMeta D}

def lru (s : State D) (c : Nat) : List ObjId := (s.queues.lookup c).elim [] fun q => q.lru

omit [LinearOrder D] in
theorem category_head_eq (s : State D) (c : Nat) : category_head s c = (lru s c).head? := by
  unfold category_head lru
  cases s.queues.lookup c <;> rfl

def live (s : State D) (c : Nat) : Bool := (category_head s c).isSome

def classes (h : List (HeadEntry D)) : List Nat := h.map fun e => e.category

variable {h : List (HeadEntry D)} {e : HeadEntry D} {n n' c : Nat}

theorem classes_erase (he : e ∈ h) : (classes h).Perm (e.category :: classes (h.erase e)) :=
  (perm_cons_erase he).map _

/-! ## The pops -/

/-- The pops have changed nothing but the heap. A class that lost its entry has no residents, or its
head is what was taken. -/
structure Popping (s : State D) (w : Pops D) : Prop where
  fields : w.s = { s with head_heap := w.s.head_heap, seq := w.s.seq }
  nodup : (classes w.s.head_heap).Nodup
  old : ∀ c ∈ classes w.s.head_heap, c ∈ classes s.head_heap
  kept : ∀ c ∈ classes s.head_heap, category_head s c ≠ none → c ∈ classes w.s.head_heap ∨ category_head s c = w.out
  taken : ∀ x, w.out = some x → ∃ c ∈ classes s.head_heap, category_head s c = some x ∧ c ∉ classes w.s.head_heap

def rounds (s : State D) (h : List (HeadEntry D)) : Nat :=
  (h.map fun e => if category_head s e.category = some e.head then 1 else 2).sum

omit [LinearOrder D] in
theorem rounds_le (s : State D) (h : List (HeadEntry D)) : rounds s h ≤ 2 * h.length := by
  induction h with
  | nil => simp [rounds]
  | cons e h ih =>
    unfold rounds at *
    rw [map_cons, sum_cons, length_cons]
    split_ifs <;> omega

theorem rounds_erase (s : State D) (he : e ∈ h) :
    rounds s h = (if category_head s e.category = some e.head then 1 else 2) + rounds s (h.erase e) := by
  unfold rounds
  rw [((perm_cons_erase he).map _).sum_eq, map_cons, sum_cons]

omit [LinearOrder D] in
theorem Popping.start (h : (classes s.head_heap).Nodup) : Popping s { s := s } :=
  ⟨rfl, h, fun _ hc => hc, fun _ hc _ => .inl hc, by simp⟩

def to_go (s : State D) (w : Pops D) : Nat := if w.out.isNone then rounds s w.s.head_heap else 0

theorem Popping.drop (he : e ∈ h)
    (hp : Popping s { s := { s with head_heap := h, seq := n } }) (hdrained : category_head s e.category = none) :
    Popping s { s := { s with head_heap := h.erase e, seq := n' } } := by
  have hperm := classes_erase he
  refine ⟨rfl, (nodup_cons.1 (hperm.nodup_iff.1 hp.nodup)).2, ?_, ?_, by simp⟩
  · intro c hc
    exact hp.old c (hperm.mem_iff.2 (by simp [hc]))
  · intro c hc hlive
    rcases hp.kept c hc hlive with hin | hin
    · rcases mem_cons.1 (hperm.mem_iff.1 hin) with rfl | hin
      · exact absurd hdrained hlive
      · exact .inl hin
    · exact .inr hin

theorem Popping.rekey {e' : HeadEntry D} (he : e ∈ h)
    (hp : Popping s { s := { s with head_heap := h, seq := n } }) (hsame : e'.category = e.category) :
    Popping s { s := { s with head_heap := e' :: h.erase e, seq := n' } } := by
  have hperm : (classes h).Perm (classes (e' :: h.erase e)) := by
    unfold classes
    rw [map_cons, hsame]
    exact classes_erase he
  exact ⟨rfl, hperm.nodup_iff.1 hp.nodup, fun c hc => hp.old c (hperm.mem_iff.2 hc),
    fun c hc hlive => (hp.kept c hc hlive).imp_left hperm.mem_iff.1, by simp⟩

theorem Popping.take (he : e ∈ h)
    (hp : Popping s { s := { s with head_heap := h, seq := n } }) (hx : category_head s e.category = some x) :
    Popping s { s := { s with head_heap := h.erase e, seq := n' }, out := some x } := by
  have hperm := classes_erase he
  obtain ⟨hnot, hnodup⟩ := nodup_cons.1 (hperm.nodup_iff.1 hp.nodup)
  refine ⟨rfl, hnodup, ?_, ?_, ?_⟩
  · intro c hc
    exact hp.old c (hperm.mem_iff.2 (by simp [hc]))
  · intro c hc hlive
    rcases hp.kept c hc hlive with hin | hin
    · rcases mem_cons.1 (hperm.mem_iff.1 hin) with rfl | hin
      · exact .inr hx
      · exact .inl hin
    · exact absurd hin hlive
  · intro y hy
    cases hy
    exact ⟨e.category, hp.old _ (mem_map_of_mem he), hx, hnot⟩

theorem pop_step_spec {w : Pops D} (h : Popping s w) (hout : w.out = none) (hne : w.s.head_heap ≠ []) :
    ∃ w', pop_step F w = some w' ∧ Popping s w' ∧ to_go s w' < to_go s w := by
  obtain ⟨u, out⟩ := w
  obtain ⟨heap, n, rfl⟩ : ∃ heap n, u = { s with head_heap := heap, seq := n } := ⟨_, _, h.fields⟩
  obtain rfl : out = none := hout
  obtain ⟨e, he⟩ := ne_none_iff_exists'.1 (mt top_eq_none.1 hne : top HeadEntry.before heap ≠ none)
  have hmem := top_mem he
  have hrounds := rounds_erase s hmem
  have hhead : ∀ l, category_head { s with head_heap := l, seq := n } e.category = category_head s e.category := fun _ => rfl
  unfold pop_step
  simp only [he, bind, bind_some, hhead]
  rcases hx : category_head s e.category with _ | x
  · refine ⟨_, rfl, h.drop hmem hx, ?_⟩
    simp only [to_go, isNone_none, hrounds]
    split_ifs <;> omega
  · dsimp only
    split_ifs with hstale
    · refine ⟨_, rfl, h.rekey hmem rfl, ?_⟩
      simp only [to_go, hrounds, push_head, head_entry]
      simp only [rounds, map_cons, hx, some.injEq, if_neg hstale]
      simp
    · refine ⟨_, rfl, h.take hmem hx, ?_⟩
      simp only [to_go, isNone_none, hrounds]
      split_ifs <;> omega

theorem pop_heads_spec (h : (classes s.head_heap).Nodup) :
    ∃ w, pop_heads F s = some w ∧ Popping s w ∧ (w.out = none → w.s.head_heap = []) := by
  have hbody : ∀ w : Pops D, Popping s w → (w.out.isNone && !w.s.head_heap.isEmpty) = true →
      ∃ w', pop_step F w = some w' ∧ Popping s w' ∧ to_go s w' < to_go s w := by
    intro w hw hcond
    simp only [Bool.and_eq_true, isNone_iff_eq_none, Bool.not_eq_true', isEmpty_eq_false_iff] at hcond
    exact pop_step_spec hw hcond.1 hcond.2
  obtain ⟨w, hloop, hw, hend⟩ := whileLoop_total (Popping s) (to_go s) hbody (2 * s.head_heap.length) { s := s }
    (.start h) (rounds_le s _)
  refine ⟨w, hloop, hw, fun hout => ?_⟩
  simpa [hout] using hend

/-! ## The invariant -/

def Resident (metas : Table ObjId (BlockMeta D)) (c : Nat) (x : ObjId) : Prop :=
  ∃ m, metas.lookup x = some m ∧ m.resident = true ∧ m.category = c

variable {metas : Table ObjId (BlockMeta D)}

omit [LinearOrder D] in
theorem resident_of_lookup (hm : metas.lookup x = some m) (c : Nat) :
    Resident metas c x ↔ m.resident = true ∧ m.category = c := by
  simp [Resident, hm]

omit [LinearOrder D] in
theorem Resident.inj {d : Nat} (hc : Resident metas c x) (hd : Resident metas d x) : c = d := by
  obtain ⟨m, hm, -, rfl⟩ := hc
  obtain ⟨m', hm', -, rfl⟩ := hd
  rw [some.inj (hm.symm.trans hm')]

/-- The table, the blocks and the classes agree; every class has at most one entry on the heap. -/
structure Inv (s : State D) : Prop where
  fifo : s.cache.Inv
  listed : ∀ x, x ∈ s.cache.q ↔ ∃ c, Resident s.metas c x
  lru_nodup : ∀ c, (lru s c).Nodup
  lru_mem : ∀ c x, x ∈ lru s c ↔ Resident s.metas c x
  order_nodup : s.category_order.Nodup
  order_mem : ∀ c, c ∈ s.category_order ↔ c ∈ s.queues
  heap : (classes s.head_heap).Nodup

omit [LinearOrder D] in
theorem Inv.resident_of_head (h : Inv s) (hx : category_head s c = some x) : Resident s.metas c x := by
  rw [category_head_eq] at hx
  exact (h.lru_mem c x).1 (mem_of_head? hx)

omit [LinearOrder D] in
theorem Inv.head_inj (h : Inv s) {d : Nat} (hc : category_head s c = some x) (hd : category_head s d = some x) : c = d :=
  (h.resident_of_head hc).inj (h.resident_of_head hd)

omit [LinearOrder D] in
theorem Inv.exists_head (h : Inv s) (hx : x ∈ s.cache.q) : ∃ c ∈ s.category_order, live s c = true := by
  obtain ⟨c, hc⟩ := (h.listed x).1 hx
  have hmem : x ∈ lru s c := (h.lru_mem c x).2 hc
  refine ⟨c, ?_, ?_⟩
  · rw [h.order_mem]
    by_contra hnot
    simp [lru, lookup_eq_none.2 hnot] at hmem
  · simp [live, category_head_eq, ne_nil_of_mem hmem]

/-! ## The victim -/

def due (s : State D) : List Nat := (if s.heap_clock ≠ s.now then s.category_order else classes s.head_heap).filter (live s)

omit [LinearOrder D] in
theorem rebuild_fold (s : State D) (l : List Nat) (h : List (HeadEntry D)) (n : Nat) :
    ∃ h' n', l.foldl (fun s category =>
      match category_head s category with
      | none => s
      | some head => push_head F s category head) { s with head_heap := h, seq := n } = { s with head_heap := h', seq := n' } ∧
      classes h' = (l.filter (live s)).reverse ++ classes h := by
  induction l generalizing h n with
  | nil => exact ⟨h, n, rfl, rfl⟩
  | cons c l ih =>
    have hhead : category_head { s with head_heap := h, seq := n } c = category_head s c := rfl
    rw [foldl_cons, hhead]
    rcases hx : category_head s c with _ | x
    · obtain ⟨h', n', hfold, hclasses⟩ := ih h n
      have hdead : live s c = false := by simp [live, hx]
      exact ⟨h', n', hfold, by rw [hclasses, filter_cons_of_neg (by simp [hdead])]⟩
    · obtain ⟨h', n', hfold, hclasses⟩ := ih (head_entry F { s with head_heap := h, seq := n } n c x :: h) (n + 1)
      have hlive : live s c = true := by simp [live, hx]
      refine ⟨h', n', hfold, ?_⟩
      rw [hclasses, filter_cons_of_pos hlive]
      simp [classes, head_entry]

omit [LinearOrder D] in
theorem rebuild_heap_spec (s : State D) :
    ∃ h n, rebuild_heap F s = { s with head_heap := h, seq := n, heap_clock := s.now } ∧
      classes h = (s.category_order.filter (live s)).reverse := by
  obtain ⟨h, n, hfold, hclasses⟩ := rebuild_fold s s.category_order [] s.seq
  exact ⟨h, n, congrArg (fun t : State D => { t with heap_clock := t.now }) hfold, by simpa [classes] using hclasses⟩

theorem ready_spec (horder : s.category_order.Nodup) (hheap : (classes s.head_heap).Nodup) :
    ∃ h n, (if s.heap_clock ≠ s.now then rebuild_heap F s else s) = { s with head_heap := h, seq := n, heap_clock := s.now } ∧
      (classes h).Nodup ∧ ∀ c, (c ∈ classes h ∧ live s c = true) ↔ c ∈ due s := by
  unfold due
  split_ifs with hclock
  · obtain ⟨h, n, heq, hclasses⟩ := rebuild_heap_spec s
    refine ⟨h, n, heq, ?_, ?_⟩
    · rw [hclasses, nodup_reverse]
      exact horder.filter _
    · intro c
      rw [hclasses, mem_reverse, mem_filter]
      tauto
  · refine ⟨s.head_heap, s.seq, ?_, hheap, ?_⟩
    · have hsame : s.heap_clock = s.now := not_not.1 hclock
      cases s
      dsimp only at hsame ⊢
      rw [hsame]
    · intro c
      rw [mem_filter]

/-- The victim is of a class that is due, which then is due no more. If none is, it is the front of
the first class that has one. -/
theorem choose_victim_spec (h : Inv s) (hx : x ∈ s.cache.q) :
    ∃ t v heap n, choose_victim F s = some (t, some v) ∧ t = { s with head_heap := heap, seq := n, heap_clock := s.now } ∧
      Inv t ∧ v ∈ s.cache.q ∧ (∀ c, Resident s.metas c v → c ∉ classes heap) ∧
      ((due s = [] ∧ due t = [] ∧ first_head s = some v) ∨
        ∃ c ∈ due s, category_head s c = some v ∧ ∀ d, d ∈ due t ↔ d ∈ due s ∧ d ≠ c) := by
  obtain ⟨heap0, n0, hready, hnodup0, hdue0⟩ := ready_spec (F := F) h.order_nodup h.heap
  set r : State D := { s with head_heap := heap0, seq := n0, heap_clock := s.now }
  obtain ⟨w, hloop, hw, hend⟩ := pop_heads_spec (F := F) (s := r) hnodup0
  obtain ⟨u, out⟩ := w
  obtain ⟨heap, n, rfl⟩ : ∃ heap n, u = { r with head_heap := heap, seq := n } := ⟨_, _, hw.fields⟩
  have hold : ∀ c ∈ classes heap, c ∈ classes heap0 := hw.old
  set t : State D := { r with head_heap := heap, seq := n }
  have hinv : Inv t := { h with heap := hw.nodup }
  have hdue : ∀ c, c ∈ due t ↔ c ∈ classes heap ∧ live s c = true := by
    intro c
    unfold due
    rw [if_neg (not_not.2 rfl), mem_filter]
    rfl
  have hchoose : choose_victim F s = some (t, out.or (first_head t)) := by
    unfold choose_victim
    simp only [hready]
    rw [hloop]
    rfl
  rcases out with _ | v
  · -- every entry was of a class without residents
    obtain rfl : heap = [] := hend rfl
    have hnone : due s = [] := by
      apply eq_nil_iff_forall_not_mem.2
      intro c hc
      obtain ⟨hmem, hlive⟩ := (hdue0 c).2 hc
      have hsome : category_head s c ≠ none := by simpa [live, isSome_iff_ne_none] using hlive
      rcases hw.kept c hmem hsome with hin | hin
      · exact absurd hin not_mem_nil
      · exact hsome hin
    obtain ⟨c, hc, hlive⟩ := h.exists_head hx
    have hfirst : first_head s ≠ none := by
      unfold first_head
      rw [Ne, findSome?_eq_none_iff]
      intro hall
      simp [live, hall c hc] at hlive
    obtain ⟨v, hv⟩ := ne_none_iff_exists'.1 hfirst
    have hsame : first_head t = some v := hv
    rw [none_or, hsame] at hchoose
    refine ⟨t, v, [], n, hchoose, rfl, hinv, ?_, by simp [classes], .inl ⟨hnone, ?_, hv⟩⟩
    · obtain ⟨c, -, hcv⟩ := exists_of_findSome?_eq_some hv
      exact (h.listed v).2 ⟨c, h.resident_of_head hcv⟩
    · apply eq_nil_iff_forall_not_mem.2
      intro c hc
      exact absurd ((hdue c).1 hc).1 (by simp [classes])
  · obtain ⟨c, hc, hcv, hgone⟩ := hw.taken v rfl
    have hcv' : category_head s c = some v := hcv
    have hlive : live s c = true := by simp [live, hcv']
    refine ⟨t, v, heap, n, hchoose, rfl, hinv, (h.listed v).2 ⟨c, h.resident_of_head hcv'⟩, ?_,
      .inr ⟨c, (hdue0 c).1 ⟨hc, hlive⟩, hcv', ?_⟩⟩
    · intro d hd
      rw [hd.inj (h.resident_of_head hcv')]
      exact hgone
    · intro d
      rw [hdue, ← hdue0]
      constructor
      · rintro ⟨hd, hlived⟩
        refine ⟨⟨hold d hd, hlived⟩, ?_⟩
        rintro rfl
        exact hgone hd
      · rintro ⟨⟨hd, hlived⟩, hne⟩
        have hsome : category_head s d ≠ none := by simpa [live, isSome_iff_ne_none] using hlived
        rcases hw.kept d hd hsome with hin | hin
        · exact ⟨hin, hlived⟩
        · exact absurd (h.head_inj hin hcv') hne

/-! ## The calls keep the invariant -/

omit [LinearOrder D] in
theorem lru_set_queue (s : State D) (c d : Nat) (q : CategoryQueue D) :
    lru (set_queue s c q) d = if d = c then q.lru else lru s d := by
  unfold lru set_queue
  rcases eq_or_ne d c with rfl | hne
  · rw [lookup_insert, if_pos rfl]
    rfl
  · rw [lookup_insert_ne hne, if_neg hne]

omit [LinearOrder D] in
theorem lru_queue (s : State D) (c : Nat) : (queue F s c).lru = lru s c := by
  unfold queue lru
  cases s.queues.lookup c <;> rfl

omit [LinearOrder D] in
theorem Inv.order_set_queue (h : Inv s) (c : Nat) (q : CategoryQueue D) :
    (set_queue s c q).category_order.Nodup ∧ ∀ d, d ∈ (set_queue s c q).category_order ↔ d ∈ (set_queue s c q).queues := by
  unfold set_queue
  split_ifs with hc
  · refine ⟨h.order_nodup, fun d => ?_⟩
    rw [mem_insert, h.order_mem]
    constructor
    · exact .inr
    · rintro (rfl | hd)
      · exact hc
      · exact hd
  · have hnot : c ∉ s.category_order := by rwa [h.order_mem]
    refine ⟨nodup_append.2 ⟨h.order_nodup, nodup_singleton c, ?_⟩, fun d => ?_⟩
    · intro a ha b hb
      rw [mem_singleton.1 hb]
      rintro rfl
      exact hnot ha
    · rw [mem_insert, mem_append, mem_singleton, h.order_mem]
      exact or_comm

variable {q : CategoryQueue D}

omit [LinearOrder D] in
theorem Inv.set_queue (h : Inv s) (hperm : q.lru.Perm (lru s c)) : Inv (set_queue s c q) where
  __ := h
  lru_nodup := by
    intro d
    rw [lru_set_queue]
    split_ifs with hd
    · exact hperm.nodup_iff.2 (h.lru_nodup c)
    · exact h.lru_nodup d
  lru_mem := by
    intro d x
    rw [lru_set_queue]
    split_ifs with hd
    · rw [hperm.mem_iff, hd]
      exact h.lru_mem c x
    · exact h.lru_mem d x
  order_nodup := (h.order_set_queue c q).1
  order_mem := (h.order_set_queue c q).2

omit [LinearOrder D] in
theorem Inv.write_meta (h : Inv s) {m' : BlockMeta D}
    (hsame : ∀ c, (m'.resident = true ∧ m'.category = c) ↔ Resident s.metas c x) : Inv { s with metas := s.metas.insert x m' } := by
  have hall : ∀ c y, Resident (s.metas.insert x m') c y ↔ Resident s.metas c y := by
    intro c y
    rcases eq_or_ne y x with rfl | hne
    · rw [← hsame]
      simp [Resident]
    · simp [Resident, lookup_insert_ne hne]
  refine { h with listed := fun y => ?_, lru_mem := fun c y => (h.lru_mem c y).trans (hall c y).symm }
  rw [h.listed y]
  exact exists_congr fun c => (hall c y).symm

omit [LinearOrder D] in
theorem to_mru_perm (h : x ∈ q.lru) : (to_mru q x).lru.Perm q.lru :=
  perm_append_comm.trans (perm_cons_erase h).symm

omit [LinearOrder D] in
theorem Inv.touch (h : Inv s) (hm : s.metas.lookup x = some m) :
    Inv (let (s, q) := learn_gap F s m
      let s := WorkloadAware.set_queue s m.category (if m.resident then to_mru q x else q)
      { s with metas := s.metas.insert x { m with last_access := s.now } }) := by
  obtain ⟨life, gap, hlearn⟩ : ∃ life gap, learn_gap F s m = ({ s with life := life },
    { lru := lru s m.category, mean_gap := gap }) := by
    rw [← lru_queue]
    unfold learn_gap
    dsimp only
    split_ifs
    · exact ⟨_, _, rfl⟩
    · exact ⟨_, _, rfl⟩
  rw [hlearn]
  have hlife : Inv { s with life := life } :=
    { h with }
  refine Inv.write_meta (Inv.set_queue hlife ?_) fun c => (resident_of_lookup hm c).symm
  split_ifs with hr
  · exact to_mru_perm ((h.lru_mem m.category x).2 ⟨m, hm, hr, rfl⟩)
  · exact List.Perm.refl _

omit [LinearOrder D] in
theorem lru_make_resident (s : State D) (x : ObjId) (m : BlockMeta D) (c : Nat) :
    lru (make_resident F s x m) c = if c = m.category then lru s m.category ++ [x] else lru s c := by
  rw [← lru_queue s m.category]
  exact lru_set_queue s m.category c _

variable {req : Request}

omit [LinearOrder D] in
theorem Inv.admitted (h : Inv s) (hx : req.obj_id ∉ s.cache.q) (m : BlockMeta D) :
    Inv (make_resident F { s with cache := s.cache.FIFO_insert req () } req.obj_id m) := by
  have hnot : ∀ c, ¬ Resident s.metas c req.obj_id := fun c hc => hx ((h.listed _).2 ⟨c, hc⟩)
  have hres : ∀ c y, Resident (s.metas.insert req.obj_id { m with resident := true }) c y ↔
      (y = req.obj_id ∧ m.category = c) ∨ Resident s.metas c y := by
    intro c y
    rcases eq_or_ne y req.obj_id with rfl | hne
    · rw [resident_of_lookup (lookup_insert _)]
      simp [hnot c]
    · simp [Resident, hne]
  let q : CategoryQueue D := { queue F s m.category with lru := (queue F s m.category).lru ++ [req.obj_id] }
  have hlru : ∀ c, lru (make_resident F { s with cache := s.cache.FIFO_insert req () } req.obj_id m) c =
      if c = m.category then lru s m.category ++ [req.obj_id] else lru s c := lru_make_resident _ _ _
  have hout : req.obj_id ∉ lru s m.category := fun hin => hnot _ ((h.lru_mem _ _).1 hin)
  refine ⟨h.fifo.insert () hx, ?_, ?_, ?_, (h.order_set_queue m.category q).1, (h.order_set_queue m.category q).2, h.heap⟩
  · intro y
    refine (mem_insert _).trans ?_
    rw [h.listed y]
    refine Iff.trans ?_ (exists_congr fun c => hres c y).symm
    rw [exists_or]
    simp
  · intro c
    rw [hlru]
    split_ifs
    · apply List.Nodup.append (h.lru_nodup _) (nodup_singleton _)
      simpa using hout
    · exact h.lru_nodup c
  · intro c y
    rw [hlru]
    refine Iff.trans ?_ (hres c y).symm
    split_ifs with hc
    · rw [mem_append, mem_singleton, h.lru_mem, hc]
      simp [or_comm]
    · rw [h.lru_mem]
      simp [Ne.symm hc]

omit [LinearOrder D] in
theorem Inv.insert (h : Inv s) (hx : req.obj_id ∉ s.cache.q) : Inv (WorkloadAware_insert F s req) := by
  unfold WorkloadAware_insert
  dsimp only
  rcases hm : s.metas.lookup req.obj_id with _ | m
  · exact h.admitted hx _
  · dsimp only
    split_ifs with hr
    · exact absurd ((h.listed _).2 ⟨_, m, hm, hr, rfl⟩) hx
    · exact h.admitted hx m

omit [LinearOrder D] in
theorem Inv.drop (h : Inv s) {o : FifoObj Unit} (ho : s.cache.q.lookup x = some o) :
    Inv { forget s x with cache := s.cache.cache_remove_obj_base x o } := by
  obtain ⟨c, m, hm, hr, rfl⟩ := (h.listed x).1 (mem_of_lookup ho)
  have hin : x ∈ lru s m.category := (h.lru_mem _ _).2 ⟨m, hm, hr, rfl⟩
  obtain ⟨q, hq⟩ : ∃ q, s.queues.lookup m.category = some q := by
    unfold lru at hin
    cases hq : s.queues.lookup m.category with
    | none => simp [hq] at hin
    | some q => exact ⟨q, rfl⟩
  let t : State D := { s with
    cache := s.cache.cache_remove_obj_base x o
    metas := s.metas.erase x
    queues := s.queues.insert m.category { q with lru := q.lru.erase x } }
  have hforget : { forget s x with cache := s.cache.cache_remove_obj_base x o } = t := by simp [forget, hm, hq, hr, t]
  have hlru : ∀ c, lru t c = (lru s c).erase x := by
    intro c
    unfold lru
    rcases eq_or_ne c m.category with rfl | hne
    · rw [lookup_insert, hq]
      rfl
    · have hnot : x ∉ lru s c := by
        rw [h.lru_mem, resident_of_lookup hm]
        exact fun hc => hne hc.2.symm
      rw [lookup_insert_ne hne]
      exact (erase_of_not_mem hnot).symm
  have hres : ∀ c y, Resident (s.metas.erase x) c y ↔ y ≠ x ∧ Resident s.metas c y := by
    intro c y
    rcases eq_or_ne y x with rfl | hne
    · simp [Resident]
    · simp [Resident, hne]
  rw [hforget]
  refine ⟨h.fifo.remove ho, ?_, ?_, ?_, h.order_nodup, ?_, h.heap⟩
  · intro y
    refine mem_erase.trans ?_
    rw [h.listed y]
    refine Iff.trans ?_ (exists_congr fun c => hres c y).symm
    rw [exists_and_left]
  · intro c
    rw [hlru]
    exact (h.lru_nodup c).erase x
  · intro c y
    rw [hlru, (h.lru_nodup c).mem_erase_iff, h.lru_mem]
    exact (hres c y).symm
  · intro c
    rw [h.order_mem]
    refine Iff.trans ?_ (mem_insert _).symm
    constructor
    · exact .inr
    · rintro (rfl | hc)
      · exact mem_of_lookup hq
      · exact hc

omit [LinearOrder D] in
theorem Inv.find (h : Inv s) (req : Request) : Inv (WorkloadAware_find F s req).1 ∧
    (WorkloadAware_find F s req).1.cache = s.cache ∧ ((WorkloadAware_find F s req).2 = true ↔ req.obj_id ∈ s.cache.q) := by
  have hhit : (WorkloadAware_find F s req).2 = (s.cache.q.lookup req.obj_id).isSome := by
    unfold WorkloadAware_find
    split_ifs <;> rfl
  rw [hhit, lookup_isSome]
  unfold WorkloadAware_find
  dsimp only
  split_ifs with hooked hit
  · exact ⟨h, rfl, Iff.rfl⟩
  · rcases hm : s.metas.lookup req.obj_id with _ | m
    · exact ⟨{ h with }, rfl, Iff.rfl⟩
    · have ht := h.touch (F := F) hm
      refine ⟨{ ht with }, ?_, Iff.rfl⟩
      dsimp only [learn_gap]
      split_ifs <;> rfl
  · exact ⟨{ h with }, rfl, Iff.rfl⟩

omit [LinearOrder D] in
theorem forget_cache (s : State D) (x : ObjId) : (forget s x).cache = s.cache ∧ (forget s x).head_heap = s.head_heap := by
  unfold forget
  split
  · exact ⟨rfl, rfl⟩
  · dsimp only
    split
    · exact ⟨rfl, rfl⟩
    · split_ifs <;> exact ⟨rfl, rfl⟩

omit [LinearOrder D] in
theorem Inv.remove (h : Inv s) (x : ObjId) : Inv (WorkloadAware_remove s x).1 := by
  unfold WorkloadAware_remove
  split
  · exact h
  · rename_i o ho
    dsimp only
    rw [(forget_cache s x).1]
    exact h.drop ho

omit [LinearOrder D] in
theorem Inv.record_block (h : Inv s) (e : ObjId × Nat) : Inv (record_block F s e) := by
  obtain ⟨x, i⟩ := e
  unfold WorkloadAware.record_block
  dsimp only
  rcases hm : s.metas.lookup x with _ | m
  · apply h.write_meta
    simp [Resident, hm]
  · dsimp only
    by_cases hgap : F.positive (F.sub s.now m.last_access) = true
    · rw [if_pos hgap]
      exact h.touch hm
    · rw [if_neg hgap]
      exact h.write_meta fun c => (resident_of_lookup hm c).symm

omit [LinearOrder D] in
theorem Inv.record_request (h : Inv s) (ids : List ObjId) : Inv (WorkloadAware_record_request F s ids) := by
  have hfold : ∀ (l : List (ObjId × Nat)) (s : State D), Inv s → Inv (l.foldl (WorkloadAware.record_block F) s) := by
    intro l
    induction l with
    | nil => exact fun _ hs => hs
    | cons e l ih => exact fun s hs => ih _ (hs.record_block e)
  have hend := hfold ids.zipIdx { s with hooked := true }
    { h with }
  exact { hend with }

omit [LinearOrder D] in
theorem Inv.repush (h : Inv s) (hc : c ∉ classes s.head_heap) :
    Inv (repush_after_eviction F s c) ∧ (repush_after_eviction F s c).cache = s.cache := by
  unfold repush_after_eviction
  split
  · exact ⟨h, rfl⟩
  · have hnodup : (c :: classes s.head_heap).Nodup := nodup_cons.2 ⟨hc, h.heap⟩
    exact ⟨{ h with heap := hnodup }, rfl⟩

omit [LinearOrder D] in
theorem forget_heap (s : State D) (x : ObjId) (h : List (HeadEntry D)) (n : Nat) (d : D) :
    forget { s with head_heap := h, seq := n, heap_clock := d } x =
      { forget s x with head_heap := h, seq := n, heap_clock := d } := by
  unfold forget
  rcases hm : s.metas.lookup x with _ | m
  · rfl
  · rcases hq : s.queues.lookup m.category with _ | q
    · simp only [hq]
    · simp only [hq]
      split_ifs <;> rfl

theorem WorkloadAware_evict_of_choose {v : ObjId} (hchoose : choose_victim F s = some (t, some v)) (ht : Inv t) (hv : v ∈ t.cache.q)
    (hgone : ∀ c, Resident t.metas c v → c ∉ classes t.head_heap) :
    ∃ o heap n, t.cache.q.lookup v = some o ∧ WorkloadAware_evict F s =
      some { forget t v with cache := t.cache.cache_remove_obj_base v o, head_heap := heap, seq := n } ∧
      Inv { forget t v with cache := t.cache.cache_remove_obj_base v o, head_heap := heap, seq := n } := by
  obtain ⟨o, ho⟩ := exists_lookup hv
  obtain ⟨c, m, hm, hr, rfl⟩ := (ht.listed v).1 hv
  set u : State D := { forget t v with cache := t.cache.cache_remove_obj_base v o }
  obtain ⟨heap, n, hrepush⟩ : ∃ heap n, repush_after_eviction F u m.category = { u with head_heap := heap, seq := n } := by
    unfold repush_after_eviction
    split
    · exact ⟨u.head_heap, u.seq, rfl⟩
    · exact ⟨_, _, rfl⟩
  have hinv : Inv (repush_after_eviction F u m.category) := ((ht.drop ho).repush (by
    rw [(forget_cache t v).2]
    exact hgone _ ⟨m, hm, hr, rfl⟩)).1
  refine ⟨o, heap, n, ho, ?_, hrepush ▸ hinv⟩
  unfold WorkloadAware_evict
  simp only [hchoose, bind, bind_some, ho, hm, (forget_cache t v).1]
  exact congrArg some hrepush

theorem Inv.evict_eq (h : Inv s) (hx : x ∈ s.cache.q) :
    ∃ v o c heap n, s.cache.q.lookup v = some o ∧ category_head s c = some v ∧ WorkloadAware_evict F s =
      some { forget s v with cache := s.cache.cache_remove_obj_base v o, head_heap := heap, seq := n, heap_clock := s.now } ∧
      Inv { forget s v with cache := s.cache.cache_remove_obj_base v o, head_heap := heap, seq := n, heap_clock := s.now } := by
  obtain ⟨t, v, heap, n, hchoose, rfl, hinv, hv, hgone, hcase⟩ := choose_victim_spec h hx
  obtain ⟨c, hc⟩ : ∃ c, category_head s c = some v := by
    rcases hcase with ⟨-, -, hfirst⟩ | ⟨c, -, hc, -⟩
    · obtain ⟨c, -, hc⟩ := exists_of_findSome?_eq_some hfirst
      exact ⟨c, hc⟩
    · exact ⟨c, hc⟩
  obtain ⟨o, heap', n', ho, hevict, hu⟩ := WorkloadAware_evict_of_choose hchoose hinv hv hgone
  rw [forget_heap] at hevict hu
  exact ⟨v, o, c, heap', n', ho, hc, hevict, hu⟩

theorem Inv.evict (h : Inv s) (hx : x ∈ s.cache.q) :
    ∃ u v o, WorkloadAware_evict F s = some u ∧ Inv u ∧ u.cache = s.cache.cache_remove_obj_base v o ∧ v ∈ s.cache.q := by
  obtain ⟨v, o, c, heap, n, ho, -, hevict, hu⟩ := h.evict_eq hx
  exact ⟨_, v, o, hevict, hu, rfl, mem_of_lookup ho⟩

theorem Inv.count_req (h : Inv s) : Inv ((ops F).count_req s) :=
  { h with fifo := ⟨h.fifo.1, h.fifo.2⟩ }

omit [LinearOrder D] in
theorem Inv.set_request_ctx (h : Inv s) (category : Nat) (timestamp : D) :
    Inv (WorkloadAware_set_request_ctx F s category timestamp) :=
  { h with }

theorem Inv.get (h : Inv s) (req : Request) : ∃ t hit, WorkloadAware_get F s req = some (t, hit) ∧ Inv t := by
  refine Fifo.cache_get_base_of_queue (ops F) State.cache Inv Inv Inv (fun _ => ⟨rfl, rfl, rfl⟩) (fun _ => rfl) ?_
    (fun _ hu => ⟨hu.fifo, hu⟩) ?_ (fun _ hu hmiss => ⟨_, rfl, hu.insert hmiss⟩) h
  · intro s h
    obtain ⟨hinv, hcache, hhit⟩ := h.count_req.find req
    rcases hfind : WorkloadAware_find F ((ops F).count_req s) req with ⟨u, hit⟩
    rw [hfind] at hinv hcache hhit
    refine ⟨u, hit, congrArg some hfind, ?_⟩
    cases hit with
    | true => exact hinv
    | false => exact ⟨hinv, fun hin => Bool.false_ne_true (hhit.2 (hcache ▸ hin))⟩
  · intro u hu hne
    obtain ⟨e, he⟩ := exists_mem_of_ne_nil _ hne
    obtain ⟨w, v, o, hevict, hw, hcache, hv⟩ := hu.evict (mem_of_lookup (lookup_of_mem_entries he))
    exact ⟨w, hevict, hw, hcache ▸ Fifo.less_of_remove hv o⟩

omit [LinearOrder D] in
theorem init_inv (cache_size : Int) : Inv (WorkloadAware_init F cache_size) := by
  refine ⟨Fifo.init_inv cache_size 0, ?_, ?_, ?_, nodup_nil, ?_, nodup_nil⟩
  · simp [WorkloadAware_init, Resident]
  · simp [WorkloadAware_init, lru]
  · simp [WorkloadAware_init, lru, Resident]
  · simp [WorkloadAware_init]

theorem Inv.choose (h : Inv s) {v : Option ObjId} (hchoose : choose_victim F s = some (t, v)) :
    Inv t ∧ ((∀ x, x ∉ s.cache.q) → v = none) := by
  obtain ⟨heap0, n0, hready, hnodup0, -⟩ := ready_spec (F := F) h.order_nodup h.heap
  set r : State D := { s with head_heap := heap0, seq := n0, heap_clock := s.now }
  obtain ⟨w, hloop, hw, -⟩ := pop_heads_spec (F := F) (s := r) hnodup0
  unfold choose_victim at hchoose
  simp only [hready, hloop] at hchoose
  obtain ⟨rfl, rfl⟩ := hchoose
  have hfields := hw.fields
  have hnodup := hw.nodup
  rw [hfields]
  refine ⟨{ h with heap := hnodup }, fun hempty => ?_⟩
  have hnone : ∀ c, category_head s c = none := by
    intro c
    rw [eq_none_iff_forall_ne_some]
    exact fun x hx => hempty x ((h.listed x).2 ⟨c, h.resident_of_head hx⟩)
  have hout : w.out = none := by
    rw [eq_none_iff_forall_ne_some]
    intro x hx
    obtain ⟨c, -, hc, -⟩ := hw.taken x hx
    exact absurd hc (by simp [hnone c, show category_head r c = category_head s c from rfl])
  rw [hout, none_or]
  exact findSome?_eq_none_iff.2 fun c _ => hnone c

theorem Inv.call (h : Inv s) {c : Call D} (ht : WorkloadAware.call F s c = some t) : Inv t := by
  cases c with
  | get req =>
    obtain ⟨u, hit, hu, hinv⟩ := h.get (F := F) req
    simp only [WorkloadAware.call, hu, map_some, some.injEq] at ht
    exact ht ▸ hinv
  | to_evict =>
    simp only [WorkloadAware.call, WorkloadAware_to_evict, bind, map_eq_some_iff, bind_eq_some_iff] at ht
    obtain ⟨_, ⟨⟨u, v⟩, hu, hpure⟩, rfl⟩ := ht
    cases hpure
    exact (h.choose hu).1
  | evict =>
    by_cases hx : ∃ x, x ∈ s.cache.q
    · obtain ⟨x, hx⟩ := hx
      obtain ⟨u, v, o, hu, hinv, -⟩ := h.evict (F := F) hx
      cases hu.symm.trans ht
      exact hinv
    · -- an empty cache: `ERROR`
      simp only [WorkloadAware.call, WorkloadAware_evict, bind, bind_eq_some_iff] at ht
      obtain ⟨⟨u, v⟩, hu, v', hv', -⟩ := ht
      have hnone := (h.choose hu).2 (not_exists.1 hx)
      rw [hnone] at hv'
      cases hv'
  | remove x =>
    cases ht
    exact h.remove x
  | set_request_ctx category timestamp =>
    cases ht
    exact h.set_request_ctx category timestamp
  | record_request ids =>
    cases ht
    exact h.record_request ids

theorem inv_of_reach {cache_size : Int} (h : Reach (WorkloadAware.call F) (fun _ _ => True) (WorkloadAware_init F cache_size) s) :
    Inv s :=
  h.inv Inv (fun _ _ _ hs _ ht => hs.call ht) (init_inv cache_size)

def SoleClass (s : State D) : Prop := ∀ c ∈ due s, category_head s c = first_head s

/-- The eviction comes to the heap without the entry of the candidate. If another class is due it
takes that one's head, and else the front of the first class. -/
theorem WorkloadAware_honoured_iff (h : Inv s) (hx : x ∈ s.cache.q) :
    Honoured (WorkloadAware_to_evict F) (WorkloadAware_evict F) (fun s x => x ∈ s.cache.q) s ↔ SoleClass s := by
  obtain ⟨t, v, heap, n, hchoose, ht, hinv, hv, -, hcase⟩ := choose_victim_spec (F := F) h hx
  have hcache : t.cache = s.cache := by rw [ht]
  have hhead : ∀ c, category_head t c = category_head s c := by
    intro c
    rw [ht]
    rfl
  have hfirst : first_head t = first_head s := by
    rw [ht]
    rfl
  obtain ⟨u, v', heap', n', hchoose', hu, hinv', hv', hgone', hcase'⟩ := choose_victim_spec (F := F) (x := x) hinv (hcache ▸ hx)
  have hto : WorkloadAware_to_evict F s = some (t, some v) := by
    obtain ⟨o, ho⟩ := exists_lookup hv
    simp [WorkloadAware_to_evict, hchoose, hcache, ho]
  obtain ⟨o, heap2, n2, -, hevict, -⟩ := WorkloadAware_evict_of_choose hchoose' hinv' (by rw [hu]; exact hv')
    (by rw [hu]; exact hgone')
  have hleft : ∀ y, y ∈ u.cache.q.erase v' ↔ y ≠ v' ∧ y ∈ s.cache.q := by
    intro y
    rw [hu, ← hcache]
    exact mem_erase
  rw [Honoured.iff_victim hto hevict (hcache ▸ hv') hleft, some.injEq]
  constructor
  · rintro rfl c hc
    rcases hcase with ⟨hnil, -⟩ | ⟨c1, hc1, hhead1, hdue⟩
    · simp [hnil] at hc
    · rcases hcase' with ⟨hnil, -, hfirst'⟩ | ⟨c2, hc2, hhead2, -⟩
      · have hsame : c = c1 := by
          by_contra hne
          have := (hdue c).2 ⟨hc, hne⟩
          simp [hnil] at this
        rw [hsame, hhead1, ← hfirst', hfirst]
      · rw [hhead] at hhead2
        exact absurd (h.head_inj hhead2 hhead1) ((hdue c2).1 hc2).2
  · intro hsole
    rcases hcase with ⟨-, hnil, hfirst1⟩ | ⟨c1, hc1, hhead1, hdue⟩
    · rcases hcase' with ⟨-, -, hfirst'⟩ | ⟨c2, hc2, -⟩
      · rw [hfirst, hfirst1] at hfirst'
        exact some.inj hfirst'
      · simp [hnil] at hc2
    · have hv1 : first_head s = some v := (hsole c1 hc1).symm.trans hhead1
      rcases hcase' with ⟨-, -, hfirst'⟩ | ⟨c2, hc2, hhead2, -⟩
      · rw [hfirst, hv1] at hfirst'
        exact some.inj hfirst'
      · obtain ⟨hmem, hne⟩ := (hdue c2).1 hc2
        exact absurd (h.head_inj ((hsole c2 hmem).trans hv1) hhead1) hne

end CacheSim.WorkloadAware
