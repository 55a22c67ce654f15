import CacheSim.Prefixsim.Queues
import CacheSim.WorkloadAware.Proofs

/-!
# WorkloadAware under the simulator

Under timestamps that do not decrease, each class's list is sorted by the last access.
-/

namespace CacheSim.WorkloadAware

open Lib Prefixsim List AList

variable {D : Type} [LinearOrder D] {F : Doubles D} {s t : State D} {x : ObjId} {m : BlockMeta D}

def Ordered (R : BlockMeta D → BlockMeta D → Prop) (s : State D) : Prop :=
  ∀ c, (lru s c).Pairwise fun x y => ∀ m n, s.metas.lookup x = some m → s.metas.lookup y = some n → R m n

variable {R : BlockMeta D → BlockMeta D → Prop}

omit [LinearOrder D] in
theorem Ordered.sublist (h : Ordered R s) (hlru : ∀ c, (lru t c).Sublist (lru s c))
    (hmetas : ∀ y n, t.metas.lookup y = some n → s.metas.lookup y = some n) : Ordered R t := fun c =>
  ((h c).sublist (hlru c)).imp fun hR m n hm hn => hR m n (hmetas _ m hm) (hmetas _ n hn)

omit [LinearOrder D] in
theorem Ordered.put (h : Ordered R s) {c : Nat} (hother : ∀ d ≠ c, lru t d = lru s d) (hlru : lru t c = (lru s c).erase x ++ [x])
    (hnodup : ∀ d, (lru s d).Nodup) (honly : ∀ d, x ∈ lru s d → d = c)
    (hmetas : ∀ y ≠ x, t.metas.lookup y = s.metas.lookup y) (hm : t.metas.lookup x = some m)
    (hput : ∀ y ∈ lru s c, y ≠ x → ∀ n, s.metas.lookup y = some n → R n m) : Ordered R t := by
  intro d
  rcases eq_or_ne d c with rfl | hne
  · rw [hlru]
    have hleft : ∀ y ∈ (lru s d).erase x, y ≠ x ∧ y ∈ lru s d := fun y hy => (hnodup d).mem_erase_iff.1 hy
    refine pairwise_append.2 ⟨?_, pairwise_singleton _ _, ?_⟩
    · refine ((h d).sublist erase_sublist).imp_of_mem fun hy hz hR m n hm hn => ?_
      rw [hmetas _ (hleft _ hy).1] at hm
      rw [hmetas _ (hleft _ hz).1] at hn
      exact hR m n hm hn
    · intro y hy z hz n k hn hk
      cases mem_singleton.1 hz
      rw [hm] at hk
      cases hk
      rw [hmetas y (hleft y hy).1] at hn
      exact hput y (hleft y hy).2 (hleft y hy).1 n hn
  · rw [hother d hne]
    have hout : ∀ y ∈ lru s d, y ≠ x := by
      rintro y hy rfl
      exact hne (honly d hy)
    refine (h d).imp_of_mem fun hy hz hR m n hm hn => ?_
    rw [hmetas _ (hout _ hy)] at hm
    rw [hmetas _ (hout _ hz)] at hn
    exact hR m n hm hn

omit [LinearOrder D] in
theorem lookup_forget (s : State D) (x y : ObjId) :
    (forget s x).metas.lookup y = if y = x then none else s.metas.lookup y := by
  have hmetas : (forget s x).metas = s.metas.erase x ∨ (s.metas.lookup x = none ∧ (forget s x).metas = s.metas) := by
    unfold forget
    rcases hm : s.metas.lookup x with _ | m
    · exact .inr ⟨rfl, rfl⟩
    · left
      dsimp only
      split
      · rfl
      · split_ifs <;> rfl
  rcases hmetas with h | ⟨hnone, h⟩
  · rw [h]
    split_ifs with hyx
    · rw [hyx]
      exact lookup_erase x s.metas
    · exact lookup_erase_ne hyx
  · rw [h]
    split_ifs with hyx
    · rw [hyx, hnone]
    · rfl

omit [LinearOrder D] in
theorem lru_forget (s : State D) (x : ObjId) (c : Nat) : (lru (forget s x) c).Sublist (lru s c) := by
  unfold forget
  rcases hm : s.metas.lookup x with _ | m
  · exact List.Sublist.refl _
  · dsimp only
    rcases hq : s.queues.lookup m.category with _ | q
    · exact List.Sublist.refl _
    · split_ifs
      · unfold lru
        rcases eq_or_ne c m.category with rfl | hne
        · rw [lookup_insert, hq]
          exact erase_sublist
        · rw [lookup_insert_ne hne]
      · exact List.Sublist.refl _

omit [LinearOrder D] in
theorem Ordered.forget (h : Ordered R s) (x : ObjId) : Ordered R (forget s x) := by
  refine h.sublist (lru_forget s x) fun y n hn => ?_
  rw [lookup_forget] at hn
  split_ifs at hn
  exact hn

/-! ## What a request makes known -/

def seen (s : State D) (x : ObjId) (i : Nat) : BlockMeta D :=
  match s.metas.lookup x with
  | some m => { m with last_access := s.now }
  | none => { category := s.cur_category, last_access := s.now, offset := i }

def Reaccessed (s : State D) (x : ObjId) (m : BlockMeta D) : Prop :=
  s.metas.lookup x = some m ∧ m.resident = true ∧ m.last_access < s.now

/-- Subtraction tells which of two times is the later one. -/
def Doubles.Exact (F : Doubles D) : Prop := ∀ now last_access, F.positive (F.sub now last_access) = true ↔ last_access < now

omit [LinearOrder D] in
theorem learn_gap_eq (s : State D) (m : BlockMeta D) :
    ∃ life gap, learn_gap F s m = ({ s with life := life }, { lru := lru s m.category, mean_gap := gap }) := by
  rw [← lru_queue]
  unfold learn_gap
  dsimp only
  split_ifs
  · exact ⟨_, _, rfl⟩
  · exact ⟨_, _, rfl⟩

structure SameClock (s t : State D) : Prop where
  now : t.now = s.now
  cur_category : t.cur_category = s.cur_category
  hooked : t.hooked = s.hooked
  cache : t.cache = s.cache

omit [LinearOrder D] in
theorem record_block_clock (s : State D) (e : ObjId × Nat) : SameClock s (record_block F s e) := by
  obtain ⟨x, i⟩ := e
  unfold record_block
  dsimp only
  rcases hm : s.metas.lookup x with _ | m
  · exact ⟨rfl, rfl, rfl, rfl⟩
  · dsimp only
    by_cases hgap : F.positive (F.sub s.now m.last_access) = true
    · obtain ⟨life, gap, hlearn⟩ := learn_gap_eq s m
      rw [if_pos hgap, hlearn]
      exact ⟨rfl, rfl, rfl, rfl⟩
    · rw [if_neg hgap]
      exact ⟨rfl, rfl, rfl, rfl⟩

omit [LinearOrder D] in
theorem lookup_record_block (s : State D) (x y : ObjId) (i : Nat) :
    (record_block F s (x, i)).metas.lookup y = if y = x then some (seen s x i) else s.metas.lookup y := by
  have hmetas : (record_block F s (x, i)).metas = s.metas.insert x (seen s x i) := by
    unfold record_block seen
    dsimp only
    rcases hm : s.metas.lookup x with _ | m
    · rfl
    · dsimp only
      by_cases hgap : F.positive (F.sub s.now m.last_access) = true
      · obtain ⟨life, gap, hlearn⟩ := learn_gap_eq s m
        rw [if_pos hgap, hlearn]
        rfl
      · rw [if_neg hgap]
  rw [hmetas]
  split_ifs with hyx
  · rw [hyx]
    exact lookup_insert _
  · exact lookup_insert_ne hyx

theorem lru_record_block_of_not (hF : F.Exact) (hx : ∀ m, ¬ Reaccessed s x m) (i : Nat) (c : Nat) :
    lru (record_block F s (x, i)) c = lru s c := by
  unfold record_block
  dsimp only
  rcases hm : s.metas.lookup x with _ | m
  · rfl
  · dsimp only
    split_ifs with hgap hr
    · exact absurd ⟨hm, hr, (hF _ _).1 hgap⟩ (hx m)
    · obtain ⟨life, gap, hlearn⟩ := learn_gap_eq s m
      rw [hlearn]
      refine (lru_set_queue { s with life := life } m.category c _).trans ?_
      split_ifs with hc
      · rw [hc]
      · rfl
    · rfl

theorem lru_record_block (hF : F.Exact) (hx : Reaccessed s x m) (i : Nat) (c : Nat) :
    lru (record_block F s (x, i)) c = if c = m.category then (lru s c).erase x ++ [x] else lru s c := by
  obtain ⟨hm, hr, hlast⟩ := hx
  have hgap := (hF _ _).2 hlast
  unfold record_block
  simp only [hm, hgap, hr]
  obtain ⟨life, gap, hlearn⟩ := learn_gap_eq s m
  rw [hlearn]
  refine (lru_set_queue { s with life := life } m.category c _).trans ?_
  split_ifs with hc
  · rw [hc]
    rfl
  · rfl

def Past (d : D) (s : State D) : Prop := ∀ x m, s.metas.lookup x = some m → m.last_access ≤ d

theorem Ordered.record_block (h : Ordered R s) (hF : F.Exact) (hs : Inv s) (hpast : Past s.now s) (i : Nat)
    (hput : ∀ m, Reaccessed s x m → ∀ y n, y ∈ lru s m.category → y ≠ x → s.metas.lookup y = some n →
      R n { m with last_access := s.now }) : Ordered R (record_block F s (x, i)) := by
  by_cases hx : ∃ m, Reaccessed s x m
  · obtain ⟨m, hx⟩ := hx
    have hseen : (WorkloadAware.record_block F s (x, i)).metas.lookup x = some { m with last_access := s.now } := by
      rw [lookup_record_block, if_pos rfl]
      unfold seen
      rw [hx.1]
    refine h.put ?_ ?_ hs.lru_nodup ?_ ?_ hseen fun y hy hne n => hput m hx y n hy hne
    · intro d hd
      rw [lru_record_block hF hx, if_neg hd]
    · rw [lru_record_block hF hx, if_pos rfl]
    · intro d hd
      exact ((hs.lru_mem d x).1 hd).inj ⟨m, hx.1, hx.2.1, rfl⟩
    · intro y hne
      rw [lookup_record_block, if_neg hne]
  · rw [not_exists] at hx
    intro c
    rw [lru_record_block_of_not hF hx]
    have hsame : ∀ y ∈ lru s c, (WorkloadAware.record_block F s (x, i)).metas.lookup y = s.metas.lookup y := by
      intro y hy
      rw [lookup_record_block]
      split_ifs with hyx
      · obtain ⟨m, hm, hr, -⟩ := (hs.lru_mem c y).1 hy
        rw [hyx] at hm ⊢
        have hlast : m.last_access = s.now := le_antisymm (hpast x m hm) (not_lt.1 fun hlt => hx m ⟨hm, hr, hlt⟩)
        unfold seen
        rw [hm, ← hlast]
      · rfl
    refine (h c).imp_of_mem fun hy hz hR m n hm hn => ?_
    rw [hsame _ hy] at hm
    rw [hsame _ hz] at hn
    exact hR m n hm hn

omit [LinearOrder D] in
theorem SameClock.trans {u : State D} (h : SameClock s t) (h' : SameClock t u) : SameClock s u :=
  ⟨h'.now.trans h.now, h'.cur_category.trans h.cur_category, h'.hooked.trans h.hooked, h'.cache.trans h.cache⟩

def record_blocks (F : Doubles D) (s : State D) (ids : List ObjId) : State D := ids.zipIdx.foldl (record_block F) s

omit [LinearOrder D] in
theorem record_blocks_snoc (s : State D) (ids : List ObjId) (x : ObjId) :
    record_blocks F s (ids ++ [x]) = record_block F (record_blocks F s ids) (x, ids.length) := by
  unfold record_blocks
  rw [zipIdx_append, foldl_append]
  simp

omit [LinearOrder D] in
theorem record_blocks_clock (s : State D) (ids : List ObjId) : SameClock s (record_blocks F s ids) := by
  induction ids using List.reverseRecOn with
  | nil => exact ⟨rfl, rfl, rfl, rfl⟩
  | append_singleton ids x ih =>
    rw [record_blocks_snoc]
    exact ih.trans (record_block_clock _ _)

omit [LinearOrder D] in
theorem lookup_record_blocks (s : State D) (ids : List ObjId) (y : ObjId) :
    (record_blocks F s ids).metas.lookup y = if y ∈ ids then some (seen s y (ids.idxOf y)) else s.metas.lookup y := by
  induction ids using List.reverseRecOn with
  | nil => simp [record_blocks]
  | append_singleton ids x ih =>
    have hclock := record_blocks_clock (F := F) s ids
    rw [record_blocks_snoc, lookup_record_block]
    rcases eq_or_ne y x with rfl | hne
    · rw [if_pos rfl, if_pos (by simp)]
      rw [seen, ih]
      split_ifs with hin
      · rw [idxOf_append_of_mem hin]
        unfold seen
        rw [hclock.now]
        cases s.metas.lookup y <;> rfl
      · rw [idxOf_append_of_notMem hin, idxOf_cons_self, Nat.add_zero, hclock.now, hclock.cur_category]
        rfl
    · rw [if_neg hne, ih]
      have hmem : y ∈ ids ++ [x] ↔ y ∈ ids := by simp [hne]
      by_cases hin : y ∈ ids
      · rw [if_pos hin, if_pos (hmem.2 hin), idxOf_append_of_mem hin]
      · rw [if_neg hin, if_neg (mt hmem.1 hin)]

omit [LinearOrder D] in
theorem Inv.record_blocks (h : Inv s) (ids : List ObjId) : Inv (record_blocks F s ids) := by
  induction ids using List.reverseRecOn with
  | nil => exact h
  | append_singleton ids x ih =>
    rw [record_blocks_snoc]
    exact ih.record_block _

omit [LinearOrder D] in
theorem seen_last (s : State D) (x : ObjId) (i : Nat) : (seen s x i).last_access = s.now := by
  unfold seen
  cases s.metas.lookup x <;> rfl

theorem Past.record_blocks (h : Past s.now s) (ids : List ObjId) : Past s.now (record_blocks F s ids) := by
  intro y n hn
  rw [lookup_record_blocks] at hn
  split_ifs at hn
  · cases hn
    exact (seen_last s y _).le
  · exact h y n hn

/-- When block `x` is accessed anew after the blocks `before` of its request, what stands in its list is
`R`-before it. -/
def PutsAfter (R : BlockMeta D → BlockMeta D → Prop) (s : State D) (before : List ObjId) (x : ObjId) : Prop :=
  x ∉ before → ∀ m, Reaccessed s x m → ∀ y n, y ≠ x → s.metas.lookup y = some n → n.resident = true → n.category = m.category →
    R (if y ∈ before then { n with last_access := s.now } else n) { m with last_access := s.now }

theorem Ordered.record_blocks (h : Ordered R s) (hF : F.Exact) (hs : Inv s) (hpast : Past s.now s) (ids : List ObjId)
    (hput : ∀ before x after, ids = before ++ x :: after → PutsAfter R s before x) : Ordered R (record_blocks F s ids) := by
  induction ids using List.reverseRecOn with
  | nil => exact h
  | append_singleton ids x ih =>
    have hprev := ih fun before y after heq => hput before y (after ++ [x]) (by rw [heq]; simp)
    have hclock := record_blocks_clock (F := F) s ids
    rw [record_blocks_snoc]
    refine hprev.record_block hF (hs.record_blocks ids) (hclock.now ▸ hpast.record_blocks ids) _ ?_
    rintro m ⟨hm, hr, hlast⟩ y n hy hne hn
    rw [hclock.now] at hlast ⊢
    rw [lookup_record_blocks] at hm hn
    -- a block that the request has named before is not accessed anew
    have hx : x ∉ ids := by
      intro hin
      rw [if_pos hin, Option.some.injEq] at hm
      rw [← hm, seen_last] at hlast
      exact lt_irrefl _ hlast
    rw [if_neg hx] at hm
    obtain ⟨n', hn', hr', hc'⟩ := ((hs.record_blocks ids).lru_mem _ _).1 hy
    rw [lookup_record_blocks, hn, Option.some.injEq] at hn'
    subst hn'
    have hputs := hput ids x [] rfl hx m ⟨hm, hr, hlast⟩ y
    split_ifs at hn with hin
    · rcases hy0 : s.metas.lookup y with _ | n0
      · simp only [seen, hy0, Option.some.injEq] at hn
        simp [← hn] at hr'
      · simp only [seen, hy0, Option.some.injEq] at hn
        have := hputs n0 hne hy0 (by simpa [← hn] using hr') (by simpa [← hn] using hc')
        rwa [if_pos hin, hn] at this
    · have := hputs n hne hn hr' hc'
      rwa [if_neg hin] at this

def incoming (s : State D) (x : ObjId) : BlockMeta D :=
  (s.metas.lookup x).getD { category := s.cur_category, last_access := s.now, offset := 0 }

variable {req : Request} {d : D} {stamp : ℚ → D}

omit [LinearOrder D] in
theorem WorkloadAware_insert_eq (h : Inv s) (hx : req.obj_id ∉ s.cache.q) :
    WorkloadAware_insert F s req =
      make_resident F { s with cache := s.cache.FIFO_insert req () } req.obj_id (incoming s req.obj_id) := by
  unfold WorkloadAware_insert incoming
  dsimp only
  rcases hm : s.metas.lookup req.obj_id with _ | m
  · rfl
  · dsimp only
    split_ifs with hr
    · exact absurd ((h.listed _).2 ⟨_, m, hm, hr, rfl⟩) hx
    · rfl

def ComesAfter (R : BlockMeta D → BlockMeta D → Prop) (s : State D) (x : ObjId) : Prop :=
  ∀ y n, s.metas.lookup y = some n → n.resident = true → n.category = (incoming s x).category →
    R n { incoming s x with resident := true }

omit [LinearOrder D] in
theorem Ordered.insert (h : Ordered R s) (hs : Inv s) (hx : req.obj_id ∉ s.cache.q)
    (hput : ComesAfter R s req.obj_id) : Ordered R (WorkloadAware_insert F s req) := by
  rw [WorkloadAware_insert_eq hs hx]
  set r : State D := { s with cache := s.cache.FIFO_insert req () }
  have hout : ∀ c, req.obj_id ∉ lru s c := fun c hin => hx ((hs.listed _).2 ⟨c, (hs.lru_mem c _).1 hin⟩)
  refine Ordered.put h (c := (incoming s req.obj_id).category) ?_ ?_ hs.lru_nodup ?_ ?_ (lookup_insert _) ?_
  · intro d hd
    exact (lru_make_resident r _ _ d).trans (if_neg hd)
  · rw [erase_of_not_mem (hout _)]
    exact (lru_make_resident r _ _ _).trans (if_pos rfl)
  · exact fun d hd => absurd hd (hout d)
  · exact fun y hne => lookup_insert_ne hne
  · intro y hy _ n hn
    obtain ⟨n', hn', hr, hc⟩ := (hs.lru_mem _ y).1 hy
    cases hn.symm.trans hn'
    exact hput y n hn hr hc

/-! ## The policy -/

def policy (F : Doubles D) (stamp : ℚ → D) : CachePolicy (State D) :=
  { queue_policy (fun _ => ops F) (fun s => s.cache) with
    set_request_ctx := some fun s ctx => WorkloadAware_set_request_ctx F s ctx.category (stamp ctx.timestamp)
    record_request := some fun s ids => some (WorkloadAware_record_request F s ids) }

theorem Inv.of_evict (h : Inv s) (hev : WorkloadAware_evict F s = some t) :
    ∃ v o c heap n, s.cache.q.lookup v = some o ∧ category_head s c = some v ∧
      t = { forget s v with cache := s.cache.cache_remove_obj_base v o, head_heap := heap, seq := n, heap_clock := s.now } ∧ Inv t := by
  by_cases hx : ∃ x, x ∈ s.cache.q
  · obtain ⟨x, hx⟩ := hx
    obtain ⟨v, o, c, heap, n, ho, hc, hevict, hinv⟩ := h.evict_eq hx
    cases hev.symm.trans hevict
    exact ⟨v, o, c, heap, n, ho, hc, rfl, hinv⟩
  · -- an empty cache: `ERROR`
    simp only [WorkloadAware_evict, bind, Option.bind_eq_some_iff] at hev
    obtain ⟨⟨u, v⟩, hu, v', hv', -⟩ := hev
    rw [(h.choose hu).2 (not_exists.1 hx)] at hv'
    cases hv'

omit [LinearOrder D] in
theorem forget_rest (s : State D) (x : ObjId) : (forget s x).now = s.now ∧ (forget s x).hooked = s.hooked ∧
    (forget s x).cur_category = s.cur_category := by
  unfold forget
  split
  · exact ⟨rfl, rfl, rfl⟩
  · dsimp only
    split
    · exact ⟨rfl, rfl, rfl⟩
    · split_ifs <;> exact ⟨rfl, rfl, rfl⟩

theorem queued_gets (F : Doubles D) (K : Int) :
    QueuedGets (fun _ => ops F) (fun s => s.cache) K fun s => Inv s ∧ Blocks K s.cache where
  blocks _ h := h.2
  can_insert _ _ := rfl
  occupied _ := rfl
  obj_md_size _ := rfl
  cache_size _ := rfl
  hit := by
    rintro s req ⟨hs, hb⟩ hin
    obtain ⟨hinv, hcache, hhit⟩ := hs.count_req.find req
    have hfind : (ops F).find ((ops F).count_req s) req = some ((WorkloadAware_find F ((ops F).count_req s) req).1, true) := by
      rw [← hhit.2 hin]
      rfl
    refine ⟨_, hfind, ⟨hinv, ?_⟩, fun x => ?_⟩
    · rw [hcache]
      exact hb.count_req
    · rw [hcache]
      rfl
  miss := by
    rintro s req ⟨hs, hb⟩ hout
    obtain ⟨hinv, hcache, hhit⟩ := hs.count_req.find req
    have hfind : (ops F).find ((ops F).count_req s) req = some ((WorkloadAware_find F ((ops F).count_req s) req).1, false) := by
      rw [← Bool.eq_false_iff.2 fun hit => hout (hhit.1 hit)]
      rfl
    refine ⟨_, hfind, ⟨hinv, ?_⟩, ?_⟩
    · rw [hcache]
      exact hb.count_req
    · rw [hcache]
      rfl
  insert := by
    rintro s req ⟨hs, hb⟩ hout hsize
    have hcache : (WorkloadAware_insert F s req).cache = s.cache.FIFO_insert req () := by
      rw [WorkloadAware_insert_eq hs hout]
      rfl
    refine ⟨_, rfl, ⟨hs.insert hout, ?_⟩, fun x => ?_⟩
    · rw [hcache]
      exact hb.insert _ hout hsize
    · rw [hcache]
      exact mem_insert _

theorem heedless (F : Doubles D) (stamp : ℚ → D) (config : SimulatorConfig) :
    Heedless (policy F stamp) config (fun s => Inv s ∧ Blocks config.cache_size_blocks s.cache) fun s => s.cache.q.keys.toFinset where
  find s id _ := by simp [policy, queue_policy]
  occupied s hs := hs.2.occupied
  evict_n := rfl
  get_hit := (queued_gets F config.cache_size_blocks).gets.get_hit
  get_miss := (queued_gets F config.cache_size_blocks).gets.get_miss
  evict := by
    rintro pin s req ⟨hs, hb⟩ ⟨x, hx⟩
    obtain ⟨v, o, c, heap, n, ho, -, hevict, hinv⟩ := hs.evict_eq (mem_keys.2 (mem_toFinset.1 hx))
    obtain ⟨hreport, hmem, hres⟩ := queue_evict_one (fun _ => ops F) (fun s => s.cache) pin req hevict
      (Table.mem_of_lookup ho) fun x => mem_erase
    exact ⟨_, v, hreport, ⟨hinv, hb.remove ho⟩, hmem, hres⟩
  set_request_ctx := by
    rintro f hf s ctx ⟨hs, hb⟩
    cases hf
    exact ⟨⟨hs.set_request_ctx _ _, hb⟩, rfl⟩
  record_request := by
    rintro f hf s ids ⟨hs, hb⟩
    cases hf
    have hcache : (WorkloadAware_record_request F s ids).cache = s.cache := (record_blocks_clock { s with hooked := true } ids).cache
    refine ⟨_, rfl, ⟨hs.record_request ids, ?_⟩, ?_⟩
    · rw [hcache]
      exact hb
    · rw [hcache]

/-! ## The phases of a request -/

structure Timely (d : D) (s : State D) : Prop where
  inv : Inv s
  now : s.now = d
  past : Past d s

structure Recorded (d : D) (ids : List ObjId) (s : State D) : Prop extends Timely d s where
  hooked : s.hooked = true
  known : ∀ x ∈ ids, ∀ m, s.metas.lookup x = some m → m.last_access = d

theorem Timely.evict (h : Timely d s) (hev : WorkloadAware_evict F s = some t) :
    Timely d t ∧ (∀ y n, t.metas.lookup y = some n → s.metas.lookup y = some n) ∧ (∀ R, Ordered R s → Ordered R t) := by
  obtain ⟨v, o, c, heap, n, -, -, rfl, hinv⟩ := h.inv.of_evict hev
  have hmetas : ∀ y n, (forget s v).metas.lookup y = some n → s.metas.lookup y = some n := by
    intro y n hn
    rw [lookup_forget] at hn
    split_ifs at hn
    exact hn
  exact ⟨⟨hinv, (forget_rest s v).1.trans h.now, fun y n hn => h.past y n (hmetas y n hn)⟩, hmetas, fun R hR => hR.forget v⟩

variable {ids : List ObjId}

theorem Recorded.evict (h : Recorded d ids s) (hev : WorkloadAware_evict F s = some t) : Recorded d ids t := by
  obtain ⟨ht, hmetas, -⟩ := h.toTimely.evict hev
  refine ⟨ht, ?_, fun x hx n hn => h.known x hx n (hmetas x n hn)⟩
  obtain ⟨v, o, c, -, n, -, -, rfl, -⟩ := h.inv.of_evict hev
  exact (forget_rest s v).2.1.trans h.hooked

theorem Timely.record (h : Timely d s) (ids : List ObjId) : Recorded d ids (WorkloadAware_record_request F s ids) where
  inv := h.inv.record_request ids
  now := (record_blocks_clock { s with hooked := true } ids).now.trans h.now
  past := by
    have hpast : Past s.now { s with hooked := true } := h.now.symm ▸ h.past
    exact h.now ▸ hpast.record_blocks ids
  hooked := (record_blocks_clock { s with hooked := true } ids).hooked
  known := by
    intro x hx m hm
    have hlook := (lookup_record_blocks { s with hooked := true } ids x).symm.trans hm
    rw [if_pos hx, Option.some.injEq] at hlook
    rw [← hlook, seen_last]
    exact h.now

theorem Ordered.record_request (h : Ordered R s) (hF : F.Exact) (hs : Timely d s)
    (hput : ∀ before x after, ids = before ++ x :: after → PutsAfter R s before x) :
      Ordered R (WorkloadAware_record_request F s ids) := by
  have hinv : Inv { s with hooked := true } :=
    { hs.inv with }
  have hpast : Past s.now { s with hooked := true } := hs.now.symm ▸ hs.past
  exact Ordered.record_blocks (s := { s with hooked := true }) h hF hinv hpast ids hput

theorem Recorded.incoming_last (h : Recorded d ids s) (hx : x ∈ ids) : (incoming s x).last_access = d := by
  unfold incoming
  rcases hm : s.metas.lookup x with _ | m
  · exact h.now
  · exact h.known x hx m hm

theorem Recorded.insert (h : Recorded d ids s) (hx : req.obj_id ∉ s.cache.q)
    (hin : req.obj_id ∈ ids) : Recorded d ids (WorkloadAware_insert F s req) := by
  have hlast := h.incoming_last hin
  have hinv := h.inv.insert (F := F) hx
  rw [WorkloadAware_insert_eq h.inv hx] at hinv ⊢
  have hknown : ∀ y n, (s.metas.insert req.obj_id { incoming s req.obj_id with resident := true }).lookup y = some n →
      (y ∈ ids → n.last_access = d) ∧ n.last_access ≤ d := by
    intro y n hn
    rcases eq_or_ne y req.obj_id with rfl | hne
    · rw [lookup_insert, Option.some.injEq] at hn
      rw [← hn]
      exact ⟨fun _ => hlast, hlast.le⟩
    · rw [lookup_insert_ne hne] at hn
      exact ⟨fun hy => h.known y hy n hn, h.past y n hn⟩
  exact ⟨⟨hinv, h.now, fun y n hn => (hknown y n hn).2⟩, h.hooked, fun y hy n hn => (hknown y n hn).1 hy⟩

theorem Inv.evict_sub (hs : Inv s) (hev : WorkloadAware_evict F s = some t) : ∀ y ∈ t.cache.q, y ∈ s.cache.q := by
  obtain ⟨v, o, c, -, n, -, hc, rfl, -⟩ := hs.of_evict hev
  exact fun y hy => (mem_erase.1 hy).2

theorem ComesAfter.evict (h : ComesAfter R s x) (hs : Inv s) (hx : x ∉ s.cache.q) (hev : WorkloadAware_evict F s = some t) :
    ComesAfter R t x := by
  obtain ⟨v, o, c, heap, n, ho, -, rfl, -⟩ := hs.of_evict hev
  have hne : x ≠ v := fun heq => hx (heq ▸ Table.mem_of_lookup ho)
  have hsame : incoming { forget s v with cache := s.cache.cache_remove_obj_base v o, head_heap := heap, seq := n, heap_clock := s.now } x =
      incoming s x := by
    unfold incoming
    rw [lookup_forget, if_neg hne, (forget_rest s v).1, (forget_rest s v).2.2]
  intro y n hn hr hcat
  rw [hsame] at hcat ⊢
  have hn' := lookup_forget s v y
  split_ifs at hn'
  · cases hn'.symm.trans hn
  · exact h y n (hn'.symm.trans hn) hr hcat

theorem WorkloadAware_find_hooked (h : s.hooked = true) (req : Request) : WorkloadAware_find F ((ops F).count_req s) req =
    ((ops F).count_req s, (s.cache.q.lookup req.obj_id).isSome) := by
  have hcount : ((ops F).count_req s).hooked = true := h
  unfold WorkloadAware_find
  rw [if_pos hcount]
  rfl

theorem Recorded.get (h : Recorded d ids s) (hin : req.obj_id ∈ ids)
    {vs : List ObjId} (hget : (policy F stamp).get s req = some (t, vs)) :
    Recorded d ids t ∧ (Ordered R s → (req.obj_id ∉ s.cache.q → ComesAfter R s req.obj_id) → Ordered R t) := by
  let Miss : State D → Prop := fun u => Recorded d ids u ∧ req.obj_id ∉ u.cache.q ∧
    (Ordered R s → (req.obj_id ∉ s.cache.q → ComesAfter R s req.obj_id) → Ordered R u ∧ ComesAfter R u req.obj_id)
  refine queue_get_inv (fun _ => ops F) (fun s => s.cache) (fun u => u = s) Miss
    (fun u => Recorded d ids u ∧ (Ordered R s → (req.obj_id ∉ s.cache.q → ComesAfter R s req.obj_id) → Ordered R u))
    ?_ ?_ ?_ ?_ rfl hget
  · rintro u u' hit rfl hfind
    have hcount : Recorded d ids ((ops F).count_req u) := ⟨{ h with inv := h.inv.count_req }, h.hooked, h.known⟩
    cases (WorkloadAware_find_hooked h.hooked req).symm.trans (Option.some.inj hfind)
    split_ifs with hit
    · exact ⟨hcount, fun hR _ => hR⟩
    · have hx : req.obj_id ∉ u.cache.q := fun hmem => hit (lookup_isSome.2 hmem)
      exact ⟨hcount, hx, fun hR hput => ⟨hR, hput hx⟩⟩
  · rintro u u' admitted hu hcan
    cases hcan
    split_ifs
    · exact hu
    · exact ⟨hu.1, fun hR hput => (hu.2.2 hR hput).1⟩
  · rintro u u' ⟨hu, hx, hR⟩ hev
    refine ⟨hu.evict hev, fun hmem => hx (hu.inv.evict_sub hev _ hmem), fun hord hput => ?_⟩
    obtain ⟨hord, hcomes⟩ := hR hord hput
    exact ⟨(hu.toTimely.evict hev).2.2 R hord, hcomes.evict hu.inv hx hev⟩
  · rintro u u' ⟨hu, hx, hR⟩ hins
    cases hins
    exact ⟨hu.insert hx hin, fun hord hput => (hR hord hput).1.insert hu.inv hx (hR hord hput).2⟩

/-! ## The order of access -/

def NotAfter (m n : BlockMeta D) : Prop := m.last_access ≤ n.last_access

theorem Timely.puts_after (h : Timely d s) (before : List ObjId) (x : ObjId) : PutsAfter NotAfter s before x := by
  intro _ m _ y n _ hn _ _
  rw [h.now]
  split_ifs
  · exact le_refl d
  · exact h.past y n hn

theorem Recorded.comes_after (h : Recorded d ids s) (hx : x ∈ ids) : ComesAfter NotAfter s x := by
  intro y n hn _ _
  exact (h.past y n hn).trans (h.incoming_last hx).ge

theorem evict_of_op {o : Op} (ho : o.evicts) (h : op (policy F stamp) s o = some t) : WorkloadAware_evict F s = some t := by
  obtain ⟨_, _, -, hev⟩ := Prefixsim.evict_of_op (fun _ => ops F) (fun s => s.cache) (policy F stamp) rfl rfl ho h
  exact hev

variable {request : BlockRequest}

theorem fill_request_mem (config : SimulatorConfig) {i : Nat} (hi : i < request.blocks.length) :
    (fill_request config request i).obj_id ∈ request.blocks := by
  unfold fill_request
  rw [getD_eq_getElem?_getD, getElem?_eq_getElem hi]
  exact getElem_mem hi

structure Sorted (s : State D) : Prop where
  inv : Inv s
  ordered : Ordered NotAfter s

theorem Sorted.serve (hF : F.Exact) {config : SimulatorConfig} {s s' : Simulator (State D)}
    {ok : Result} (hs : Sorted s.cache) (hpast : Past (stamp request.timestamp) s.cache)
    (h : serve (policy F stamp) config s request = some (s', ok)) : Sorted s'.cache ∧ Past (stamp request.timestamp) s'.cache := by
  cases hskip : skips config request with
  | true =>
    obtain ⟨t, hserve, hcache⟩ := serve_skipped (policy F stamp) hskip
    cases h.symm.trans hserve
    exact ⟨hcache ▸ hs, hcache ▸ hpast⟩
  | false =>
    let J : State D → Prop := fun u => Timely (stamp request.timestamp) u ∧ Ordered NotAfter u
    let K : State D → Prop := fun u => Recorded (stamp request.timestamp) request.blocks u ∧ Ordered NotAfter u
    have hctx : J (set_request_ctx (policy F stamp) s.cache request) :=
      ⟨⟨hs.inv.set_request_ctx request.category (stamp request.timestamp), rfl, hpast⟩, hs.ordered⟩
    have hend : J s'.cache ∨ K s'.cache := by
      refine serve_phases hctx ?_ ?_ ?_ hskip h
      · rintro u o u' ho ⟨hu, hord⟩ hstep
        obtain ⟨hu', -, hkept⟩ := hu.evict (evict_of_op ho hstep)
        exact ⟨hu', hkept _ hord⟩
      · rintro u u' ⟨hu, hord⟩ hrec
        cases hrec
        exact ⟨hu.record request.blocks, hord.record_request hF hu fun before x _ _ => hu.puts_after before x⟩
      · rintro u u' i hi ⟨hu, hord⟩ hget
        obtain ⟨⟨w, vs⟩, hw, rfl⟩ := Option.map_eq_some_iff.1 hget
        have hin := fill_request_mem config hi
        obtain ⟨hu', hkept⟩ := hu.get hin hw
        exact ⟨hu', hkept hord fun _ => hu.comes_after hin⟩
    rcases hend with ⟨hu, hord⟩ | ⟨hu, hord⟩
    · exact ⟨⟨hu.inv, hord⟩, hu.past⟩
    · exact ⟨⟨hu.inv, hord⟩, hu.past⟩

theorem Sorted.remove (hs : Sorted s) (x : ObjId) : Sorted (WorkloadAware_remove s x).1 ∧
    ∀ y n, (WorkloadAware_remove s x).1.metas.lookup y = some n → s.metas.lookup y = some n := by
  refine ⟨⟨hs.inv.remove x, ?_⟩, ?_⟩
  · unfold WorkloadAware_remove
    split
    · exact hs.ordered
    · exact hs.ordered.forget x
  · intro y n hn
    unfold WorkloadAware_remove at hn
    split at hn
    · exact hn
    · have hlook := (lookup_forget s x y).symm.trans hn
      split_ifs at hlook
      exact hlook

/-! ## Requests and removals -/

/-- What a driver does: a request is served, or a block is removed. -/
inductive Event where
  | serve (request : BlockRequest)
  | remove (id : ObjId)

def event (F : Doubles D) (stamp : ℚ → D) (config : SimulatorConfig) (s : Simulator (State D)) : Event → Option (Simulator (State D))
  | .serve request => serve_ok (policy F stamp) config s request
  | .remove id => some { s with cache := (WorkloadAware_remove s.cache id).1 }

def requests (events : List Event) : List BlockRequest :=
  events.filterMap fun
    | .serve request => some request
    | .remove _ => none

structure Bookkeeping (F : Doubles D) (s : State D) : Prop where
  /-- the blocks with `meta.resident` are those of the hash table -/
  resident : ∀ x, x ∈ s.cache.q ↔ ∃ m, s.metas.lookup x = some m ∧ m.resident = true
  /-- and stand in the list of their class, in no other -/
  listed : ∀ c x, x ∈ lru s c ↔ ∃ m, s.metas.lookup x = some m ∧ m.resident = true ∧ m.category = c
  once : ∀ c, (lru s c).Nodup
  sorted : ∀ c, (lru s c).Pairwise fun x y => ∀ m n, s.metas.lookup x = some m → s.metas.lookup y = some n →
    m.last_access ≤ n.last_access
  categories : ∀ c, c ∈ s.category_order ↔ c ∈ s.queues
  categories_once : s.category_order.Nodup
  victim : ∀ x ∈ s.cache.q, ∃ t v, choose_victim F s = some (t, some v) ∧ v ∈ s.cache.q

theorem Sorted.bookkeeping (hs : Sorted s) : Bookkeeping F s where
  resident x := by
    rw [hs.inv.listed]
    constructor
    · rintro ⟨c, m, hm, hr, -⟩
      exact ⟨m, hm, hr⟩
    · rintro ⟨m, hm, hr⟩
      exact ⟨m.category, m, hm, hr, rfl⟩
  listed := hs.inv.lru_mem
  once := hs.inv.lru_nodup
  sorted := hs.ordered
  categories := hs.inv.order_mem
  categories_once := hs.inv.order_nodup
  victim := by
    intro x hx
    obtain ⟨t, v, -, n, hchoose, -, -, hv, -⟩ := choose_victim_spec hs.inv hx
    exact ⟨t, v, hchoose, hv⟩

/-- Every run of requests and removals returns, with the books in order. -/
theorem WorkloadAware_bookkeeping (F : Doubles D) (hF : F.Exact) (stamp : ℚ → D) (hstamp : Monotone stamp) (config : SimulatorConfig)
    (events : List Event) (hcosts : ∀ r ∈ requests events, skips config r = false → CostsFit config r)
    (htimes : (requests events).Pairwise fun r r' => r.timestamp ≤ r'.timestamp) :
    ∃ s, runs (event F stamp config) { cache := WorkloadAware_init F config.cache_size_blocks } events = some s ∧
      Bookkeeping F s.cache := by
  have hrun : ∀ (events : List Event) (s : Simulator (State D)),
      (∀ r ∈ requests events, skips config r = false → CostsFit config r) →
      (requests events).Pairwise (fun r r' => r.timestamp ≤ r'.timestamp) →
      (Sorted s.cache ∧ Blocks config.cache_size_blocks s.cache.cache) → (∀ r ∈ requests events, Past (stamp r.timestamp) s.cache) →
      ∃ t, runs (event F stamp config) s events = some t ∧ Sorted t.cache := by
    intro events
    induction events with
    | nil => exact fun s _ _ hs _ => ⟨s, rfl, hs.1⟩
    | cons e events ih =>
      rintro s hcosts htimes ⟨hs, hb⟩ hpast
      cases e with
      | serve request =>
        obtain ⟨hfirst, hrest⟩ := pairwise_cons.1 htimes
        obtain ⟨t, hserve, ht, htb⟩ := (heedless F stamp config).serve ⟨hs.inv, hb⟩ (hcosts request mem_cons_self)
        obtain ⟨hsorted, hp⟩ := hs.serve hF (hpast request mem_cons_self) (serve_of_serve_ok hserve)
        obtain ⟨u, hu, husorted⟩ := ih t (fun r hr => hcosts r (mem_cons_of_mem _ hr)) hrest ⟨hsorted, htb⟩
          fun r hr x m hm => (hp x m hm).trans (hstamp (hfirst r hr))
        exact ⟨u, by simp [runs_cons, event, hserve, hu], husorted⟩
      | remove id =>
        obtain ⟨hsorted, hmetas⟩ := hs.remove id
        have hb' : Blocks config.cache_size_blocks (WorkloadAware_remove s.cache id).1.cache := by
          unfold WorkloadAware_remove
          split
          · exact hb
          · rename_i o ho
            dsimp only
            rw [(forget_cache s.cache id).1]
            exact hb.remove ho
        obtain ⟨u, hu, husorted⟩ := ih { s with cache := (WorkloadAware_remove s.cache id).1 } hcosts htimes ⟨hsorted, hb'⟩
          fun r hr x m hm => hpast r hr x m (hmetas x m hm)
        exact ⟨u, by simp [runs_cons, event, hu], husorted⟩
  have hinit : Sorted (WorkloadAware_init F config.cache_size_blocks) :=
    ⟨init_inv _, fun c => by simp [WorkloadAware_init, lru]⟩
  obtain ⟨s, hs, hsorted⟩ := hrun events { cache := WorkloadAware_init F config.cache_size_blocks } hcosts htimes
    ⟨hinit, Blocks.init _⟩ (by simp [Past, WorkloadAware_init])
  exact ⟨s, hs, hsorted.bookkeeping⟩

/-- Rational seconds, and reuse probabilities in the order of the idle times measured in mean gaps. -/
def Doubles.rational : Doubles ℚ where
  zero := 0
  unset := -1
  kDefaultMeanGap := 600
  sub a b := a - b
  positive gap := 0 < gap
  tick now := now + 1
  ewma mean gap := (19 * mean + gap) / 20
  reuse_prob mean _ idle := -idle / mean

theorem Doubles.rational_exact : Doubles.rational.Exact := by simp [Doubles.Exact, Doubles.rational]

theorem WorkloadAware_bookkeeping_of_two : ∃ s,
    runs (event .rational id { cache_size_blocks := 3 }) { cache := WorkloadAware_init .rational 3 }
      [.serve { blocks := [1, 2] }, .remove 1, .serve { blocks := [1, 3, 4], timestamp := 1, category := 1 }] = some s ∧
      Bookkeeping .rational s.cache :=
  WorkloadAware_bookkeeping .rational Doubles.rational_exact id monotone_id { cache_size_blocks := 3 }
    [.serve { blocks := [1, 2] }, .remove 1, .serve { blocks := [1, 3, 4], timestamp := 1, category := 1 }]
    (fun _ _ _ _ _ => show (1 : Int) ≤ INT32_MAX by decide) (by simp [requests])

end CacheSim.WorkloadAware
