import CacheSim.Lirs.Hits

/-!
# Gets

A get returns, if each LIR block that it demotes is one.
-/

namespace CacheSim.Lirs

open Lib List Option Bool Table CacheOps

variable {P : Setup} {s : State} {x : ObjId} {req : Request}

/-- Whether LIR blocks can be demoted until they leave `lirs_room` and all resident blocks leave `room`.
The sizes are in the order in which the blocks of `S` are demoted and those of `Q` evicted. -/
def clears (hirs_limit lirs_room room : Int) : List Int → List Int → Bool
  | [], hirs => decide (0 ≤ lirs_room ∧ hirs.sum ≤ room)
  | size :: lirs, hirs =>
    decide ((size :: lirs).sum ≤ lirs_room ∧ (size :: lirs).sum + hirs.sum ≤ room) ||
      clears hirs_limit lirs_room room lirs (Fifo.kept (hirs_limit - size) hirs ++ [size])

def LIR_sizes (s : State) : List Int := (s.LRU_s.q.entries.reverse.filter (·.2.md.is_LIR)).map (·.2.obj_size)

def HIR_sizes (s : State) : List Int := s.LRU_q.q.entries.reverse.map (·.2.obj_size)

/-- What `LIRS_get` takes for granted. Where a hit or a miss demotes LIR blocks, one is at the bottom of `S`;
a hit in `Q` and the blocks it demotes fit into `Q` together; and a non-resident block that is requested with another
size than it had finds room before all LIR blocks are gone. -/
def CanGet (s : State) (req : Request) : Prop :=
  match s.LRU_s.q.lookup req.obj_id, s.LRU_q.q.lookup req.obj_id with
  | some obj_s, _ =>
    if obj_s.md.is_LIR then True
    else if obj_s.md.in_cache then
      s.lirs_count + obj_s.obj_size > s.lirs_limit → bottom_LIR (s.LRU_s.q.erase req.obj_id).entries = true
    else req.obj_size + s.obj_md_size ≤ s.cache_size →
      s.lirs_count + obj_s.obj_size ≤ s.lirs_limit ∧ s.occupied_byte + req.obj_size ≤ s.cache_size ∨
        bottom_LIR (s.LRU_s.q.erase req.obj_id).entries = true ∧
          clears s.hirs_limit (s.lirs_limit - obj_s.obj_size) (s.cache_size - req.obj_size) (LIR_sizes s) (HIR_sizes s) = true
  | none, some obj_q =>
    s.lirs_count + obj_q.obj_size > s.lirs_limit → bottom_LIR s.LRU_s.q.entries = true ∧
      obj_q.obj_size + demoted s.lirs_limit (LIR_sizes s) (s.lirs_count + obj_q.obj_size) ≤ s.hirs_limit
  | none, none => True

instance (s : State) (req : Request) : Decidable (CanGet s req) := by
  unfold CanGet
  rcases s.LRU_s.q.lookup req.obj_id with _ | obj_s
  · rcases s.LRU_q.q.lookup req.obj_id with _ | obj_q
    · infer_instance
    · infer_instance
  · infer_instance

/-! ## Demoting until there is room -/

variable {hold : Option (ObjId × Bool)} {o : FifoObj Md}

theorem LIR_sizes_eq (h : Core P hold s) : LIR_sizes s = (lirs (stack s.LRU_s)).reverse.map P.sz := by
  have hmap : (lirs (stack s.LRU_s)).map P.sz = (s.LRU_s.q.entries.filter (·.2.md.is_LIR)).map (·.2.obj_size) := by
    simp only [lirs, stack, List.filter_map, List.map_map]
    apply map_congr_left
    intro e he
    exact (h.tables.S_rec e.1 e.2 (lookup_of_mem_entries (mem_filter.1 he).1)).1.symm
  rw [LIR_sizes, filter_reverse, map_reverse, ← hmap, map_reverse]

theorem HIR_sizes_eq (h : Core P hold s) : HIR_sizes s = s.LRU_q.q.keys.reverse.map P.sz := by
  have hmap : s.LRU_q.q.keys.map P.sz = s.LRU_q.q.entries.map (·.2.obj_size) := by
    rw [AList.keys, List.keys, List.map_map]
    apply map_congr_left
    intro e he
    rw [(h.tables.Q_rec e.1 e.2 (lookup_of_mem_entries he)).1]
    rfl
  rw [HIR_sizes, map_reverse, map_reverse, hmap]

theorem Trimmed.kept {size : Int} {ids ids' : List ObjId} (h : Trimmed P size ids ids') (hfit : P.total ids' + size ≤ P.hirs_limit) :
    Fifo.kept (P.hirs_limit - size) (ids.reverse.map P.sz) = ids'.reverse.map P.sz := by
  have hsum : ∀ l : List ObjId, (l.reverse.map P.sz).sum = P.total l := fun l => P.total_perm l.reverse_perm
  obtain ⟨rest, rfl⟩ := h.isPrefix
  have hkeeps := h.keeps
  clear h
  induction rest using List.reverseRecOn with
  | nil =>
    rw [append_nil]
    apply Fifo.kept_of_le
    rw [hsum]
    omega
  | append_singleton rest y ih =>
    have hlarge : ¬ P.total (ids' ++ (rest ++ [y])) ≤ P.hirs_limit - size := by
      intro hle
      have hlen := (hkeeps _ prefix_rfl (by omega)).length_le
      simp at hlen
    have hcons : ((ids' ++ (rest ++ [y])).reverse.map P.sz) = P.sz y :: (ids' ++ rest).reverse.map P.sz := by simp
    rw [← hsum, hcons] at hlarge
    rw [hcons, Fifo.kept, if_neg hlarge]
    apply ih
    intro young hyoung hle
    apply hkeeps young (hyoung.trans ?_) hle
    rw [← append_assoc]
    exact prefix_append _ _

def Clears (P : Setup) (x : ObjId) (size : Int) (s : State) : Prop :=
  clears P.hirs_limit (P.lirs_limit - P.sz x) (P.cache_size - size) ((lirs (stack s.LRU_s)).reverse.map P.sz)
    (s.LRU_q.q.keys.reverse.map P.sz) = true

theorem Clears.demoted {t t' : State} {y : ObjId} {size : Int} (ht : Core P hold t)
    (ht' : Core P hold t') (hd : Demotes P y t t')
    (hmore : ¬ (t.lirs_count + P.sz x ≤ P.lirs_limit ∧ t.occupied_byte + size ≤ P.cache_size)) (h : Clears P x size t) :
    Clears P x size t' := by
  obtain ⟨kept, hkept, htrim⟩ := hd.queue
  have hfit : P.total kept + P.sz y ≤ P.hirs_limit := by
    have hle := ht'.counts.hirs_fit
    rw [ht'.counts.hirs, hkept, Setup.total_cons] at hle
    omega
  have hsum : ∀ l : List ObjId, (l.reverse.map P.sz).sum = P.total l := fun l => P.total_perm l.reverse_perm
  have hcons : (lirs (stack t.LRU_s)).reverse.map P.sz = P.sz y :: (lirs (stack t'.LRU_s)).reverse.map P.sz := by
    rw [hd.lirs]
    simp
  have hno : ¬ ((P.sz y :: (lirs (stack t'.LRU_s)).reverse.map P.sz).sum ≤ P.lirs_limit - P.sz x ∧
      (P.sz y :: (lirs (stack t'.LRU_s)).reverse.map P.sz).sum + (t.LRU_q.q.keys.reverse.map P.sz).sum ≤ P.cache_size - size) := by
    rw [← hcons, hsum, hsum, ← ht.counts.lirs, ← ht.counts.hirs, ← ht.counts.occupied]
    omega
  unfold Clears at h ⊢
  rw [hcons, clears, decide_eq_false hno, Bool.false_or, htrim.kept hfit] at h
  rw [hkept, reverse_cons, map_append, map_singleton]
  exact h

theorem not_clears_of_le {hirs_limit lirs_room room : Int} {lirs hirs : List Int} (hpos : ∀ n ∈ lirs, 0 < n)
    (hfit : lirs.sum + hirs.sum ≤ hirs_limit) (hroom : room < lirs.sum + hirs.sum) :
    clears hirs_limit lirs_room room lirs hirs = false := by
  induction lirs generalizing hirs with
  | nil =>
    rw [sum_nil, zero_add] at hroom
    exact decide_eq_false fun h => by omega
  | cons n lirs ih =>
    have hrest : 0 ≤ lirs.sum := sum_nonneg fun m hm => (hpos m (by simp [hm])).le
    rw [sum_cons] at hfit hroom
    have hno : ¬ ((n :: lirs).sum ≤ lirs_room ∧ (n :: lirs).sum + hirs.sum ≤ room) := by
      rw [sum_cons]
      omega
    rw [clears, decide_eq_false hno, Bool.false_or, Fifo.kept_of_le (by omega)]
    apply ih (fun m hm => hpos m (by simp [hm])) <;> rw [sum_append, sum_singleton] <;> omega

theorem Clears.large {size : Int} (h : Clears P x size s) (hcore : Core P hold s)
    (hmore : s.occupied_byte + size > P.cache_size) : P.hirs_limit < s.occupied_byte := by
  have hsum : ∀ l : List ObjId, (l.reverse.map P.sz).sum = P.total l := fun l => P.total_perm l.reverse_perm
  by_contra hle
  have hocc := hcore.counts.occupied
  rw [hcore.counts.lirs, hcore.counts.hirs] at hocc
  refine false_ne_true (Eq.trans (Eq.symm (not_clears_of_le ?_ ?_ ?_)) h)
  · intro n hn
    obtain ⟨y, -, rfl⟩ := mem_map.1 hn
    exact P.sz_pos y
  · rw [hsum, hsum]
    omega
  · rw [hsum, hsum]
    omega

theorem clears_of_le {hirs_limit lirs_room room : Int} {lirs hirs : List Int} (hlirs : ∀ n ∈ lirs, n ≤ hirs_limit)
    (hroom : 0 ≤ lirs_room) (hle : hirs_limit ≤ room) (hfit : hirs.sum ≤ hirs_limit) :
    clears hirs_limit lirs_room room lirs hirs = true := by
  induction lirs generalizing hirs with
  | nil => exact decide_eq_true ⟨hroom, by omega⟩
  | cons n lirs ih =>
    have hn := hlirs n (by simp)
    rw [clears, or_eq_true]
    right
    apply ih (fun m hm => hlirs m (by simp [hm]))
    have hkept := Fifo.kept_sum_le_limit (show 0 ≤ hirs_limit - n by omega) hirs
    rw [sum_append, sum_singleton]
    omega

/-! ## The lookup of a get -/

theorem lirs_to_head {S : Lru Md} (hx : S.q.lookup x = some o) (hhir : o.md.is_LIR = false) :
    lirs (stack (to_head S x o)) = lirs (stack S) := by
  obtain ⟨l1, l2, hs, herase, -⟩ := split_at hx
  rw [stack_to_head, herase, stack, hs, hhir, lirs_hir]
  simp only [map_append, map_cons, lirs_append, hhir, lirs_hir]

/-- After a lookup that found nothing, the id is a non-resident block on top of `S`, or in neither. -/
inductive Missed (P : Setup) (req : Request) (s s' : State) : Prop
  | nonresident (sound : Sound P (some (req.obj_id, false)) s')
      (bottom : Good P s → ∃ l y, stack s'.LRU_s = l ++ [(y, true)])
      (room : req.obj_size ≤ P.cache_size → s'.lirs_count + P.sz req.obj_id ≤ P.lirs_limit ∧
        s'.occupied_byte + req.obj_size ≤ P.cache_size ∨ Pruned s' ∧ Clears P req.obj_id req.obj_size s')
  | new (same : s' = s) (notMem_S : s.LRU_s.q.lookup req.obj_id = none) (notMem_Q : s.LRU_q.q.lookup req.obj_id = none)

theorem Sound.held (h : Sound P none s) (hx : s.LRU_s.q.lookup x = some o) (hmd : o.md = ⟨false, false⟩) :
    Sound P (some (x, false)) { s with LRU_s := to_head s.LRU_s x o } := by
  have hhir : o.md.is_LIR = false := by rw [hmd]
  have hcore : Core P none { s with LRU_s := to_head s.LRU_s x o } := h.toCore.reorder (insert_perm hx) (.refl _)
  have hQ : s.LRU_q.q.lookup x = none := by
    rcases hq : s.LRU_q.q.lookup x with _ | q
    · rfl
    · have hres := h.tables.Q_in_S _ q o hq hx
      rw [hmd] at hres
      cases hres
  refine ⟨⟨hcore.frame, ?_, ?_, hcore.counts⟩, { h with }⟩
  · have ht := hcore.tables.hold_HIR (AList.lookup_insert _) hmd
    rw [Function.update_eq_self_iff.2 hQ.symm] at ht
    exact ht
  · intro y r hy
    cases hy
    exact ⟨_, by rw [← hhir]; exact stack_to_head _ _ _⟩

theorem missed_nonresident (h : Sound P none s) (hcan : CanGet s req)
    (hx : s.LRU_s.q.lookup req.obj_id = some o) (hmd : o.md = ⟨false, false⟩) :
    Missed P req s { s with LRU_s := to_head s.LRU_s req.obj_id o } := by
  have hhir : o.md.is_LIR = false := by rw [hmd]
  have hin : o.md.in_cache = false := by rw [hmd]
  have hlirs := lirs_to_head hx hhir
  refine .nonresident (h.held hx hmd) (fun hs => hs.bottom_to_head hx hhir) fun hle => ?_
  simp only [CanGet, hx, hhir, hin, false_eq_true] at hcan
  rw [h.frame.no_md, add_zero, h.frame.cache_size, h.frame.lirs_limit, h.frame.hirs_limit, (h.tables.S_rec _ o hx).1,
    LIR_sizes_eq h.toCore, HIR_sizes_eq h.toCore] at hcan
  refine (hcan hle).imp_right fun ⟨hbottom, hclears⟩ => ⟨?_, ?_⟩
  · obtain ⟨l, y, hl⟩ := bottom_to_head hbottom
    exact pruned_of_bottom hl
  · unfold Clears
    rw [hlirs]
    exact hclears

theorem LIRS_find_spec (h : Sound P none s) (hcan : CanGet s req) :
    ∃ s' hit, LIRS_find s req true = some (s', hit) ∧
      if hit then Sound P none s' ∧ (Good P s → Good P s') else Missed P req s s' := by
  rcases hS : s.LRU_s.q.lookup req.obj_id with _ | o
  · rcases hQ : s.LRU_q.q.lookup req.obj_id with _ | q
    · refine ⟨s, false, ?_, .new rfl hS hQ⟩
      simp [LIRS_find, Lru.LRU_find_miss hS, Lru.LRU_find_miss hQ]
    · have hq := h.tables.Q_rec _ q hQ
      simp only [CanGet, hS, hQ] at hcan
      rw [h.frame.lirs_limit, h.frame.hirs_limit, LIR_sizes_eq h.toCore, show q.obj_size = P.sz req.obj_id by rw [hq.1]] at hcan
      obtain ⟨s', hhit, hres⟩ := hit_RD_HIRinQ_spec h hS hQ hcan
      refine ⟨s', true, ?_, hres⟩
      have hin : q.md.in_cache = true := by rw [hq.1]
      simp only [LIRS_find, Lru.LRU_find_miss hS, Lru.LRU_find_hit hQ, hin]
      exact map_eq_some_iff.2 ⟨s', hhit, rfl⟩
  · have hfind := Lru.LRU_find_hit hS
    rcases hmd : o.md with ⟨is_LIR, in_cache⟩
    cases is_LIR with
    | true =>
      have hlir : o.md.is_LIR = true := by rw [hmd]
      have hQ := h.tables.lir_notMem_Q hS hlir
      obtain ⟨s', hprune, hsound, hgood⟩ := hit_LIR_spec h hS hlir
      refine ⟨s', true, ?_, hsound, fun _ => hgood⟩
      simp only [LIRS_find, hfind, Lru.LRU_find_miss hQ, hlir]
      exact map_eq_some_iff.2 ⟨s', hprune, rfl⟩
    | false =>
      have hhir : o.md.is_LIR = false := by rw [hmd]
      cases in_cache with
      | true =>
        have hin : o.md.in_cache = true := by rw [hmd]
        obtain ⟨q, hQ⟩ : ∃ q, s.LRU_q.q.lookup req.obj_id = some q := by
          rcases h.tables.S_in_Q _ o hS hmd with hq | hhold
          · exact hq
          · cases hhold
        simp only [CanGet, hS, hhir, hin] at hcan
        rw [h.frame.lirs_limit, (h.tables.S_rec _ o hS).1] at hcan
        obtain ⟨s', hhit, hres⟩ := hit_RD_HIRinS_spec h hS hmd hQ hcan
        refine ⟨s', true, ?_, hres⟩
        simp only [LIRS_find, hfind, Lru.LRU_find_hit hQ, hhir, hin]
        exact map_eq_some_iff.2 ⟨s', hhit, rfl⟩
      | false =>
        have hin : o.md.in_cache = false := by rw [hmd]
        refine ⟨{ s with LRU_s := to_head s.LRU_s req.obj_id o }, false, ?_, missed_nonresident h hcan hS hmd⟩
        have hQ : s.LRU_q.q.lookup req.obj_id = none := (h.held hS hmd).toCore.held_notMem_Q (e := ⟨req.obj_id, o⟩)
        simp only [LIRS_find, hfind, Lru.LRU_find_miss hQ, hhir, hin, false_eq_true]
        rfl

/-! ## A miss -/

theorem Core.release (h : Core P (some (x, false)) s) : Core P none s := by
  obtain ⟨h1, h2, h3, h4, h5, -⟩ := h.tables
  refine ⟨h.frame, ⟨h1, h2, h3, fun y o hy hmd => ?_, h5, (fun _ _ hy => nomatch hy)⟩, (fun _ _ hy => nomatch hy), h.counts⟩
  refine .inl ((h4 y o hy hmd).resolve_right ?_)
  simp

theorem full_for_eq (h : Core P hold s) : ops.full_for req s = true ↔ s.occupied_byte + req.obj_size > P.cache_size := by
  rw [full_for_iff]
  have hmd := h.frame.no_md
  have hcs := h.frame.cache_size
  show s.cache_size < s.occupied_byte + req.obj_size + s.obj_md_size ↔ _
  omega

theorem evict_loop_held {e : Block} (hreq : req.obj_id = e.1) (h : Sound P (some (e.1, false)) s)
    (hlirs : s.lirs_count + P.sz e.1 ≤ P.lirs_limit)
    (hroom : s.occupied_byte + req.obj_size ≤ P.cache_size ∨ Pruned s ∧ Clears P e.1 req.obj_size s) :
    ∃ s', whileLoop (ops.full_for req) (fun s => ops.evict s req) (forget s e).occupied_byte.toNat (forget s e) =
        some (forget s' e) ∧
      Sound P (some (e.1, false)) s' ∧ s'.lirs_count + P.sz e.1 ≤ P.lirs_limit ∧ (Pruned s → Pruned s') ∧
      ops.full_for req (forget s' e) = false := by
  let J : State → Prop := fun t => Sound P (some (e.1, false)) t ∧ t.lirs_count + P.sz e.1 ≤ P.lirs_limit ∧
    (t.occupied_byte + req.obj_size ≤ P.cache_size ∨ Pruned t ∧ Clears P e.1 req.obj_size t) ∧ (Pruned s → Pruned t)
  have hbody : ∀ t, J t → ops.full_for req t = true → ∃ t', LIRS_evict t req = some t' ∧
      LIRS_evict (forget t e) req = some (forget t' e) ∧ J t' ∧ t'.occupied_byte.toNat < t.occupied_byte.toNat := by
    rintro t ⟨hsound, hle, hcase, -⟩ hfull
    rw [full_for_eq hsound.toCore] at hfull
    obtain ⟨hpruned, hclears⟩ := hcase.resolve_left (not_le.2 hfull)
    have hkeep : ∀ v v' y, Core P (some (e.1, false)) v → Core P (some (e.1, false)) v' → v.occupied_byte = t.occupied_byte →
        Demotes P y v v' → v.lirs_count + P.sz e.1 ≤ P.lirs_limit ∧ Clears P e.1 req.obj_size v →
        v'.lirs_count + P.sz e.1 ≤ P.lirs_limit ∧ Clears P e.1 req.obj_size v' := by
      rintro v v' y hv hv' hocc hd ⟨hvle, hvc⟩
      refine ⟨?_, hvc.demoted hv hv' hd fun hno => ?_⟩
      · have hpos := P.sz_pos y
        rw [hv.counts.lirs, hd.lirs, Setup.total_append, Setup.total_cons, Setup.total_nil] at hvle
        rw [hv'.counts.lirs]
        omega
      · omega
    obtain ⟨t', hev, hforget, hfrees, hpruned', hle', hclears'⟩ := LIRS_evict_held
      (fun v => v.lirs_count + P.sz e.1 ≤ P.lirs_limit ∧ Clears P e.1 req.obj_size v) hreq hsound hpruned
      (hclears.large hsound.toCore hfull) ⟨hle, hclears⟩ hkeep
    refine ⟨t', hev, hforget, ⟨hfrees.sound, hle', .inr ⟨hpruned', hclears'⟩, fun _ => hpruned'⟩, ?_⟩
    have hless := hfrees.less
    have hpos := hfrees.sound.toCore.occupied_eq
    have hnonneg := P.total_nonneg (residents t')
    omega
  have hstart : J s := ⟨h, hlirs, hroom, fun hs => hs⟩
  obtain ⟨s', hloop, ⟨hsound, hle, -, hpruned⟩, hstop⟩ := whileLoop_total J (fun t => t.occupied_byte.toNat)
    (fun t ht hc => (hbody t ht hc).imp fun t' ht' => ⟨ht'.1, ht'.2.2⟩) s.occupied_byte.toNat s hstart le_rfl
  refine ⟨s', ?_, hsound, hle, hpruned, hstop⟩
  refine whileLoop_commute (fun t => forget t e) J (fun _ => rfl) ?_ _ _ _ hstart hloop
  intro t t' ht hc hev
  obtain ⟨t1, hev1, hforget, hJ, -⟩ := hbody t ht hc
  cases hev1.symm.trans hev
  exact ⟨hforget, hJ⟩

theorem can_insert_nonresident (h : Sound P (some (req.obj_id, false)) s)
    (hx : s.LRU_s.q.lookup req.obj_id = some o) (hmd : o.md = ⟨false, false⟩) (hle : req.obj_size ≤ P.cache_size)
    (hroom : s.lirs_count + P.sz req.obj_id ≤ P.lirs_limit ∧ s.occupied_byte + req.obj_size ≤ P.cache_size ∨
      Pruned s ∧ Clears P req.obj_id req.obj_size s) :
    ∃ s', LIRS_can_insert s req = some (forget s' ⟨req.obj_id, o⟩, true) ∧ Sound P (some (req.obj_id, false)) s' ∧
      s'.lirs_count + P.sz req.obj_id ≤ P.lirs_limit ∧
      (s'.occupied_byte + req.obj_size ≤ P.cache_size ∨ Pruned s' ∧ Clears P req.obj_id req.obj_size s') ∧
      (Pruned s → Pruned s') := by
  obtain ⟨hsize, hsz, -⟩ := h.tables.S_rec _ o hx
  have hcan : ∀ s', make_LIR_room (P.sz req.obj_id) s = some s' →
      LIRS_can_insert s req = some (forget s' ⟨req.obj_id, o⟩, true) := by
    intro s' hloop
    have hfits : ¬ req.obj_size + s.obj_md_size > s.cache_size := by
      rw [h.frame.no_md, h.frame.cache_size]
      omega
    have hnr : is_nonresident o = true := by simp [is_nonresident, hmd]
    simp only [LIRS_can_insert, if_neg hfits, hx, hnr, hsize, hloop]
    rfl
  rcases hroom with ⟨hlirs, hfits⟩ | ⟨hpruned, hclears⟩
  · have hstop : decide (s.lirs_count + P.sz req.obj_id > s.lirs_limit) = false := by
      rw [h.frame.lirs_limit]
      exact decide_eq_false (not_lt.2 hlirs)
    exact ⟨s, hcan s (whileLoop_stop _ _ _ _ hstop), h, hlirs, .inl hfits, fun hs => hs⟩
  · obtain ⟨s', hloop, hsound, hclears', hfit, hkeeps⟩ := make_LIR_room_spec (Clears P req.obj_id req.obj_size)
      (P.size_le_lirs hsz) (fun t t' y ht ht' hfull hd hI => hI.demoted ht ht' hd fun hno => by omega) h
      (fun _ => hpruned) hclears
    exact ⟨s', hcan s' hloop, hsound, hfit, .inr ⟨hkeeps hpruned, hclears'⟩, hkeeps⟩

theorem insert_nonresident {e : Block} (hreq : req.obj_id = e.1) (h : Sound P (some (e.1, false)) s)
    (hfit : s.lirs_count + P.sz e.1 ≤ P.lirs_limit) (hsize : e.2.obj_size = P.sz e.1) :
    Sound P none (LIRS_insert (forget s e) req) ∧ (Pruned s → Good P (LIRS_insert (forget s e) req)) := by
  have hN : (fun y => (s.LRU_nh.LRU_remove e.1).1.q.lookup y) = Function.update (fun y => s.LRU_nh.q.lookup y) e.1 none := by
    rw [← lookup_erase_eq_update, Lru.LRU_remove_q]
  obtain ⟨o, hx, hmd, hosize, hdone⟩ := h.promote hfit (k := (forget s e).nonresident) hN (h.toLedger.forget hsize)
  apply hdone
  have hnr : is_nonresident o = true := by simp [is_nonresident, hmd]
  have hlook : (forget s e).LRU_s.q.lookup req.obj_id = some o := hreq ▸ hx
  have hcharge : o.obj_size + (forget s e).obj_md_size = P.sz e.1 := by
    rw [show (forget s e).obj_md_size = 0 from h.frame.no_md, add_zero, hosize]
  simp only [LIRS_insert, hlook, hnr, hcharge]
  rw [hosize, hreq]
  rfl

theorem Sound.insert_LIR (h : Sound P none s) (hreq : req.obj_size = P.sz req.obj_id)
    (hS : s.LRU_s.q.lookup req.obj_id = none) (hQ : s.LRU_q.q.lookup req.obj_id = none)
    (hsz : P.sz req.obj_id ≤ P.hirs_limit) (hfit : s.lirs_count + P.sz req.obj_id ≤ P.lirs_limit) :
    Sound P none (insert_LIR s req) ∧ (Good P s → Good P (insert_LIR s req)) := by
  have hstack : stack (s.LRU_s.LRU_insert req ⟨true, true⟩) = (req.obj_id, true) :: stack s.LRU_s := stack_insert _ hS
  have hcore : Core P none (Lirs.insert_LIR s req) := by
    refine ⟨h.frame, ?_, (fun _ _ hx => nomatch hx), ?_⟩
    · have ht := h.tables.insert_S_LIR hQ hS hsz
      rw [← hreq, ← lookup_insert_eq_update] at ht
      exact ht
    · have hc := h.counts.add_LIR hfit
      rw [← lirs_lir, ← hstack, ← hreq] at hc
      unfold Lirs.insert_LIR
      rw [h.frame.no_md, add_zero]
      exact hc
  refine ⟨⟨hcore, { h with }⟩, fun hs => ⟨hcore, .inr ?_⟩⟩
  show ∃ l y, stack (s.LRU_s.LRU_insert req ⟨true, true⟩) = l ++ [(y, true)]
  rw [hstack]
  rcases hs.bottom with ⟨hnil, -⟩ | ⟨l, y, hl⟩
  · exact ⟨[], req.obj_id, by rw [hnil]; rfl⟩
  · exact ⟨(req.obj_id, true) :: l, y, by rw [hl, cons_append]⟩

theorem Sound.insert_HIR (h : Sound P none s) (hreq : req.obj_size = P.sz req.obj_id)
    (hS : s.LRU_s.q.lookup req.obj_id = none) (hQ : s.LRU_q.q.lookup req.obj_id = none)
    (hsz : P.sz req.obj_id ≤ P.hirs_limit) (hfull : s.lirs_count + P.sz req.obj_id > P.lirs_limit)
    (hfit : s.hirs_count + P.sz req.obj_id ≤ P.hirs_limit) :
    Sound P none (insert_HIR s req) ∧ (Good P s → Good P (insert_HIR s req)) := by
  have hadd : Sound P none { s with
      LRU_q := s.LRU_q.LRU_insert req ⟨false, true⟩, hirs_count := s.hirs_count + req.obj_size
      occupied_byte := s.occupied_byte + (req.obj_size + s.obj_md_size), n_obj := s.n_obj + 1 } :=
    ⟨h.toCore.add_Q req hreq hS hQ hsz hfit, h.queue.insert _ (AList.lookup_eq_none.1 hQ), h.sizes, h.nonresident⟩
  have hsound : Sound P none (Lirs.insert_HIR s req) := hadd.add_HIR req hreq hS (AList.lookup_insert _)
  refine ⟨hsound, fun hs => ⟨hsound.toCore, .inr (bottom_add_HIR hS ?_)⟩⟩
  -- the LIR blocks are many
  rcases hs.bottom with ⟨hnil, -⟩ | hl
  · have hzero := h.counts.lirs
    have hle := P.hirs_le
    rw [hnil, lirs_nil, Setup.total_nil] at hzero
    omega
  · exact hl

theorem can_insert_new (hreq : req.obj_size = P.sz req.obj_id) (h : Sound P none s)
    (hS : s.LRU_s.q.lookup req.obj_id = none) (hQ : s.LRU_q.q.lookup req.obj_id = none) :
    LIRS_can_insert s req = some (s, false) ∨ ∃ s', LIRS_can_insert s req = some (s', true) ∧
      ops.full_for req s' = false ∧ Sound P none (LIRS_insert s' req) ∧ (Good P s → Good P (LIRS_insert s' req)) := by
  have hhl := h.frame.hirs_limit
  have hll := h.frame.lirs_limit
  have hocc := h.counts.occupied
  have hlirs := h.counts.lirs_fit
  have hhirs := h.counts.hirs_fit
  have hlim := P.limits
  by_cases hbig : req.obj_size + s.obj_md_size > s.cache_size
  · exact .inl (by simp only [LIRS_can_insert, if_pos hbig])
  by_cases hlarge : req.obj_size > s.lirs_limit ∨ req.obj_size > s.hirs_limit
  · exact .inl (by simp only [LIRS_can_insert, if_neg hbig, hS, hQ, if_pos hlarge])
  have hsz : P.sz req.obj_id ≤ P.hirs_limit := by omega
  right
  by_cases hfull : s.lirs_count + req.obj_size > s.lirs_limit ∧ s.hirs_count + req.obj_size > s.hirs_limit
  · -- the oldest blocks of `Q` make room for a new one
    obtain ⟨s1, hroom, hcore, hstack, hfit, htrim⟩ := make_room_spec h.toCore hsz
    have hsound := h.make_room hroom
    have hS1 : s1.LRU_s.q.lookup req.obj_id = none := by
      rw [lookup_none_iff_stack] at hS ⊢
      rwa [hstack]
    have hQ1 : s1.LRU_q.q.lookup req.obj_id = none := by
      rw [lookup_none_iff_keys] at hQ ⊢
      exact fun hmem => hQ (htrim.isPrefix.mem hmem)
    have hcount : s1.lirs_count = s.lirs_count := by
      rw [hcore.counts.lirs, hstack, h.counts.lirs]
    obtain ⟨hin, hgood⟩ := hsound.insert_HIR hreq hS1 hQ1 hsz (by omega) (by omega)
    have hno : ¬ s1.lirs_count + req.obj_size ≤ s1.lirs_limit := by
      rw [hcount, hcore.frame.lirs_limit]
      omega
    have hinsert : LIRS_insert s1 req = Lirs.insert_HIR s1 req := by
      simp only [LIRS_insert, hS1, hQ1, if_neg hno]
    rw [← hreq] at hroom
    refine ⟨s1, ?_, ?_, hinsert ▸ hin, fun hs => hinsert ▸ hgood ⟨hcore, ?_⟩⟩
    · simp only [LIRS_can_insert, if_neg hbig, hS, hQ, if_neg hlarge, if_pos hfull, hroom]
      rfl
    · rw [eq_false_iff, ne_eq, full_for_eq hcore]
      have hocc1 := hcore.counts.occupied
      omega
    · rw [hstack]
      rcases hs.bottom with ⟨hnil, hkeys⟩ | hl
      · have hpre := htrim.isPrefix
        rw [hkeys, prefix_nil] at hpre
        exact .inl ⟨hnil, hpre⟩
      · exact .inr hl
  · refine ⟨s, ?_, ?_, ?_⟩
    · simp only [LIRS_can_insert, if_neg hbig, hS, hQ, if_neg hlarge, if_neg hfull]
    · rw [eq_false_iff, ne_eq, full_for_eq h.toCore]
      omega
    · simp only [LIRS_insert, hS, hQ]
      by_cases hl : s.lirs_count + req.obj_size ≤ s.lirs_limit
      · rw [if_pos hl]
        exact h.insert_LIR hreq hS hQ hsz (by omega)
      · rw [if_neg hl]
        exact h.insert_HIR hreq hS hQ hsz (by omega) (by omega)

theorem limitStack_step_spec (h : Sound P none s) {n : FifoObj Md} (hto : s.LRU_nh.LRU_to_evict = some ⟨x, n⟩) :
    ∃ s', limitStack_step s = some s' ∧ Sound P none s' ∧ (Good P s → Good P s') ∧
      s'.LRU_nh.q.entries.length < s.LRU_nh.q.entries.length := by
  obtain ⟨l, hl⟩ := getLast?_eq_some_iff.1 hto
  obtain ⟨-, hev, herase⟩ := Lru.LRU_evict_last hl
  have hN : s.LRU_nh.q.lookup x = some n := Fifo.lookup_to_evict hto
  obtain ⟨o, hS, hmd⟩ := (h.tables.nh x).1 (by rw [hN]; exact some_ne_none n)
  have hcore : Core P none { s with
      nonresident := s.nonresident - n.obj_size, LRU_s := (s.LRU_s.LRU_remove x).1
      LRU_nh := s.LRU_nh.cache_remove_obj_base x n } := by
    refine ⟨h.frame, ?_, (fun _ _ hx => nomatch hx), ?_⟩
    · have htab := h.tables.erase_S (x := x) (fun _ hx => nomatch hx)
      rw [← lookup_erase_eq_update, ← lookup_erase_eq_update, ← Lru.LRU_remove_q] at htab
      exact htab
    · have hlirs : lirs (stack (s.LRU_s.LRU_remove x).1) = lirs (stack s.LRU_s) := by
        obtain ⟨l1, l2, hs, herase', -⟩ := split_at hS
        rw [stack, Lru.LRU_remove_q, herase', stack, hs, map_append, map_append, map_cons, hmd,
          lirs_append, lirs_append, lirs_hir]
      rw [hlirs]
      exact h.counts
  refine ⟨_, ?_, ⟨hcore, h.queue, fun y m hy => ?_, ?_⟩, fun hs => ⟨hcore, .inr ?_⟩, ?_⟩
  · simp only [limitStack_step, hto, hev, bind_eq_bind]
    rfl
  · by_cases hyx : y = x
    · subst hyx
      exact absurd hy (by simp [Fifo.cache_remove_obj_base])
    · exact h.sizes y m ((AList.lookup_erase_ne hyx).symm.trans hy)
  · show s.nonresident - n.obj_size = P.total (s.LRU_nh.q.erase x).keys
    rw [h.nonresident, total_erase hN, h.sizes x n hN]
    omega
  · obtain ⟨l', y, hbottom⟩ := hs.bottom_erase hS (by rw [hmd])
    refine ⟨l', y, ?_⟩
    rw [stack, Lru.LRU_remove_q, hbottom]
  · show (s.LRU_nh.q.erase x).entries.length < _
    rw [herase, hl]
    simp

theorem limitStack_spec (h : Sound P none s) : ∃ s', limitStack s = some s' ∧ Sound P none s' ∧ (Good P s → Good P s') := by
  let I : State → Prop := fun t => Sound P none t ∧ (Good P s → Good P t)
  have hbody : ∀ t, I t → (t.LRU_nh.LRU_to_evict.isSome && decide (t.LRU_s.occupied_byte > 2 * t.cache_size)) = true →
      ∃ t', limitStack_step t = some t' ∧ I t' ∧ t'.LRU_nh.q.entries.length < t.LRU_nh.q.entries.length := by
    rintro t ⟨hsound, hgood⟩ hcond
    obtain ⟨⟨x, n⟩, hto⟩ := isSome_iff_exists.1 (and_eq_true _ _ ▸ hcond).1
    obtain ⟨t', hstep, hsound', hgood', hless⟩ := limitStack_step_spec hsound hto
    exact ⟨t', hstep, ⟨hsound', fun hs => hgood' (hgood hs)⟩, hless⟩
  obtain ⟨s', hloop, hI, -⟩ := whileLoop_total I (fun t => t.LRU_nh.q.entries.length) hbody
    s.LRU_nh.q.entries.length s ⟨h, fun hs => hs⟩ le_rfl
  exact ⟨s', hloop, hI⟩

/-! ## A get -/

theorem Sound.count_req (h : Sound P none s) : Sound P none { s with n_req := s.n_req + 1 } :=
  ⟨{ h with }, { h with }⟩

theorem miss_spec {v : State} (hreq : s.LRU_s.q.lookup req.obj_id = none → s.LRU_q.q.lookup req.obj_id = none →
      req.obj_size = P.sz req.obj_id) (h : Sound P none s) (hmiss : Missed P req s v) :
    ∃ s', Sound P none s' ∧ (Good P s → Good P s') ∧ ∀ u, ops.find (ops.count_req u) req = some (v, false) →
      ops.cache_get_base (fun s => s.occupied_byte.toNat) u req = some (s', false) := by
  cases hmiss with
  | nonresident hsound hbottom hroom =>
    obtain ⟨-, o, hx, hmd⟩ := hsound.tables.held _ _ rfl
    by_cases hle : req.obj_size ≤ P.cache_size
    · obtain ⟨w, hcan, hw, hfit, hroom', hpruned⟩ := can_insert_nonresident hsound hx hmd hle (hroom hle)
      obtain ⟨t, hloop, ht, hfit', hpruned', -⟩ := evict_loop_held (e := ⟨req.obj_id, o⟩) rfl hw hfit hroom'
      obtain ⟨hin, hgood⟩ := insert_nonresident (e := ⟨req.obj_id, o⟩) rfl ht hfit' (hsound.tables.S_rec _ o hx).1
      refine ⟨_, hin, fun hs => hgood (hpruned' (hpruned ?_)), fun u hfind =>
        cache_get_base_insert hfind hcan hloop rfl⟩
      obtain ⟨l, y, hl⟩ := hbottom hs
      exact pruned_of_bottom hl
    · have hlarge : v.cache_size < req.obj_size + v.obj_md_size := by
        rw [hsound.frame.no_md, hsound.frame.cache_size]
        omega
      have hreject : ops.can_insert v req = some (v, false) := if_pos hlarge
      have hout : Sound P none v := ⟨hsound.toCore.release, hsound.toLedger⟩
      exact ⟨v, hout, fun hs => ⟨hout.toCore, .inr (hbottom hs)⟩, fun u hfind => cache_get_base_reject hfind hreject⟩
  | new hsame hS hQ =>
    rcases can_insert_new (hreq hS hQ) h hS hQ with hcan | ⟨t, hcan, hstop, hin, hgood⟩
    · exact ⟨s, h, fun hs => hs, fun u hfind => cache_get_base_reject (hsame ▸ hfind) hcan⟩
    · exact ⟨_, hin, hgood, fun u hfind =>
        cache_get_base_insert (hsame ▸ hfind) hcan (whileLoop_stop _ _ _ _ hstop) rfl⟩

theorem LIRS_get_spec (h : Sound P none s) (hreq : s.LRU_s.q.lookup req.obj_id = none →
      s.LRU_q.q.lookup req.obj_id = none → req.obj_size = P.sz req.obj_id) (hcan : CanGet s req) :
    ∃ s' hit, LIRS_get s req = some (s', hit) ∧ Sound P none s' ∧ (Good P s → Good P s') := by
  have hgood0 : Good P s → Good P { s with n_req := s.n_req + 1 } := fun hs => hs.frame rfl
  have hbase : ∃ t hit, ops.cache_get_base (fun s => s.occupied_byte.toNat) s req = some (t, hit) ∧ Sound P none t ∧
      (Good P s → Good P t) := by
    obtain ⟨v, hit, hfind, hafter⟩ := @LIRS_find_spec _ _ req h.count_req hcan
    cases hit with
    | true => exact ⟨v, true, cache_get_base_hit hfind, hafter.1, fun hs => hafter.2 (hgood0 hs)⟩
    | false =>
      obtain ⟨t, ht, hgood, hget⟩ := miss_spec (s := { s with n_req := s.n_req + 1 }) hreq h.count_req hafter
      exact ⟨t, false, hget s hfind, ht, fun hs => hgood (hgood0 hs)⟩
  obtain ⟨t, hit, hget, ht, hgood⟩ := hbase
  obtain ⟨s', hlimit, hsound, hgood'⟩ := limitStack_spec ht
  refine ⟨s', hit, ?_, hsound, fun hs => hgood' (hgood hs)⟩
  simp [LIRS_get, hget, hlimit]

end CacheSim.Lirs
