import CacheSim.Lirs.Evictions

/-!
# Hits

A hit demotes LIR blocks where the block that was hit becomes one, and for a block of `Q` that is not in `S`.
-/

namespace CacheSim.Lirs

open Lib List AList Table Setup

variable {P : Setup} {s : State} {x : ObjId}

structure Good (P : Setup) (s : State) : Prop where
  core : Core P none s
  bottom : stack s.LRU_s = [] ∧ s.LRU_q.q.keys = [] ∨ ∃ l x, stack s.LRU_s = l ++ [(x, true)]

theorem Good.of_pruned (h : Core P none s) (hp : Pruned s) (hlirs : lirs (stack s.LRU_s) ≠ []) : Good P s :=
  ⟨h, .inr (hp.bottom hlirs)⟩

theorem pruned_of_bottom {l : List (ObjId × Bool)} (h : stack s.LRU_s = l ++ [(x, true)]) : Pruned s := by
  intro l' b hl
  rw [h] at hl
  rw [← singleton_inj.1 (append_inj' hl rfl).2]
  exact .inr rfl

theorem Good.pruned (h : Good P s) : Pruned s := by
  rcases h.bottom with ⟨hnil, -⟩ | ⟨l, x, hl⟩
  · intro l b hl
    rw [hnil] at hl
    exact absurd hl (by simp)
  · exact pruned_of_bottom hl

theorem Good.frame {s' : State} (h : Good P s) (hs : s' = { s with n_req := s'.n_req }) : Good P s' := by
  rw [hs]
  exact ⟨{ h.core with }, h.bottom⟩

variable {S : Lru Md} {o q : FifoObj Md}

theorem Core.reorder (h : Core P none s) {S' Q' : Lru Md} (hS : S'.q.entries.Perm s.LRU_s.q.entries)
    (hQ : Q'.q.entries.Perm s.LRU_q.q.entries) : Core P none { s with LRU_s := S', LRU_q := Q' } := by
  refine ⟨h.frame, ?_, (fun _ _ hx => nomatch hx), h.counts.of_perm (((hS.map _).filter _).map _) (hQ.map _)⟩
  have hlookS : (fun x => S'.q.lookup x) = fun x => s.LRU_s.q.lookup x := funext fun x => perm_lookup hS
  have hlookQ : (fun x => Q'.q.lookup x) = fun x => s.LRU_q.q.lookup x := funext fun x => perm_lookup hQ
  rw [hlookS, hlookQ]
  exact h.tables

theorem insert_perm {t : Table ObjId (FifoObj Md)} (h : t.lookup x = some o) :
    (t.insert x o).entries.Perm t.entries := (perm_erase h).symm

def to_head (c : Lru Md) (x : ObjId) (o : FifoObj Md) : Lru Md := { c with q := c.q.insert x o }

theorem stack_to_head (S : Lru Md) (x : ObjId) (o : FifoObj Md) : stack (to_head S x o) =
    (x, o.md.is_LIR) :: (S.q.erase x).entries.map fun e => (e.1, e.2.md.is_LIR) := rfl

theorem Good.bottom_erase (h : Good P s) (hx : s.LRU_s.q.lookup x = some o) (hhir : o.md.is_LIR = false) :
    ∃ l y, (s.LRU_s.q.erase x).entries.map (fun e => (e.1, e.2.md.is_LIR)) = l ++ [(y, true)] := by
  obtain ⟨l1, l2, hs, herase, -⟩ := split_at hx
  rw [herase]
  rcases h.bottom with ⟨hnil, -⟩ | ⟨l, y, hl⟩
  · rw [stack, hs] at hnil
    exact absurd hnil (by simp)
  rw [stack, hs, map_append, map_cons, hhir] at hl
  rcases eq_nil_or_concat l2 with rfl | ⟨l2, e, rfl⟩
  · have hlast := singleton_inj.1 (append_inj' hl rfl).2
    cases hlast
  · rw [concat_eq_append, map_append, ← cons_append, ← append_assoc] at hl
    have hlast : (e.1, e.2.md.is_LIR) = (y, true) := singleton_inj.1 (append_inj' hl rfl).2
    refine ⟨(l1 ++ l2).map fun e => (e.1, e.2.md.is_LIR), y, ?_⟩
    rw [concat_eq_append, ← append_assoc, map_append, map_singleton, hlast]

theorem bottom_to_head (h : bottom_LIR (S.q.erase x).entries = true) : ∃ l y, stack (to_head S x o) = l ++ [(y, true)] := by
  obtain ⟨l, y, hl⟩ := stack_of_bottom (S := { S with q := S.q.erase x }) h
  refine ⟨(x, o.md.is_LIR) :: l, y, ?_⟩
  exact congrArg _ hl

theorem Good.bottom_to_head (h : Good P s) (hx : s.LRU_s.q.lookup x = some o)
    (hhir : o.md.is_LIR = false) : ∃ l y, stack (to_head s.LRU_s x o) = l ++ [(y, true)] := by
  obtain ⟨l, y, hl⟩ := h.bottom_erase hx hhir
  exact ⟨(x, o.md.is_LIR) :: l, y, by rw [stack_to_head, hl, cons_append]⟩

/-! ## A block becomes an LIR one -/

theorem Sound.promote {r : Bool} (h : Sound P (some (x, r)) s) (hfit : s.lirs_count + P.sz x ≤ P.lirs_limit)
    {N' : Lru Md} {k : Int} (hN' : (fun x => N'.q.lookup x) = Function.update (fun x => s.LRU_nh.q.lookup x) x none)
    (hledger : Ledger P { s with LRU_nh := N', nonresident := k }) :
    ∃ o, s.LRU_s.q.lookup x = some o ∧ o.md = ⟨false, r⟩ ∧ o.obj_size = P.sz x ∧ ∀ s', s' = { s with
        LRU_s := s.LRU_s.set_md x o ⟨true, true⟩, LRU_nh := N', nonresident := k
        lirs_count := s.lirs_count + P.sz x, occupied_byte := s.occupied_byte + P.sz x, n_obj := s.n_obj + 1 } →
      Sound P none s' ∧ (Pruned s → Good P s') := by
  obtain ⟨-, o, hlook, hmd⟩ := h.tables.held x r rfl
  obtain ⟨l, hl⟩ := h.top x r rfl
  have hsize := (h.tables.S_rec x o hlook).1
  obtain ⟨⟨y, o'⟩, rest, hs, hy, hrest⟩ := map_eq_cons_iff.1 hl
  simp only [Prod.mk.injEq] at hy
  obtain ⟨rfl, -⟩ := hy
  have ho' : o' = o :=
    Option.some.inj ((lookup_of_mem_entries (e := ⟨y, o'⟩) (by simp [hs])).symm.trans hlook)
  subst ho'
  have hstack : stack (s.LRU_s.set_md y o' ⟨true, true⟩) = (y, true) :: l := by
    show (s.LRU_s.q.replace y _).entries.map _ = _
    rw [replace_head hs, map_cons, hrest]
  refine ⟨o', hlook, hmd, hsize, ?_⟩
  rintro s' rfl
  have hcore : Core P none { s with
      LRU_s := s.LRU_s.set_md y o' ⟨true, true⟩, LRU_nh := N', nonresident := k
      lirs_count := s.lirs_count + P.sz y, occupied_byte := s.occupied_byte + P.sz y, n_obj := s.n_obj + 1 } := by
    refine ⟨h.frame, ?_, (fun _ _ hx => nomatch hx), ?_⟩
    · have ht := h.tables.promote
      rw [← hN', ← hsize, ← lookup_replace_eq_update hlook] at ht
      exact ht
    · have hc := h.counts
      rw [hl, lirs_hir] at hc
      have hc' := hc.add_LIR hfit
      rw [← lirs_lir, ← hstack] at hc'
      exact hc'
  refine ⟨⟨hcore, { hledger with }⟩, fun hp => .of_pruned hcore ?_ ?_⟩
  · intro l' b hl'
    rw [hstack] at hl'
    cases l' with
    | nil => exact .inl rfl
    | cons a l' =>
      rw [cons_append, List.cons.injEq] at hl'
      rcases hp ((y, false) :: l') b (by rw [hl, hl'.2, cons_append]) with hnil | hb
      · cases hnil
      · exact .inr hb
  · rw [hstack, lirs_lir]
    exact cons_ne_nil _ _

theorem Setup.size_le_lirs (P : Setup) (h : P.sz x ≤ P.hirs_limit) : P.sz x ≤ P.lirs_limit := h.trans P.hirs_le

theorem hit_LIR_spec (h : Sound P none s) (hx : s.LRU_s.q.lookup x = some o) (hlir : o.md.is_LIR = true) :
    ∃ s', LIRS_prune { s with LRU_s := to_head s.LRU_s x o } = some s' ∧ Sound P none s' ∧ Good P s' := by
  have hcore : Core P none { s with LRU_s := to_head s.LRU_s x o } := h.toCore.reorder (insert_perm hx) (.refl _)
  have hsound : Sound P none { s with LRU_s := to_head s.LRU_s x o } := ⟨hcore, { h with }⟩
  obtain ⟨s', hprune, hcore', hpruned, -, d, hd, hhir⟩ := LIRS_prune_spec hcore
  refine ⟨s', hprune, hsound.prune hprune, Good.of_pruned hcore' hpruned ?_⟩
  have hlirs : lirs (stack (to_head s.LRU_s x o)) = lirs (stack s'.LRU_s) := by
    rw [show stack (to_head s.LRU_s x o) = _ from hd, lirs_append, lirs_of_hir hhir, append_nil]
  rw [← hlirs, stack_to_head, hlir, lirs_lir]
  exact cons_ne_nil _ _

theorem hit_RD_HIRinS_spec (h : Sound P none s) (hx : s.LRU_s.q.lookup x = some o)
    (hmd : o.md = ⟨false, true⟩) (hq : s.LRU_q.q.lookup x = some q)
    (hbottom : s.lirs_count + P.sz x > P.lirs_limit → bottom_LIR (s.LRU_s.q.erase x).entries = true) :
    ∃ s', hit_RD_HIRinS { s with LRU_s := to_head s.LRU_s x o, LRU_q := to_head s.LRU_q x q } x o (some q) = some s' ∧
      Sound P none s' ∧ (Good P s → Good P s') := by
  obtain ⟨hsize, hsz, -⟩ := h.tables.S_rec x o hx
  have hqsize : q.obj_size = P.sz x := by rw [(h.tables.Q_rec x q hq).1]
  have hhir : o.md.is_LIR = false := by rw [hmd]
  have hmoved : Core P none { s with LRU_s := to_head s.LRU_s x o, LRU_q := to_head s.LRU_q x q } :=
    h.toCore.reorder (insert_perm hx) (insert_perm hq)
  have hxQ' : (to_head s.LRU_q x q).q.lookup x = some q := lookup_insert _
  -- the block has left `Q`
  let s1 : State := { s with
    LRU_s := to_head s.LRU_s x o, LRU_q := ((to_head s.LRU_q x q).LRU_remove x).1, hirs_count := s.hirs_count - q.obj_size
    occupied_byte := s.occupied_byte - q.obj_size, n_obj := s.n_obj - 1 }
  have hcore1 : Core P (some (x, true)) s1 := by
    refine ⟨h.frame, ?_, ?_, ?_⟩
    · have ht := hmoved.tables.hold_HIR (lookup_insert _) hmd
      rw [← lookup_erase_eq_update] at ht
      rw [Lru.LRU_remove_q]
      exact ht
    · intro y r hy
      cases hy
      exact ⟨_, by rw [← hhir]; exact stack_to_head _ _ _⟩
    · have hc := (hmoved.counts.of_perm (.refl _) ((perm_erase hxQ').map (·.1)).symm).drop_Q
      show Counts P _ ((to_head s.LRU_q x q).LRU_remove x).1.q.keys _ (s.hirs_count - q.obj_size)
        (s.occupied_byte - q.obj_size) _
      rw [Lru.LRU_remove_q, hqsize]
      exact hc
  have hqueue : ((to_head s.LRU_q x q).LRU_remove x).1.Inv := by
    have hhead : (to_head s.LRU_q x q).Inv := Lru.Inv.move_to_head h.queue hq
    unfold Lru.LRU_remove Fifo.FIFO_remove
    rw [hxQ']
    exact hhead.remove hxQ'
  have hsound1 : Sound P (some (x, true)) s1 := ⟨hcore1, hqueue, h.sizes, h.nonresident⟩
  have hpruned1 : s1.lirs_count + P.sz x > P.lirs_limit → Pruned s1 := fun hfull =>
    (bottom_to_head (hbottom hfull)).elim fun _ hl => hl.elim fun _ hl => pruned_of_bottom hl
  obtain ⟨s2, hroom, hsound2, -, hfit, hpruned⟩ :=
    make_LIR_room_spec (fun _ => True) (P.size_le_lirs hsz) (fun _ _ _ _ _ _ _ _ => trivial) hsound1 hpruned1 trivial
  have hN : (fun y => s2.LRU_nh.q.lookup y) = Function.update (fun y => s2.LRU_nh.q.lookup y) x none := by
    symm
    apply Function.update_eq_self_iff.2
    symm
    by_contra hn
    obtain ⟨o1, ho1, hmd1⟩ := (hsound2.tables.nh x).1 hn
    obtain ⟨-, o2, ho2, hmd2⟩ := hsound2.tables.held x true rfl
    rw [ho1] at ho2
    cases ho2
    rw [hmd1] at hmd2
    cases hmd2
  obtain ⟨o2, hlook2, hmd2, hsize2, hdone⟩ := hsound2.promote hfit hN hsound2.toLedger
  obtain ⟨hsound, hgood⟩ := hdone _ rfl
  refine ⟨_, ?_, hsound, fun hs => hgood (hpruned ?_)⟩
  · rw [← hsize] at hroom
    simp only [hit_RD_HIRinS, Option.bind_eq_bind]
    rw [show make_LIR_room o.obj_size _ = some s2 from hroom]
    simp only [Option.bind_some, hlook2, hmd2, hsize2]
    rfl
  · obtain ⟨l, y, hl⟩ := hs.bottom_to_head hx hhir
    exact pruned_of_bottom hl

/-! ## A hit in `Q` -/

/-- The sizes of the LIR blocks that the loop of `hit_RD_HIRinQ` demotes, from the bottom of `S` up. -/
def demoted (limit : Int) : List Int → Int → Int
  | [], _ => 0
  | size :: sizes, count => if count > limit then size + demoted limit sizes (count - size) else 0

theorem demoted_nonneg (limit : Int) (sizes : List Int) (hpos : ∀ n ∈ sizes, 0 < n) (count : Int) :
    0 ≤ demoted limit sizes count := by
  induction sizes generalizing count with
  | nil => exact le_rfl
  | cons n sizes ih =>
    unfold demoted
    split_ifs
    · have hn := hpos n (by simp)
      have htail := ih (fun m hm => hpos m (by simp [hm])) (count - n)
      omega
    · exact le_rfl

theorem demoted_of_le {limit count : Int} (sizes : List Int) (h : count ≤ limit) : demoted limit sizes count = 0 := by
  cases sizes with
  | nil => rfl
  | cons n sizes =>
    unfold demoted
    rw [if_neg (not_lt.2 h)]

structure Spared (P : Setup) (x : ObjId) (s : State) : Prop where
  away : x ∉ (stack s.LRU_s).map (·.1)
  lirs_left : lirs (stack s.LRU_s) ≠ []
  queue : ∃ young old, s.LRU_q.q.keys = young ++ x :: old ∧ P.total young + P.sz x +
    demoted P.lirs_limit ((lirs (stack s.LRU_s)).reverse.map P.sz) (s.lirs_count + P.sz x) ≤ P.hirs_limit

theorem Spared.step {t t' : State} {b : ObjId} (ht : Core P none t) (ht' : Core P none t')
    (hfull : t.lirs_count + P.sz x > P.lirs_limit) (hd : Demotes P b t t') (h : Spared P x t) : Spared P x t' := by
  obtain ⟨young, old, hkeys, hroom⟩ := h.queue
  have hcount := ht.counts.lirs
  have hcount' := ht'.counts.lirs
  rw [hd.lirs, total_append, total_cons, total_nil] at hcount
  rw [hd.lirs, reverse_append, reverse_singleton, singleton_append, map_cons, demoted,
    if_pos hfull, show t.lirs_count + P.sz x - P.sz b = t'.lirs_count + P.sz x by omega] at hroom
  have hnonneg : 0 ≤ demoted P.lirs_limit ((lirs (stack t'.LRU_s)).reverse.map P.sz) (t'.lirs_count + P.sz x) := by
    apply demoted_nonneg
    intro n hn
    obtain ⟨y, -, rfl⟩ := mem_map.1 hn
    exact P.sz_pos y
  refine ⟨fun hx => h.away (hd.ids x hx), ?_, ?_⟩
  · intro hnil
    have hyoung := P.total_nonneg young
    have hle := P.hirs_le
    rw [hnil, total_nil] at hcount hcount'
    omega
  · obtain ⟨kept, hkept, htrim⟩ := hd.queue
    have hstays : young ++ [x] <+: kept := by
      apply htrim.keeps
      · rw [hkeys]
        exact ⟨old, by simp⟩
      · rw [total_append, total_cons, total_nil]
        omega
    obtain ⟨old', hold'⟩ := hstays
    refine ⟨b :: young, old', ?_, ?_⟩
    · rw [hkept, ← hold']
      simp
    · rw [total_cons]
      omega

theorem stack_insert {req : Request} (md : Md) (h : S.q.lookup req.obj_id = none) :
    stack (S.LRU_insert req md) = (req.obj_id, md.is_LIR) :: stack S := by
  show (S.q.insert req.obj_id _).entries.map _ = _
  rw [entries_insert_of_notMem (lookup_eq_none.1 h)]
  rfl

theorem Sound.add_HIR (h : Sound P none s) (req : Request) (hreq : req.obj_size = P.sz req.obj_id)
    (hS : s.LRU_s.q.lookup req.obj_id = none) (hQ : s.LRU_q.q.lookup req.obj_id = some q) :
    Sound P none { s with LRU_s := s.LRU_s.LRU_insert req ⟨false, true⟩ } := by
  refine ⟨⟨h.frame, ?_, (fun _ _ hx => nomatch hx), ?_⟩, { h with }⟩
  · have ht := h.tables.insert_S_HIR hQ hS
    rw [← hreq, ← lookup_insert_eq_update] at ht
    exact ht
  · have hc := h.counts
    rw [← lirs_hir req.obj_id, ← stack_insert ⟨false, true⟩ hS] at hc
    exact hc

theorem bottom_add_HIR {req : Request} (hS : S.q.lookup req.obj_id = none)
    (hl : ∃ l y, stack S = l ++ [(y, true)]) : ∃ l y, stack (S.LRU_insert req ⟨false, true⟩) = l ++ [(y, true)] := by
  obtain ⟨l, y, hl⟩ := hl
  exact ⟨(req.obj_id, false) :: l, y, by rw [stack_insert _ hS, hl, cons_append]⟩

theorem Sound.queue_to_head (h : Sound P none s) (hq : s.LRU_q.q.lookup x = some q) :
    Sound P none { s with LRU_q := to_head s.LRU_q x q } :=
  ⟨h.toCore.reorder (.refl _) (insert_perm hq), Lru.Inv.move_to_head h.queue hq, h.sizes, h.nonresident⟩

theorem make_LIR_room_spares (h : Sound P none s) (hsz : P.sz x ≤ P.hirs_limit) (hx : s.LRU_s.q.lookup x = none) {old : List ObjId}
    (hq : s.LRU_q.q.keys = x :: old) (hroom : s.lirs_count + P.sz x > P.lirs_limit → bottom_LIR s.LRU_s.q.entries = true ∧
      P.sz x + demoted P.lirs_limit ((lirs (stack s.LRU_s)).reverse.map P.sz) (s.lirs_count + P.sz x) ≤ P.hirs_limit) :
    ∃ s', make_LIR_room (P.sz x) s = some s' ∧ Sound P none s' ∧ s'.LRU_s.q.lookup x = none ∧ x ∈ s'.LRU_q.q.keys ∧
      (Pruned s → lirs (stack s.LRU_s) ≠ [] → ∃ l y, stack s'.LRU_s = l ++ [(y, true)]) := by
  by_cases hfull : s.lirs_count + P.sz x > P.lirs_limit
  · obtain ⟨hbottom, hfits⟩ := hroom hfull
    obtain ⟨l, y, hl⟩ := stack_of_bottom hbottom
    have hspared : Spared P x s := by
      refine ⟨lookup_none_iff_stack.1 hx, ?_, [], old, hq, ?_⟩
      · rw [hl]
        simp
      · rw [total_nil, zero_add]
        exact hfits
    obtain ⟨s', hloop, hsound, hsp, -, hpruned⟩ := make_LIR_room_spec (Spared P x) (P.size_le_lirs hsz)
      (fun t t' b ht ht' hfull hd hI => hI.step ht ht' hfull hd) h (fun _ => pruned_of_bottom hl) hspared
    obtain ⟨young, old', hkeys, -⟩ := hsp.queue
    refine ⟨s', hloop, hsound, lookup_none_iff_stack.2 hsp.away, by simp [hkeys], fun hp _ => ?_⟩
    exact (hpruned hp).bottom hsp.lirs_left
  · have hstop : decide (s.lirs_count + P.sz x > s.lirs_limit) = false := by
      rw [h.frame.lirs_limit]
      exact decide_eq_false hfull
    exact ⟨s, whileLoop_stop _ _ _ _ hstop, h, hx, by simp [hq], fun hp hne => hp.bottom hne⟩

theorem hit_RD_HIRinQ_spec (h : Sound P none s) (hx : s.LRU_s.q.lookup x = none)
    (hq : s.LRU_q.q.lookup x = some q) (hroom : s.lirs_count + P.sz x > P.lirs_limit →
      bottom_LIR s.LRU_s.q.entries = true ∧
        P.sz x + demoted P.lirs_limit ((lirs (stack s.LRU_s)).reverse.map P.sz) (s.lirs_count + P.sz x) ≤ P.hirs_limit) :
    ∃ s', hit_RD_HIRinQ { s with LRU_q := to_head s.LRU_q x q } x q = some s' ∧ Sound P none s' ∧ (Good P s → Good P s') := by
  obtain ⟨rfl, hsz⟩ := h.tables.Q_rec x q hq
  obtain ⟨s2, hloop, hsound2, hx2, hmem, hbottom⟩ := make_LIR_room_spares (h.queue_to_head hq) hsz hx rfl hroom
  obtain ⟨q2, hq2⟩ := exists_lookup (AList.mem_keys.2 hmem)
  refine ⟨_, ?_, hsound2.add_HIR (obj_to_request ⟨x, ⟨P.sz x, ⟨false, true⟩⟩⟩) rfl hx2 hq2, fun hs => ⟨?_, .inr ?_⟩⟩
  · simp only [hit_RD_HIRinQ, hloop, Option.bind_eq_bind]
    rfl
  · exact (hsound2.add_HIR (obj_to_request ⟨x, ⟨P.sz x, ⟨false, true⟩⟩⟩) rfl hx2 hq2).toCore
  · apply bottom_add_HIR hx2
    apply hbottom hs.pruned
    -- a state with a block in `Q` has an LIR block
    rcases hs.bottom with ⟨-, hnil⟩ | ⟨l, y, hl⟩
    · have hmemQ := AList.mem_keys.1 (mem_of_lookup hq)
      rw [hnil] at hmemQ
      cases hmemQ
    · rw [hl]
      simp

end CacheSim.Lirs
