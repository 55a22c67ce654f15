import CacheSim.Lirs.Blocks

/-!
# The counters of `Q` and of `LRU_nh`

The moves of blocks also keep the counters that the sub-caches and `nonresident` have.
-/

namespace CacheSim.Lirs

open Lib Option

variable {P : Setup} {hold : Option (ObjId × Bool)} {s s' : State} {x : ObjId}

structure Ledger (P : Setup) (s : State) : Prop where
  queue : s.LRU_q.Inv
  sizes : ∀ x n, s.LRU_nh.q.lookup x = some n → n.obj_size = P.sz x
  nonresident : s.nonresident = P.total s.LRU_nh.q.keys

structure Sound (P : Setup) (hold : Option (ObjId × Bool)) (s : State) : Prop extends Core P hold s, Ledger P s

theorem Setup.total_perm (P : Setup) {l l' : List ObjId} (h : l.Perm l') : P.total l = P.total l' := (h.map P.sz).sum_eq

theorem total_erase {t : Table ObjId (FifoObj Md)} {n : FifoObj Md} (h : t.lookup x = some n) :
    P.total t.keys = P.sz x + P.total (t.erase x).keys := by
  have hperm : t.keys.Perm (x :: (t.erase x).keys) := (Table.perm_erase h).map Sigma.fst
  exact P.total_perm hperm

/-! ## Evicting from `Q` -/

theorem Core.evictHIR (h : Core P hold s) {b : Bool} (hev : evictHIR s = some (s', b)) : Core P hold s' := by
  rcases List.eq_nil_or_concat s.LRU_q.q.keys with hnil | ⟨l, y, hkeys⟩
  · have hent : s.LRU_q.q.entries = [] := List.map_eq_nil_iff.1 hnil
    simp [Lirs.evictHIR, Lru.LRU_to_evict, Fifo.FIFO_to_evict, hent] at hev
  · rw [List.concat_eq_append] at hkeys
    obtain ⟨t, ht, hcore, -⟩ := evictHIR_spec h hkeys
    cases ht.symm.trans hev
    exact hcore

theorem Core.notMem_nh (h : Core P hold s) {q : FifoObj Md} (hq : s.LRU_q.q.lookup x = some q) :
    s.LRU_nh.q.lookup x = none := by
  by_contra hn
  obtain ⟨o, ho, hmd⟩ := (h.tables.nh x).1 hn
  have hres := h.tables.Q_in_S x q o hq ho
  rw [hmd] at hres
  cases hres

theorem Ledger.mark_nonresident (h : Core P hold s) {q : FifoObj Md} (hq : s.LRU_q.q.lookup x = some q) {v : State}
    (hl : Ledger P v) (hS : v.LRU_s = s.LRU_s) (hN : v.LRU_nh = s.LRU_nh) : Ledger P (mark_nonresident v ⟨x, q⟩) := by
  unfold Lirs.mark_nonresident
  rcases ho : v.LRU_s.q.lookup x with _ | o
  · exact hl
  · have hmiss : v.LRU_nh.q.lookup x = none := hN ▸ h.notMem_nh hq
    have hsize : o.obj_size = P.sz x := (h.tables.S_rec x o (hS ▸ ho)).1
    refine ⟨hl.queue, fun y n hy => ?_, ?_⟩
    · change (v.LRU_nh.FIFO_insert (obj_to_request ⟨x, q⟩) {}).q.lookup y = some n at hy
      rw [Fifo.lookup_FIFO_insert] at hy
      split_ifs at hy with hyx
      · cases hy
        rw [hyx]
        show q.obj_size = P.sz x
        rw [(h.tables.Q_rec x q hq).1]
      · exact hl.sizes y n hy
    · show v.nonresident + o.obj_size = P.total (v.LRU_nh.q.insert x _).keys
      rw [keys_insert hmiss, P.total_cons, hl.nonresident, hsize]
      omega

theorem Sound.evictHIR (h : Sound P hold s) {b : Bool} (hev : evictHIR s = some (s', b)) : Sound P hold s' := by
  refine ⟨h.toCore.evictHIR hev, ?_⟩
  simp only [Lirs.evictHIR, bind_eq_bind, bind_eq_some_iff] at hev
  obtain ⟨⟨y, q⟩, hto, hev⟩ := hev
  split_ifs at hev
  · cases hev
    exact h.toLedger
  · obtain ⟨Q', hQ', hev⟩ := bind_eq_some_iff.1 hev
    cases hev
    have hlook : s.LRU_q.q.lookup y = some q := Fifo.lookup_to_evict hto
    have hout : Q' = s.LRU_q.cache_remove_obj_base y q := by
      simp only [Lru.LRU_evict, Fifo.FIFO_evict, bind_eq_bind, bind_eq_some_iff] at hQ'
      obtain ⟨e, he, hQ'⟩ := hQ'
      cases hto.symm.trans he
      cases hQ'
      rfl
    have hledger : Ledger P { s with hirs_count := s.hirs_count - q.obj_size, LRU_q := Q' } :=
      { h with queue := hout ▸ h.queue.remove hlook }
    have hmark := hledger.mark_nonresident h.toCore hlook rfl rfl
    exact { hmark with }

theorem Sound.make_room (h : Sound P hold s) {size : Int} (hev : make_room size s = some s') : Sound P hold s' := by
  obtain ⟨w, hloop, rfl⟩ := map_eq_some_iff.1 hev
  exact (whileLoop_inv (fun w => Sound P hold w.1) (fun w w' hw _ hstep => hw.evictHIR hstep) _ _ _ h hloop).1

theorem Ledger.forget {e : Block} (hl : Ledger P s) (hsize : e.2.obj_size = P.sz e.1) : Ledger P (forget s e) := by
  unfold Lirs.forget Lru.LRU_remove Fifo.FIFO_remove
  rcases hn : s.LRU_nh.q.lookup e.1 with _ | n
  · exact hl
  · refine ⟨hl.queue, fun y m hy => ?_, ?_⟩
    · by_cases hye : y = e.1
      · subst hye
        exact absurd hy (by simp [Fifo.cache_remove_obj_base])
      · exact hl.sizes y m ((AList.lookup_erase_ne hye).symm.trans hy)
    · show s.nonresident - e.2.obj_size = P.total (s.LRU_nh.q.erase e.1).keys
      rw [hl.nonresident, total_erase hn, hsize]
      omega

section

variable (h : Sound P hold s)
include h

theorem Sound.prune_step (hstep : LIRS_prune_step s = some s') : Sound P hold s' := by
  obtain ⟨e, he, hrest⟩ := bind_eq_some_iff.1 hstep
  obtain ⟨t, ht, hcore, -⟩ := LIRS_prune_step_spec h.toCore he
  cases ht.symm.trans hstep
  refine ⟨hcore, ?_⟩
  obtain ⟨S', -, hrest⟩ := bind_eq_some_iff.1 hrest
  cases hrest
  obtain ⟨top, l, hs, -, -⟩ := obj_to_remove_some he
  have hlook : s.LRU_s.q.lookup e.1 = some e.2 := Table.lookup_of_mem_entries (by simp [hs])
  have hforget := h.toLedger.forget (h.tables.S_rec e.1 e.2 hlook).1
  split_ifs
  · exact { h with }
  · exact { hforget with }

theorem Sound.prune (hev : LIRS_prune s = some s') : Sound P hold s' :=
  (whileLoop_inv (Sound P hold) (fun _ _ hw _ hstep => hw.prune_step hstep) _ _ _ h hev).1

/-! ## Demoting the bottom of `S` -/

theorem Sound.demote_ledger {e : Block} (hQ : s.LRU_q.q.lookup e.1 = none)
    (hev : demote_to_Q s e = some s') : Ledger P s' := by
  unfold demote_to_Q at hev
  rw [h.frame.hirs_limit] at hev
  split_ifs at hev with hfit
  · obtain ⟨t, hroom, hev⟩ := bind_eq_some_iff.1 hev
    cases hev
    have ht := h.make_room hroom
    have hmiss : e.1 ∉ t.LRU_q.q := by
      obtain ⟨v, hv, -, -, -, htrim⟩ := make_room_spec h.toCore hfit
      cases hv.symm.trans hroom
      exact fun hmem => AList.lookup_eq_none.1 hQ (AList.mem_keys.2 (htrim.isPrefix.mem hmem))
    exact { ht with queue := ht.queue.insert _ hmiss }
  · cases hev
    exact h.toLedger

def dropped (s : State) (e : Block) : State :=
  { s with
    lirs_count := s.lirs_count - e.2.obj_size, LRU_s := s.LRU_s.cache_remove_obj_base e.1 e.2
    occupied_byte := s.occupied_byte - (e.2.obj_size + s.obj_md_size), n_obj := s.n_obj - 1 }

theorem Sound.demoting {l : List (ObjId × Bool)} (hs : stack s.LRU_s = l ++ [(x, true)])
    (hev : evictLIR s = some s') : ∃ (o : FifoObj Md) (v : State), s.LRU_s.LRU_to_evict = some ⟨x, o⟩ ∧
      s.LRU_s.LRU_evict = some (s.LRU_s.cache_remove_obj_base x o) ∧ Core P hold (dropped s ⟨x, o⟩) ∧
      demote_to_Q (dropped s ⟨x, o⟩) ⟨x, o⟩ = some v ∧ Sound P hold v ∧ LIRS_prune v = some s' := by
  obtain ⟨l', r, hent, -, hr⟩ := List.map_eq_append_iff.1 hs
  obtain ⟨⟨y, o⟩, rfl, hy⟩ := List.map_eq_singleton_iff.1 hr
  simp only [Prod.mk.injEq] at hy
  obtain ⟨rfl, hlir⟩ := hy
  have hlook : s.LRU_s.q.lookup y = some o := Table.lookup_of_mem_entries (e := ⟨y, o⟩) (by simp [hent])
  obtain ⟨hto, hout, -⟩ := Lru.LRU_evict_last hent
  obtain ⟨hsize, hsz, -⟩ := h.tables.S_rec y o hlook
  have hQ := h.tables.lir_notMem_Q hlook hlir
  obtain ⟨hdrop, -⟩ := h.toCore.drop_LIR hent hlir
  simp only [evictLIR, hto, hout, bind_eq_bind, bind_some] at hev
  obtain ⟨v, hdem, hprune⟩ := bind_eq_some_iff.1 hev
  have hsound : Sound P hold (dropped s ⟨y, o⟩) := ⟨hdrop, { h with }⟩
  have hS : (s.LRU_s.cache_remove_obj_base y o).q.lookup y = none := AList.lookup_erase _ _
  obtain ⟨u, -, hu, hcore, -⟩ := demote_to_Q_spec hdrop hsize hsz hS hQ
  cases hu.symm.trans hdem
  exact ⟨o, v, hto, hout, hdrop, hdem, ⟨hcore, hsound.demote_ledger hQ hdem⟩, hprune⟩

theorem Sound.evictLIR {l : List (ObjId × Bool)} (hs : stack s.LRU_s = l ++ [(x, true)])
    (hev : evictLIR s = some s') : Sound P hold s' := by
  obtain ⟨o, v, -, -, -, -, hsound, hprune⟩ := h.demoting hs hev
  exact hsound.prune hprune

end

theorem make_LIR_room_spec (I : State → Prop) {size : Int} (hsize : size ≤ P.lirs_limit)
    (hkeep : ∀ t t' x, Core P hold t → Core P hold t' → t.lirs_count + size > P.lirs_limit → Demotes P x t t' → I t → I t')
    (h : Sound P hold s) (hp : s.lirs_count + size > P.lirs_limit → Pruned s) (hI : I s) :
    ∃ s', make_LIR_room size s = some s' ∧ Sound P hold s' ∧ I s' ∧ s'.lirs_count + size ≤ P.lirs_limit ∧
      (Pruned s → Pruned s') := by
  let J : State → Prop := fun t => Sound P hold t ∧ I t ∧ (t.lirs_count + size > P.lirs_limit → Pruned t) ∧
    (Pruned s → Pruned t)
  have hbody : ∀ t, J t → decide (t.lirs_count + size > t.lirs_limit) = true →
      ∃ t', evictLIR t = some t' ∧ J t' ∧ (stack t'.LRU_s).length < (stack t.LRU_s).length := by
    rintro t ⟨hsound, hIt, hpruned, -⟩ hcond
    rw [decide_eq_true_eq, hsound.frame.lirs_limit] at hcond
    -- some LIR block is left, and so the bottom of `S` is one
    have hsome : lirs (stack t.LRU_s) ≠ [] := by
      intro hnil
      have hcount := hsound.counts.lirs
      rw [hnil, Setup.total_nil] at hcount
      omega
    obtain ⟨l, x, hs⟩ := (hpruned hcond).bottom hsome
    obtain ⟨t', hev, hcore', hpruned', hdem, -⟩ := evictLIR_spec hsound.toCore hs
    exact ⟨t', hev, ⟨hsound.evictLIR hs hev, hkeep t t' x hsound.toCore hcore' hcond hdem hIt, fun _ => hpruned',
      fun _ => hpruned'⟩, hdem.shorter⟩
  obtain ⟨s', hloop, ⟨hsound, hIs, -, hpruned⟩, hstop⟩ := whileLoop_total J (fun t => (stack t.LRU_s).length) hbody
    s.LRU_s.q.entries.length s ⟨h, hI, hp, fun hs => hs⟩ (by simp [stack])
  refine ⟨s', hloop, hsound, hIs, ?_, hpruned⟩
  rw [decide_eq_false_iff_not, hsound.frame.lirs_limit] at hstop
  omega

end CacheSim.Lirs

/-!
## The record of a block in `LRU_nh` is not read

`LIRS_can_insert` takes the requested block out of `LRU_nh` before the cache makes room for it. What
happens then is what would have happened before.
-/

namespace CacheSim.Lirs

open Lib Option

variable {P : Setup} {s s' : State} {e : Block} {r : Bool} {b : Bool}

theorem forget_mark {e' : Block} (s : State) (h : e.1 ≠ e'.1) :
    mark_nonresident (forget s e) e' = forget (mark_nonresident s e') e := by
  have hsame : (forget s e).LRU_s = s.LRU_s := rfl
  unfold mark_nonresident
  rw [hsame]
  rcases s.LRU_s.q.lookup e'.1 with _ | o
  · rfl
  · have hswap : (s.LRU_nh.LRU_insert (obj_to_request e') {}).LRU_remove e.1 = _ :=
      Fifo.FIFO_insert_remove s.LRU_nh (obj_to_request e') {} h
    unfold forget
    simp only [hswap]
    unfold Lru.LRU_insert Lru.LRU_remove
    simp only [State.mk.injEq, true_and, and_true]
    split_ifs
    · omega
    · rfl

theorem forget_forget {e' : Block} (s : State) (h : e.1 ≠ e'.1) : forget (forget s e) e' = forget (forget s e') e := by
  obtain ⟨hswap, hout⟩ := Fifo.FIFO_remove_remove s.LRU_nh h
  obtain ⟨-, hout'⟩ := Fifo.FIFO_remove_remove s.LRU_nh h.symm
  unfold forget Lru.LRU_remove
  simp only [hswap, hout, hout', State.mk.injEq, true_and, and_true]
  split_ifs <;> omega

section

variable (h : Core P (some (e.1, r)) s)
include h

theorem Core.held_notMem_Q : s.LRU_q.q.lookup e.1 = none := (h.tables.held _ _ rfl).1

theorem evictHIR_forget (hev : evictHIR s = some (s', b)) : evictHIR (forget s e) = some (forget s' e, b) := by
  simp only [evictHIR, bind_eq_bind, bind_eq_some_iff] at hev
  obtain ⟨v, hto, hev⟩ := hev
  have hne : e.1 ≠ v.1 := by
    intro heq
    have hlook : s.LRU_q.q.lookup v.1 = some v.2 := Fifo.lookup_to_evict hto
    rw [← heq, h.held_notMem_Q] at hlook
    cases hlook
  have hto' : (forget s e).LRU_q.LRU_to_evict = some v := hto
  simp only [evictHIR, hto', bind_eq_bind, bind_some]
  split_ifs at hev with hfly
  · cases hev
    rw [if_pos (show lirs_is_inflight (forget s e) v.1 = true from hfly)]
    rfl
  · obtain ⟨Q', hQ', hev⟩ := bind_eq_some_iff.1 hev
    cases hev
    rw [if_neg (show ¬ lirs_is_inflight (forget s e) v.1 = true from hfly)]
    have hout : (forget s e).LRU_q.LRU_evict = some Q' := hQ'
    simp only [hout]
    have hmark := forget_mark { s with hirs_count := s.hirs_count - v.2.obj_size, LRU_q := Q' } hne
    show some (_, true) = some (_, true)
    rw [some.injEq, Prod.mk.injEq]
    refine ⟨?_, rfl⟩
    exact congrArg (fun t : State => { t with
      occupied_byte := t.occupied_byte - (v.2.obj_size + t.obj_md_size), n_obj := t.n_obj - 1 }) hmark

theorem make_room_forget {size : Int} (hev : make_room size s = some s') :
    make_room size (forget s e) = some (forget s' e) := by
  obtain ⟨w, hloop, rfl⟩ := map_eq_some_iff.1 hev
  have hmoved := whileLoop_commute (fun w : State × Bool => (forget w.1 e, w.2)) (fun w => Core P (some (e.1, r)) w.1)
    (fun _ => rfl) (fun w w' hw _ hstep => ⟨evictHIR_forget hw hstep, hw.evictHIR hstep⟩) _ _ _ h hloop
  exact map_eq_some_iff.2 ⟨_, hmoved, rfl⟩

theorem trim_HIR_forget (hev : trim_HIR s = some (s', b)) : trim_HIR (forget s e) = some (forget s' e, b) := by
  obtain ⟨w, hloop, hw⟩ := bind_eq_some_iff.1 hev
  have hmoved := whileLoop_commute (fun w : (State × Bool) × Bool => ((forget w.1.1 e, w.1.2), w.2))
    (fun w => Core P (some (e.1, r)) w.1.1) (fun _ => rfl) ?_ _ _ _ h hloop
  · cases hw
    exact bind_eq_some_iff.2 ⟨_, hmoved, rfl⟩
  · intro v v' hv _ hstep
    obtain ⟨u, hu, rfl⟩ := map_eq_some_iff.1 hstep
    exact ⟨map_eq_some_iff.2 ⟨_, evictHIR_forget hv hu, rfl⟩, hv.evictHIR hu⟩

theorem demote_to_Q_forget {v : Block} (hev : demote_to_Q s v = some s') :
    demote_to_Q (forget s e) v = some (forget s' e) := by
  unfold demote_to_Q at hev ⊢
  split_ifs at hev with hfit
  · obtain ⟨t, hroom, hev⟩ := bind_eq_some_iff.1 hev
    cases hev
    rw [if_pos (show v.2.obj_size ≤ (forget s e).hirs_limit from hfit)]
    exact bind_eq_some_iff.2 ⟨_, make_room_forget h hroom, rfl⟩
  · cases hev
    exact if_neg (show ¬ v.2.obj_size ≤ (forget s e).hirs_limit from hfit)

end

theorem LIRS_prune_forget (h : Sound P (some (e.1, r)) s) (hev : LIRS_prune s = some s') :
    LIRS_prune (forget s e) = some (forget s' e) := by
  apply whileLoop_commute (fun s => forget s e) (Sound P (some (e.1, r))) (fun _ => rfl) ?_ _ _ _ h hev
  intro t t' ht _ hstep
  refine ⟨?_, ht.prune_step hstep⟩
  obtain ⟨v, hv, hrest⟩ := bind_eq_some_iff.1 hstep
  obtain ⟨S', hS', hrest⟩ := bind_eq_some_iff.1 hrest
  cases hrest
  have hne : e.1 ≠ v.1 := by
    obtain ⟨top, l, hs, hne, -⟩ := obj_to_remove_some hv
    obtain ⟨l', hl'⟩ := ht.top e.1 r rfl
    rw [stack, hs, List.cons_append, List.map_cons, List.cons.injEq, Prod.mk.injEq] at hl'
    rw [← hl'.1.1]
    exact hne.symm
  have hv' : obj_to_remove (forget t e) = some v := hv
  have hswap : (if v.2.md.in_cache then forget t e else forget (forget t e) v) =
      forget (if v.2.md.in_cache then t else forget t v) e := by
    split_ifs
    · rfl
    · exact forget_forget t hne
  simp only [LIRS_prune_step, hv', bind_eq_bind, bind_some, hswap]
  exact bind_eq_some_iff.2 ⟨S', hS', rfl⟩

theorem evictLIR_forget (h : Sound P (some (e.1, r)) s) {l : List (ObjId × Bool)} {x : ObjId}
    (hs : stack s.LRU_s = l ++ [(x, true)]) (hev : evictLIR s = some s') :
    evictLIR (forget s e) = some (forget s' e) := by
  obtain ⟨o, v, hto, hout, hcore, hdem, hsound, hprune⟩ := h.demoting hs hev
  have hdem' := demote_to_Q_forget hcore hdem
  have hprune' := LIRS_prune_forget hsound hprune
  have hto' : (forget s e).LRU_s.LRU_to_evict = some ⟨x, o⟩ := hto
  have hout' : (forget s e).LRU_s.LRU_evict = some (s.LRU_s.cache_remove_obj_base x o) := hout
  simp only [evictLIR, hto', hout', bind_eq_bind, bind_some]
  exact bind_eq_some_iff.2 ⟨forget v e, hdem', hprune'⟩

theorem evict_round_forget (h : Sound P (some (e.1, false)) s) {t : State} {req : Request} (hreq : req.obj_id = e.1)
    (htrim : trim_HIR s = some (t, b)) (hsound : Sound P (some (e.1, false)) t) {l : List (ObjId × Bool)} {x : ObjId}
    (hs : stack t.LRU_s = l ++ [(x, true)]) (hev : evictLIR t = some s') (c : Int) :
    evict_round req c (forget s e, none) = (evict_round req c (s, none)).map fun w => (forget w.1 e, w.2) := by
  obtain ⟨-, o, hlook, hmd⟩ := h.tables.held _ _ rfl
  have hnr : is_nonresident o = true := by simp [is_nonresident, hmd]
  have hx : s.LRU_s.q.lookup req.obj_id = some o := hreq ▸ hlook
  have hx' : (forget s e).LRU_s.q.lookup req.obj_id = some o := hx
  have honce : LIRS_evict_once s req = some (s', true) := by
    simp only [LIRS_evict_once, hx, hnr, if_true, htrim, hev, bind_eq_bind, bind_some]
    rfl
  have honce' : LIRS_evict_once (forget s e) req = some (forget s' e, true) := by
    simp only [LIRS_evict_once, hx', hnr, trim_HIR_forget h.toCore htrim, evictLIR_forget hsound hs hev,
      bind_eq_bind, bind_some]
    rfl
  have hocc : ∀ v : State, (forget v e).occupied_byte = v.occupied_byte := fun _ => rfl
  have hlirs : ∀ v : State, (forget v e).lirs_count = v.lirs_count := fun _ => rfl
  have hhirs : ∀ v : State, (forget v e).hirs_count = v.hirs_count := fun _ => rfl
  simp only [evict_round, honce, honce', bind_eq_bind, bind_some, hocc, hlirs, hhirs]
  split_ifs <;> rfl

end CacheSim.Lirs
