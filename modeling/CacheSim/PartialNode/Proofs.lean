import CacheSim.PartialNode.Tiers
import CacheSim.Radix.Refines
import Mathlib.Algebra.Order.Ring.Rat
import Mathlib.Data.Finset.Sort

/-!
# The two tiers through every call
-/

namespace CacheSim.PartialNode

open Lib Radix PrefixRadixTree List Option Bool

variable {ε β : Type} {A : Algorithm ε β} {R : ObjId → List ObjId} {s : State ε}

theorem evict_small_step_spec {w : State ε × Bool} (h : Inv R w.1) (hne : w.1.small ≠ []) :
    ∃ s' dropped, evict_small_step A w = some (s', dropped) ∧ Inv R s' ∧
      Sheds w.1 s' (if dropped then 1 else 0) ∧ s'.small.length + 1 = w.1.small.length := by
  obtain ⟨id, rest, hlist⟩ := exists_cons_of_ne_nil hne
  have hsmall : id ∈ w.1.small := by simp [hlist]
  have hlen : (w.1.small.erase id).length + 1 = w.1.small.length := by simp [hlist]
  have hhead : w.1.small.head? = some id := by simp [hlist]
  obtain ⟨victim, hid⟩ := Table.exists_lookup ((h.tiers id).2 (.inl hsmall))
  unfold evict_small_step
  simp only [hhead, hid, bind_eq_bind, bind_some]
  split_ifs with hfreq
  · -- the metadata is written before the block is marked, but the two commute
    have htouch := h.touch { victim with last_access_vtime := w.1.n_req } hid rfl
    obtain ⟨s', hs', hinv, hsheds, hrest⟩ := htouch.promote (AList.lookup_insert w.1.hashtable) hsmall
    refine ⟨s', false, ?_, hinv, ⟨fun x hx => ?_, hsheds.n_obj⟩, by rw [hrest]; exact hlen⟩
    · exact bind_eq_some_iff.2 ⟨s', hs', rfl⟩
    · rcases hsheds.known x hx with hx | hx
      · exact .inl ((AList.mem_insert _).1 hx |>.elim (fun e => e ▸ Table.mem_of_lookup hid) fun hx => hx)
      · exact .inr hx
  · obtain ⟨s', hs', hinv, hsheds, hrest⟩ := h.drop_small hid hsmall
    exact ⟨_, true, bind_eq_some_iff.2 ⟨s', hs', rfl⟩, hinv, hsheds, by rw [hrest]; exact hlen⟩

theorem evict_small_spec (h : Inv R s) : ∃ s' dropped, evict_small A s = some (s', dropped) ∧ Inv R s' ∧
    Sheds s s' (if dropped then 1 else 0) ∧ (dropped = true → s'.small.length < s.small.length) ∧
    (dropped = false → s'.small = []) := by
  let I : State ε × Bool → Prop := fun w => Inv R w.1 ∧ Sheds s w.1 (if w.2 then 1 else 0) ∧
    w.1.small.length + (if w.2 then 1 else 0) ≤ s.small.length
  have hbody : ∀ w, I w → (!w.2 && !w.1.small.isEmpty) = true →
      ∃ w', evict_small_step A w = some w' ∧ I w' ∧ w'.1.small.length < w.1.small.length := by
    rintro ⟨u, dropped⟩ ⟨hu, hsheds, hlen⟩ hcond
    simp only [and_eq_true, not_eq_true', isEmpty_eq_false_iff] at hcond
    obtain ⟨rfl, hne⟩ := hcond
    obtain ⟨u', dropped, hstep, hinv, hsheds', hlen'⟩ := evict_small_step_spec hu hne
    refine ⟨(u', dropped), hstep, ⟨hinv, ?_, ?_⟩, ?_⟩
    · have := hsheds.trans hsheds'
      simpa using this
    · simp only [false_eq_true] at hlen hlen' ⊢
      split_ifs <;> omega
    · simp only at hlen' ⊢
      omega
  obtain ⟨⟨s', dropped⟩, hrun, ⟨hinv, hsheds, hlen⟩, hend⟩ := whileLoop_total I (fun w => w.1.small.length) hbody
    s.small.length (s, false) ⟨h, by simpa using Sheds.refl s, by simp⟩ le_rfl
  refine ⟨s', dropped, hrun, hinv, hsheds, ?_, ?_⟩
  · rintro rfl
    simp only [if_true] at hlen
    omega
  · rintro rfl
    simpa using hend

/-! ## The main set -/

variable {n chunk : Int} {t : PrefixRadixTree} {p : Ptr} {s₀ : State ε} {w : Progress ε} {req : Request} {fuel : State ε → Nat}

theorem collect_resident_resident (h : Good R t) {node : Node}
    (hp : t.heap p = some node) {from_tail : Bool} {max_take : Int} {id : ObjId}
    (hid : id ∈ node.collect_resident from_tail max_take) : Resident t id := by
  obtain ⟨k, -, hk⟩ := mem_filterMap.1 (mem_of_mem_take hid)
  unfold Run.resident_at at hk
  simp only [ite_none_right_eq_some] at hk
  obtain ⟨hflag, hk⟩ := hk
  have hindex := (h.shape.index id p _).2 ⟨node.toRun, core_of_heap hp, hk⟩
  exact (resident_of_some hindex (core_of_heap hp)).2 hflag

theorem take_blocks_spec : ∀ (ids : List ObjId) (w : State ε × Int), Inv R w.1 → (∀ id ∈ ids, id ∉ w.1.small) →
    ∃ s' k, ids.foldlM take_block w = some (s', w.2 + k) ∧ Inv R s' ∧ Sheds w.1 s' k ∧ 0 ≤ k ∧ k ≤ ids.length := by
  intro ids
  induction ids with
  | nil =>
    intro w h _
    exact ⟨w.1, 0, by simp, h, Sheds.refl w.1, le_rfl, le_rfl⟩
  | cons id ids ih =>
    intro w h hout
    rw [foldlM_cons]
    rcases hobj : w.1.hashtable.lookup id with _ | obj
    · have hstep : take_block w id = some w := by simp [take_block, hobj]
      obtain ⟨s', k, hrun, hinv, hsheds, hk, hlen⟩ := ih w h fun x hx => hout x (by simp [hx])
      refine ⟨s', k, by simpa [hstep] using hrun, hinv, hsheds, hk, ?_⟩
      rw [length_cons]
      omega
    · obtain ⟨u, hu, hinv, hsheds, hsmall⟩ := h.evict_main hobj (hout id (by simp))
      have hstep : take_block w id = some (u.cache_evict_base id obj, w.2 + 1) := by simp [take_block, hobj, hu]
      obtain ⟨s', k, hrun, hinv', hsheds', hk, hlen⟩ := ih (u.cache_evict_base id obj, w.2 + 1) hinv (by
        intro x hx
        rw [hsmall]
        exact hout x (by simp [hx]))
      refine ⟨s', 1 + k, ?_, hinv', hsheds.trans hsheds', by omega, ?_⟩
      · rw [hstep, bind_eq_bind, bind_some, hrun, add_assoc]
      · rw [length_cons]
        omega

theorem take_from_node_spec (h : Inv R s) {node : Node} (hp : s.tree.heap p = some node) (max_take : Int) :
    ∃ s' k, take_from_node A s p max_take = some (s', k) ∧ Inv R s' ∧ Sheds s s' k ∧ 0 ≤ k ∧ k ≤ max_take.toNat := by
  have hout : ∀ id ∈ node.collect_resident A.evict_from_tail max_take, id ∉ s.small :=
    fun id hid hsmall => h.apart id hsmall (collect_resident_resident h.good hp hid)
  obtain ⟨s', k, hrun, hinv, hsheds, hk, hlen⟩ := take_blocks_spec _ (s, 0) h hout
  refine ⟨s', k, by simpa [take_from_node, hp] using hrun, hinv, hsheds, hk, hlen.trans ?_⟩
  exact_mod_cast length_take_le _ _

theorem node_chunk_score_node {score : β} (h : node_chunk_score A s p chunk = some score) :
    ∃ node, s.tree.heap p = some node ∧ node.n_resident ≠ 0 := by
  obtain ⟨node, hnode, h⟩ := bind_eq_some_iff.1 h
  refine ⟨node, hnode, fun hzero => ?_⟩
  simp [hzero] at h

theorem draw_inv (s : State ε) (chunk : Int) (P : Option Ptr → Prop) {exhaustive : Bool}
    (hscored : ∀ p score, node_chunk_score A s p chunk = some score → P (some p)) (l : List Nat) : ∀ d : Draw β,
    P d.victim → P (l.foldl (draw_node A s exhaustive chunk) d).victim := by
  induction l with
  | nil => exact fun _ hd => hd
  | cons i l ih =>
    intro d hd
    apply ih
    unfold draw_node
    split
    rename_i node d' hdraw
    have hsame : d'.victim = d.victim := by
      split_ifs at hdraw <;> cases hdraw <;> rfl
    rw [← hsame] at hd
    split
    · exact hd
    · rename_i q score hq
      split_ifs with hlt
      · obtain ⟨q', -, hq'⟩ := bind_eq_some_iff.1 hq
        obtain ⟨score', hscore, hpair⟩ := map_eq_some_iff.1 hq'
        cases hpair
        exact hscored q score hscore
      · exact hd

theorem draw_nodes_victim (h : (draw_nodes A s chunk).victim = some p) :
    ∃ node, s.tree.heap p = some node ∧ node.n_resident ≠ 0 := by
  apply draw_inv s chunk
    (fun v => ∀ p, v = some p → ∃ node, s.tree.heap p = some node ∧ node.n_resident ≠ 0) ?_ _ _ (by simp) p h
  rintro q score hscore p hp
  cases hp
  exact node_chunk_score_node hscore

/-! ## `pn_evict_n` -/

structure Evicting (R : ObjId → List ObjId) (s₀ : State ε) (n : Int) (w : Progress ε) : Prop where
  inv : Inv R w.s
  sheds : Sheds s₀ w.s w.evicted
  nonneg : 0 ≤ w.evicted
  capped : w.evicted ≤ n

theorem drop_small_spec (h : Evicting R s₀ n w) (hgo : w.stop = false)
    (hlt : w.evicted < n) : ∃ w', drop_small A w = some w' ∧ Evicting R s₀ n w' ∧
      (w'.stop = true ∨ w'.stop = false ∧ w'.evicted = w.evicted + 1 ∧ w'.s.small.length < w.s.small.length) := by
  obtain ⟨s', dropped, hrun, hinv, hsheds, hshort, -⟩ := evict_small_spec (A := A) h.inv
  unfold drop_small
  simp only [hrun, bind_eq_bind]
  have hnonneg := h.nonneg
  cases dropped with
  | true =>
    refine ⟨_, rfl, ⟨hinv, h.sheds.trans hsheds, ?_, ?_⟩, .inr ⟨hgo, rfl, hshort rfl⟩⟩
    · show 0 ≤ w.evicted + 1
      omega
    · show w.evicted + 1 ≤ n
      omega
  | false =>
    refine ⟨_, rfl, ⟨hinv, ?_, h.nonneg, h.capped⟩, .inl rfl⟩
    simpa using h.sheds.trans hsheds

theorem chunk_of_le (want : Int) : chunk_of A want ≤ want := by
  unfold chunk_of
  cases A.mode with
  | kMicro => exact min_le_left _ _
  | kDrain => exact le_rfl

theorem evict_chunk_spec (h : Evicting R s₀ n w) (hgo : w.stop = false)
    (hlt : w.evicted < n) (hchunk : chunk ≤ n - w.evicted) : ∃ w', evict_chunk A chunk w = some w' ∧
      Evicting R s₀ n w' ∧ (w'.stop = true ∨ w'.stop = false ∧ w.evicted < w'.evicted) := by
  unfold evict_chunk
  dsimp only
  have hnonneg := h.nonneg
  have hinv : Inv R { w.s with n_rand := (draw_nodes A w.s chunk).n_rand } := h.inv.frame
  rcases hvictim : (draw_nodes A w.s chunk).victim with _ | victim
  · exact ⟨_, rfl, ⟨hinv, ⟨h.sheds.known, h.sheds.n_obj⟩, h.nonneg, h.capped⟩, .inl rfl⟩
  · obtain ⟨node, hnode, -⟩ := draw_nodes_victim hvictim
    obtain ⟨s', took, hrun, hinv', hsheds', hk, hle⟩ := take_from_node_spec (A := A) hinv hnode chunk
    have htotal : Sheds s₀ s' (w.evicted + took) :=
      h.sheds.trans ⟨fun x hx => hsheds'.known x hx, hsheds'.n_obj⟩
    simp only [hrun, bind_eq_bind, bind_some]
    split_ifs with htook
    · refine ⟨_, rfl, ⟨hinv', ?_, h.nonneg, h.capped⟩, .inl rfl⟩
      rw [htook, add_zero] at htotal
      exact htotal
    · refine ⟨_, rfl, ⟨hinv', htotal, ?_, ?_⟩, .inr ⟨hgo, ?_⟩⟩
      · show 0 ≤ w.evicted + took
        omega
      · show w.evicted + took ≤ n
        omega
      · show w.evicted < w.evicted + took
        omega

theorem evict_round_spec (h : Evicting R s₀ n w) (hgo : w.stop = false)
    (hlt : w.evicted < n) : ∃ w', evict_round A n w = some w' ∧ Evicting R s₀ n w' ∧
      (w'.stop = true ∨ w'.stop = false ∧ w.evicted < w'.evicted) := by
  unfold evict_round
  split_ifs with hpool hsmall
  · obtain ⟨w', hrun, hw', hcase⟩ := drop_small_spec h hgo hlt
    refine ⟨w', hrun, hw', hcase.imp_right fun hc => ⟨hc.1, ?_⟩⟩
    omega
  · exact ⟨_, rfl, { h with }, .inl rfl⟩
  · exact evict_chunk_spec h hgo hlt (chunk_of_le _)

section

variable (h : Inv R s)
include h

theorem Inv.insert (hmiss : ¬ Known s req.obj_id)
    (hgood : Good R t) {small : List ObjId} {small_bytes : Int} {hit_on_ghost : Bool}
    (hplace : small = s.small ∧ small_bytes = s.small_bytes ∧ (∀ x, Resident t x ↔ x = req.obj_id ∨ Resident s.tree x) ∨
      small = s.small ++ [req.obj_id] ∧ small_bytes = s.small_bytes + req.obj_size ∧ t = s.tree ∧ s.small_enabled = true) :
    Inv R { cache_insert_base s req with
      tree := t, small := small, small_bytes := small_bytes, hit_on_ghost := hit_on_ghost } := by
  have hnew : req.obj_id ∉ s.hashtable := fun hin => hmiss (.inl hin)
  have hsmall : req.obj_id ∉ s.small := fun hin => hnew ((h.tiers _).2 (.inl hin))
  have hres : ¬ Resident s.tree req.obj_id := fun hr => hnew ((h.tiers _).2 (.inr hr))
  have hcounted := h.counted.insert hnew
  set obj : Obj :=
    { obj_size := req.obj_size, cost := req_cost_or_one req, next_access_vtime := req.next_access_vtime
      last_access_vtime := s.pn_now } with hobj
  have hbytes : bytesOf (s.hashtable.insert req.obj_id obj) s.small = s.small_bytes := by
    rw [h.small_bytes]
    refine bytesOf_congr fun x hx => sizeIn_insert_ne obj ?_
    rintro rfl
    exact hsmall hx
  have hghost : ∀ g, s.ghost = some g → g.Inv ∧ ∀ x ∈ g.q, x ∉ s.hashtable.insert req.obj_id obj := by
    intro g hg
    refine ⟨(h.ghost g hg).1, fun x hx => ?_⟩
    rw [AList.mem_insert]
    rintro (rfl | hin)
    · exact hmiss (.inr ⟨g, hg, hx⟩)
    · exact (h.ghost g hg).2 x hx hin
  have hmem : ∀ x, x ∈ s.hashtable.insert req.obj_id obj ↔ x = req.obj_id ∨ x ∈ s.small ∨ Resident s.tree x := by
    intro x
    rw [AList.mem_insert, h.tiers]
  rcases hplace with ⟨rfl, rfl, hmark⟩ | ⟨rfl, rfl, rfl, hon⟩
  · refine ⟨hgood, fun x => (hmem x).trans ?_, fun x hx => ?_, h.nodup, hbytes.symm,
      ⟨hcounted.occupied, hcounted.n_obj⟩, hghost, h.off⟩
    · rw [hmark]
      tauto
    · rw [hmark]
      rintro (rfl | hr)
      · exact hsmall hx
      · exact h.apart x hx hr
  · refine ⟨hgood, fun x => (hmem x).trans ?_, fun x hx => ?_, ?_, ?_,
      ⟨hcounted.occupied, hcounted.n_obj⟩, hghost, fun hoff => ?_⟩
    · rw [mem_append, mem_singleton]
      tauto
    · rcases mem_append.1 hx with hx | hx
      · exact h.apart x hx
      · rw [mem_singleton.1 hx]
        exact hres
    · exact h.nodup.append (nodup_singleton _) (by simpa using hsmall)
    · show s.small_bytes + req.obj_size = bytesOf (s.hashtable.insert req.obj_id obj) (s.small ++ [req.obj_id])
      rw [← hbytes]
      simp [bytesOf, sizeIn_lookup (AList.lookup_insert s.hashtable), hobj]
    · have hoff' : s.small_enabled = false := hoff
      rw [hon] at hoff'
      cases hoff'

end

/-! ## Runs -/

theorem init_inv (cache_size : Int) (tiers : Option (Int × Int)) (extra : ε) :
    Inv R (partial_node_cache_init cache_size tiers extra) := by
  have hnone : ∀ id, ¬ Resident PrefixRadixTree.init id := by
    intro id
    rw [resident_of_none rfl]
    simp [PrefixRadixTree.init]
  unfold partial_node_cache_init
  rcases tiers with _ | ⟨small_capacity, ghost_capacity⟩
  · exact ⟨init_good R, fun id => by simp [hnone], by simp, .nil, rfl, ⟨rfl, rfl⟩, by simp, fun _ => ⟨rfl, rfl⟩⟩
  · refine ⟨init_good R, fun id => by simp [hnone], by simp, .nil, rfl, ⟨rfl, rfl⟩, ?_, fun hoff => ?_⟩
    · intro g hg
      simp only [ite_none_right_eq_some, some.injEq] at hg
      obtain ⟨-, rfl⟩ := hg
      exact ⟨Fifo.init_inv ghost_capacity 0, by simp⟩
    · simp only [State.small_enabled, decide_eq_false_iff_not] at hoff
      split_ifs at hoff <;> omega

def paths (calls : List Call) : List (List ObjId) :=
  calls.filterMap fun
    | .record_request ids => some ids
    | _ => none

def returning : List Call :=
  [.record_request [1, 2], .get { obj_id := 1 }, .get { obj_id := 2 }, .get { obj_id := 9 }, .get { obj_id := 1 },
    .remove 2, .evict_n 1]

end CacheSim.PartialNode
