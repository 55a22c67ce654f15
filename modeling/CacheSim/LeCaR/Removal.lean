import CacheSim.LeCaR.Runs

/-!
# What becomes of the candidate of LeCaR

`LeCaR_evict` stores the tail of the LRU list as the candidate before it reads the candidate that
`LeCaR_to_evict` has stored.
-/

namespace CacheSim.LeCaR

open Lib Option

variable {W : Type} {E : Experts W} {s t : State W}

inductive Call where
  | get (req : Request)
  | to_evict
  | evict
  | remove (id : ObjId)

def call (E : Experts W) (s : State W) : Call → Option (State W)
  | .get req => (LeCaR_get E s req).map (·.1)
  | .to_evict => (LeCaR_to_evict E s).map (·.1)
  | .evict => LeCaR_evict E s
  | .remove id => (LeCaR_remove s id).map (·.1)

def candidate (E : Experts W) (s : State W) : Option ObjId :=
  if (draw E s).1 then s.q.getLast? else (get_min_freq_node s).bind fun node => node.objs.head?

section

variable (h : Core s)
include h

theorem LeCaR_to_evict_spec : ∃ t, LeCaR_to_evict E s = some (t, candidate E s) ∧
    t = { s with
      to_evict_candidate_gen_vtime := s.n_req
      to_evict_candidate := candidate E s
      n_rand := s.n_rand + 1 } := by
  obtain ⟨n, hn⟩ := h.min_node
  unfold LeCaR_to_evict candidate draw get_min_freq_node
  dsimp only
  rw [hn]
  split_ifs
  · exact ⟨_, rfl, rfl⟩
  · exact ⟨_, rfl, rfl⟩

/-! ## The states that calls lead to -/

theorem Core.to_evict {c : Option ObjId} (ht : LeCaR_to_evict E s = some (t, c)) : Core t := by
  obtain ⟨u, hu, rfl⟩ := LeCaR_to_evict_spec h
  cases hu.symm.trans ht
  exact { h with }

theorem Core.evict (ht : LeCaR_evict E s = some t) : Core t ∧ Sheds s t := by
  have hchoose : ∃ c, choose E s = some c := by
    obtain ⟨c, hc, -⟩ := bind_eq_some_iff.1 ht
    exact ⟨c, hc⟩
  obtain ⟨⟨u, v, k⟩, hc⟩ := hchoose
  obtain ⟨t', ht', hcore, -, hsheds, -⟩ := LeCaR_evict_of_choose h hc
  cases ht'.symm.trans ht
  exact ⟨hcore, hsheds⟩

theorem Core.remove {id : ObjId} {found : Bool} (ht : LeCaR_remove s id = some (t, found)) : Core t := by
  unfold LeCaR_remove at ht
  rcases ho : s.hashtable.lookup id with _ | o
  · simp only [ho, some.injEq, Prod.mk.injEq] at ht
    exact ht.1 ▸ h
  · simp only [ho, ite_none_left_eq_some] at ht
    obtain ⟨hr, ht⟩ := ht
    have hr : o.is_ghost = false := by simpa using hr
    have hid : id ∈ s.q := (h.residents.mem id).2 ⟨o, ho, hr⟩
    obtain ⟨w, hw, hfields, hlevels, hnode, -, -⟩ := remove_obj_from_freq_node_spec (s := { s with q := s.q.erase id })
      h.residents.levels h.residents.nodup hid ho rfl h.min_node
    obtain ⟨m, f, rfl⟩ : ∃ m f, w = { s with q := s.q.erase id, freq_map := m, min_freq := f } := ⟨_, _, hfields⟩
    rw [hw] at ht
    obtain ⟨rfl, -⟩ := ht
    exact { h with residents := h.residents.remove ho hr hlevels, min_node := hnode, lru :=
      h.lru.erase_other ho (not_ghost hr), lfu := h.lfu.erase_other ho (not_ghost hr) }

theorem Core.get {req : Request} {hit : Bool} (hsize : 0 ≤ req.obj_size) (ht : LeCaR_get E s req = some (t, hit)) :
    Core t := by
  let Miss : State W → Prop := fun u => Core u ∧ req.obj_id ∉ u.hashtable
  refine CacheOps.cache_get_base_inv (fun u => u = s) Miss Core ?_ ?_ ?_ ?_ rfl ht
  · rintro s u hit rfl hfind
    by_cases hq : req.obj_id ∈ s.q
    · obtain ⟨o, ho, hr⟩ := h.resident_of_mem hq
      obtain ⟨v, hv, hcore, -⟩ := find_resident_spec (h.count_req (E := E)) ho hr
      have hfound : (ops E).find ((ops E).count_req s) req = some (v, true) := by
        simp only [ops] at hv ⊢
        simp [LeCaR_find, ho, hr, hv]
      cases hfound.symm.trans hfind
      exact hcore
    · obtain ⟨v, hv, hcore, -, -, hmiss, -⟩ := find_miss (E := E) h hq
      cases hv.symm.trans hfind
      exact ⟨hcore, hmiss⟩
  · intro u v admitted hu hcan
    cases hcan
    split_ifs
    · exact hu
    · exact hu.1
  · rintro u v ⟨hu, hmiss⟩ - hevict
    obtain ⟨hcore, hsheds⟩ := hu.evict hevict
    exact ⟨hcore, hsheds.absent _ hmiss⟩
  · rintro u v ⟨hu, hmiss⟩ - hinsert
    cases hinsert
    exact (LeCaR_insert_spec hu hmiss hsize).1

def Sized : Call → Prop
  | .get req => 0 ≤ req.obj_size
  | _ => True

theorem Core.call {c : Call} (hc : Sized c) (ht : call E s c = some t) : Core t := by
  cases c with
  | get req =>
    obtain ⟨⟨u, hit⟩, hu, rfl⟩ := map_eq_some_iff.1 ht
    exact h.get hc hu
  | to_evict =>
    obtain ⟨⟨u, c⟩, hu, rfl⟩ := map_eq_some_iff.1 ht
    exact h.to_evict hu
  | evict => exact (h.evict ht).1
  | remove id =>
    obtain ⟨⟨u, found⟩, hu, rfl⟩ := map_eq_some_iff.1 ht
    exact h.remove hu

end

theorem core_of_reach {cache_size : Nat} {md : Bool}
    (h : Reach (LeCaR.call E) (fun _ c => Sized c) (LeCaR_init E cache_size md) s) : Core s :=
  h.inv Core (fun _ _ _ hs hc ht => hs.call hc ht) (init_core cache_size md)

theorem LeCaR_evict_after_to_evict (h : Core s) {l : ObjId} (hl : s.q.getLast? = some l)
    (hgen : s.to_evict_candidate_gen_vtime = s.n_req) :
    ∃ t, LeCaR_evict E s = some t ∧ t.q = s.q.erase l := by
  obtain ⟨n, hn⟩ := h.min_node
  have hchoose : ∃ u k, choose E s = some (u, l, k) := by
    simp only [choose, get_min_freq_node, hn, hl, if_pos hgen]
    exact ⟨_, _, rfl⟩
  obtain ⟨u, k, hc⟩ := hchoose
  obtain ⟨t, ht, -, hq, -⟩ := LeCaR_evict_of_choose h hc
  exact ⟨t, ht, hq⟩

theorem LeCaR_honoured_iff (h : Core s) (hne : s.q ≠ []) :
    Honoured (LeCaR_to_evict E) (LeCaR_evict E) (fun s x => x ∈ s.q) s ↔ candidate E s = s.q.getLast? := by
  obtain ⟨t, ht, hfields⟩ := LeCaR_to_evict_spec h
  have hcore := h.to_evict ht
  have hl : s.q.getLast? = some (s.q.getLast hne) := List.getLast?_eq_some_getLast hne
  have hq : t.q = s.q := by rw [hfields]
  have hlast : t.q.getLast? = some (s.q.getLast hne) := by rw [hq, hl]
  obtain ⟨u, hu, huq⟩ := LeCaR_evict_after_to_evict hcore hlast (by rw [hfields])
  have hleft : ∀ x, x ∈ u.q ↔ x ≠ s.q.getLast hne ∧ x ∈ s.q := by
    intro x
    rw [huq, hq, h.residents.nodup.mem_erase_iff]
  rw [Honoured.iff_victim ht hu (List.getLast_mem hne) hleft, hl]

end CacheSim.LeCaR

/-!
## The user's remove of LeCaR

`LeCaR_remove` treats every entry of the hash table as an object. A ghost is counted as one, and it is taken
out of its history by its links alone, so that the pointers of the history may still name it.
-/

namespace CacheSim.LeCaR

open Lib Option

variable {W : Type} {E : Experts W} {s t : State W} {id x : ObjId} {o : Obj}

structure Ends where
  from_head : List ObjId
  from_tail : List ObjId
deriving DecidableEq, Repr

def History.ends (h : History) : Ends := { from_head := h.objs, from_tail := h.objs.reverse }

/-- `remove_obj_from_list` with the pointers of another list. A pointer that names the object still does, and leads no further. -/
def History.bypass (h : History) (id : ObjId) : Ends :=
  { from_head := if h.objs.head? = some id then [id] else h.objs.erase id
    from_tail := if h.objs.getLast? = some id then [id] else (h.objs.erase id).reverse }

/-- What a remove leaves. The lists of the histories are in `ghost_lru` and `ghost_lfu`. -/
structure Removal (W : Type) where
  state : State W
  ghost_lru : Ends
  ghost_lfu : Ends
  found : Bool

def LeCaR_remove_entry (s : State W) (id : ObjId) : Option (Removal W) :=
  match s.hashtable.lookup id with
  | none => some { state := s, ghost_lru := s.ghost_lru.ends, ghost_lfu := s.ghost_lfu.ends, found := false }
  | some obj => do
    let t ← remove_obj_from_freq_node { s with q := s.q.erase id } id obj
    return {
      state := { t with
        hashtable := t.hashtable.erase id
        occupied_byte := t.occupied_byte - (obj.obj_size + t.obj_md_size)
        n_obj := t.n_obj - 1 }
      ghost_lru := s.ghost_lru.bypass id
      ghost_lfu := s.ghost_lfu.bypass id
      found := true }

def is_ghost (s : State W) (id : ObjId) : Bool := (s.hashtable.lookup id).any (·.is_ghost)

def is_resident (s : State W) (id : ObjId) : Bool := (s.hashtable.lookup id).any fun o => !o.is_ghost

structure RemovesEntry (s : State W) (id : ObjId) (r : Removal W) : Prop where
  found : r.found = is_resident s id
  gone : r.state.hashtable.lookup id = none
  others : ∀ x ≠ id, r.state.hashtable.lookup x = s.hashtable.lookup x
  lru : r.state.q = s.q.filter (· ≠ id)
  lfu : ∀ f, (node r.state.freq_map f).objs = (node s.freq_map f).objs.filter (· ≠ id)
  counts : ∀ f, (node r.state.freq_map f).n_obj = (node r.state.freq_map f).objs.length
  ghost_lru : r.ghost_lru = { from_head := s.ghost_lru.objs.filter (· ≠ id), from_tail := s.ghost_lru.objs.reverse.filter (· ≠ id) }
  ghost_lfu : r.ghost_lfu = { from_head := s.ghost_lfu.objs.filter (· ≠ id), from_tail := s.ghost_lfu.objs.reverse.filter (· ≠ id) }
  charged : ∀ o, s.hashtable.lookup id = some o → r.found = true →
    r.state.occupied_byte = s.occupied_byte - (o.obj_size + s.obj_md_size) ∧ r.state.n_obj = s.n_obj - 1
  uncharged : r.found = false → r.state.occupied_byte = s.occupied_byte ∧ r.state.n_obj = s.n_obj

/-! ## Lists without the object -/

theorem filter_ne_of_not_mem {l : List ObjId} (h : id ∉ l) : l.filter (· ≠ id) = l := by
  apply List.filter_eq_self.2
  intro y hy
  simpa using fun heq : y = id => h (heq ▸ hy)

theorem erase_eq_filter_ne {l : List ObjId} (h : l.Nodup) : l.erase id = l.filter (· ≠ id) := by
  rw [h.erase_eq_filter]
  apply List.filter_congr
  intro y _
  by_cases hy : y = id <;> simp [hy]

theorem History.bypass_of_not_mem {h : History} (hid : id ∉ h.objs) : h.bypass id = h.ends := by
  have hhead : h.objs.head? ≠ some id := fun heq => hid (List.mem_of_head? heq)
  have hlast : h.objs.getLast? ≠ some id := fun heq => hid (List.mem_of_getLast? heq)
  unfold History.bypass History.ends
  rw [if_neg hhead, if_neg hlast, List.erase_of_not_mem hid]

theorem History.ends_of_not_mem {h : History} (hid : id ∉ h.objs) :
    h.ends = { from_head := h.objs.filter (· ≠ id), from_tail := h.objs.reverse.filter (· ≠ id) } := by
  have hrev : id ∉ h.objs.reverse := by simpa using hid
  unfold History.ends
  rw [filter_ne_of_not_mem hid, filter_ne_of_not_mem hrev]

theorem Core.not_in_histories (h : Core s) (hid : is_ghost s id = false) : id ∉ s.ghost_lru.objs ∧ id ∉ s.ghost_lfu.objs := by
  constructor
  · rw [h.lru.mem]
    rintro ⟨o, ho, hg, -⟩
    simp [is_ghost, ho, hg] at hid
  · rw [h.lfu.mem]
    rintro ⟨o, ho, hg, -⟩
    simp [is_ghost, ho, hg] at hid

theorem LeCaR_remove_entry_eq (h : Core s) (hid : is_ghost s id = false) : LeCaR_remove_entry s id =
    (LeCaR_remove s id).map fun r =>
      { state := r.1, ghost_lru := s.ghost_lru.ends, ghost_lfu := s.ghost_lfu.ends, found := r.2 } := by
  obtain ⟨hlru, hlfu⟩ := h.not_in_histories hid
  unfold LeCaR_remove_entry LeCaR_remove
  rcases ho : s.hashtable.lookup id with _ | o
  · rfl
  · have hr : o.is_ghost = false := by simpa [is_ghost, ho] using hid
    rw [History.bypass_of_not_mem hlru, History.bypass_of_not_mem hlfu]
    dsimp only
    rw [hr, if_neg (by simp)]
    cases remove_obj_from_freq_node { s with q := s.q.erase id } id o <;> rfl

theorem removes_absent (h : Core s) (ho : s.hashtable.lookup id = none) : ∃ r,
    LeCaR_remove_entry s id = some r ∧ RemovesEntry s id r := by
  have hid : is_ghost s id = false := by simp [is_ghost, ho]
  obtain ⟨hlru, hlfu⟩ := h.not_in_histories hid
  have hq : id ∉ s.q := h.not_mem_q (AList.lookup_eq_none.1 ho)
  have hlevel : ∀ f, id ∉ (node s.freq_map f).objs := by
    intro f
    rw [h.residents.levels.objs, mem_level]
    exact fun hmem => hq hmem.1
  refine ⟨{ state := s, ghost_lru := s.ghost_lru.ends, ghost_lfu := s.ghost_lfu.ends, found := false },
    by simp [LeCaR_remove_entry, ho], ?_⟩
  exact {
    found := by simp [is_resident, ho]
    gone := ho
    others := fun _ _ => rfl
    lru := (filter_ne_of_not_mem hq).symm
    lfu := fun f => (filter_ne_of_not_mem (hlevel f)).symm
    counts := fun f => by rw [h.residents.levels.n_obj, h.residents.levels.objs]
    ghost_lru := History.ends_of_not_mem hlru
    ghost_lfu := History.ends_of_not_mem hlfu
    charged := fun _ _ hfound => by cases hfound
    uncharged := fun _ => ⟨rfl, rfl⟩ }

theorem removes_resident (h : Core s) (ho : s.hashtable.lookup id = some o) (hr : o.is_ghost = false) :
    ∃ r, LeCaR_remove_entry s id = some r ∧ RemovesEntry s id r := by
  have hid : is_ghost s id = false := by simp [is_ghost, ho, hr]
  obtain ⟨hlru, hlfu⟩ := h.not_in_histories hid
  have hq : id ∈ s.q := (h.residents.mem id).2 ⟨o, ho, hr⟩
  obtain ⟨w, hw, hfields, hlevels, -, -, -⟩ := remove_obj_from_freq_node_spec (s := { s with q := s.q.erase id })
    h.residents.levels h.residents.nodup hq ho rfl h.min_node
  obtain ⟨m, f, rfl⟩ : ∃ m f, w = { s with q := s.q.erase id, freq_map := m, min_freq := f } := ⟨_, _, hfields⟩
  have hremove := LeCaR_remove_entry_eq h hid
  unfold LeCaR_remove at hremove
  rw [ho] at hremove
  dsimp only at hremove
  rw [hr, if_neg (by simp), hw] at hremove
  refine ⟨_, hremove, ?_⟩
  exact {
    found := by simp [is_resident, ho, hr]
    gone := AList.lookup_erase ..
    others := fun x hx => AList.lookup_erase_ne hx
    lru := erase_eq_filter_ne h.residents.nodup
    lfu := by
      intro f
      have hnodup : (level s.q s.hashtable f).Nodup := (List.nodup_reverse.2 h.residents.nodup).filter _
      rw [hlevels.objs, level_erase h.residents.nodup, h.residents.levels.objs, erase_eq_filter_ne hnodup]
    counts := by
      intro f
      rw [hlevels.n_obj, hlevels.objs]
    ghost_lru := History.ends_of_not_mem hlru
    ghost_lfu := History.ends_of_not_mem hlfu
    charged := by
      intro o' ho' _
      cases ho.symm.trans ho'
      exact ⟨rfl, rfl⟩
    uncharged := fun hfound => by cases hfound }

theorem LeCaR_remove_entry_ghost (hid : is_ghost s id = true) {r : Removal W} (hr : LeCaR_remove_entry s id = some r) :
    r.found = true ∧ is_resident s id = false := by
  obtain ⟨o, ho, hg⟩ := (any_eq_true _ _).1 hid
  refine ⟨?_, by simp [is_resident, ho, hg]⟩
  unfold LeCaR_remove_entry at hr
  rw [ho] at hr
  obtain ⟨w, -, hr⟩ := bind_eq_some_iff.1 hr
  cases hr
  rfl

theorem removes_entry_iff (h : Core s) (id : ObjId) :
    (∃ r, LeCaR_remove_entry s id = some r ∧ RemovesEntry s id r) ↔ is_ghost s id = false := by
  constructor
  · rintro ⟨r, hr, hremoves⟩
    rcases hid : is_ghost s id with _ | _
    · rfl
    · obtain ⟨hfound, hnot⟩ := LeCaR_remove_entry_ghost hid hr
      rw [hremoves.found, hnot] at hfound
      cases hfound
  · intro hid
    rcases ho : s.hashtable.lookup id with _ | o
    · exact removes_absent h ho
    · exact removes_resident h ho (by simpa [is_ghost, ho] using hid)

def Spares (s : State W) : Call → Prop
  | .get req => 0 ≤ req.obj_size
  | .remove id => is_ghost s id = false
  | _ => True

/-- In every state that calls lead to which remove no ghost, a remove does what it promises exactly if its id is no ghost. -/
theorem LeCaR_remove_right (E : Experts W) (cache_size : Nat) (md : Bool) {s : State W}
    (h : Reach (LeCaR.call E) Spares (LeCaR_init E cache_size md) s) (id : ObjId) :
    (∃ r, LeCaR_remove_entry s id = some r ∧ RemovesEntry s id r) ↔ is_ghost s id = false := by
  have hcore : Core s := by
    refine h.inv Core (fun t c u ht hc hu => ht.call ?_ hu) (init_core cache_size md)
    cases c with
    | get req => exact hc
    | _ => trivial
  exact removes_entry_iff hcore id

theorem LeCaR_remove_right_of_get : ∃ s, runs (LeCaR.call even_weights) (LeCaR_init even_weights 1 false)
    [.get { obj_id := 1 }, .get { obj_id := 2 }] = some s ∧ ∃ r, LeCaR_remove_entry s 2 = some r ∧ RemovesEntry s 2 r := by
  have hrun : (runs (LeCaR.call even_weights) (LeCaR_init even_weights 1 false) [.get { obj_id := 1 }, .get { obj_id := 2 }]).map
    (fun s => is_ghost s 2) = some false := by decide
  obtain ⟨s, hs, hid⟩ := map_eq_some_iff.1 hrun
  have hreach : Reach (LeCaR.call even_weights) Spares (LeCaR_init even_weights 1 false) s := by
    refine Reach.of_runs ?_ hs
    simp [Spares]
  exact ⟨s, hs, (LeCaR_remove_right even_weights 1 false hreach 2).2 hid⟩

/-- Object 1 is a ghost after object 2 has come in, and its remove is counted against object 2. -/
theorem ghost_counted_as_removed : ∃ s r, runs (LeCaR.call even_weights) (LeCaR_init even_weights 1 false)
    [.get { obj_id := 1 }, .get { obj_id := 2 }] = some s ∧ ¬ (∃ r, LeCaR_remove_entry s 1 = some r ∧ RemovesEntry s 1 r) ∧
    LeCaR_remove_entry s 1 = some r ∧ r.found = true ∧ r.state.q = [2] ∧ r.state.n_obj = 0 := by
  have hrun : (runs (LeCaR.call even_weights) (LeCaR_init even_weights 1 false) [.get { obj_id := 1 }, .get { obj_id := 2 }]).map
    (fun s => is_ghost s 1) = some true := by decide
  have hremove : ((runs (LeCaR.call even_weights) (LeCaR_init even_weights 1 false)
    [.get { obj_id := 1 }, .get { obj_id := 2 }]).bind fun s => LeCaR_remove_entry s 1).map (fun r =>
      (r.found, r.state.q, r.state.n_obj)) = some (true, [2], 0) := by decide
  obtain ⟨s, hs, hid⟩ := map_eq_some_iff.1 hrun
  rw [hs, bind_some] at hremove
  obtain ⟨r, hr, hstate⟩ := map_eq_some_iff.1 hremove
  simp only [Prod.mk.injEq] at hstate
  refine ⟨s, r, hs, ?_, hr, hstate⟩
  rintro ⟨r, hr, hremoves⟩
  obtain ⟨hfound, hnot⟩ := LeCaR_remove_entry_ghost hid hr
  rw [hremoves.found, hnot] at hfound
  cases hfound

end CacheSim.LeCaR
