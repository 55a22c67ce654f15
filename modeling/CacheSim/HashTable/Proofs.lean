import CacheSim.HashTable.Refines

/-!
# Runs of the hash table

The table refines the map as long as no chain is so long that `chained_hashtable_delete_v2` prints it,
and, for objects that the table does not own, as long as no object brings a link of its own to an empty
bucket.
-/

namespace CacheSim.Hash

open Lib List Table
open Option (bind_eq_bind bind_some map_eq_some_iff)

variable {hash : ObjId → Nat} {t t' : HashTable} {chains : Nat → List Ptr} {m : Table ObjId Ptr} {p : Ptr} {o : CacheObj} {id : ObjId}

/-! ## The three ways to delete -/

theorem head_or_behind {l : List Ptr} (h : p ∈ l) : (∃ r, l = p :: r) ∨ ∃ l1 a l2, l = l1 ++ a :: p :: l2 := by
  obtain ⟨l1, l2, rfl⟩ := append_of_mem h
  rcases eq_nil_or_concat l1 with rfl | ⟨l1, a, rfl⟩
  · exact .inl ⟨l2, rfl⟩
  · exact .inr ⟨l1, a, l2, by simp⟩

theorem Rep.seek_before (h : Rep hash t chains m) {i : Nat} (hi : i < hashsize t.hashpower) {l1 l2 : List Ptr} {a : Ptr}
    (hl : chains i = l1 ++ a :: p :: l2) :
    t.ptr_table i ≠ some p ∧
      seek (hash_next t.heap) (links_to t.heap p) t.heap.entries.length (t.ptr_table i) = some (some a, l1.length) := by
  have hlinked := h.chained.linked i hi
  constructor
  · intro hhead
    have hnodup := hlinked.nodup
    rw [hl, hhead] at hlinked
    rw [hl] at hnodup
    cases l1 with
    | nil =>
      cases hlinked.1
      simp at hnodup
    | cons y l1 =>
      cases hlinked.1
      simp at hnodup
  · rw [hlinked.seek _ (Linked.length_le hlinked)]
    rw [hl] at hlinked ⊢
    obtain ⟨hfind, hidx⟩ := hlinked.find_before
    exact congrArg some (Prod.ext hfind hidx)

theorem idxOf_behind {l1 l2 : List Ptr} {a : Ptr} (h : (l1 ++ a :: p :: l2).Nodup) : (l1 ++ a :: p :: l2).idxOf p = l1.length + 1 := by
  have hp : p ∉ l1 ++ [a] := by
    intro hin
    rw [show l1 ++ a :: p :: l2 = (l1 ++ [a]) ++ p :: l2 by simp] at h
    exact (nodup_append.1 h).2.2 p hin p (by simp) rfl
  rw [show l1 ++ a :: p :: l2 = (l1 ++ [a]) ++ p :: l2 by simp, idxOf_append_of_notMem hp]
  simp

theorem Rep.delete (h : Rep hash t chains m) (hm : m.lookup id = some p)
    (hdepth : (Hash.bucket_chain t (bucket hash t.hashpower id)).idxOf p ≤ 64) :
    ∃ t', chained_hashtable_delete_v2 hash t p = some t' ∧ Refines hash t' (m.erase id) ∧ t'.external_obj = t.external_obj := by
  obtain ⟨o, ho, rfl⟩ := h.lookup hm
  have hb := bucket_lt hash t.hashpower o.obj_id
  rw [h.bucket_chain hb] at hdepth
  unfold chained_hashtable_delete_v2
  rw [ho, bind_eq_bind, bind_some]
  rcases head_or_behind (h.mem_chain hm) with ⟨l, hl⟩ | ⟨l1, a, l2, hl⟩
  · have hhead : t.ptr_table (bucket hash t.hashpower o.obj_id) = some p := by
      have hlinked := h.chained.linked _ hb
      rw [hl] at hlinked
      exact hlinked.1
    rw [if_pos hhead]
    exact ⟨_, rfl, h.unlink_head hm ho hl rfl, (free_owned_spec _ _).2.2.2.1⟩
  · obtain ⟨hhead, hseek⟩ := h.seek_before hb hl
    obtain ⟨cur, ha, -⟩ := h.of_mem_chain hb (by rw [hl]; simp : a ∈ _)
    have hnodup := (h.chained.linked _ hb).nodup
    rw [hl] at hnodup hdepth
    rw [idxOf_behind hnodup] at hdepth
    have hmax := h.max_chain_len
    rw [if_neg hhead, hseek]
    simp only [bind_eq_bind, bind_some]
    rw [if_neg (by omega)]
    simp only [ha]
    exact ⟨_, rfl, h.unlink_inner hm ho hl ha rfl (by omega), (free_owned_spec _ _).2.2.2.1⟩

theorem Rep.try_delete (h : Rep hash t chains m) (ho : t.heap.lookup p = some o) :
    if m.lookup o.obj_id = some p then
      ∃ t', chained_hashtable_try_delete_v2 hash t p = some (t', true) ∧ Refines hash t' (m.erase o.obj_id) ∧
        t'.external_obj = t.external_obj
    else chained_hashtable_try_delete_v2 hash t p = some (t, false) := by
  have hb := bucket_lt hash t.hashpower o.obj_id
  have hlinked := h.chained.linked _ hb
  unfold chained_hashtable_try_delete_v2
  rw [ho, bind_eq_bind, bind_some]
  dsimp only
  split_ifs with hm hhead hhead
  · rcases head_or_behind (h.mem_chain hm) with ⟨l, hl⟩ | ⟨l1, a, l2, hl⟩
    · exact ⟨_, rfl, h.unlink_head hm ho hl rfl, (free_owned_spec _ _).2.2.2.1⟩
    · exact absurd hhead (h.seek_before hb hl).1
  · rcases head_or_behind (h.mem_chain hm) with ⟨l, hl⟩ | ⟨l1, a, l2, hl⟩
    · rw [hl] at hlinked
      exact absurd hlinked.1 hhead
    · obtain ⟨cur, ha, -⟩ := h.of_mem_chain hb (by rw [hl]; simp : a ∈ _)
      rw [(h.seek_before hb hl).2]
      simp only [bind_eq_bind, bind_some, ha]
      exact ⟨_, rfl, h.unlink_inner hm ho hl ha rfl h.max_chain_len, (free_owned_spec _ _).2.2.2.1⟩
  · -- the head of the bucket would be in the map
    have hin : p ∈ chains (bucket hash t.hashpower o.obj_id) := by
      cases hc : chains (bucket hash t.hashpower o.obj_id) with
      | nil =>
        rw [hc] at hlinked
        exact absurd (hlinked.symm.trans hhead) (by simp)
      | cons x l =>
        rw [hc, hhead] at hlinked
        cases hlinked.1
        simp
    obtain ⟨o', ho', hm'⟩ := h.of_mem_chain hb hin
    rw [ho] at ho'
    cases ho'
    exact absurd hm' hm
  · have hnone : (chains (bucket hash t.hashpower o.obj_id)).find? (links_to t.heap p) = none := by
      rw [find?_eq_none]
      intro x hx hlink
      obtain ⟨o', ho', hm'⟩ := h.of_mem_chain hb (hlinked.mem_of_next hx (by simpa [links_to] using hlink))
      rw [ho] at ho'
      cases ho'
      exact hm hm'
    rw [hlinked.seek _ (Linked.length_le hlinked), hnone]
    rfl

theorem seek_obj_id_spec {heap : Table Ptr CacheObj} {x : Ptr} {l : List Ptr}
    (h : Linked (hash_next heap) (some x) (x :: l)) {fuel : Nat}
    (hfuel : l.length < fuel) (id : ObjId) :
    (∃ a, seek_obj_id heap id fuel x = some (a, none) ∧ ∀ y ∈ l, ∀ o, heap.lookup y = some o → o.obj_id ≠ id) ∨
      ∃ l1 a y l2 o, x :: l = l1 ++ a :: y :: l2 ∧ seek_obj_id heap id fuel x = some (a, some y) ∧
        heap.lookup y = some o ∧ o.obj_id = id := by
  induction l generalizing x fuel with
  | nil =>
    obtain ⟨-, tail, htail, hnil⟩ := h
    obtain ⟨o, ho, rfl⟩ := map_eq_some_iff.1 htail
    have hnone : o.hash_next = none := hnil
    cases fuel with
    | zero => omega
    | succ fuel => exact .inl ⟨x, by simp [seek_obj_id, ho, hnone], by simp⟩
  | cons y l ih =>
    obtain ⟨-, tail, htail, hl⟩ := h
    obtain ⟨o, ho, rfl⟩ := map_eq_some_iff.1 htail
    have hy : o.hash_next = some y := hl.1
    rw [hy] at hl
    obtain ⟨oy, hoy, -⟩ := map_eq_some_iff.1 hl.2.choose_spec.1
    rw [length_cons] at hfuel
    cases fuel with
    | zero => omega
    | succ fuel =>
      by_cases hid : oy.obj_id = id
      · exact .inr ⟨[], x, y, l, oy, rfl, by simp [seek_obj_id, ho, hy, hoy, hid], hoy, hid⟩
      · have hstep : seek_obj_id heap id (fuel + 1) x = seek_obj_id heap id fuel y := by
          simp [seek_obj_id, ho, hy, hoy, hid]
        rw [hstep]
        have hfuel' : l.length < fuel := by omega
        rcases ih hl hfuel' with ⟨a, hseek, hne⟩ | ⟨l1, a, z, l2, oz, heq, hseek, hoz, hidz⟩
        · refine .inl ⟨a, hseek, ?_⟩
          intro z hz oz hoz
          rcases mem_cons.1 hz with rfl | hz
          · rw [hoy] at hoz
            cases hoz
            exact hid
          · exact hne z hz oz hoz
        · exact .inr ⟨x :: l1, a, z, l2, oz, by rw [heq]; rfl, hseek, hoz, hidz⟩

section

variable (h : Rep hash t chains m)
include h

theorem Rep.delete_obj_id (id : ObjId) :
    ∃ t', chained_hashtable_delete_obj_id_v2 hash t id = some (t', (m.lookup id).isSome) ∧ Refines hash t' (m.erase id) ∧
      t'.external_obj = t.external_obj := by
  have hb := bucket_lt hash t.hashpower id
  have hlinked := h.chained.linked _ hb
  have hmiss : m.lookup id = none → Refines hash t (m.erase id) := by
    intro hm
    rw [erase_of_notMem (AList.lookup_eq_none.1 hm)]
    exact ⟨chains, h⟩
  unfold chained_hashtable_delete_obj_id_v2
  dsimp only
  cases hhead : t.ptr_table (bucket hash t.hashpower id) with
  | none =>
    have hnil : chains (bucket hash t.hashpower id) = [] := by
      rw [hhead] at hlinked
      exact hlinked.unique rfl
    have hm : m.lookup id = none := by
      cases hm : m.lookup id with
      | none => rfl
      | some p =>
        have := h.mem_chain hm
        rw [hnil] at this
        simp at this
    exact ⟨t, by simp [hm], hmiss hm, rfl⟩
  | some x =>
    obtain ⟨l, hl⟩ : ∃ l, chains (bucket hash t.hashpower id) = x :: l := by
      cases hc : chains (bucket hash t.hashpower id) with
      | nil =>
        rw [hc, hhead] at hlinked
        exact absurd hlinked (by simp [Linked])
      | cons y l =>
        rw [hc, hhead] at hlinked
        cases hlinked.1
        exact ⟨l, rfl⟩
    obtain ⟨o, ho, hmo⟩ := h.of_mem_chain hb (by rw [hl]; simp : x ∈ _)
    simp only [ho, bind_eq_bind, bind_some]
    split_ifs with hid
    · subst hid
      exact ⟨_, by rw [hmo]; rfl, h.unlink_head hmo ho hl rfl, (free_owned_spec _ _).2.2.2.1⟩
    · rw [hhead, hl] at hlinked
      have hlen := Linked.length_le hlinked
      have hfuel : l.length < t.heap.entries.length := hlen
      rcases seek_obj_id_spec hlinked hfuel id with ⟨a, hseek, hne⟩ | ⟨l1, a, y, l2, oy, heq, hseek, hoy, rfl⟩
      · have hm : m.lookup id = none := by
          cases hm : m.lookup id with
          | none => rfl
          | some p =>
            obtain ⟨op, hop, hidp⟩ := h.lookup hm
            have hin := h.mem_chain hm
            rw [hl] at hin
            rcases mem_cons.1 hin with rfl | hin
            · rw [ho] at hop
              cases hop
              exact absurd hidp hid
            · exact absurd hidp (hne p hin op hop)
        exact ⟨t, by rw [hseek, hm]; rfl, hmiss hm, rfl⟩
      · rw [heq] at hl
        obtain ⟨oy', hoy', hmy⟩ := h.of_mem_chain hb (by rw [hl]; simp : y ∈ _)
        rw [hoy] at hoy'
        cases hoy'
        obtain ⟨cur, ha, -⟩ := h.of_mem_chain hb (by rw [hl]; simp : a ∈ _)
        rw [hseek, hmy]
        simp only [bind_some, ha, hoy]
        exact ⟨_, rfl, h.unlink_inner hmy hoy hl ha rfl h.max_chain_len, (free_owned_spec _ _).2.2.2.1⟩

/-! ## A random object -/

theorem Rep.shrink (hpower : t.hashpower ≠ 0) :
    ∃ t', _chained_hashtable_shrink_v2 hash t = some t' ∧ Refines hash t' m ∧ t'.hashpower = t.hashpower - 1 ∧
      t'.external_obj = t.external_obj := by
  unfold _chained_hashtable_shrink_v2
  rw [if_neg hpower]
  obtain ⟨t', chains', hcopy, h', hpower', hframe, hmember, -⟩ := resize_spec h.chained (t.hashpower - 1)
  exact ⟨t', hcopy, ⟨chains', h.congr h' hmember hframe⟩, hpower', hframe.external_obj⟩

theorem Rep.only_bucket (hm : m.lookup id = some p) (hpower : t.hashpower = 0) {pos : Nat}
    (hpos : pos < hashsize t.hashpower) : (t.ptr_table pos).isSome := by
  have hone : hashsize t.hashpower = 1 := by rw [hpower]; rfl
  have hb := bucket_lt hash t.hashpower id
  have hin := h.mem_chain hm
  rw [show bucket hash t.hashpower id = pos by omega] at hin
  have hlinked := h.chained.linked pos hpos
  cases hc : chains pos with
  | nil => simp [hc] at hin
  | cons x l =>
    rw [hc] at hlinked
    simp [hlinked.1]

end

theorem mask_lt (r hashpower : Nat) : r &&& hashmask hashpower < hashsize hashpower := bucket_lt (fun r => r) hashpower r

theorem rand_bucket_spec (rand : Nat → Nat) {fuel pos k n_tries : Nat} (h : Refines hash t m) (hm : m.lookup id = some p)
    (hpos : pos < hashsize t.hashpower) (hfuel : (32 - n_tries) + t.hashpower ≤ fuel) :
    ∃ t' pos' k', rand_bucket hash rand fuel t pos k n_tries = some (t', pos', k') ∧ Refines hash t' m ∧
      pos' < hashsize t'.hashpower ∧ (t'.ptr_table pos').isSome ∧ t'.external_obj = t.external_obj := by
  induction fuel generalizing t pos k n_tries with
  | zero =>
    obtain ⟨chains, hrep⟩ := h
    have hsome := hrep.only_bucket hm (by omega) hpos
    exact ⟨t, pos, k, by rw [rand_bucket, if_pos hsome], ⟨chains, hrep⟩, hpos, hsome, rfl⟩
  | succ fuel ih =>
    by_cases hsome : (t.ptr_table pos).isSome
    · exact ⟨t, pos, k, by rw [rand_bucket, if_pos hsome], h, hpos, hsome, rfl⟩
    · rw [rand_bucket, if_neg hsome]
      by_cases htries : n_tries + 1 > 32
      · obtain ⟨chains, hrep⟩ := h
        have hpower : t.hashpower ≠ 0 := fun hzero => hsome (hrep.only_bucket hm hzero hpos)
        obtain ⟨t1, hshrink, h1, hpower1, hext⟩ := hrep.shrink hpower
        rw [if_pos htries, hshrink, bind_eq_bind, bind_some]
        obtain ⟨t', pos', k', hrand, h', hpos', hsome', hext'⟩ := ih (k := k + 1) h1 (mask_lt (rand k) t1.hashpower)
          (by omega : (32 - (n_tries + 1)) + t1.hashpower ≤ fuel)
        exact ⟨t', pos', k', hrand, h', hpos', hsome', hext'.trans hext⟩
      · rw [if_neg htries, bind_eq_bind, bind_some]
        exact ih h (mask_lt (rand k) t.hashpower) (by omega)

theorem Refines.rand_obj (h : Refines hash t m) (hm : m.lookup id = some p) (rand : Nat → Nat) :
    ∃ t' id' q, chained_hashtable_rand_obj_v2 hash t rand = some (t', q) ∧ Refines hash t' m ∧ m.lookup id' = some q ∧
      t'.external_obj = t.external_obj := by
  obtain ⟨t', pos, k, hrand, ⟨chains', h'⟩, hpos, hsome, hext⟩ := rand_bucket_spec (k := 1) rand h hm (mask_lt (rand 0) t.hashpower)
    (by omega : (32 - 0) + t.hashpower ≤ 33 + t.hashpower)
  have hlinked := h'.chained.linked pos hpos
  have hne : chains' pos ≠ [] := by
    intro hnil
    rw [hnil] at hlinked
    rw [hlinked] at hsome
    simp at hsome
  have hlt : rand k % (chains' pos).length < (chains' pos).length := Nat.mod_lt _ (length_pos_of_ne_nil hne)
  obtain ⟨o, -, hmo⟩ := h'.of_mem_chain hpos (getElem_mem hlt)
  refine ⟨t', o.obj_id, _, ?_, ⟨chains', h'⟩, hmo, hext⟩
  simp [chained_hashtable_rand_obj_v2, hrand, h'.bucket_chain hpos, hlt]

/-! ## A table that owns its objects -/

inductive Op where
  | insert (req : Request) (new_cache_obj : Ptr)
  | find (obj_id : ObjId)
  | delete (cache_obj : Ptr)
  | try_delete (cache_obj : Ptr)
  | delete_obj_id (obj_id : ObjId)
  | rand_obj (rand : Nat → Nat)

inductive Ret where
  | none
  | obj (p : Option Ptr)
  | bool (b : Bool)
deriving DecidableEq

def exec (hash : ObjId → Nat) (t : HashTable) : Op → Option (HashTable × Ret)
  | .insert req p => (chained_hashtable_insert_v2 hash t req p).map fun t => (t, .obj (some p))
  | .find id => (chained_hashtable_find_obj_id_v2 hash t id).map fun p => (t, .obj p)
  | .delete p => (chained_hashtable_delete_v2 hash t p).map fun t => (t, .none)
  | .try_delete p => (chained_hashtable_try_delete_v2 hash t p).map fun (t, b) => (t, .bool b)
  | .delete_obj_id id => (chained_hashtable_delete_obj_id_v2 hash t id).map fun (t, b) => (t, .bool b)
  | .rand_obj rand => (chained_hashtable_rand_obj_v2 hash t rand).map fun (t, p) => (t, .obj (some p))

def id_of (m : Table ObjId Ptr) (p : Ptr) : Option ObjId := (m.entries.find? fun e => e.2 = p).map (·.1)

def erase_obj (m : Table ObjId Ptr) (p : Ptr) : Table ObjId Ptr :=
  match id_of m p with
  | none => m
  | some id => m.erase id

def Op.on_map (m : Table ObjId Ptr) : Op → Table ObjId Ptr
  | .insert req p => m.insert req.obj_id p
  | .delete p | .try_delete p => erase_obj m p
  | .delete_obj_id id => m.erase id
  | .find _ | .rand_obj _ => m

def Op.Answer (m : Table ObjId Ptr) : Op → Ret → Prop
  | .insert _ p, r => r = .obj (some p)
  | .find id, r => r = .obj (m.lookup id)
  | .delete _, r => r = .none
  | .try_delete p, r => r = .bool (id_of m p).isSome
  | .delete_obj_id id, r => r = .bool (m.lookup id).isSome
  | .rand_obj _, r => ∃ p, r = .obj (some p) ∧ (id_of m p).isSome

/-- What the user of the table has to see to: `malloc` returns a new address, an id is inserted once,
only objects of the table are deleted, and `try_delete` gets an object. -/
def Op.Legal (t : HashTable) (m : Table ObjId Ptr) : Op → Prop
  | .insert req p => req.obj_id ∉ m ∧ p ∉ t.heap
  | .delete p => (id_of m p).isSome
  | .try_delete p => p ∈ t.heap
  | .rand_obj _ => m.entries ≠ []
  | .find _ | .delete_obj_id _ => True

def Op.Shallow (hash : ObjId → Nat) (t : HashTable) (m : Table ObjId Ptr) : Op → Prop
  | .delete p => ∀ id, m.lookup id = some p → (bucket_chain t (bucket hash t.hashpower id)).idxOf p ≤ 64
  | _ => True

def step (hash : ObjId → Nat) (s : HashTable × Table ObjId Ptr) (op : Op) : Option (HashTable × Table ObjId Ptr) :=
  (exec hash s.1 op).map fun (t, _) => (t, op.on_map s.2)

theorem Rep.lookup_inj (h : Rep hash t chains m) {id' : ObjId} (hm : m.lookup id = some p)
    (hm' : m.lookup id' = some p) : id = id' := by
  obtain ⟨o, ho, rfl⟩ := h.lookup hm
  obtain ⟨o', ho', rfl⟩ := h.lookup hm'
  rw [ho] at ho'
  cases ho'
  rfl

theorem lookup_of_id_of (h : id_of m p = some id) : m.lookup id = some p := by
  obtain ⟨e, he, rfl⟩ := map_eq_some_iff.1 h
  have hp : e.2 = p := by simpa using find?_some he
  rw [← hp]
  exact lookup_of_mem_entries (mem_of_find?_eq_some he)

section

variable (h : Rep hash t chains m)
include h

section

variable (hm : m.lookup id = some p)
include hm

theorem Rep.id_of_eq : id_of m p = some id := by
  cases hid : id_of m p with
  | none =>
    have := find?_eq_none.1 (Option.map_eq_none_iff.1 hid) _ (mem_entries_of_lookup hm)
    simp at this
  | some id' => rw [h.lookup_inj (lookup_of_id_of hid) hm]

theorem Rep.erase_obj : Hash.erase_obj m p = m.erase id := by
  rw [Hash.erase_obj, h.id_of_eq hm]

theorem Rep.delete_deep
    (hdepth : 64 < (Hash.bucket_chain t (bucket hash t.hashpower id)).idxOf p) : chained_hashtable_delete_v2 hash t p = none := by
  obtain ⟨o, ho, rfl⟩ := h.lookup hm
  have hb := bucket_lt hash t.hashpower o.obj_id
  have hchain := h.bucket_chain hb
  rw [hchain] at hdepth
  rcases head_or_behind (h.mem_chain hm) with ⟨l, hl⟩ | ⟨l1, a, l2, hl⟩
  · simp [hl] at hdepth
  · obtain ⟨hhead, hseek⟩ := h.seek_before hb hl
    have hnodup := (h.chained.linked _ hb).nodup
    rw [hl] at hnodup hdepth
    rw [idxOf_behind hnodup] at hdepth
    have hmax := h.max_chain_len
    have hcount : count_n_obj_in_bucket { t with n_obj := t.n_obj - 1 } (bucket hash t.hashpower o.obj_id) = none := by
      have hids : ∀ l : List Ptr, (∀ x ∈ l, ∃ o, t.heap.lookup x = some o) →
          (l.filterMap fun p => (t.heap.lookup p).map fun o => o.obj_id).length = l.length := by
        intro l hall
        induction l with
        | nil => rfl
        | cons x l ih =>
          obtain ⟨ox, hox⟩ := hall x (by simp)
          rw [filterMap_cons_some (by rw [hox]; rfl), length_cons, length_cons, ih fun y hy => hall y (by simp [hy])]
      have hlen := hids (chains (bucket hash t.hashpower o.obj_id)) fun x hx => h.chained.lookup ⟨_, hb, hx⟩
      have hlong : 64 < (chains (bucket hash t.hashpower o.obj_id)).length := by
        rw [hl, length_append, length_cons, length_cons]
        omega
      unfold count_n_obj_in_bucket
      have hchain' : Hash.bucket_chain { t with n_obj := t.n_obj - 1 } (bucket hash t.hashpower o.obj_id) =
        chains (bucket hash t.hashpower o.obj_id) := hchain
      rw [hchain']
      dsimp only
      rw [hlen, guard, if_neg fun hle => absurd hle.1 (not_le.2 hlong)]
      rfl
    have hprint : print_hashbucket_item_distribution { t with n_obj := t.n_obj - 1 } = none := by
      have hsome : ∀ l : List Nat, bucket hash t.hashpower o.obj_id ∈ l →
          l.forM (fun hv => (count_n_obj_in_bucket { t with n_obj := t.n_obj - 1 } hv).map fun _ => ()) = none := by
        intro l hin
        induction l with
        | nil => simp at hin
        | cons y l ih =>
          rcases mem_cons.1 hin with rfl | hin
          · simp [hcount]
          · cases hy : count_n_obj_in_bucket { t with n_obj := t.n_obj - 1 } y with
            | none => simp [hy]
            | some n => simpa [hy] using ih hin
      exact hsome _ (mem_range.2 hb)
    unfold chained_hashtable_delete_v2
    rw [ho, bind_eq_bind, bind_some]
    rw [if_neg hhead, hseek]
    simp only [bind_eq_bind, bind_some]
    rw [if_pos (by omega), hprint]
    rfl

end

end

theorem Refines.exec_iff (h : Refines hash t m) (op : Op) (hlegal : op.Legal t m) :
    op.Shallow hash t m ↔ ∃ t' r, exec hash t op = some (t', r) ∧ op.Answer m r ∧ Refines hash t' (op.on_map m) := by
  obtain ⟨chains, hrep⟩ := h
  cases op with
  | insert req p =>
    obtain ⟨t', hins, href, -⟩ := hrep.insert req hlegal.1 hlegal.2
    exact iff_of_true trivial ⟨t', _, by rw [exec, hins]; rfl, rfl, href⟩
  | find id => exact iff_of_true trivial ⟨t, _, by rw [exec, hrep.find]; rfl, rfl, chains, hrep⟩
  | delete p =>
    obtain ⟨id, hid⟩ := Option.isSome_iff_exists.1 hlegal
    have hm := lookup_of_id_of hid
    constructor
    · intro hshallow
      obtain ⟨t', hdel, href, -⟩ := hrep.delete hm (hshallow id hm)
      refine ⟨t', _, by rw [exec, hdel]; rfl, rfl, ?_⟩
      rw [Op.on_map, hrep.erase_obj hm]
      exact href
    · rintro ⟨t', r, hexec, -⟩ id' hm'
      cases hrep.lookup_inj hm hm'
      by_contra hdeep
      rw [exec, hrep.delete_deep hm (not_le.1 hdeep)] at hexec
      simp at hexec
  | try_delete p =>
    obtain ⟨o, ho⟩ := exists_lookup hlegal
    have hspec := hrep.try_delete ho
    apply iff_of_true trivial
    split_ifs at hspec with hm
    · obtain ⟨t', hdel, href, -⟩ := hspec
      refine ⟨t', .bool true, by rw [exec, hdel]; rfl, ?_, ?_⟩
      · rw [Op.Answer, hrep.id_of_eq hm]
        rfl
      · rw [Op.on_map, hrep.erase_obj hm]
        exact href
    · have hnone : id_of m p = none := by
        cases hid : id_of m p with
        | none => rfl
        | some id =>
          have hm' := lookup_of_id_of hid
          obtain ⟨o', ho', rfl⟩ := hrep.lookup hm'
          rw [ho] at ho'
          cases ho'
          exact absurd hm' hm
      refine ⟨t, .bool false, by rw [exec, hspec]; rfl, ?_, ?_⟩
      · rw [Op.Answer, hnone]
        rfl
      · rw [Op.on_map, Hash.erase_obj, hnone]
        exact ⟨chains, hrep⟩
  | delete_obj_id id =>
    obtain ⟨t', hdel, href, -⟩ := hrep.delete_obj_id id
    exact iff_of_true trivial ⟨t', _, by rw [exec, hdel]; rfl, rfl, href⟩
  | rand_obj rand =>
    obtain ⟨id, p, hm⟩ : ∃ id p, m.lookup id = some p := by
      cases hentries : m.entries with
      | nil => exact absurd hentries hlegal
      | cons e l => exact ⟨e.1, e.2, lookup_of_mem_entries (by rw [hentries]; simp)⟩
    obtain ⟨t', id', q, hrand, href, hmq, -⟩ := Refines.rand_obj ⟨chains, hrep⟩ hm rand
    refine iff_of_true trivial ⟨t', _, by rw [exec, hrand]; rfl, ⟨q, rfl, ?_⟩, href⟩
    rw [hrep.id_of_eq hmq]
    rfl

/-- In every run whose calls are legal and never delete an object behind 64 others of its bucket, the
table refines the map; there a legal call returns what the map says, and keeps it, exactly if it does not
do so either. The random numbers are arbitrary. -/
theorem hashtable_refines_map (hash : ObjId → Nat) (hashpower : Nat) (heap : Table Ptr CacheObj)
    (hreach : Reach (step hash) (fun s op => op.Legal s.1 s.2 ∧ op.Shallow hash s.1 s.2)
      (create_chained_hashtable_v2 heap hashpower, ∅) (t, m)) :
    Refines hash t m ∧ ∀ op : Op, op.Legal t m →
      (op.Shallow hash t m ↔ ∃ t' r, exec hash t op = some (t', r) ∧ op.Answer m r ∧ Refines hash t' (op.on_map m)) := by
  have hinv : Refines hash t m := by
    refine hreach.inv (fun s => Refines hash s.1 s.2) ?_ (create_refines hash heap hashpower false)
    rintro ⟨t, m⟩ op s' h ⟨hlegal, hshallow⟩ hstep
    obtain ⟨t', r, hexec, -, href⟩ := (h.exec_iff op hlegal).1 hshallow
    rw [step, hexec] at hstep
    cases hstep
    exact href
  exact ⟨hinv, fun op hlegal => hinv.exec_iff op hlegal⟩

instance (t : HashTable) (m : Table ObjId Ptr) (op : Op) : Decidable (op.Legal t m) :=
  match op with
  | .insert req p => inferInstanceAs (Decidable (req.obj_id ∉ m ∧ p ∉ t.heap))
  | .delete p => inferInstanceAs (Decidable ((id_of m p).isSome = true))
  | .try_delete p => inferInstanceAs (Decidable (p ∈ t.heap))
  | .rand_obj _ => inferInstanceAs (Decidable (m.entries ≠ []))
  | .find _ => inferInstanceAs (Decidable True)
  | .delete_obj_id _ => inferInstanceAs (Decidable True)

instance (hash : ObjId → Nat) (t : HashTable) (m : Table ObjId Ptr) (op : Op) : Decidable (op.Shallow hash t m) :=
  match op with
  | .delete p => decidable_of_iff
      (∀ id ∈ m.keys, m.lookup id = some p → (bucket_chain t (bucket hash t.hashpower id)).idxOf p ≤ 64)
      ⟨fun h id hm => h id (AList.mem_keys.1 (mem_of_lookup hm)) hm, fun h id _ => h id⟩
  | .insert _ _ | .find _ | .try_delete _ | .delete_obj_id _ | .rand_obj _ => inferInstanceAs (Decidable True)

/-- All ids collide. The fourth insertion doubles the table; id 2 goes and comes back as another object. -/
def eight_calls : Option (HashTable × Table ObjId Ptr) :=
  runs (fun s op => if op.Legal s.1 s.2 ∧ op.Shallow (fun _ => 0) s.1 s.2 then step (fun _ => 0) s op else none)
    (create_chained_hashtable_v2 ∅ 0, ∅)
    [.insert { obj_id := 1 } 0, .insert { obj_id := 2 } 1, .insert { obj_id := 3 } 2, .insert { obj_id := 4 } 3,
      .delete 1, .insert { obj_id := 2 } 4, .delete_obj_id 3, .try_delete 0]

theorem hashtable_refines_map_of_eight_calls :
    ∃ t m, eight_calls = some (t, m) ∧ Refines (fun _ => 0) t m ∧ t.hashpower = 1 ∧ t.n_obj = 2 ∧
      [1, 2, 3, 4].map (chained_hashtable_find_obj_id_v2 (fun _ => 0) t) =
        [some none, some (some 4), some none, some (some 3)] ∧
      ∃ t' r, exec (fun _ => 0) t (.delete 3) = some (t', r) ∧ Refines (fun _ => 0) t' (erase_obj m 3) := by
  obtain ⟨⟨t, m⟩, hs, hpower, hn, hfind, hlegal, hshallow⟩ : ∃ s, eight_calls = some s ∧
      s.1.hashpower = 1 ∧ s.1.n_obj = 2 ∧
      [1, 2, 3, 4].map (chained_hashtable_find_obj_id_v2 (fun _ => 0) s.1) =
        [some none, some (some 4), some none, some (some 3)] ∧
      Op.Legal s.1 s.2 (.delete 3) ∧ Op.Shallow (fun _ => 0) s.1 s.2 (.delete 3) := by decide +kernel
  obtain ⟨href, hnext⟩ := hashtable_refines_map (fun _ => 0) 0 ∅ (.of_checked hs)
  obtain ⟨t', r, hexec, -, href'⟩ := (hnext _ hlegal).1 hshallow
  exact ⟨t, m, hs, href, hpower, hn, hfind, t', r, hexec, href'⟩

def sixty_six : Option (HashTable × Table ObjId Ptr) :=
  runs (fun s op => if op.Legal s.1 s.2 then step (fun _ => 0) s op else none) (create_chained_hashtable_v2 ∅ 6, ∅)
    ((List.range 66).map fun i => .insert { obj_id := i } i)

/-- The last object of the chain cannot be deleted. -/
theorem hashtable_delete_overruns :
    (sixty_six.any fun s => Op.Legal s.1 s.2 (.delete 0) ∧ (exec (fun _ => 0) s.1 (.delete 0)).isNone) = true := by
  decide +kernel

/-! ## A table of objects that belong to others -/

inductive ExtOp where
  | insert_obj (cache_obj : Ptr)
  | find (obj_id : ObjId)
  | delete (cache_obj : Ptr)

def exec_ext (hash : ObjId → Nat) (t : HashTable) : ExtOp → Option (HashTable × Ret)
  | .insert_obj p => (chained_hashtable_insert_obj_v2 hash t p).map fun t => (t, .obj (some p))
  | .find id => (chained_hashtable_find_obj_id_v2 hash t id).map fun p => (t, .obj p)
  | .delete p => (chained_hashtable_delete_v2 hash t p).map fun t => (t, .none)

def ExtOp.on_map (t : HashTable) (m : Table ObjId Ptr) : ExtOp → Table ObjId Ptr
  | .insert_obj p =>
    match t.heap.lookup p with
    | none => m
    | some o => m.insert o.obj_id p
  | .find _ => m
  | .delete p => erase_obj m p

def ExtOp.Answer (m : Table ObjId Ptr) : ExtOp → Ret → Prop
  | .insert_obj p, r => r = .obj (some p)
  | .find id, r => r = .obj (m.lookup id)
  | .delete _, r => r = .none

def ExtOp.Legal (t : HashTable) (m : Table ObjId Ptr) : ExtOp → Prop
  | .insert_obj p => (t.heap.lookup p).any fun o => o.obj_id ∉ m
  | .find _ => True
  | .delete p => (id_of m p).isSome

def ExtOp.Safe (hash : ObjId → Nat) (t : HashTable) (m : Table ObjId Ptr) : ExtOp → Prop
  | .insert_obj p => ∀ o, t.heap.lookup p = some o → LinkSafe hash t m o
  | .find _ => True
  | .delete p => Op.Shallow hash t m (.delete p)

def step_ext (hash : ObjId → Nat) (s : HashTable × Table ObjId Ptr) (op : ExtOp) : Option (HashTable × Table ObjId Ptr) :=
  (exec_ext hash s.1 op).map fun (t, _) => (t, op.on_map s.1 s.2)

theorem Rep.linkSafe_of_insert_obj (h : Rep hash t chains m) (ho : t.heap.lookup p = some o) (hid : o.obj_id ∉ m)
    (hins : chained_hashtable_insert_obj_v2 hash t p = some t') (href : Refines hash t' (m.insert o.obj_id p)) :
      LinkSafe hash t m o := by
  have hp : ¬ Member t chains p := fun hin => hid (mem_of_lookup ((h.member _ _).2 ⟨hin, o, ho, rfl⟩))
  obtain ⟨t1, chains1, hexpand, h1, hpower, -, hsame⟩ := h.expand_if_overloaded
  have ho1 : t1.heap.lookup p = some o := (hsame p hp).trans ho
  unfold LinkSafe
  rw [← hpower]
  by_contra hunsafe
  rw [not_or] at hunsafe
  obtain ⟨q, hq⟩ := Option.ne_none_iff_exists'.1 hunsafe.1
  have hb := bucket_lt hash t1.hashpower o.obj_id
  -- the bucket is empty, so the link stays
  have hempty : t1.ptr_table (bucket hash t1.hashpower o.obj_id) = none := by
    have hlinked := h1.chained.linked _ hb
    cases hc : chains1 (bucket hash t1.hashpower o.obj_id) with
    | nil =>
      rw [hc] at hlinked
      exact hlinked
    | cons x l =>
      obtain ⟨ox, hox, hmx⟩ := h1.of_mem_chain hb (by rw [hc]; simp : x ∈ _)
      obtain ⟨ox', hox', hbx⟩ := h1.chained.placed _ hb x (by rw [hc]; simp)
      rw [hox] at hox'
      cases hox'
      exact absurd ⟨ox.obj_id, AList.mem_keys.1 (mem_of_lookup hmx), hbx⟩ hunsafe.2
  have hdone : t' = { t1 with
      ptr_table := Function.update t1.ptr_table (bucket hash t1.hashpower o.obj_id) (some p), n_obj := t1.n_obj + 1 } := by
    simpa [chained_hashtable_insert_obj_v2, hexpand, add_to_table, ho1, hempty] using hins.symm
  obtain ⟨chains', h'⟩ := href
  subst hdone
  have hlinked := h'.chained.linked _ hb
  dsimp only at hlinked
  rw [Function.update_self] at hlinked
  have hnext : hash_next t1.heap p = some (some q) := by
    rw [hash_next, ho1, ← hq]
    rfl
  have hnodup := hlinked.nodup
  have hpin : p ∈ chains' (bucket hash t1.hashpower o.obj_id) := by
    cases hc : chains' (bucket hash t1.hashpower o.obj_id) with
    | nil =>
      rw [hc] at hlinked
      exact absurd hlinked (by simp [Linked])
    | cons x l =>
      rw [hc] at hlinked
      cases hlinked.1
      simp
  have hqin := hlinked.mem_of_next hpin hnext
  obtain ⟨oq, hoq, hmq⟩ := h'.of_mem_chain hb hqin
  obtain ⟨oq', hoq', hbq⟩ := h'.chained.placed _ hb q hqin
  rw [hoq] at hoq'
  cases hoq'
  rcases eq_or_ne oq.obj_id o.obj_id with heq | hne
  · rw [heq, AList.lookup_insert, Option.some.injEq] at hmq
    subst hmq
    obtain ⟨l1, l2, hl⟩ := append_of_mem hpin
    rw [hl] at hlinked hnodup
    obtain ⟨mid, -, tail, htail, hrest⟩ := hlinked.split
    cases hnext.symm.trans htail
    cases l2 with
    | nil => exact absurd hrest (by simp [Linked])
    | cons y l2 =>
      cases hrest.1
      exact (nodup_cons.1 (nodup_append.1 hnodup).2.1).1 (by simp)
  · rw [AList.lookup_insert_ne hne] at hmq
    exact hunsafe.2 ⟨oq.obj_id, AList.mem_keys.1 (mem_of_lookup hmq), hbq⟩

theorem Refines.exec_ext_iff (h : Refines hash t m) (op : ExtOp) (hlegal : op.Legal t m) :
    op.Safe hash t m ↔ ∃ t' r, exec_ext hash t op = some (t', r) ∧ op.Answer m r ∧ Refines hash t' (op.on_map t m) := by
  cases op with
  | insert_obj p =>
    obtain ⟨chains, hrep⟩ := h
    obtain ⟨o, ho, hid⟩ := (Option.any_eq_true _ _).1 hlegal
    rw [decide_eq_true_iff] at hid
    have hmap : ExtOp.on_map t m (.insert_obj p) = m.insert o.obj_id p := by rw [ExtOp.on_map, ho]
    rw [hmap]
    constructor
    · intro hsafe
      obtain ⟨t', hins, href, -⟩ := hrep.insert_obj ho hid (hsafe o ho)
      exact ⟨t', _, by rw [exec_ext, hins]; rfl, rfl, href⟩
    · rintro ⟨t', r, hexec, -, href⟩ o' ho'
      cases ho.symm.trans ho'
      obtain ⟨t'', hins, heq⟩ := map_eq_some_iff.1 hexec
      cases heq
      exact hrep.linkSafe_of_insert_obj ho hid hins href
  | find id => exact h.exec_iff (.find id) trivial
  | delete p => exact h.exec_iff (.delete p) hlegal

/-- In every run of insertions, deletions and lookups of objects of others that are safe, the chains are
disjoint and end, and hold the objects that were inserted and not deleted since; there the next call keeps
it so exactly if it is safe. -/
theorem hashtable_external_refines_map (hash : ObjId → Nat) (hashpower : Nat) (heap : Table Ptr CacheObj)
    (hreach : Reach (step_ext hash) (fun s op => op.Legal s.1 s.2 ∧ op.Safe hash s.1 s.2)
      ({ create_chained_hashtable_v2 heap hashpower with external_obj := true }, ∅) (t, m)) :
    Refines hash t m ∧ ∀ op : ExtOp, op.Legal t m →
      (op.Safe hash t m ↔ ∃ t' r, exec_ext hash t op = some (t', r) ∧ op.Answer m r ∧ Refines hash t' (op.on_map t m)) := by
  have hinv : Refines hash t m := by
    refine hreach.inv (fun s => Refines hash s.1 s.2) ?_ (create_refines hash heap hashpower true)
    rintro ⟨t, m⟩ op s' h ⟨hlegal, hsafe⟩ hstep
    obtain ⟨t', r, hexec, -, href⟩ := (h.exec_ext_iff op hlegal).1 hsafe
    rw [step_ext, hexec] at hstep
    cases hstep
    exact href
  exact ⟨hinv, fun op hlegal => hinv.exec_ext_iff op hlegal⟩

def two_objects : Table Ptr CacheObj := (AList.insert 0 { obj_id := 1 } ∅ : Table Ptr CacheObj).insert 1 { obj_id := 2 }

instance (t : HashTable) (m : Table ObjId Ptr) (op : ExtOp) : Decidable (op.Legal t m) :=
  match op with
  | .insert_obj p => inferInstanceAs (Decidable ((t.heap.lookup p).any (fun o => decide (o.obj_id ∉ m)) = true))
  | .find _ => inferInstanceAs (Decidable True)
  | .delete p => inferInstanceAs (Decidable ((id_of m p).isSome = true))

instance (hash : ObjId → Nat) (t : HashTable) (m : Table ObjId Ptr) (op : ExtOp) : Decidable (op.Safe hash t m) :=
  match op with
  | .insert_obj p => decidable_of_iff
      (∀ o ∈ t.heap.lookup p, o.hash_next = none ∨ ∃ id ∈ m.keys,
        bucket hash (if overloaded t then t.hashpower + 1 else t.hashpower) id =
          bucket hash (if overloaded t then t.hashpower + 1 else t.hashpower) o.obj_id) Iff.rfl
  | .find _ => inferInstanceAs (Decidable True)
  | .delete p => inferInstanceAs (Decidable (Op.Shallow hash t m (.delete p)))

/-- The objects collide. The second goes and comes back with a link to the first, which is still there. -/
def four_calls : Option (HashTable × Table ObjId Ptr) :=
  runs (fun s op => if op.Legal s.1 s.2 ∧ op.Safe (fun _ => 0) s.1 s.2 then step_ext (fun _ => 0) s op else none)
    ({ create_chained_hashtable_v2 two_objects 1 with external_obj := true }, ∅)
    [.insert_obj 0, .insert_obj 1, .delete 1, .insert_obj 1]

theorem hashtable_external_refines_map_of_four_calls :
    ∃ t m, four_calls = some (t, m) ∧ Refines (fun _ => 0) t m ∧ t.n_obj = 2 ∧
      [1, 2].map (chained_hashtable_find_obj_id_v2 (fun _ => 0) t) = [some (some 0), some (some 1)] ∧
      ∃ t' r, exec_ext (fun _ => 0) t (.delete 0) = some (t', r) ∧ Refines (fun _ => 0) t' (erase_obj m 0) := by
  obtain ⟨⟨t, m⟩, hs, hn, hfind, hlegal, hsafe⟩ : ∃ s, four_calls = some s ∧ s.1.n_obj = 2 ∧
      [1, 2].map (chained_hashtable_find_obj_id_v2 (fun _ => 0) s.1) = [some (some 0), some (some 1)] ∧
      ExtOp.Legal s.1 s.2 (.delete 0) ∧ ExtOp.Safe (fun _ => 0) s.1 s.2 (.delete 0) := by decide +kernel
  obtain ⟨href, hnext⟩ := hashtable_external_refines_map (fun _ => 0) 1 two_objects (.of_checked hs)
  obtain ⟨t', r, hexec, -, href'⟩ := (hnext _ hlegal).1 hsafe
  exact ⟨t, m, hs, href, hn, hfind, t', r, hexec, href'⟩

/-- The objects collide; the second goes in and out with a link to the first, then the first goes. When
the second comes back, the first is found with it. -/
theorem hashtable_external_keeps_link :
    ((runs (step_ext fun _ => 0) ({ create_chained_hashtable_v2 two_objects 1 with external_obj := true }, ∅)
        [.insert_obj 0, .insert_obj 1, .delete 1, .delete 0, .insert_obj 1]).any fun s =>
      s.2.lookup 1 = none ∧ chained_hashtable_find_obj_id_v2 (fun _ => 0) s.1 1 = some (some 0)) = true := by
  decide

end CacheSim.Hash
