import CacheSim.HashTable.Chains

/-!
# The hash table as a finite map

`m` maps the ids to the objects. Each operation is a step of the map; an object that is not in the map
may have any link.
-/

namespace CacheSim.Hash

open Lib List Option AList Function

variable {hash : ObjId → Nat} {t t' : HashTable} {chains chains' : Nat →
  List Ptr} {m : Table ObjId Ptr} {p q : Ptr} {o : CacheObj} {id : ObjId}

structure Rep (hash : ObjId → Nat) (t : HashTable) (chains : Nat → List Ptr) (m : Table ObjId Ptr) : Prop where
  chained : Chained hash t chains
  member : ∀ id p, m.lookup id = some p ↔ Member t chains p ∧ ∃ o, t.heap.lookup p = some o ∧ o.obj_id = id
  n_obj : t.n_obj = m.entries.length
  max_chain_len : t.max_chain_len = 64

/-- Every object of the map is in one chain, at its bucket, and nothing else is in a chain. -/
def Refines (hash : ObjId → Nat) (t : HashTable) (m : Table ObjId Ptr) : Prop := ∃ chains, Rep hash t chains m

theorem create_refines (hash : ObjId → Nat) (heap : Table Ptr CacheObj) (hashpower : Nat) (external_obj : Bool) :
    Refines hash { create_chained_hashtable_v2 heap hashpower with external_obj := external_obj } ∅ :=
  ⟨fun _ => [], ⟨fun _ _ => rfl, by simp⟩, by simp [Member], rfl, rfl⟩

section

variable (h : Rep hash t chains m)
include h

theorem Rep.lookup (hm : m.lookup id = some p) : ∃ o, t.heap.lookup p = some o ∧ o.obj_id = id :=
  ((h.member id p).1 hm).2

theorem Rep.mem_chain (hm : m.lookup id = some p) : p ∈ chains (bucket hash t.hashpower id) := by
  obtain ⟨hp, o, ho, rfl⟩ := (h.member id p).1 hm
  exact h.chained.mem_bucket hp ho

theorem Rep.of_mem_chain {i : Nat} (hi : i < hashsize t.hashpower) (hp : p ∈ chains i) :
    ∃ o, t.heap.lookup p = some o ∧ m.lookup o.obj_id = some p := by
  obtain ⟨o, ho⟩ := h.chained.lookup ⟨i, hi, hp⟩
  exact ⟨o, ho, (h.member o.obj_id p).2 ⟨⟨i, hi, hp⟩, o, ho, rfl⟩⟩

theorem Rep.bucket_chain {i : Nat} (hi : i < hashsize t.hashpower) : bucket_chain t i = chains i :=
  (h.chained.linked i hi).walk (Linked.length_le (h.chained.linked i hi))

theorem Rep.congr (h' : Chained hash t' chains') (hmember : ∀ q, Member t' chains' q ↔ Member t chains q)
    (hframe : Frame t t') : Rep hash t' chains' m := by
  refine ⟨h', ?_, hframe.n_obj.trans h.n_obj, hframe.max_chain_len.trans h.max_chain_len⟩
  intro id p
  have hids := hframe.ids p
  rw [h.member, hmember]
  apply and_congr_right
  intro _
  constructor
  · rintro ⟨o, ho, rfl⟩
    rw [ho] at hids
    exact map_eq_some_iff.1 hids
  · rintro ⟨o, ho, rfl⟩
    rw [ho] at hids
    exact map_eq_some_iff.1 hids.symm

theorem Rep.expand_if_overloaded :
    ∃ t' chains', expand_if_overloaded hash t = some t' ∧ Rep hash t' chains' m ∧
      t'.hashpower = (if overloaded t then t.hashpower + 1 else t.hashpower) ∧ Frame t t' ∧
      ∀ q, ¬ Member t chains q → t'.heap.lookup q = t.heap.lookup q := by
  unfold Hash.expand_if_overloaded
  split_ifs
  · obtain ⟨t', chains', hcopy, h', hpower, hframe, hmember, hsame⟩ := resize_spec h.chained (t.hashpower + 1)
    exact ⟨t', chains', hcopy, h.congr h' hmember hframe, hpower, hframe, hsame⟩
  · exact ⟨t, chains, rfl, h, rfl, .refl t, fun _ _ => rfl⟩

theorem Rep.find (id : ObjId) : chained_hashtable_find_obj_id_v2 hash t id = some (m.lookup id) := by
  have hlt := bucket_lt hash t.hashpower id
  have hlinked := h.chained.linked _ hlt
  unfold chained_hashtable_find_obj_id_v2
  rw [hlinked.seek _ (Linked.length_le hlinked), map_some]
  congr 1
  cases hm : m.lookup id with
  | none =>
    rw [find?_eq_none]
    intro x hx
    obtain ⟨o, ho, hmx⟩ := h.of_mem_chain hlt hx
    rw [ho]
    simp only [any_some, decide_eq_true_eq]
    rintro rfl
    exact absurd (hmx.symm.trans hm) (by simp)
  | some p =>
    obtain ⟨o, ho, rfl⟩ := h.lookup hm
    cases hfind : (chains (bucket hash t.hashpower o.obj_id)).find? _ with
    | none =>
      have := find?_eq_none.1 hfind p (h.mem_chain hm)
      simp [ho] at this
    | some q =>
      have hstop := find?_some hfind
      obtain ⟨o', ho', hmq⟩ := h.of_mem_chain hlt (mem_of_find?_eq_some hfind)
      simp only [ho', any_some, decide_eq_true_eq] at hstop
      rw [hstop] at hmq
      exact (hm.symm.trans hmq).symm

/-! ## Inserting -/

theorem Rep.add (ho : t.heap.lookup p = some o) (hp : ¬ Member t chains p) (hid : o.obj_id ∉ m)
    (hlink : o.hash_next = none ∨ chains (bucket hash t.hashpower o.obj_id) ≠ []) :
    ∃ t' chains', add_to_table hash t p = some t' ∧ Rep hash { t' with n_obj := t'.n_obj + 1 } chains' (m.insert o.obj_id p) ∧
      t'.external_obj = t.external_obj := by
  obtain ⟨t', chains', hadd, -, hframe, -, h', hmember⟩ := add_to_table_spec h.chained ho hp hlink
  refine ⟨t', chains', hadd, ⟨⟨h'.linked, h'.placed⟩, ?_, ?_, hframe.max_chain_len.trans h.max_chain_len⟩, hframe.external_obj⟩
  · intro id q
    have hids := hframe.ids q
    have hmem : Member { t' with n_obj := t'.n_obj + 1 } chains' q ↔ q = p ∨ Member t chains q := hmember q
    have hobj : (∃ o', t'.heap.lookup q = some o' ∧ o'.obj_id = id) ↔ ∃ o', t.heap.lookup q = some o' ∧ o'.obj_id = id := by
      rw [← map_eq_some_iff, hids, map_eq_some_iff]
    rw [hmem]
    rw [hobj]
    rcases eq_or_ne id o.obj_id with rfl | hne
    · rw [lookup_insert, some.injEq]
      constructor
      · rintro rfl
        exact ⟨.inl rfl, o, ho, rfl⟩
      · rintro ⟨rfl | hq, o', ho', hid'⟩
        · rfl
        · exact absurd (Table.mem_of_lookup ((h.member _ _).2 ⟨hq, o', ho', hid'⟩)) hid
    · rw [lookup_insert_ne hne, h.member]
      constructor
      · rintro ⟨hq, hobj⟩
        exact ⟨.inr hq, hobj⟩
      · rintro ⟨rfl | hq, o', ho', hid'⟩
        · rw [ho] at ho'
          cases ho'
          exact absurd hid'.symm hne
        · exact ⟨hq, o', ho', hid'⟩
  · rw [hframe.n_obj, h.n_obj, entries_insert_of_notMem hid, length_cons]

theorem Rep.alloc (hp : p ∉ t.heap) (o : CacheObj) :
    Rep hash { t with heap := t.heap.insert p o } chains m ∧ ¬ Member { t with heap := t.heap.insert p o } chains p := by
  have hout : ∀ q, Member t chains q → q ≠ p := by
    rintro q hq rfl
    obtain ⟨o', ho'⟩ := h.chained.lookup hq
    exact hp (Table.mem_of_lookup ho')
  have hsame : ∀ q, Member t chains q → (t.heap.insert p o).lookup q = t.heap.lookup q :=
    fun q hq => lookup_insert_ne (hout q hq)
  refine ⟨⟨h.chained.congr rfl rfl hsame, ?_, h.n_obj, h.max_chain_len⟩, fun hin => hout p hin rfl⟩
  intro id q
  rw [h.member]
  apply and_congr_right
  intro hq
  rw [hsame q hq]

theorem Rep.insert (req : Request) (hid : req.obj_id ∉ m) (hp : p ∉ t.heap) :
    ∃ t', chained_hashtable_insert_v2 hash t req p = some t' ∧ Refines hash t' (m.insert req.obj_id p) ∧
      t'.external_obj = t.external_obj := by
  obtain ⟨t1, chains1, hexpand, h1, -, hframe, -⟩ := h.expand_if_overloaded
  have hp1 : p ∉ t1.heap := by
    rw [← lookup_eq_none] at hp ⊢
    have hids := hframe.ids p
    rw [hp] at hids
    simpa using hids
  obtain ⟨h2, hnew⟩ := h1.alloc hp1 { obj_id := req.obj_id, obj_size := req.obj_size }
  obtain ⟨t', chains', hadd, h', hext⟩ := h2.add (lookup_insert _) hnew hid (.inl rfl)
  refine ⟨_, ?_, ⟨chains', h'⟩, hext.trans hframe.external_obj⟩
  simp [chained_hashtable_insert_v2, hexpand, hadd]

/-- The link of the object is null, or it will be overwritten because its bucket is not empty. -/
def LinkSafe (hash : ObjId → Nat) (t : HashTable) (m : Table ObjId Ptr) (o : CacheObj) : Prop :=
  o.hash_next = none ∨ ∃ id ∈ m.keys, bucket hash (if overloaded t then t.hashpower + 1 else t.hashpower) id =
    bucket hash (if overloaded t then t.hashpower + 1 else t.hashpower) o.obj_id

theorem Rep.insert_obj (ho : t.heap.lookup p = some o) (hid : o.obj_id ∉ m) (hlink : LinkSafe hash t m o) :
    ∃ t', chained_hashtable_insert_obj_v2 hash t p = some t' ∧ Refines hash t' (m.insert o.obj_id p) ∧
      t'.external_obj = t.external_obj := by
  have hp : ¬ Member t chains p := fun hin => hid (Table.mem_of_lookup ((h.member _ _).2 ⟨hin, o, ho, rfl⟩))
  obtain ⟨t1, chains1, hexpand, h1, hpower, hframe, hsame⟩ := h.expand_if_overloaded
  have ho1 : t1.heap.lookup p = some o := (hsame p hp).trans ho
  have hp1 : ¬ Member t1 chains1 p := fun hin => hid (Table.mem_of_lookup ((h1.member _ _).2 ⟨hin, o, ho1, rfl⟩))
  have hlink1 : o.hash_next = none ∨ chains1 (bucket hash t1.hashpower o.obj_id) ≠ [] := by
    apply hlink.imp_right
    rintro ⟨id, hid', hb⟩
    obtain ⟨q, hq⟩ := Table.exists_lookup (mem_keys.2 hid')
    have hmem := h1.mem_chain hq
    rw [hpower, hb] at hmem
    rw [hpower]
    exact ne_nil_of_mem hmem
  obtain ⟨t', chains', hadd, h', hext⟩ := h1.add ho1 hp1 hid hlink1
  refine ⟨_, ?_, ⟨chains', h'⟩, hext.trans hframe.external_obj⟩
  simp [chained_hashtable_insert_obj_v2, hexpand, hadd]

end

theorem free_owned_spec (t : HashTable) (p : Ptr) :
    (free_owned t p).hashpower = t.hashpower ∧ (free_owned t p).ptr_table = t.ptr_table ∧ (free_owned t p).n_obj = t.n_obj ∧
      (free_owned t p).external_obj = t.external_obj ∧ (free_owned t p).max_chain_len = t.max_chain_len ∧
      ∀ q ≠ p, (free_owned t p).heap.lookup q = t.heap.lookup q := by
  unfold free_owned
  split_ifs
  · exact ⟨rfl, rfl, rfl, rfl, rfl, fun _ _ => rfl⟩
  · exact ⟨rfl, rfl, rfl, rfl, rfl, fun q hq => lookup_erase_ne hq⟩

section

variable (h : Rep hash t chains m)
include h

section

variable (hm : m.lookup id = some p)
include hm

theorem Rep.unlinked {l : List Ptr}
    (hl : ∀ q, q ∈ l ↔ q ∈ chains (bucket hash t.hashpower id) ∧ q ≠ p)
    (h' : Chained hash t' (update chains (bucket hash t.hashpower id) l)) (hpower : t'.hashpower = t.hashpower)
    (hids : ∀ q, (t'.heap.lookup q).map (fun o => o.obj_id) = (t.heap.lookup q).map fun o => o.obj_id)
    (hn : t'.n_obj = t.n_obj - 1) (hmax : t'.max_chain_len = 64) : Refines hash (free_owned t' p) (m.erase id) := by
  obtain ⟨hpower', htable, hn', -, hmax', hsame⟩ := free_owned_spec t' p
  have hmember : ∀ q, Member t' (update chains (bucket hash t.hashpower id) l) q ↔ Member t chains q ∧ q ≠ p := by
    intro q
    unfold Member
    rw [hpower]
    constructor
    · rintro ⟨i, hi, hq⟩
      rcases eq_or_ne i (bucket hash t.hashpower id) with rfl | hne
      · rw [update_self, hl] at hq
        exact ⟨⟨_, hi, hq.1⟩, hq.2⟩
      · rw [update_of_ne hne] at hq
        refine ⟨⟨i, hi, hq⟩, ?_⟩
        rintro rfl
        exact hne (h.chained.disjoint hi (bucket_lt _ _ _) hq (h.mem_chain hm))
    · rintro ⟨⟨i, hi, hq⟩, hne⟩
      refine ⟨i, hi, ?_⟩
      rcases eq_or_ne i (bucket hash t.hashpower id) with rfl | hib
      · rw [update_self, hl]
        exact ⟨hq, hne⟩
      · rwa [update_of_ne hib]
  have hmember' : ∀ q, Member (free_owned t' p) (update chains (bucket hash t.hashpower id) l) q ↔ Member t chains q ∧ q ≠ p := by
    intro q
    rw [← hmember q]
    unfold Member
    rw [hpower']
  refine ⟨_, h'.congr hpower' htable fun q hq => hsame q ((hmember q).1 hq).2, ?_, ?_, hmax'.trans hmax⟩
  · intro id' q
    rw [hmember']
    rcases eq_or_ne q p with rfl | hq
    · simp only [ne_eq, not_true_eq_false, and_false, false_and, iff_false]
      intro hm'
      rcases eq_or_ne id' id with rfl | hne
      · simp at hm'
      · rw [lookup_erase_ne hne] at hm'
        obtain ⟨o, ho, rfl⟩ := h.lookup hm
        obtain ⟨o', ho', rfl⟩ := h.lookup hm'
        rw [ho] at ho'
        cases ho'
        exact hne rfl
    · have hobj : (∃ o, (free_owned t' p).heap.lookup q = some o ∧ o.obj_id = id') ↔
        ∃ o, t.heap.lookup q = some o ∧ o.obj_id = id' := by
        rw [hsame q hq, ← map_eq_some_iff, hids, map_eq_some_iff]
      rw [hobj, and_iff_left hq, ← h.member]
      rcases eq_or_ne id' id with rfl | hne
      · simp only [lookup_erase, false_iff, hm, reduceCtorEq, some.injEq]
        exact Ne.symm hq
      · rw [lookup_erase_ne hne]
  · have hlen := (Table.perm_erase hm).length_eq
    rw [length_cons] at hlen
    rw [hn', hn, h.n_obj, hlen, Nat.add_sub_cancel]

theorem Rep.unlink_head (ho : t.heap.lookup p = some o) {l : List Ptr}
    (hl : chains (bucket hash t.hashpower id) = p :: l) {n : Nat} (hn : n = t.n_obj - 1) :
    Refines hash (free_owned { t with
      ptr_table := update t.ptr_table (bucket hash t.hashpower id) o.hash_next, n_obj := n } p) (m.erase id) := by
  have hb := bucket_lt hash t.hashpower id
  have hlinked := h.chained.linked _ hb
  rw [hl] at hlinked
  have hnodup := nodup_cons.1 hlinked.nodup
  obtain ⟨-, tail, htail, hrest⟩ := hlinked
  rw [hash_next, ho, map_some, some.injEq] at htail
  refine h.unlinked hm (l := l) ?_ ⟨?_, ?_⟩ rfl (fun _ => rfl) hn h.max_chain_len
  · intro q
    rw [hl, mem_cons]
    constructor
    · intro hq
      refine ⟨.inr hq, ?_⟩
      rintro rfl
      exact hnodup.1 hq
    · rintro ⟨rfl | hq, hne⟩
      · exact absurd rfl hne
      · exact hq
  · intro i hi
    dsimp only at hi ⊢
    rcases eq_or_ne i (bucket hash t.hashpower id) with rfl | hne
    · rw [update_self, update_self, htail]
      exact hrest
    · rw [update_of_ne hne, update_of_ne hne]
      exact h.chained.linked i hi
  · intro i hi x hx
    apply h.chained.placed i hi x
    rcases eq_or_ne i (bucket hash t.hashpower id) with rfl | hne
    · rw [update_self] at hx
      rw [hl]
      exact mem_cons_of_mem _ hx
    · rwa [update_of_ne hne] at hx

theorem Rep.unlink_inner (ho : t.heap.lookup p = some o) {l1 l2 : List Ptr} {a : Ptr}
    {cur : CacheObj} (hl : chains (bucket hash t.hashpower id) = l1 ++ a :: p :: l2) (ha : t.heap.lookup a = some cur) {n k : Nat}
    (hn : n = t.n_obj - 1) (hk : k = 64) :
    Refines hash (free_owned { t with
      heap := set_hash_next t.heap a cur o.hash_next, n_obj := n, max_chain_len := k } p) (m.erase id) := by
  have hb := bucket_lt hash t.hashpower id
  have hlinked := h.chained.linked _ hb
  rw [hl] at hlinked
  have hnodup := hlinked.nodup
  have hnext : hash_next t.heap p = some o.hash_next := by
    rw [hash_next, ho]
    rfl
  have hother : ∀ y ≠ a, hash_next (set_hash_next t.heap a cur o.hash_next) y = hash_next t.heap y :=
    fun y hy => hash_next_congr (lookup_set_ne ha _ hy)
  have hrest := hlinked.unlink hnext (hash_next_set ha o.hash_next) fun y hy _ => hother y hy
  refine h.unlinked hm (l := l1 ++ a :: l2) ?_ ⟨?_, ?_⟩ rfl (frame_set ha _).ids hn hk
  · intro q
    rw [hl]
    have hp1 : p ∉ l1 := by
      intro hin
      exact (nodup_append.1 hnodup).2.2 p hin p (by simp) rfl
    have hp2 : p ≠ a ∧ p ∉ l2 := by
      have := (nodup_append.1 hnodup).2.1
      simp only [nodup_cons, mem_cons, not_or] at this
      exact ⟨Ne.symm this.1.1, this.2.1⟩
    constructor
    · intro hq
      refine ⟨by simp only [mem_append, mem_cons] at hq ⊢; tauto, ?_⟩
      rintro rfl
      simp only [mem_append, mem_cons] at hq
      tauto
    · rintro ⟨hq, hne⟩
      simp only [mem_append, mem_cons] at hq ⊢
      tauto
  · intro i hi
    rcases eq_or_ne i (bucket hash t.hashpower id) with rfl | hne
    · rw [update_self]
      exact hrest
    · rw [update_of_ne hne]
      apply (h.chained.linked i hi).congr
      intro y hy
      apply hother
      rintro rfl
      exact hne (h.chained.disjoint hi hb hy (by rw [hl]; simp))
  · intro i hi x hx
    have hold : x ∈ chains i := by
      rcases eq_or_ne i (bucket hash t.hashpower id) with rfl | hne
      · rw [update_self] at hx
        rw [hl]
        simp only [mem_append, mem_cons] at hx ⊢
        tauto
      · rwa [update_of_ne hne] at hx
    obtain ⟨o', ho', hbucket⟩ := h.chained.placed i hi x hold
    rcases eq_or_ne x a with rfl | hxa
    · rw [ha] at ho'
      cases ho'
      exact ⟨_, lookup_set ha _, hbucket⟩
    · exact ⟨o', (lookup_set_ne ha _ hxa).trans ho', hbucket⟩

end

end

end CacheSim.Hash
