import CacheSim.HashTable.Model

/-!
# The chains of a hash table

`Chained` says that every bucket has a chain that ends, with the objects that hash to it.
-/

namespace CacheSim.Hash

open Lib List Function

variable {hash : ObjId → Nat} {t t' t'' : HashTable} {chains chains' : Nat → List Ptr} {p q : Ptr} {o : CacheObj}

structure Chained (hash : ObjId → Nat) (t : HashTable) (chains : Nat → List Ptr) : Prop where
  linked : ∀ i < hashsize t.hashpower, Linked (hash_next t.heap) (t.ptr_table i) (chains i)
  placed : ∀ i < hashsize t.hashpower, ∀ p ∈ chains i, ∃ o, t.heap.lookup p = some o ∧ bucket hash t.hashpower o.obj_id = i

def Member (t : HashTable) (chains : Nat → List Ptr) (p : Ptr) : Prop := ∃ i < hashsize t.hashpower, p ∈ chains i

structure Frame (t t' : HashTable) : Prop where
  n_obj : t'.n_obj = t.n_obj
  external_obj : t'.external_obj = t.external_obj
  max_chain_len : t'.max_chain_len = t.max_chain_len
  length : t'.heap.entries.length = t.heap.entries.length
  ids : ∀ p, (t'.heap.lookup p).map (fun o => o.obj_id) = (t.heap.lookup p).map fun o => o.obj_id

theorem Frame.refl (t : HashTable) : Frame t t := ⟨rfl, rfl, rfl, rfl, fun _ => rfl⟩

theorem Frame.trans (h : Frame t t') (h' : Frame t' t'') : Frame t t'' :=
  ⟨h'.n_obj.trans h.n_obj, h'.external_obj.trans h.external_obj, h'.max_chain_len.trans h.max_chain_len,
    h'.length.trans h.length, fun p => (h'.ids p).trans (h.ids p)⟩

theorem bucket_lt (hash : ObjId → Nat) (hashpower : Nat) (id : ObjId) : bucket hash hashpower id < hashsize hashpower := by
  have hpos : 0 < hashsize hashpower := Nat.two_pow_pos hashpower
  have hle : bucket hash hashpower id ≤ hashmask hashpower := Nat.and_le_right
  unfold hashmask at hle
  omega

theorem length_replace (heap : Table Ptr CacheObj) (p : Ptr) (o : CacheObj) :
    (heap.replace p o).entries.length = heap.entries.length := by
  have hkeys := congrArg List.length (AList.keys_replace p o heap)
  simpa [AList.keys, List.keys] using hkeys

section

variable (h : t.heap.lookup p = some o)
include h

theorem hash_next_set (next : Option Ptr) : hash_next (set_hash_next t.heap p o next) p = some next := by
  rw [hash_next, set_hash_next, Table.lookup_replace h]
  rfl

theorem lookup_set_ne (next : Option Ptr) (hq : q ≠ p) :
    (set_hash_next t.heap p o next).lookup q = t.heap.lookup q := Table.lookup_replace_ne h _ hq

theorem lookup_set (next : Option Ptr) :
    (set_hash_next t.heap p o next).lookup p = some { o with hash_next := next } := Table.lookup_replace h _

end

theorem hash_next_congr {heap heap' : Table Ptr CacheObj} (h : heap'.lookup p = heap.lookup p) :
    hash_next heap' p = hash_next heap p := by
  rw [hash_next, hash_next, h]

theorem frame_set (h : t.heap.lookup p = some o) (next : Option Ptr) : Frame t { t with heap := set_hash_next t.heap p o next } := by
  refine ⟨rfl, rfl, rfl, length_replace _ _ _, ?_⟩
  intro q
  rcases eq_or_ne q p with rfl | hne
  · rw [lookup_set h, h]
    rfl
  · rw [lookup_set_ne h next hne]

theorem frame_ptr_table (t : HashTable) (ptr_table : Nat → Option Ptr) : Frame t { t with ptr_table := ptr_table } :=
  ⟨rfl, rfl, rfl, rfl, fun _ => rfl⟩

variable {head : Option Ptr} {l : List Ptr}

theorem Linked.length_le {heap : Table Ptr CacheObj} (h : Linked (hash_next heap) head l) :
    l.length ≤ heap.entries.length := by
  have hsub : l ⊆ heap.keys := by
    intro x hx
    have hsome := h.next_isSome hx
    rw [hash_next, Option.isSome_map, AList.lookup_isSome] at hsome
    exact AList.mem_keys.1 hsome
  have hle := (subperm_of_subset h.nodup hsub).length_le
  rwa [AList.keys, List.keys, length_map] at hle

/-! ## Chains -/

section

variable (h : Chained hash t chains)
include h

theorem Chained.lookup (hp : Member t chains p) : ∃ o, t.heap.lookup p = some o := by
  obtain ⟨i, hi, hp⟩ := hp
  obtain ⟨o, ho, -⟩ := h.placed i hi p hp
  exact ⟨o, ho⟩

theorem Chained.disjoint {i j : Nat} (hi : i < hashsize t.hashpower) (hj : j < hashsize t.hashpower)
    (hpi : p ∈ chains i) (hpj : p ∈ chains j) : i = j := by
  obtain ⟨o, ho, hb⟩ := h.placed i hi p hpi
  obtain ⟨o', ho', hb'⟩ := h.placed j hj p hpj
  rw [ho] at ho'
  cases ho'
  exact hb.symm.trans hb'

theorem Chained.mem_bucket (hp : Member t chains p) (ho : t.heap.lookup p = some o) :
    p ∈ chains (bucket hash t.hashpower o.obj_id) := by
  obtain ⟨i, hi, hpi⟩ := hp
  obtain ⟨o', ho', hb⟩ := h.placed i hi p hpi
  rw [ho] at ho'
  cases ho'
  rwa [hb]

theorem Chained.congr (hpower : t'.hashpower = t.hashpower) (htable : t'.ptr_table = t.ptr_table)
    (heq : ∀ p, Member t chains p → t'.heap.lookup p = t.heap.lookup p) : Chained hash t' chains := by
  constructor
  · intro i hi
    rw [hpower] at hi
    rw [htable]
    exact (h.linked i hi).congr fun x hx => hash_next_congr (heq x ⟨i, hi, hx⟩)
  · intro i hi x hx
    rw [hpower] at hi ⊢
    obtain ⟨o, ho, hb⟩ := h.placed i hi x hx
    exact ⟨o, (heq x ⟨i, hi, hx⟩).trans ho, hb⟩

end

theorem member_update {b : Nat} (hb : b < hashsize t.hashpower) (hpower : t'.hashpower = t.hashpower) :
    Member t' (update chains b (p :: chains b)) q ↔ q = p ∨ Member t chains q := by
  unfold Member
  rw [hpower]
  constructor
  · rintro ⟨i, hi, hq⟩
    rcases eq_or_ne i b with rfl | hne
    · rw [update_self, mem_cons] at hq
      exact hq.imp_right fun hq => ⟨i, hi, hq⟩
    · rw [update_of_ne hne] at hq
      exact .inr ⟨i, hi, hq⟩
  · rintro (rfl | ⟨i, hi, hq⟩)
    · exact ⟨b, hb, by simp⟩
    · refine ⟨i, hi, ?_⟩
      rcases eq_or_ne i b with rfl | hne
      · rw [update_self]
        exact mem_cons_of_mem _ hq
      · rwa [update_of_ne hne]

theorem add_to_table_spec (h : Chained hash t chains) (ho : t.heap.lookup p = some o) (hp : ¬ Member t chains p)
    (hlink : o.hash_next = none ∨ chains (bucket hash t.hashpower o.obj_id) ≠ []) :
    ∃ t' chains', add_to_table hash t p = some t' ∧ t'.hashpower = t.hashpower ∧ Frame t t' ∧
      (∀ q ≠ p, t'.heap.lookup q = t.heap.lookup q) ∧ Chained hash t' chains' ∧
      ∀ q, Member t' chains' q ↔ q = p ∨ Member t chains q := by
  set b := bucket hash t.hashpower o.obj_id with hb
  have hlt : b < hashsize t.hashpower := bucket_lt hash _ _
  -- the state after the link is set is the same in both branches
  have hdone : ∀ heap' : Table Ptr CacheObj, (∃ o', heap'.lookup p = some o' ∧ o'.obj_id = o.obj_id ∧ o'.hash_next = t.ptr_table b) →
      (∀ q ≠ p, heap'.lookup q = t.heap.lookup q) →
      Chained hash { t with heap := heap', ptr_table := update t.ptr_table b (some p) } (update chains b (p :: chains b)) := by
    rintro heap' ⟨o', ho', hid, hnext⟩ heq
    have hlinked : ∀ i < hashsize t.hashpower, Linked (hash_next heap') (t.ptr_table i) (chains i) := by
      intro i hi
      apply (h.linked i hi).congr
      intro x hx
      apply hash_next_congr
      apply heq
      rintro rfl
      exact hp ⟨i, hi, hx⟩
    constructor
    · intro i hi
      dsimp only at hi ⊢
      rcases eq_or_ne i b with rfl | hne
      · rw [update_self, update_self]
        exact ⟨rfl, t.ptr_table b, by rw [hash_next, ho', ← hnext]; rfl, hlinked b hlt⟩
      · rw [update_of_ne hne, update_of_ne hne]
        exact hlinked i hi
    · intro i hi x hx
      rcases eq_or_ne x p with rfl | hxp
      · refine ⟨o', ho', ?_⟩
        rcases eq_or_ne i b with rfl | hne
        · rw [hid]
        · rw [update_of_ne hne] at hx
          exact absurd ⟨i, hi, hx⟩ hp
      · have hold : x ∈ chains i := by
          rcases eq_or_ne i b with rfl | hne
          · rw [update_self] at hx
            exact (mem_cons.1 hx).resolve_left hxp
          · rwa [update_of_ne hne] at hx
        obtain ⟨o'', ho'', hb'⟩ := h.placed i hi x hold
        exact ⟨o'', (heq x hxp).trans ho'', hb'⟩
  have hbucket := h.linked b hlt
  unfold add_to_table
  rw [ho, Option.bind_eq_bind, Option.bind_some]
  dsimp only
  cases hhead : t.ptr_table b with
  | none =>
    have hnil : chains b = [] := by
      rw [hhead] at hbucket
      exact hbucket.unique rfl
    have hnone : o.hash_next = none := hlink.resolve_right fun hne => hne hnil
    exact ⟨_, _, rfl, rfl, frame_ptr_table t _, fun _ _ => rfl, hdone t.heap ⟨o, ho, rfl, hnone.trans hhead.symm⟩ fun _ _ => rfl,
      fun _ => member_update hlt rfl⟩
  | some head =>
    exact ⟨_, _, rfl, rfl, (frame_set ho (some head)).trans (frame_ptr_table _ _), fun q hq => lookup_set_ne ho _ hq,
      hdone _ ⟨_, lookup_set ho (some head), rfl, hhead.symm⟩ fun q hq => lookup_set_ne ho _ hq, fun _ => member_update hlt rfl⟩

theorem copy_chain_spec {fuel : Nat} (h : Chained hash t chains)
    (hl : Linked (hash_next t.heap) head l) (hnew : ∀ x ∈ l, ¬ Member t chains x) (hfuel : l.length ≤ fuel) :
    ∃ t' chains', copy_chain hash fuel t head = some t' ∧ Chained hash t' chains' ∧ t'.hashpower = t.hashpower ∧ Frame t t' ∧
      (∀ q, Member t' chains' q ↔ Member t chains q ∨ q ∈ l) ∧ ∀ q ∉ l, t'.heap.lookup q = t.heap.lookup q := by
  induction l generalizing t chains head fuel with
  | nil =>
    cases hl
    exact ⟨t, chains, by simp [copy_chain], h, rfl, .refl t, by simp, fun _ _ => rfl⟩
  | cons x l ih =>
    have hnodup := nodup_cons.1 hl.nodup
    obtain ⟨rfl, tail, htail, hl⟩ := hl
    obtain ⟨o, ho, rfl⟩ := Option.map_eq_some_iff.1 htail
    have hx := hnew x (by simp)
    cases fuel with
    | zero => simp at hfuel
    | succ fuel =>
      -- the link is cleared, and the object goes to its bucket
      have h1 : Chained hash { t with heap := set_hash_next t.heap x o none } chains := by
        refine h.congr rfl rfl ?_
        intro q hq
        refine lookup_set_ne ho none ?_
        rintro rfl
        exact hx hq
      have ho1 : (set_hash_next t.heap x o none).lookup x = some { o with hash_next := none } := lookup_set ho none
      obtain ⟨t2, chains2, hadd, hpower, hframe, hsame, h2, hmember⟩ := add_to_table_spec h1 ho1 hx (.inl rfl)
      have hsame' : ∀ q ≠ x, t2.heap.lookup q = t.heap.lookup q :=
        fun q hq => (hsame q hq).trans (lookup_set_ne ho none hq)
      have hl2 : Linked (hash_next t2.heap) o.hash_next l := by
        apply hl.congr
        intro y hy
        apply hash_next_congr
        apply hsame'
        rintro rfl
        exact hnodup.1 hy
      have hnew2 : ∀ y ∈ l, ¬ Member t2 chains2 y := by
        intro y hy hin
        rcases (hmember y).1 hin with rfl | hin
        · exact hnodup.1 hy
        · exact hnew y (by simp [hy]) hin
      obtain ⟨t', chains', hcopy, hc, hpower', hframe', hmember', hsame''⟩ := ih h2 hl2 hnew2 (Nat.le_of_succ_le_succ hfuel)
      refine ⟨t', chains', ?_, hc, hpower'.trans hpower, ((frame_set ho none).trans hframe).trans hframe', ?_, ?_⟩
      · simp [copy_chain, ho, hadd, hcopy]
      · intro q
        rw [hmember', hmember, mem_cons, or_comm (a := q = x), or_assoc]
        rfl
      · intro q hq
        rw [mem_cons, not_or] at hq
        exact (hsame'' q hq.2).trans (hsame' q hq.1)

theorem copy_entries_spec {old_table : Nat → Option Ptr} {old : Nat → List Ptr} (h : Chained hash t fun _ => []) (k : Nat)
    (hold : ∀ i < k, Linked (hash_next t.heap) (old_table i) (old i))
    (hdisjoint : ∀ i < k, ∀ j < k, ∀ p ∈ old i, p ∈ old j → i = j) :
    ∃ t' chains', _copy_entries hash t old_table k = some t' ∧ Chained hash t' chains' ∧ t'.hashpower = t.hashpower ∧ Frame t t' ∧
      (∀ q, Member t' chains' q ↔ ∃ i < k, q ∈ old i) ∧ ∀ q, (¬ ∃ i < k, q ∈ old i) → t'.heap.lookup q = t.heap.lookup q := by
  induction k with
  | zero => exact ⟨t, fun _ => [], rfl, h, rfl, .refl t, by simp [Member], fun _ _ => rfl⟩
  | succ k ih =>
    obtain ⟨t1, chains1, hcopy, h1, hpower, hframe, hmember, hsame⟩ := ih (fun i hi => hold i (by omega))
      fun i hi j hj => hdisjoint i (by omega) j (by omega)
    have hnew : ∀ x ∈ old k, ¬ ∃ i < k, x ∈ old i := by
      rintro x hx ⟨i, hi, hxi⟩
      have := hdisjoint i (by omega) k (by omega) x hxi hx
      omega
    have hl : Linked (hash_next t1.heap) (old_table k) (old k) :=
      (hold k (by omega)).congr fun x hx => hash_next_congr (hsame x (hnew x hx))
    obtain ⟨t', chains', hchain, h', hpower', hframe', hmember', hsame'⟩ := copy_chain_spec h1 hl
      (fun x hx hin => hnew x hx ((hmember x).1 hin)) (Linked.length_le hl)
    have hsucc : ∀ q, (∃ i < k + 1, q ∈ old i) ↔ (∃ i < k, q ∈ old i) ∨ q ∈ old k := by
      intro q
      constructor
      · rintro ⟨i, hi, hq⟩
        rcases Nat.lt_succ_iff_lt_or_eq.1 hi with hi | rfl
        · exact .inl ⟨i, hi, hq⟩
        · exact .inr hq
      · rintro (⟨i, hi, hq⟩ | hq)
        · exact ⟨i, by omega, hq⟩
        · exact ⟨k, by omega, hq⟩
    refine ⟨t', chains', ?_, h', hpower'.trans hpower, hframe.trans hframe', ?_, ?_⟩
    · rw [_copy_entries, range_succ, foldlM_append]
      rw [_copy_entries] at hcopy
      simp [hcopy, hchain]
    · intro q
      rw [hmember', hmember, hsucc]
    · intro q hq
      rw [hsucc, not_or] at hq
      exact (hsame' q hq.2).trans (hsame q hq.1)

theorem resize_spec (h : Chained hash t chains) (power : Nat) :
    ∃ t' chains', _copy_entries hash { t with ptr_table := fun _ => none, hashpower := power } t.ptr_table
      (hashsize t.hashpower) = some t' ∧
      Chained hash t' chains' ∧ t'.hashpower = power ∧ Frame t t' ∧ (∀ q, Member t' chains' q ↔ Member t chains q) ∧
      ∀ q, ¬ Member t chains q → t'.heap.lookup q = t.heap.lookup q := by
  have hempty : Chained hash { t with ptr_table := fun _ => none, hashpower := power } fun _ => [] := ⟨fun _ _ => rfl, by simp⟩
  obtain ⟨t', chains', hcopy, h', hpower, hframe, hmember, hsame⟩ := copy_entries_spec hempty (hashsize t.hashpower) h.linked
    fun i hi j hj p => h.disjoint hi hj
  exact ⟨t', chains', hcopy, h', hpower, { hframe with }, hmember, hsame⟩

end CacheSim.Hash
