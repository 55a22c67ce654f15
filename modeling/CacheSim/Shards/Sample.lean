import CacheSim.Lib.Smallest
import CacheSim.Shards.Proofs

/-!
# The sample of SHARDS with a fixed size

The ids whose hash values are the smallest so far.
-/

namespace CacheSim.Shards.FixedSize

open Lib Splay List Option Finset

variable {p : Profiler} {tm : ObjId → Int} {A S Q : Finset ObjId} {s : State} {x : ObjId}

def Times (t : SplayTree Int UInt64) (T : Finset Int) : Prop := ∃ l, t.Holds l ∧ ∀ k, k ∈ l.map Prod.fst ↔ k ∈ T

def Profiler.hash (p : Profiler) (x : ObjId) : Nat := (p.get_hash_value_int_64_with_salt x).toNat

def Profiler.entry (p : Profiler) (x : ObjId) : Nat ×ₗ Int := toLex (p.hash x, to_key x)

theorem entry_value (p : Profiler) (x : ObjId) : (ofLex (p.entry x)).1 = p.hash x := by rw [Profiler.entry, ofLex_toLex]

theorem entry_key (p : Profiler) (x : ObjId) : (ofLex (p.entry x)).2 = to_key x := by rw [Profiler.entry, ofLex_toLex]

def Lists (p : Profiler) (S : Finset ObjId) (map : Table Int Nat) : Prop :=
  ∀ k v, map.lookup k = some v ↔ ∃ y ∈ S, to_key y = k ∧ p.hash y = v

structure Valued (p : Profiler) (S : Finset ObjId) (m : MinValueMap Int Nat) : Prop where
  n : m.n = p.params.sample_size.toNat
  set : m.set = S.image p.entry
  map : Lists p S m.map

/-- The table and the tree have the ids of `S` with their times. -/
structure Timed (tm : ObjId → Int) (S : Finset ObjId) (map : Table ObjId Int) (tree : SplayTree Int UInt64) : Prop where
  lookup : ∀ y, map.lookup y = if y ∈ S then some (tm y) else none
  tree : Times tree (S.image tm)

theorem times_empty : Times {} ∅ := ⟨[], SplayTree.holds_empty, by simp⟩

variable {t : SplayTree Int UInt64} {T : Finset Int}

theorem Times.insert (h : Times t T) {k : Int} (hk : k ∉ T) (v : UInt64) : Times (t.insert k v) (insert k T) := by
  obtain ⟨l, hl, hkeys⟩ := h
  have hnew : ∀ a ∈ l, a.1 ≠ k := by
    rintro a ha rfl
    exact hk ((hkeys a.1).1 (mem_map_of_mem ha))
  refine ⟨_, hl.insert hnew v, ?_⟩
  intro k'
  have hparts : k' ∈ l.map Prod.fst ↔ k' ∈ (below k l).map Prod.fst ∨ k' ∈ (above k l).map Prod.fst := by
    rw [← mem_append, ← map_append, hl.sorted.below_append_above hnew]
  rw [mem_insert, ← hkeys, hparts, map_append, List.map_cons, mem_append, List.mem_cons]
  tauto

theorem Times.erase (h : Times t T) {k : Int} (hk : k ∈ T) (hcard : T.card ≤ 2 ^ 32) :
    ∃ t', t.erase k = some t' ∧ Times t' (T.erase k) := by
  obtain ⟨l, hl, hkeys⟩ := h
  obtain ⟨⟨k, v⟩, hmem, rfl⟩ := mem_map.1 ((hkeys k).2 hk)
  have hnodup : (l.map Prod.fst).Nodup := (pairwise_map.2 hl.sorted).imp ne_of_lt
  have hlen : l.length ≤ 2 ^ 32 := by
    have hset : (l.map Prod.fst).toFinset = T := by
      ext k'
      rw [List.mem_toFinset, hkeys]
    rw [← hset, toFinset_card_of_nodup hnodup, length_map] at hcard
    exact hcard
  obtain ⟨t', herase, hleft⟩ := hl.erase hmem hlen
  refine ⟨t', herase, _, hleft, ?_⟩
  intro k'
  have hparts : k' ∈ l.map Prod.fst ↔ k' ∈ (below k l).map Prod.fst ∨ k' = k ∨ k' ∈ (above k l).map Prod.fst := by
    conv_lhs => rw [← hl.sorted.below_cons_above hmem]
    rw [map_append, List.map_cons, mem_append, List.mem_cons]
  have hbelow : k' ∈ (below k l).map Prod.fst → k' ≠ k := by
    intro h
    obtain ⟨a, ha, rfl⟩ := mem_map.1 h
    exact (of_decide_eq_true (mem_filter.1 ha).2 : a.1 < k).ne
  have habove : k' ∈ (above k l).map Prod.fst → k' ≠ k := by
    intro h
    obtain ⟨a, ha, rfl⟩ := mem_map.1 h
    exact (of_decide_eq_true (mem_filter.1 ha).2 : k < a.1).ne'
  rw [mem_erase, ← hkeys, hparts, map_append, mem_append]
  tauto

/-! ## The keys -/

theorem bmod_emod_toNat {n : Nat} (h : n < 2 ^ 64) : (((n : Int).bmod (2 ^ 64)) % 2 ^ 64).toNat = n := by
  rw [Int.bmod_def]
  split_ifs <;> omega

theorem to_obj_id_to_key (h : x < 2 ^ 64) : to_obj_id (to_key x) = x := bmod_emod_toNat h

variable {y : ObjId}

theorem to_key_inj (hx : x < 2 ^ 64) (hy : y < 2 ^ 64) (h : to_key x = to_key y) : x = y := by
  rw [← to_obj_id_to_key hx, ← to_obj_id_to_key hy, h]

theorem entry_inj (hx : x < 2 ^ 64) (hy : y < 2 ^ 64) (h : p.entry x = p.entry y) : x = y :=
  to_key_inj hx hy (Prod.mk.inj (toLex.injective h)).2

section

variable (h : Valued p S s.min_value_map)
include h

theorem Valued.card (hids : ∀ y ∈ S, y < 2 ^ 64) : s.min_value_map.set.card = S.card := by
  rw [h.set]
  exact card_image_of_injOn fun a ha b hb hab => entry_inj (hids a ha) (hids b hb) hab

theorem Valued.lookup_none (hids : ∀ y ∈ S, y < 2 ^ 64) (hx : x < 2 ^ 64) (hnot : x ∉ S) :
    s.min_value_map.map.lookup (to_key x) = none := by
  by_contra hsome
  obtain ⟨v, hv⟩ := ne_none_iff_exists'.1 hsome
  obtain ⟨y, hy, hkey, -⟩ := (h.map _ _).1 hv
  exact hnot (to_key_inj (hids y hy) hx hkey ▸ hy)

theorem Valued.rbegin (hne : S.Nonempty) :
    ∃ m ∈ S, s.min_value_map.rbegin = some (p.entry m) ∧ ∀ y ∈ S, p.hash y ≤ p.hash m := by
  obtain ⟨e, he⟩ := max_of_nonempty (hne.image p.entry)
  obtain ⟨m, hm, rfl⟩ := mem_image.1 (mem_of_max he)
  refine ⟨m, hm, ?_, ?_⟩
  · rw [MinValueMap.rbegin, h.set]
    exact he
  · intro y hy
    have hle : p.entry y ≤ p.entry m := le_max_of_eq (mem_image_of_mem _ hy) he
    rcases Prod.Lex.toLex_le_toLex.1 hle with hlt | ⟨heq, -⟩
    · exact hlt.le
    · exact heq.le

end

/-! ## The ids that come in -/

structure Admitted (p : Profiler) (tm : ObjId → Int) (Q : Finset ObjId) (x : ObjId) (s s' : State) : Prop where
  valued : Valued p (insert x Q) s'.min_value_map
  timed : Timed tm Q s'.last_access_time_map s'.rd_tree
  same : s' = { s with
    min_value_map := s'.min_value_map, last_access_time_map := s'.last_access_time_map, rd_tree := s'.rd_tree }

theorem Lists.insert {map : Table Int Nat} (h : Lists p S map) (hids : ∀ y ∈ S, y < 2 ^ 64) (hx : x < 2 ^ 64) (hnot : x ∉ S) :
    Lists p (insert x S) (map.insert (to_key x) (p.hash x)) := by
  intro k v
  by_cases hk : k = to_key x
  · rw [hk, AList.lookup_insert, some.injEq]
    constructor
    · intro hv
      exact ⟨x, mem_insert_self x S, rfl, hv⟩
    · rintro ⟨y, hy, hkey, hv⟩
      rcases mem_insert.1 hy with hyx | hy
      · rw [← hv, hyx]
      · exact absurd (to_key_inj (hids y hy) hx hkey ▸ hy) hnot
  · rw [AList.lookup_insert_ne hk, h]
    constructor
    · rintro ⟨y, hy, hrest⟩
      exact ⟨y, mem_insert_of_mem hy, hrest⟩
    · rintro ⟨y, hy, hkey, hv⟩
      rcases mem_insert.1 hy with hyx | hy
      · exact absurd (hyx ▸ hkey).symm hk
      · exact ⟨y, hy, hkey, hv⟩

theorem Lists.erase {map : Table Int Nat} (h : Lists p S map) (hids : ∀ y ∈ S, y < 2 ^ 64) {m : ObjId} (hm : m ∈ S) :
    Lists p (S.erase m) (map.erase (to_key m)) := by
  intro k v
  by_cases hk : k = to_key m
  · rw [hk, AList.lookup_erase]
    constructor
    · rintro ⟨⟩
    · rintro ⟨y, hy, hkey, -⟩
      obtain ⟨hne, hyS⟩ := mem_erase.1 hy
      exact absurd (to_key_inj (hids y hyS) (hids m hm) hkey) hne
  · rw [AList.lookup_erase_ne hk, h]
    constructor
    · rintro ⟨y, hy, hkey, hv⟩
      refine ⟨y, mem_erase.2 ⟨?_, hy⟩, hkey, hv⟩
      intro hym
      exact hk (hym ▸ hkey).symm
    · rintro ⟨y, hy, hrest⟩
      exact ⟨y, mem_of_mem_erase hy, hrest⟩

theorem Valued.insert_room (h : Valued p S s.min_value_map) (hids : ∀ y ∈ S, y < 2 ^ 64) (hx : x < 2 ^ 64) (hnot : x ∉ S)
    (hroom : S.card < p.params.sample_size.toNat) :
    ∃ m, s.min_value_map.insert (to_key x) (p.hash x) = some (m, none) ∧ Valued p (insert x S) m := by
  unfold MinValueMap.insert
  rw [h.lookup_none hids hx hnot]
  rw [if_pos (by rw [h.card hids, h.n]; exact hroom)]
  refine ⟨_, rfl, h.n, ?_, h.map.insert hids hx hnot⟩
  rw [image_insert, ← h.set]
  rfl

theorem image_erase_of_injOn {β : Type} [DecidableEq β] {f : ObjId → β} (hinj : ∀ a ∈ S, ∀ b ∈ S, f a = f b → a = b) {m : ObjId}
    (hm : m ∈ S) : (S.erase m).image f = (S.image f).erase (f m) := by
  ext b
  simp only [mem_image, mem_erase]
  constructor
  · rintro ⟨a, ⟨hne, ha⟩, rfl⟩
    exact ⟨fun heq => hne (hinj a ha m hm heq), a, ha, rfl⟩
  · rintro ⟨hne, a, ha, rfl⟩
    exact ⟨a, ⟨fun heq => hne (heq ▸ rfl), ha⟩, rfl⟩

theorem Valued.insert_full (h : Valued p S s.min_value_map) (hids : ∀ y ∈ S, y < 2 ^ 64) (hx : x < 2 ^ 64) (hnot : x ∉ S)
    (hfull : S.card = p.params.sample_size.toNat) {m : ObjId} (hm : m ∈ S) (hlast : s.min_value_map.rbegin = some (p.entry m))
    (hlt : p.hash x < p.hash m) :
    ∃ mm, s.min_value_map.insert (to_key x) (p.hash x) = some (mm, some (to_key m)) ∧ Valued p (insert x (S.erase m)) mm := by
  have hxm : m ≠ x := fun heq => hnot (heq ▸ hm)
  have hlast' : MinValueMap.rbegin { s.min_value_map with map := s.min_value_map.map.insert (to_key x) (p.hash x) } = some (p.entry m) := hlast
  unfold MinValueMap.insert
  rw [h.lookup_none hids hx hnot]
  simp only [bind_eq_bind]
  rw [if_neg (by rw [h.card hids, h.n, hfull]; exact lt_irrefl _), hlast', bind_some, entry_value, entry_key, if_pos hlt]
  refine ⟨_, rfl, h.n, ?_, ?_⟩
  · rw [image_insert, image_erase_of_injOn (fun a ha b hb => entry_inj (hids a ha) (hids b hb)) hm, ← h.set]
    rfl
  · have hids' : ∀ y ∈ insert x S, y < 2 ^ 64 := (forall_mem_insert _ _ _).2 ⟨hx, hids⟩
    have hlists := (h.map.insert hids hx hnot).erase hids' (mem_insert_of_mem hm)
    rwa [erase_insert_of_ne hxm.symm] at hlists

theorem Valued.full_iff (h : Valued p S s.min_value_map) (hids : ∀ y ∈ S, y < 2 ^ 64) :
    s.min_value_map.full = decide (S.card = p.params.sample_size.toNat) := by
  unfold MinValueMap.full
  rw [h.card hids, h.n]

theorem Valued.sample_rate {m : MinValueMap Int Nat} (h : Valued p (insert x Q) m) : ∃ rate, FixedSize.sample_rate m = some rate := by
  have hset : m.rbegin.isSome = true := by
    obtain ⟨e, he⟩ := max_of_nonempty ((insert_nonempty x Q).image p.entry)
    rw [MinValueMap.rbegin, h.set, he]
    rfl
  obtain ⟨e, he⟩ := isSome_iff_exists.1 hset
  unfold FixedSize.sample_rate MinValueMap.get_max_value
  rw [he]
  split_ifs
  · exact ⟨_, rfl⟩
  · exact ⟨_, rfl⟩

structure Before (p : Profiler) (tm : ObjId → Int) (A S : Finset ObjId) (x : ObjId) (s : State) : Prop where
  valued : Valued p S s.min_value_map
  timed : Timed tm S s.last_access_time_map s.rd_tree
  smallest : Smallest p.params.sample_size.toNat p.hash A S
  pos : 0 < p.params.sample_size.toNat
  small : p.params.sample_size.toNat ≤ 2 ^ 32
  ids : ∀ y ∈ insert x A, y < 2 ^ 64
  hash_inj : ∀ a ∈ insert x A, ∀ b ∈ insert x A, p.hash a = p.hash b → a = b
  time_inj : ∀ a ∈ S, ∀ b ∈ S, tm a = tm b → a = b

section

variable (h : Before p tm A S x s)
include h

theorem Before.ids_of : ∀ y ∈ S, y < 2 ^ 64 :=
  fun y hy => h.ids y (mem_insert_of_mem (h.smallest.sub hy))

theorem Before.card_le : S.card ≤ p.params.sample_size.toNat := by
  rw [h.smallest.card]
  exact min_le_left _ _

theorem Before.sample_id :
    (∃ Q s', Q ⊆ S ∧ is_sampled s x (p.hash x) = some true ∧ FixedSize.sample_id s x (p.hash x) = some s' ∧ Admitted p tm Q x s s' ∧
      Smallest p.params.sample_size.toNat p.hash (insert x A) (insert x Q)) ∨
    is_sampled s x (p.hash x) = some false ∧ x ∉ S ∧ Smallest p.params.sample_size.toNat p.hash (insert x A) S := by
  have hids := h.ids_of
  have hx := h.ids x (mem_insert_self x A)
  have hfull := h.valued.full_iff hids
  unfold is_sampled FixedSize.sample_id
  rw [hfull, h.timed.lookup]
  by_cases hmem : x ∈ S
  · left
    obtain ⟨m, -, hlast, -⟩ := h.valued.rbegin ⟨x, hmem⟩
    have hA : insert x A = A := insert_eq_of_mem (h.smallest.sub hmem)
    have hS : insert x S = S := insert_eq_of_mem hmem
    refine ⟨S, s, Finset.Subset.refl S, ?_, by simp [hmem], ⟨by rw [hS]; exact h.valued, h.timed, rfl⟩,
      by rw [hA, hS]; exact h.smallest⟩
    rw [MinValueMap.get_max_value, hlast]
    split_ifs <;> simp
  · rw [if_neg hmem]
    rcases h.card_le.lt_or_eq with hroom | hfull
    · left
      obtain ⟨m, hinsert, hvalued⟩ := h.valued.insert_room hids hx hmem hroom
      refine ⟨S, { s with min_value_map := m }, Finset.Subset.refl S, by simp [hroom.ne], ?_, ⟨hvalued, h.timed, rfl⟩,
        h.smallest.insert_room hroom hmem⟩
      simp [hinsert]
    · obtain ⟨m, hm, hlast, hmax⟩ := h.valued.rbegin (card_pos.1 (hfull ▸ h.pos))
      have hmA : m ∈ insert x A := mem_insert_of_mem (h.smallest.sub hm)
      have hsampled : (if !decide (S.card = p.params.sample_size.toNat) then some true
          else s.min_value_map.get_max_value.map fun max => decide (p.hash x < max) || (none : Option Int).isSome) =
          some (decide (p.hash x < p.hash m)) := by
        rw [MinValueMap.get_max_value, hlast]
        simp [hfull, Profiler.entry]
      rw [hsampled]
      by_cases hlt : p.hash x < p.hash m
      · left
        have hxA : x ∉ A := by
          intro hxA
          exact hlt.asymm (h.smallest.below m hm x hxA hmem)
        obtain ⟨mm, hinsert, hvalued⟩ := h.valued.insert_full hids hx hmem hfull hm hlast hlt
        have htm : tm m ∈ S.image tm := mem_image_of_mem tm hm
        obtain ⟨t, herase, htree⟩ := h.timed.tree.erase htm (card_image_le.trans (h.card_le.trans h.small))
        refine ⟨S.erase m, { s with
          min_value_map := mm, rd_tree := t, last_access_time_map := s.last_access_time_map.erase m }, erase_subset m S,
          by simp [hlt], ?_, ⟨hvalued, ⟨?_, ?_⟩, rfl⟩, ?_⟩
        · have hback := to_obj_id_to_key (hids m hm)
          simp [hinsert, hback, h.timed.lookup, hm, herase]
        · intro y
          rcases eq_or_ne y m with rfl | hne
          · simp
          · rw [AList.lookup_erase_ne hne, h.timed.lookup]
            simp [hne]
        · rwa [image_erase_of_injOn h.time_inj hm]
        · apply h.smallest.replace hfull hxA hm hmax hlt
          intro a ha heq
          exact h.hash_inj a (mem_insert_of_mem (h.smallest.sub ha)) m hmA heq
      · right
        refine ⟨by simp [hlt], hmem, h.smallest.insert_above hfull ?_⟩
        intro a ha
        have haA : a ∈ insert x A := mem_insert_of_mem (h.smallest.sub ha)
        apply ((hmax a ha).trans (not_lt.1 hlt)).lt_of_ne
        intro heq
        exact hmem (h.hash_inj a haA x (mem_insert_self x A) heq ▸ ha)

end

/-! ## The request itself -/

theorem length_add_at {vec vec' : List Double} {idx : Int} {v : Double} (h : add_at vec idx v = some vec') :
    vec'.length = vec.length := by
  unfold add_at at h
  split_ifs at h
  cases h
  simp

structure SameSample (s s' : State) : Prop where
  min_value_map : s'.min_value_map = s.min_value_map
  last_access_time_map : s'.last_access_time_map = s.last_access_time_map
  rd_tree : s'.rd_tree = s.rd_tree
  current_time : s'.current_time = s.current_time
  cnt_vec : s'.local_hit_cnt_vec.length = s.local_hit_cnt_vec.length
  size_vec : s'.local_hit_size_vec.length = s.local_hit_size_vec.length

theorem count_hit_same {s s' : State} {rate : Double} {d size : Int} (h : p.count_hit s rate d size = some s') : SameSample s s' := by
  unfold Profiler.count_hit at h
  simp only [bind_eq_bind] at h
  split_ifs at h
  · cases h
    exact ⟨rfl, rfl, rfl, rfl, rfl, rfl⟩
  · simp only [bind_eq_some_iff] at h
    obtain ⟨cnt_vec, hcnt, size_vec, hsize, h⟩ := h
    cases h
    exact ⟨rfl, rfl, rfl, rfl, length_add_at hcnt, length_add_at hsize⟩

theorem count_hit_some {s : State} (hpoints : p.mrc_size_vec.length ≤ 2 ^ 31)
    (hcnt : s.local_hit_cnt_vec.length = p.mrc_size_vec.length)
    (hsize : s.local_hit_size_vec.length = p.mrc_size_vec.length) (rate : Double) (d size : Int) :
    ∃ s', p.count_hit s rate d size = some s' := by
  have hle := search_le p.mrc_size_vec (d % 2 ^ 64).toNat 0 p.mrc_size_vec.length
  unfold Profiler.count_hit lower_bound
  simp only [Option.pure_def]
  generalize search p.mrc_size_vec (d % 2 ^ 64).toNat 0 p.mrc_size_vec.length = it at hle
  split_ifs with hend
  · exact ⟨s, rfl⟩
  · have hidx : (it : Int).bmod (2 ^ 32) = it := by
      apply Int.bmod_eq_of_le <;> omega
    rw [hidx, add_at, if_pos (by omega), add_at, if_pos (by omega)]
    exact ⟨_, rfl⟩

def touched (tm : ObjId → Int) (x : ObjId) (now : Int) (y : ObjId) : Int := if x = y then now else tm y

theorem image_touched (tm : ObjId → Int) (Q : Finset ObjId) (x : ObjId) (now : Int) :
    (insert x Q).image (touched tm x now) = insert now ((Q.erase x).image tm) := by
  have hself : touched tm x now x = now := if_pos rfl
  rw [← insert_erase (mem_insert_self x Q), erase_insert_eq_erase, image_insert, hself]
  congr 1
  apply image_congr
  intro y hy
  exact if_neg (ne_of_mem_erase hy).symm

theorem Timed.congr {tm' : ObjId → Int} {map : Table ObjId Int} {tree : SplayTree Int UInt64} (h : Timed tm S map tree)
    (heq : ∀ y ∈ S, tm' y = tm y) : Timed tm' S map tree := by
  constructor
  · intro y
    rw [h.lookup]
    split_ifs with hy
    · rw [heq y hy]
    · rfl
  · rw [image_congr fun y hy => heq y hy]
    exact h.tree

theorem Timed.touch {now : Int} {map : Table ObjId Int} {tree t : SplayTree Int UInt64} (h : Timed tm Q map tree)
    (ht : Times t ((Q.erase x).image tm)) (hnow : ∀ y ∈ Q, tm y < now) (v : UInt64) :
    Timed (touched tm x now) (insert x Q) (map.insert x now) (t.insert now v) := by
  constructor
  · intro y
    rw [touched]
    rcases eq_or_ne y x with rfl | hne
    · simp
    · rw [AList.lookup_insert_ne hne, h.lookup, if_neg hne.symm]
      simp [hne]
  · rw [image_touched]
    apply ht.insert
    intro hmem
    obtain ⟨y, hy, heq⟩ := mem_image.1 hmem
    exact (hnow y (mem_of_mem_erase hy)).ne heq

structure Touched (tm : ObjId → Int) (Q : Finset ObjId) (x : ObjId) (s s' : State) : Prop where
  timed : Timed (touched tm x s.current_time) (insert x Q) s'.last_access_time_map s'.rd_tree
  min_value_map : s'.min_value_map = s.min_value_map
  current_time : s'.current_time = s.current_time
  cnt_vec : s'.local_hit_cnt_vec.length = s.local_hit_cnt_vec.length
  size_vec : s'.local_hit_size_vec.length = s.local_hit_size_vec.length

theorem touch_spec (req : Request) (h : Timed tm Q s.last_access_time_map s.rd_tree) (hcard : Q.card ≤ 2 ^ 32)
    (hnow : ∀ y ∈ Q, tm y < s.current_time) (hinj : ∀ a ∈ Q, ∀ b ∈ Q, tm a = tm b → a = b) (rate : Double) :
    (∀ s', p.touch s req rate = some s' → Touched tm Q req.obj_id s s') ∧
    (p.mrc_size_vec.length ≤ 2 ^ 31 → s.local_hit_cnt_vec.length = p.mrc_size_vec.length →
      s.local_hit_size_vec.length = p.mrc_size_vec.length → ∃ s', p.touch s req rate = some s') := by
  unfold Profiler.touch
  simp only [bind_eq_bind]
  rw [h.lookup]
  by_cases hmem : req.obj_id ∈ Q
  · obtain ⟨t, herase, ht⟩ := h.tree.erase (mem_image_of_mem tm hmem) (card_image_le.trans hcard)
    rw [← image_erase_of_injOn hinj hmem] at ht
    rw [if_pos hmem]
    dsimp only
    rw [herase, bind_some]
    constructor
    · intro s' hs'
      have hsame := count_hit_same hs'
      refine { hsame with timed := ?_ }
      rw [hsame.last_access_time_map, hsame.rd_tree]
      exact h.touch ht hnow _
    · intro hpoints hcnt hsize
      apply count_hit_some hpoints
      · exact hcnt
      · exact hsize
  · rw [if_neg hmem]
    have ht : Times s.rd_tree ((Q.erase req.obj_id).image tm) := by
      rw [erase_eq_of_notMem hmem]
      exact h.tree
    constructor
    · intro s' hs'
      cases hs'
      exact ⟨h.touch ht hnow _, rfl, rfl, rfl, rfl⟩
    · intro _ _ _
      exact ⟨_, rfl⟩

/-! ## The trace -/

/-- The structures after the requests `past`: they have the same ids, those of the smallest values. -/
structure Inv (p : Profiler) (past : List ObjId) (S : Finset ObjId) (s : State) : Prop where
  smallest : Smallest p.params.sample_size.toNat p.hash past.toFinset S
  valued : Valued p S s.min_value_map
  timed : Timed (time past) S s.last_access_time_map s.rd_tree
  current_time : s.current_time = past.length
  cnt_vec : s.local_hit_cnt_vec.length = p.mrc_size_vec.length
  size_vec : s.local_hit_size_vec.length = p.mrc_size_vec.length

theorem init_inv (p : Profiler) : Inv p [] ∅ p.init where
  smallest := smallest_empty _ _
  valued := ⟨rfl, rfl, by simp [Lists, Profiler.init]⟩
  timed := ⟨by simp [Profiler.init], times_empty⟩
  current_time := rfl
  cnt_vec := length_replicate
  size_vec := length_replicate

variable {past : List ObjId}

theorem time_inj (hx : x ∈ past) (hy : y ∈ past) (h : time past x = time past y) : x = y := by
  obtain ⟨i, hi⟩ := isSome_iff_exists.1 (last_idx_isSome.2 hx)
  obtain ⟨j, hj⟩ := isSome_iff_exists.1 (last_idx_isSome.2 hy)
  have hij : i = j := by
    rw [time, time, hi, hj] at h
    simpa using h
  exact last_idx_inj hi (hij ▸ hj)

theorem touched_time (past : List ObjId) (x : ObjId) : touched (time past) x ((past.length : Int) + 1) = time (past ++ [x]) := by
  funext y
  rw [time_concat, touched]

structure Distinct (p : Profiler) (ids : List ObjId) : Prop where
  fits : ∀ x ∈ ids, x < 2 ^ 64
  hash_inj : ∀ x ∈ ids, ∀ y ∈ ids, p.hash x = p.hash y → x = y

theorem Inv.step {req : Request} (h : Inv p past S s) (hids : Distinct p (past ++ [req.obj_id])) :
    (∀ s', p.step s req = some s' → ∃ S', Inv p (past ++ [req.obj_id]) S' s') ∧
    (p.mrc_size_vec.length ≤ 2 ^ 31 → ∃ s', p.step s req = some s') := by
  have hpos := p.params.pos
  have hint := p.params.int
  set s1 : State := { s with
    n_req_ := s.n_req_ + 1
    sum_obj_size_req := s.sum_obj_size_req + UInt64.ofInt req.obj_size
    current_time := s.current_time + 1 } with hs1
  have hseen : (past ++ [req.obj_id]).toFinset = insert req.obj_id past.toFinset := by
    simp
  have hpast : ∀ y ∈ S, y ∈ past := fun y hy => List.mem_toFinset.1 (h.smallest.sub hy)
  have hbefore : Before p (time past) past.toFinset S req.obj_id s1 := by
    refine ⟨h.valued, h.timed, h.smallest, by omega, by omega, ?_, ?_, ?_⟩
    · rw [← hseen]
      exact fun y hy => hids.fits y (List.mem_toFinset.1 hy)
    · rw [← hseen]
      exact fun a ha b hb => hids.hash_inj a (List.mem_toFinset.1 ha) b (List.mem_toFinset.1 hb)
    · exact fun a ha b hb => time_inj (hpast a ha) (hpast b hb)
  have hnow : s1.current_time = (past.length : Int) + 1 := by rw [hs1, h.current_time]
  have hstep : p.step s req = (is_sampled s1 req.obj_id (p.hash req.obj_id)).bind fun sampled =>
      if sampled then (FixedSize.sample_id s1 req.obj_id (p.hash req.obj_id)).bind fun s =>
        (sample_rate s.min_value_map).bind fun rate => p.touch s req rate else some s1 := rfl
  rcases hbefore.sample_id with ⟨Q, s2, hQ, hsampled, hadmit, hmid, hsmallest⟩ | ⟨hsampled, hout, hsmallest⟩
  · obtain ⟨rate, hrate⟩ := hmid.valued.sample_rate
    have htime : s2.current_time = (past.length : Int) + 1 := by rw [hmid.same, hnow]
    have hQpast : ∀ y ∈ Q, y ∈ past := fun y hy => hpast y (hQ hy)
    have hcard : Q.card ≤ 2 ^ 32 := (card_le_card hQ).trans (hbefore.card_le.trans hbefore.small)
    have hbefore_now : ∀ y ∈ Q, time past y < s2.current_time := by
      intro y hy
      have hle := time_le past (hQpast y hy)
      omega
    have hinj : ∀ a ∈ Q, ∀ b ∈ Q, time past a = time past b → a = b :=
      fun a ha b hb => time_inj (hQpast a ha) (hQpast b hb)
    obtain ⟨htouch, hsome⟩ := touch_spec req hmid.timed hcard hbefore_now hinj rate
    rw [hstep, hsampled]
    simp only [bind_some, hadmit, hrate]
    constructor
    · intro s' hs'
      have hafter := htouch s' hs'
      refine ⟨insert req.obj_id Q, ?_, ?_, ?_, ?_, ?_, ?_⟩
      · rwa [hseen]
      · rw [hafter.min_value_map]
        exact hmid.valued
      · rw [← touched_time, ← htime]
        exact hafter.timed
      · rw [hafter.current_time, htime]
        simp
      · rw [hafter.cnt_vec, hmid.same]
        exact h.cnt_vec
      · rw [hafter.size_vec, hmid.same]
        exact h.size_vec
    · intro hpoints
      apply hsome hpoints
      · rw [hmid.same]
        exact h.cnt_vec
      · rw [hmid.same]
        exact h.size_vec
  · rw [hstep, hsampled]
    constructor
    · intro s' hs'
      cases hs'
      refine ⟨S, by rwa [hseen], h.valued, ?_, ?_, h.cnt_vec, h.size_vec⟩
      · apply h.timed.congr
        intro y hy
        rw [time_concat, if_neg]
        rintro rfl
        exact hout hy
      · rw [hnow]
        simp
    · intro _
      exact ⟨_, rfl⟩

theorem Distinct.of_append {ids rest : List ObjId} (h : Distinct p (ids ++ rest)) : Distinct p ids :=
  ⟨fun x hx => h.fits x (by simp [hx]), fun x hx y hy => h.hash_inj x (by simp [hx]) y (by simp [hy])⟩

theorem ids_concat (reqs : List Request) (req : Request) : Lru.ids (reqs ++ [req]) = Lru.ids reqs ++ [req.obj_id] := by simp [Lru.ids]

theorem inv_of_runs (reqs : List Request) (hids : Distinct p (Lru.ids reqs)) :
    (∀ s, runs p.step p.init reqs = some s → ∃ S, Inv p (Lru.ids reqs) S s) ∧
    (p.mrc_size_vec.length ≤ 2 ^ 31 → ∃ s, runs p.step p.init reqs = some s) := by
  induction reqs using List.reverseRecOn with
  | nil =>
    constructor
    · rintro s ⟨⟩
      exact ⟨∅, init_inv p⟩
    · exact fun _ => ⟨_, rfl⟩
  | append_singleton reqs req ih =>
    rw [ids_concat] at hids ⊢
    obtain ⟨hinv, hsome⟩ := ih hids.of_append
    rw [runs_append]
    simp only [runs_cons, runs_nil, bind_fun_some]
    constructor
    · intro s hs
      obtain ⟨u, hu, hs⟩ := bind_eq_some_iff.1 hs
      obtain ⟨S, hS⟩ := hinv u hu
      exact (hS.step hids).1 s hs
    · intro hpoints
      obtain ⟨u, hu⟩ := hsome hpoints
      obtain ⟨S, hS⟩ := hinv u hu
      obtain ⟨s, hs⟩ := (hS.step hids).2 hpoints
      exact ⟨s, by rw [hu, bind_some, hs]⟩

/-- The sample after any requests. -/
theorem fixed_sample_set (p : Profiler) (reqs : List Request) (hids : ∀ r ∈ reqs, r.obj_id < 2 ^ 64)
    (hhash : ∀ r ∈ reqs, ∀ r' ∈ reqs, r.obj_id ≠ r'.obj_id → p.hash r.obj_id ≠ p.hash r'.obj_id) :
    (p.mrc_size_vec.length ≤ 2 ^ 31 → ∃ s, runs p.step p.init reqs = some s) ∧
    ∀ s, runs p.step p.init reqs = some s → ∃ S : Finset ObjId,
      Smallest p.params.sample_size.toNat p.hash (Lru.ids reqs).toFinset S ∧ Valued p S s.min_value_map ∧
      Timed (time (Lru.ids reqs)) S s.last_access_time_map s.rd_tree := by
  have hdistinct : Distinct p (Lru.ids reqs) := by
    constructor
    · exact forall_mem_map.2 hids
    · intro x hx y hy heq
      obtain ⟨r, hr, rfl⟩ := mem_map.1 hx
      obtain ⟨r', hr', rfl⟩ := mem_map.1 hy
      by_contra hne
      exact hhash r hr r' hr' hne heq
  obtain ⟨hinv, hsome⟩ := inv_of_runs reqs hdistinct
  refine ⟨hsome, ?_⟩
  intro s hs
  obtain ⟨S, hS⟩ := hinv s hs
  exact ⟨S, hS.smallest, hS.valued, hS.timed⟩

def two : Params := ⟨2, 0, by decide, by decide⟩

theorem fixed_sample_set_of_three :
    ∃ s, runs (Profiler.mk truncated 0 id two [1]).step (Profiler.mk truncated 0 id two [1]).init
        [{ obj_id := 1 }, { obj_id := 3 }, { obj_id := 2 }, { obj_id := 3 }, { obj_id := 1 }] = some s ∧
      Valued (Profiler.mk truncated 0 id two [1]) {1, 2} s.min_value_map ∧
      s.last_access_time_map.lookup 1 = some 5 ∧ s.last_access_time_map.lookup 2 = some 3 ∧
        s.last_access_time_map.lookup 3 = none := by
  obtain ⟨hsome, hset⟩ := fixed_sample_set (Profiler.mk truncated 0 id two [1])
    [{ obj_id := 1 }, { obj_id := 3 }, { obj_id := 2 }, { obj_id := 3 }, { obj_id := 1 }] (by decide) (by decide)
  obtain ⟨s, hs⟩ := hsome (by decide)
  obtain ⟨S, hsmallest, hvalued, htimed⟩ := hset s hs
  have htwo : S = {1, 2} := hsmallest.unique ⟨by decide, by decide, by decide⟩
  subst htwo
  refine ⟨s, hs, hvalued, ?_, ?_, ?_⟩
  · rw [htimed.lookup]
    decide
  · rw [htimed.lookup]
    decide
  · rw [htimed.lookup]
    decide

end CacheSim.Shards.FixedSize
