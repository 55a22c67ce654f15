import Mathlib.Algebra.Order.BigOperators.Group.List
import Mathlib.Algebra.Order.Ring.Int
import Mathlib.Data.List.AList

/-!
# Tables whose records have a weight

A table is a list of records under distinct keys: a hash table, where the order says nothing, or
a queue, where it does.
-/

namespace CacheSim.Lib

open List AList Function


variable {ι ρ : Type}

abbrev Table (ι ρ : Type) := AList fun _ : ι => ρ

namespace Table

def weigh (w : ι → ρ → Int) (s : Table ι ρ) : Int := (s.entries.map fun e => w e.1 e.2).sum

theorem weigh_one (s : Table ι ρ) : weigh (fun _ _ => 1) s = s.entries.length := by
  simp [weigh]

variable [DecidableEq ι] {w : ι → ρ → Int} {s : Table ι ρ} {k : ι} {v : ρ}

theorem mem_of_lookup (h : s.lookup k = some v) : k ∈ s := by
  rw [← lookup_isSome, h]
  rfl

theorem exists_lookup (h : k ∈ s) : ∃ v, s.lookup k = some v :=
  Option.isSome_iff_exists.1 (lookup_isSome.2 h)

theorem mem_entries_of_lookup (h : s.lookup k = some v) : ⟨k, v⟩ ∈ s.entries := mem_lookup_iff.1 h

theorem lookup_of_mem_entries {e : Sigma fun _ : ι => ρ} (h : e ∈ s.entries) : s.lookup e.1 = some e.2 :=
  mem_lookup_iff.2 h

theorem erase_of_notMem (h : k ∉ s) : s.erase k = s := by
  apply ext
  exact kerase_of_notMem_keys (mt mem_keys.2 h)

theorem split_at (h : s.lookup k = some v) : ∃ l1 l2, s.entries = l1 ++ ⟨k, v⟩ :: l2 ∧
    (s.erase k).entries = l1 ++ l2 ∧ ∀ v' : ρ, (s.replace k v').entries = l1 ++ ⟨k, v'⟩ :: l2 := by
  obtain ⟨b, l1, l2, hnot, hs, herase⟩ := exists_of_kerase (mem_keys.1 (mem_of_lookup h))
  have hb : b = v := by
    have hmem : (⟨k, b⟩ : Sigma fun _ : ι => ρ) ∈ s.entries := by simp [hs]
    exact Option.some.inj ((lookup_of_mem_entries hmem).symm.trans h)
  subst hb
  refine ⟨l1, l2, hs, herase, fun v' => ?_⟩
  show List.kreplace k v' s.entries = _
  rw [hs]
  clear hs herase
  induction l1 with
  | nil => exact lookmap_cons_some _ _ (if_pos rfl)
  | cons e l1 ih =>
    simp only [keys_cons, mem_cons, not_or] at hnot
    have hcons : List.kreplace k v' (e :: (l1 ++ ⟨k, b⟩ :: l2)) = e :: List.kreplace k v' (l1 ++ ⟨k, b⟩ :: l2) :=
      lookmap_cons_none _ _ (if_neg hnot.1)
    rw [cons_append, hcons, ih hnot.2, cons_append]

theorem perm_erase (h : s.lookup k = some v) : s.entries.Perm (⟨k, v⟩ :: (s.erase k).entries) := by
  obtain ⟨l1, l2, hs, herase, -⟩ := split_at h
  rw [herase, hs]
  exact perm_middle

variable {l : List (Sigma fun _ : ι => ρ)}

theorem erase_last (h : s.entries = l ++ [⟨k, v⟩]) : (s.erase k).entries = l := by
  have hnodup := s.nodupKeys
  rw [h, List.NodupKeys, List.keys, map_append, nodup_append] at hnodup
  have hnot : k ∉ l.keys := fun hk => hnodup.2.2 k hk k (by simp) rfl
  show List.kerase k s.entries = l
  rw [h, kerase_append_right hnot]
  simp

theorem erase_insert_ne (s : Table ι ρ) (v : ρ) {x : ι} (h : x ≠ k) : (s.insert k v).erase x = (s.erase x).insert k v := by
  apply ext
  show List.kerase x (⟨k, v⟩ :: List.kerase k s.entries) = ⟨k, v⟩ :: List.kerase k (List.kerase x s.entries)
  rw [kerase_cons_ne h, kerase_comm]

theorem insert_erase (s : Table ι ρ) (k : ι) (v : ρ) : (s.erase k).insert k v = s.insert k v := by
  have hout : (s.erase k).erase k = s.erase k := erase_of_notMem fun hmem => (mem_erase.1 hmem).1 rfl
  apply ext
  show ⟨k, v⟩ :: ((s.erase k).erase k).entries = ⟨k, v⟩ :: (s.erase k).entries
  rw [hout]

theorem weigh_insert (w : ι → ρ → Int) (s : Table ι ρ) (k : ι) (v : ρ) :
    weigh w (s.insert k v) = w k v + weigh w (s.erase k) := rfl

theorem weigh_insert_of_notMem (w : ι → ρ → Int) (v : ρ) (h : k ∉ s) : weigh w (s.insert k v) = w k v + weigh w s := by
  rw [weigh_insert, erase_of_notMem h]

theorem weigh_erase (w : ι → ρ → Int) (h : s.lookup k = some v) : weigh w (s.erase k) = weigh w s - w k v := by
  have hsum := ((perm_erase h).map fun e => w e.1 e.2).sum_eq
  simp only [map_cons, sum_cons] at hsum
  unfold weigh
  omega

theorem weigh_nonneg (h : ∀ k v, s.lookup k = some v → 0 ≤ w k v) : 0 ≤ weigh w s := by
  apply sum_nonneg
  intro n hn
  obtain ⟨e, he, rfl⟩ := mem_map.1 hn
  exact h e.1 e.2 (lookup_of_mem_entries he)

theorem weigh_update (w : ι → ρ → Int) {v' : ρ} (h : s.lookup k = some v) :
    weigh w (s.insert k v') = weigh w s - w k v + w k v' := by
  rw [weigh_insert, weigh_erase w h]
  omega

theorem perm_replace (h : s.lookup k = some v) (v' : ρ) : (s.replace k v').entries.Perm (s.insert k v').entries := by
  obtain ⟨l1, l2, -, herase, hrep⟩ := split_at h
  have hins : (s.insert k v').entries = ⟨k, v'⟩ :: (s.erase k).entries := rfl
  rw [hrep, hins, herase]
  exact perm_middle

theorem replace_head (h : s.entries = ⟨k, v⟩ :: l) (v' : ρ) : (s.replace k v').entries = ⟨k, v'⟩ :: l := by
  show List.kreplace k v' s.entries = _
  rw [h]
  exact lookmap_cons_some _ _ (if_pos rfl)

theorem lookup_replace (h : s.lookup k = some v) (v' : ρ) : (s.replace k v').lookup k = some v' := by
  rw [perm_lookup (perm_replace h v'), lookup_insert]

theorem lookup_replace_ne (h : s.lookup k = some v) (v' : ρ) {x : ι} (hx : x ≠ k) :
    (s.replace k v').lookup x = s.lookup x := by
  rw [perm_lookup (perm_replace h v'), lookup_insert_ne hx]

theorem weigh_replace (w : ι → ρ → Int) (h : s.lookup k = some v) (v' : ρ) :
    weigh w (s.replace k v') = weigh w s - w k v + w k v' := by
  rw [← weigh_update w h]
  exact ((perm_replace h v').map fun e => w e.1 e.2).sum_eq

/-! ## Lookups -/

theorem lookup_insert_eq_update (s : Table ι ρ) (k : ι) (v : ρ) :
    (fun x => (s.insert k v).lookup x) = update (fun x => s.lookup x) k (some v) := by
  funext x
  by_cases hx : x = k
  · rw [hx, lookup_insert, update_self]
  · rw [lookup_insert_ne hx, update_of_ne hx]

theorem lookup_erase_eq_update (s : Table ι ρ) (k : ι) :
    (fun x => (s.erase k).lookup x) = update (fun x => s.lookup x) k none := by
  funext x
  by_cases hx : x = k
  · rw [hx, lookup_erase, update_self]
  · rw [lookup_erase_ne hx, update_of_ne hx]

theorem lookup_replace_eq_update (h : s.lookup k = some v) (v' : ρ) :
    (fun x => (s.replace k v').lookup x) = update (fun x => s.lookup x) k (some v') := by
  funext x
  by_cases hx : x = k
  · rw [hx, lookup_replace h, update_self]
  · rw [lookup_replace_ne h v' hx, update_of_ne hx]

end Table

end CacheSim.Lib

/-!
## What is held, by its sizes

Things of a size each, found by a key. Their total depends on what is held only, not on how it is stored.
-/

namespace CacheSim.Lib

open List Function


variable {ι : Type} {f g h : ι → Option Int} {a b : Int}

def Within (f g : ι → Option Int) : Prop := ∀ x n, f x = some n → g x = some n

theorem Within.refl (f : ι → Option Int) : Within f f := fun _ _ hx => hx

theorem Within.trans (h1 : Within f g) (h2 : Within g h) : Within f h := fun x n hx => h2 x n (h1 x n hx)

theorem Within.eq_none (h : Within f g) {x : ι} (hx : g x = none) : f x = none := by
  rcases hf : f x with _ | n
  · rfl
  · cases hx.symm.trans (h x n hf)

/-- What is held was held before, for as much or less. -/
def Under (f g : ι → Option Int) : Prop := ∀ x n, f x = some n → ∃ m ≤ n, g x = some m

theorem Within.under (h : Within f g) : Under f g := fun x n hx => ⟨n, le_rfl, h x n hx⟩

theorem Under.trans (h1 : Under f g) (h2 : Under g h) : Under f h := by
  intro x n hx
  obtain ⟨m, hm, hx⟩ := h1 x n hx
  obtain ⟨k, hk, hx⟩ := h2 x m hx
  exact ⟨k, hk.trans hm, hx⟩

theorem Under.eq_none (h : Under f g) {x : ι} (hx : g x = none) : f x = none := by
  rcases hf : f x with _ | n
  · rfl
  · obtain ⟨m, -, hm⟩ := h x n hf
    cases hx.symm.trans hm

def Stock (size_of : ι → Option Int) (total : Int) : Prop :=
  ∃ l : List (ι × Int), (l.map Prod.fst).Nodup ∧ (∀ x n, (x, n) ∈ l ↔ size_of x = some n) ∧ (l.map Prod.snd).sum = total

theorem Stock.unique (h : Stock f a) (h' : Stock f b) : a = b := by
  obtain ⟨l, hl, hmem, rfl⟩ := h
  obtain ⟨l', hl', hmem', rfl⟩ := h'
  have hperm : l.Perm l' := by
    rw [perm_ext_iff_of_nodup (.of_map _ hl) (.of_map _ hl')]
    rintro ⟨x, n⟩
    rw [hmem, hmem']
  exact (hperm.map Prod.snd).sum_eq

theorem Stock.le_of_keys (h : Stock f a) (h' : Stock g b) (hsub : Under g f) (hkeys : ∀ x, (g x).isSome = (f x).isSome) :
    a ≤ b := by
  obtain ⟨l, hl, hmem, rfl⟩ := h
  have hgrown : ∀ x n, (x, n) ∈ l → ∃ m, n ≤ m ∧ g x = some m := by
    intro x n hx
    obtain ⟨m, hm⟩ := Option.isSome_iff_exists.1 ((hkeys x).trans (by rw [(hmem x n).1 hx]; rfl))
    obtain ⟨k, hk, hf⟩ := hsub x m hm
    cases ((hmem x n).1 hx).symm.trans hf
    exact ⟨m, hk, hm⟩
  have hstock : Stock g ((l.map fun e => (e.1, (g e.1).getD 0)).map Prod.snd).sum := by
    refine ⟨_, by rwa [map_map], fun x m => ?_, rfl⟩
    rw [mem_map]
    constructor
    · rintro ⟨⟨y, n⟩, hy, heq⟩
      cases heq
      obtain ⟨m, -, hm⟩ := hgrown y n hy
      rw [hm, Option.getD_some]
    · intro hx
      obtain ⟨n, hn⟩ := Option.isSome_iff_exists.1 ((hkeys x).symm.trans (by rw [hx]; rfl))
      exact ⟨(x, n), (hmem x n).2 hn, by rw [hx, Option.getD_some]⟩
  rw [h'.unique hstock, map_map]
  apply sum_le_sum
  rintro ⟨x, n⟩ hx
  obtain ⟨m, hn, hm⟩ := hgrown x n hx
  simpa [hm] using hn

theorem Stock.nonneg (h : Stock f a) (hsize : ∀ x n, f x = some n → 1 ≤ n) : 0 ≤ a := by
  obtain ⟨l, -, hmem, rfl⟩ := h
  apply sum_nonneg
  intro n hn
  obtain ⟨⟨x, n⟩, hx, rfl⟩ := mem_map.1 hn
  exact (by decide : (0 : Int) ≤ 1).trans (hsize x n ((hmem x n).1 hx))

section
variable [DecidableEq ι]

theorem Within.erase (f : ι → Option Int) (k : ι) : Within (update f k none) f := by
  intro x n hx
  rcases eq_or_ne x k with rfl | hne
  · rw [update_self] at hx
    cases hx
  · rwa [update_of_ne hne] at hx

theorem Stock.of_table {ρ : Type} (t : Table ι ρ) (w : ρ → Int) : Stock (fun x => (t.lookup x).map w) (t.weigh fun _ => w) := by
  refine ⟨t.entries.map fun e => (e.1, w e.2), ?_, fun x n => ?_, ?_⟩
  · rw [map_map]
    exact t.keys_nodup
  · rw [mem_map, Option.map_eq_some_iff]
    constructor
    · rintro ⟨e, he, heq⟩
      cases heq
      exact ⟨e.2, Table.lookup_of_mem_entries he, rfl⟩
    · rintro ⟨v, hv, rfl⟩
      exact ⟨⟨x, v⟩, Table.mem_entries_of_lookup hv, rfl⟩
  · rw [map_map]
    rfl

/-! ## Two stores -/

def both (f g : ι → Option Int) (x : ι) : Option Int := (f x).or (g x)

omit [DecidableEq ι] in
theorem both_eq_none {x : ι} : both f g x = none ↔ f x = none ∧ g x = none := Option.or_eq_none_iff

omit [DecidableEq ι] in
theorem Within.both_right {g' : ι → Option Int} (h : Within g' g) : Within (both f g') (both f g) := by
  intro x n hx
  unfold Lib.both at hx ⊢
  rcases hf : f x with _ | a
  · rw [hf, Option.none_or] at hx
    exact h x n hx
  · rwa [hf] at hx

omit [DecidableEq ι] in
theorem Stock.both (h : Stock f a) (h' : Stock g b) (hapart : ∀ x, f x = none ∨ g x = none) : Stock (both f g) (a + b) := by
  obtain ⟨l, hl, hmem, rfl⟩ := h
  obtain ⟨l', hl', hmem', rfl⟩ := h'
  refine ⟨l ++ l', ?_, fun x n => ?_, by simp⟩
  · rw [map_append, nodup_append]
    refine ⟨hl, hl', ?_⟩
    rintro x hx y hy rfl
    obtain ⟨⟨x, n⟩, hn, rfl⟩ := mem_map.1 hx
    obtain ⟨⟨y, m⟩, hm, heq⟩ := mem_map.1 hy
    subst heq
    rw [hmem] at hn
    rw [hmem'] at hm
    rcases hapart y with hnone | hnone
    · rw [hnone] at hn
      cases hn
    · rw [hnone] at hm
      cases hm
  · unfold Lib.both
    rw [mem_append, hmem, hmem']
    rcases hapart x with hnone | hnone <;> simp [hnone]

theorem both_move {k : ι} {n : Int} (hk : f k = some n) : both (update f k none) (update g k (some n)) = both f g := by
  funext x
  unfold both
  rcases eq_or_ne x k with rfl | hne
  · rw [update_self, update_self, hk]
    rfl
  · rw [update_of_ne hne, update_of_ne hne]

theorem both_move_under {k : ι} {n m : Int} (hk : f k = some n) (hnm : n ≤ m) :
    Under (both (update f k none) (update g k (some m))) (both f g) := by
  intro x j hx
  unfold both at hx ⊢
  rcases eq_or_ne x k with rfl | hne
  · rw [update_self, update_self, Option.none_or] at hx
    cases hx
    exact ⟨n, hnm, by rw [hk, Option.some_or]⟩
  · rw [update_of_ne hne, update_of_ne hne] at hx
    exact ⟨j, le_rfl, hx⟩

theorem both_insert_left (f g : ι → Option Int) (k : ι) (n : Int) :
    both (update f k (some n)) g = update (both f g) k (some n) := by
  funext x
  unfold both
  rcases eq_or_ne x k with rfl | hne
  · rw [update_self, update_self]
    rfl
  · rw [update_of_ne hne, update_of_ne hne]

theorem both_erase_left (k : ι) (hk : g k = none) : both (update f k none) g = update (both f g) k none := by
  funext x
  unfold both
  rcases eq_or_ne x k with rfl | hne
  · rw [update_self, update_self, hk]
    rfl
  · rw [update_of_ne hne, update_of_ne hne]

theorem both_update_right {k : ι} (v : Option Int) (hk : f k = none) : both f (update g k v) = update (both f g) k v := by
  funext x
  unfold both
  rcases eq_or_ne x k with rfl | hne
  · rw [update_self, update_self, hk]
    rfl
  · rw [update_of_ne hne, update_of_ne hne]

omit [DecidableEq ι] in
theorem Within.apart {f' g' : ι → Option Int} (hf : Within f' f) (hg : Within g' g) (h : ∀ x, f x = none ∨ g x = none) (x : ι) :
    f' x = none ∨ g' x = none := (h x).imp hf.eq_none hg.eq_none

theorem apart_move {k : ι} (v : Option Int) (h : ∀ x, f x = none ∨ g x = none) (x : ι) :
    update f k none x = none ∨ update g k v x = none := by
  rcases eq_or_ne x k with rfl | hne
  · exact .inl (update_self ..)
  · rw [update_of_ne hne, update_of_ne hne]
    exact h x

end

end CacheSim.Lib
