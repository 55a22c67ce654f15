import CacheSim.Lirs.Model

/-!
# The flags of a block in `S`, `Q` and `LRU_nh`

Only what the three tables hold under an id, not in which order.
-/

namespace CacheSim.Lirs

open Function


structure Setup where
  sz : ObjId → Int
  cache_size : Int
  hirs_limit : Int
  lirs_limit : Int
  sz_pos : ∀ x, 0 < sz x
  hirs_pos : 1 ≤ hirs_limit
  hirs_le : hirs_limit ≤ lirs_limit
  limits : hirs_limit + lirs_limit = cache_size

abbrev Lookup := ObjId → Option (FifoObj Md)

/-- `hold` is the block that a hit or a miss is about to make an LIR one, with its `in_cache`. -/
structure Tables (P : Setup) (hold : Option (ObjId × Bool)) (S Q N : Lookup) : Prop where
  S_rec : ∀ x o, S x = some o → o.obj_size = P.sz x ∧ P.sz x ≤ P.hirs_limit ∧ (o.md.is_LIR = true → o.md.in_cache = true)
  Q_rec : ∀ x o, Q x = some o → o = ⟨P.sz x, ⟨false, true⟩⟩ ∧ P.sz x ≤ P.hirs_limit
  Q_in_S : ∀ x q o, Q x = some q → S x = some o → o.md = ⟨false, true⟩
  S_in_Q : ∀ x o, S x = some o → o.md = ⟨false, true⟩ → (∃ q, Q x = some q) ∨ hold = some (x, true)
  nh : ∀ x, N x ≠ none ↔ ∃ o, S x = some o ∧ o.md = ⟨false, false⟩
  held : ∀ x r, hold = some (x, r) → Q x = none ∧ ∃ o, S x = some o ∧ o.md = ⟨false, r⟩

namespace Tables

variable {P : Setup} {hold : Option (ObjId × Bool)} {S Q N : Lookup} {x : ObjId} {o q n : FifoObj Md}

section

variable (h : Tables P hold S Q N)
include h

theorem lir_notMem_Q (hS : S x = some o) (hlir : o.md.is_LIR = true) : Q x = none := by
  rcases hq : Q x with _ | q
  · rfl
  · have hmd := h.Q_in_S x q o hq hS
    rw [hmd] at hlir
    cases hlir

theorem lir_notMem_N (hS : S x = some o) (hlir : o.md.is_LIR = true) : N x = none := by
  by_contra hn
  obtain ⟨o', ho', hmd⟩ := (h.nh x).1 hn
  rw [hS] at ho'
  cases ho'
  rw [hmd] at hlir
  cases hlir

theorem evict_Q (hS : S x = none) : Tables P hold S (update Q x none) N := by
  obtain ⟨h1, h2, h3, h4, h5, h6⟩ := h
  constructor <;> intro y <;> by_cases hy : y = x <;> grind

theorem evict_both (hQ : Q x = some q) (hS : S x = some o) :
    Tables P hold (update S x (some ⟨o.obj_size, ⟨o.md.is_LIR, false⟩⟩)) (update Q x none) (update N x (some n)) := by
  obtain ⟨h1, h2, h3, h4, h5, h6⟩ := h
  constructor <;> intro y <;> by_cases hy : y = x <;> grind

theorem erase_S (hhold : ∀ r, hold ≠ some (x, r)) : Tables P hold (update S x none) Q (update N x none) := by
  obtain ⟨h1, h2, h3, h4, h5, h6⟩ := h
  constructor <;> intro y <;> by_cases hy : y = x <;> grind

end

theorem erase_both (h : Tables P none S Q N) (hS : S x = some o) (hmd : o.md = ⟨false, true⟩) :
    Tables P none (update S x none) (update Q x none) N := by
  obtain ⟨h1, h2, h3, h4, h5, -⟩ := h
  constructor <;> intro y <;> by_cases hy : y = x <;> grind

theorem insert_Q (h : Tables P hold S Q N) (hS : S x = none) (hsz : P.sz x ≤ P.hirs_limit) :
    Tables P hold S (update Q x (some ⟨P.sz x, ⟨false, true⟩⟩)) N := by
  obtain ⟨h1, h2, h3, h4, h5, h6⟩ := h
  constructor <;> intro y <;> by_cases hy : y = x <;> grind

theorem hold_HIR (h : Tables P none S Q N) {r : Bool} (hS : S x = some o) (hmd : o.md = ⟨false, r⟩) :
    Tables P (some (x, r)) S (update Q x none) N := by
  obtain ⟨h1, h2, h3, h4, h5, -⟩ := h
  constructor <;> intro y <;> by_cases hy : y = x <;> grind

theorem promote {r : Bool} (h : Tables P (some (x, r)) S Q N) :
    Tables P none (update S x (some ⟨P.sz x, ⟨true, true⟩⟩)) Q (update N x none) := by
  obtain ⟨h1, h2, h3, h4, h5, h6⟩ := h
  constructor <;> intro y <;> by_cases hy : y = x <;> grind

theorem insert_S_HIR (h : Tables P none S Q N) (hQ : Q x = some q) (hS : S x = none) :
    Tables P none (update S x (some ⟨P.sz x, ⟨false, true⟩⟩)) Q N := by
  obtain ⟨h1, h2, h3, h4, h5, -⟩ := h
  constructor <;> intro y <;> by_cases hy : y = x <;> grind

theorem insert_S_LIR (h : Tables P none S Q N) (hQ : Q x = none) (hS : S x = none) (hsz : P.sz x ≤ P.hirs_limit) :
    Tables P none (update S x (some ⟨P.sz x, ⟨true, true⟩⟩)) Q N := by
  obtain ⟨h1, h2, h3, h4, h5, -⟩ := h
  constructor <;> intro y <;> by_cases hy : y = x <;> grind

end Tables

end CacheSim.Lirs

/-!
## Evictions, demotions and pruning keep the counters right
-/

namespace CacheSim.Lirs

open Lib List Option AList Table Setup Function

def stack (S : Lru Md) : List (ObjId × Bool) := S.q.entries.map fun e => (e.1, e.2.md.is_LIR)

def lirs (l : List (ObjId × Bool)) : List ObjId := (l.filter (·.2)).map (·.1)

def Setup.total (P : Setup) (l : List ObjId) : Int := (l.map P.sz).sum

structure Frame (P : Setup) (cache_size hirs_limit lirs_limit obj_md_size : Int) (inflight : Finset ObjId) : Prop where
  cache_size : cache_size = P.cache_size
  hirs_limit : hirs_limit = P.hirs_limit
  lirs_limit : lirs_limit = P.lirs_limit
  no_md : obj_md_size = 0
  idle : inflight = ∅

/-- The counters, for the LIR blocks `L` and the blocks `ids` of `Q`. -/
structure Counts (P : Setup) (L ids : List ObjId) (lirs_count hirs_count occupied_byte n_obj : Int) : Prop where
  lirs : lirs_count = P.total L
  hirs : hirs_count = P.total ids
  occupied : occupied_byte = lirs_count + hirs_count
  n_obj : n_obj = L.length + ids.length
  lirs_fit : lirs_count ≤ P.lirs_limit
  hirs_fit : hirs_count ≤ P.hirs_limit

structure Core (P : Setup) (hold : Option (ObjId × Bool)) (s : State) : Prop where
  frame : Frame P s.cache_size s.hirs_limit s.lirs_limit s.obj_md_size s.inflight
  tables : Tables P hold (fun x => s.LRU_s.q.lookup x) (fun x => s.LRU_q.q.lookup x) (fun x => s.LRU_nh.q.lookup x)
  top : ∀ x r, hold = some (x, r) → ∃ l, stack s.LRU_s = (x, false) :: l
  counts : Counts P (lirs (stack s.LRU_s)) s.LRU_q.q.keys s.lirs_count s.hirs_count s.occupied_byte s.n_obj

@[simp] theorem lirs_append (l1 l2 : List (ObjId × Bool)) : lirs (l1 ++ l2) = lirs l1 ++ lirs l2 := by
  simp [lirs]

@[simp] theorem lirs_nil : lirs [] = [] := rfl

@[simp] theorem lirs_lir (x : ObjId) (l : List (ObjId × Bool)) : lirs ((x, true) :: l) = x :: lirs l := rfl

@[simp] theorem lirs_hir (x : ObjId) (l : List (ObjId × Bool)) : lirs ((x, false) :: l) = lirs l := rfl

theorem lirs_of_hir {l : List (ObjId × Bool)} (h : ∀ b ∈ l, b.2 = false) : lirs l = [] := by
  simp only [lirs, map_eq_nil_iff, filter_eq_nil_iff]
  intro b hb
  simp [h b hb]

@[simp] theorem Setup.total_append (P : Setup) (l1 l2 : List ObjId) : P.total (l1 ++ l2) = P.total l1 + P.total l2 := by
  simp [total]

@[simp] theorem Setup.total_cons (P : Setup) (x : ObjId) (l : List ObjId) : P.total (x :: l) = P.sz x + P.total l := by
  simp [total]

@[simp] theorem Setup.total_nil (P : Setup) : P.total [] = 0 := rfl

theorem Setup.total_nonneg (P : Setup) (l : List ObjId) : 0 ≤ P.total l := by
  induction l with
  | nil => exact le_rfl
  | cons x l ih =>
    rw [P.total_cons]
    have := P.sz_pos x
    omega

variable {P : Setup} {hold : Option (ObjId × Bool)} {s : State} {t : Table ObjId (FifoObj Md)} {x : ObjId}

theorem entries_of_keys {l : List ObjId} (h : t.keys = l ++ [x]) :
    ∃ l' o, t.entries = l' ++ [⟨x, o⟩] ∧ l'.map (·.1) = l ∧ t.lookup x = some o := by
  obtain ⟨l', r, hs, hl, hr⟩ := map_eq_append_iff.1 (show t.entries.map (·.1) = l ++ [x] from h)
  obtain ⟨⟨y, o⟩, rfl, rfl⟩ := map_eq_singleton_iff.1 hr
  exact ⟨l', o, hs, hl, lookup_of_mem_entries (e := ⟨y, o⟩) (by simp [hs])⟩

namespace Counts

variable {L ids : List ObjId} {a b c d : Int}

theorem of_perm (h : Counts P L ids a b c d) {L' ids' : List ObjId} (hL : L'.Perm L) (hids : ids'.Perm ids) :
    Counts P L' ids' a b c d := by
  refine { h with lirs := h.lirs.trans ?_, hirs := h.hirs.trans ?_, n_obj := ?_ }
  · exact (hL.map P.sz).sum_eq.symm
  · exact (hids.map P.sz).sum_eq.symm
  · rw [hL.length_eq, hids.length_eq]
    exact h.n_obj

theorem drop_Q (h : Counts P L (x :: ids) a b c d) : Counts P L ids a (b - P.sz x) (c - P.sz x) (d - 1) := by
  obtain ⟨h1, h2, h3, h4, h5, h6⟩ := h
  simp only [total_cons, length_cons] at h2 h4
  have hpos := P.sz_pos x
  constructor <;> omega

theorem drop_LIR (h : Counts P (x :: L) ids a b c d) : Counts P L ids (a - P.sz x) b (c - P.sz x) (d - 1) := by
  obtain ⟨h1, h2, h3, h4, h5, h6⟩ := h
  simp only [total_cons, length_cons] at h1 h4
  have hpos := P.sz_pos x
  constructor <;> omega

theorem add_Q (h : Counts P L ids a b c d) (hfit : b + P.sz x ≤ P.hirs_limit) :
    Counts P L (x :: ids) a (b + P.sz x) (c + P.sz x) (d + 1) := by
  obtain ⟨h1, h2, h3, h4, h5, -⟩ := h
  constructor
  · exact h1
  · rw [total_cons]
    omega
  · omega
  · rw [length_cons]
    omega
  · exact h5
  · exact hfit

theorem add_LIR (h : Counts P L ids a b c d) (hfit : a + P.sz x ≤ P.lirs_limit) :
    Counts P (x :: L) ids (a + P.sz x) b (c + P.sz x) (d + 1) := by
  obtain ⟨h1, h2, h3, h4, -, h6⟩ := h
  constructor
  · rw [total_cons]
    omega
  · exact h2
  · omega
  · rw [length_cons]
    omega
  · exact hfit
  · exact h6

end Counts

/-! ## Evicting from `Q` -/

theorem stack_set_md {S : Lru Md} {o : FifoObj Md} {md : Md} (h : S.q.lookup x = some o)
    (hlir : md.is_LIR = o.md.is_LIR) : stack (S.set_md x o md) = stack S := by
  obtain ⟨l1, l2, hs, -, hrep⟩ := split_at h
  simp only [stack, Fifo.set_md, hrep, hs, map_append, map_cons, hlir]

theorem mark_nonresident_spec {Q : Lookup} {q : FifoObj Md}
    (h : Tables P hold (fun x => s.LRU_s.q.lookup x) Q (fun x => s.LRU_nh.q.lookup x)) (hq : Q x = some q) :
    ∃ S' N' k, mark_nonresident s ⟨x, q⟩ = { s with LRU_s := S', LRU_nh := N', nonresident := k } ∧
      stack S' = stack s.LRU_s ∧
      Tables P hold (fun x => S'.q.lookup x) (update Q x none) (fun x => N'.q.lookup x) := by
  unfold mark_nonresident
  rcases hS : s.LRU_s.q.lookup x with _ | o
  · exact ⟨s.LRU_s, s.LRU_nh, s.nonresident, rfl, rfl, h.evict_Q hS⟩
  · refine ⟨_, _, _, rfl, stack_set_md hS rfl, ?_⟩
    have ht := h.evict_both (n := ⟨q.obj_size, {}⟩) hq hS
    rw [← lookup_replace_eq_update hS, ← lookup_insert_eq_update] at ht
    exact ht

theorem evictHIR_spec (h : Core P hold s) {l : List ObjId} (hQ : s.LRU_q.q.keys = l ++ [x]) :
    ∃ s', evictHIR s = some (s', true) ∧ Core P hold s' ∧ s'.LRU_q.q.keys = l ∧ stack s'.LRU_s = stack s.LRU_s := by
  obtain ⟨l', q, hent, hl, hq⟩ := entries_of_keys hQ
  obtain ⟨hto, hev, herase⟩ := Lru.LRU_evict_last hent
  have hsize : q.obj_size = P.sz x := by rw [(h.tables.Q_rec x q hq).1]
  have hkeys : (s.LRU_q.q.erase x).keys = l := by
    show (s.LRU_q.q.erase x).entries.map (·.1) = l
    rw [herase, hl]
  obtain ⟨S', N', k, hmark, hstack, ht⟩ := mark_nonresident_spec
    (s := { s with hirs_count := s.hirs_count - q.obj_size, LRU_q := s.LRU_q.cache_remove_obj_base x q }) h.tables hq
  refine ⟨{ s with
    LRU_s := S', LRU_q := s.LRU_q.cache_remove_obj_base x q, LRU_nh := N', nonresident := k
    hirs_count := s.hirs_count - q.obj_size, occupied_byte := s.occupied_byte - (q.obj_size + s.obj_md_size)
    n_obj := s.n_obj - 1 }, ?_, ⟨h.frame, ?_, ?_, ?_⟩, hkeys, hstack⟩
  · have hout : lirs_is_inflight s x = false := by simp [lirs_is_inflight, h.frame.idle]
    simp only [evictHIR, hto, hev, bind_eq_bind, bind_some, hout, hmark]
    rfl
  · rw [← lookup_erase_eq_update] at ht
    exact ht
  · intro y r hy
    obtain ⟨l, hl⟩ := h.top y r hy
    exact ⟨l, hstack.trans hl⟩
  · have hc := h.counts
    rw [hQ] at hc
    have hc' := (hc.of_perm (.refl _) (perm_append_singleton x l).symm).drop_Q
    rw [← hsize, ← hkeys, ← hstack] at hc'
    rw [h.frame.no_md, add_zero]
    exact hc'

/-- Room is made at the old end of `Q`: what fits beside the new block at its young end stays. -/
structure Trimmed (P : Setup) (size : Int) (ids ids' : List ObjId) : Prop where
  isPrefix : ids' <+: ids
  keeps : ∀ young, young <+: ids → P.total young + size ≤ P.hirs_limit → young <+: ids'

theorem make_room_spec (h : Core P hold s) {size : Int} (hsize : size ≤ P.hirs_limit) :
    ∃ s', make_room size s = some s' ∧ Core P hold s' ∧ stack s'.LRU_s = stack s.LRU_s ∧
      s'.hirs_count + size ≤ P.hirs_limit ∧ Trimmed P size s.LRU_q.q.keys s'.LRU_q.q.keys := by
  let I : State × Bool → Prop := fun w => w.2 = true ∧ Core P hold w.1 ∧ stack w.1.LRU_s = stack s.LRU_s ∧
    Trimmed P size s.LRU_q.q.keys w.1.LRU_q.q.keys
  have hbody : ∀ w, I w → (w.2 && decide (w.1.hirs_count + size > w.1.hirs_limit)) = true →
      ∃ w', evictHIR w.1 = some w' ∧ I w' ∧ w'.1.LRU_q.q.keys.length < w.1.LRU_q.q.keys.length := by
    rintro ⟨w, b⟩ ⟨-, hcore, hstack, htrim⟩ hcond
    have hlimit : w.hirs_limit = P.hirs_limit := hcore.frame.hirs_limit
    have hcount : w.hirs_count = P.total w.LRU_q.q.keys := hcore.counts.hirs
    simp only [Bool.and_eq_true, decide_eq_true_eq] at hcond
    rcases eq_nil_or_concat w.LRU_q.q.keys with hnil | ⟨l, x, hkeys⟩
    · rw [hnil, total_nil] at hcount
      omega
    rw [concat_eq_append] at hkeys
    obtain ⟨w', hev, hcore', hkeys', hstack'⟩ := evictHIR_spec hcore hkeys
    refine ⟨(w', true), hev, ⟨rfl, hcore', hstack'.trans hstack, ?_, ?_⟩, ?_⟩
    · rw [hkeys']
      exact (prefix_append l [x]).trans (hkeys ▸ htrim.isPrefix)
    · intro young hpre hfit
      have hyoung := htrim.keeps young hpre hfit
      rw [hkeys, prefix_concat_iff] at hyoung
      rw [hkeys']
      rcases hyoung with rfl | hyoung
      · rw [hkeys] at hcount
        omega
      · exact hyoung
    · rw [hkeys', hkeys]
      simp
  obtain ⟨⟨s', b⟩, hloop, ⟨hb, hcore, hstack, htrim⟩, hstop⟩ := whileLoop_total I (fun w => w.1.LRU_q.q.keys.length) hbody
    (s.LRU_q.q.entries.length + 1) (s, true) ⟨rfl, h, rfl, prefix_rfl, fun _ hy _ => hy⟩ (by simp [AList.keys, List.keys])
  refine ⟨s', by simp [make_room, hloop], hcore, hstack, ?_, htrim⟩
  dsimp only at hb hstop
  rw [hb, Bool.true_and, decide_eq_false_iff_not, hcore.frame.hirs_limit] at hstop
  omega

/-! ## Pruning `S` -/

def Pruned (s : State) : Prop := ∀ l b, stack s.LRU_s = l ++ [b] → l = [] ∨ b.2 = true

theorem Pruned.bottom (h : Pruned s) (hlirs : lirs (stack s.LRU_s) ≠ []) : ∃ l y, stack s.LRU_s = l ++ [(y, true)] := by
  rcases eq_nil_or_concat (stack s.LRU_s) with hnil | ⟨l, ⟨y, b⟩, hl⟩
  · rw [hnil] at hlirs
    exact absurd rfl hlirs
  rw [concat_eq_append] at hl
  refine ⟨l, y, ?_⟩
  rcases h l (y, b) hl with rfl | rfl
  · cases b with
    | true => exact hl
    | false =>
      rw [hl] at hlirs
      exact absurd rfl hlirs
  · exact hl

variable {e : Block}

theorem obj_to_remove_some (h : obj_to_remove s = some e) :
    ∃ top l, s.LRU_s.q.entries = top :: l ++ [e] ∧ e.1 ≠ top.1 ∧ e.2.md.is_LIR = false := by
  simp only [obj_to_remove, bind_eq_bind, bind_eq_some_iff, ite_none_left_eq_some, not_or,
    some.injEq] at h
  obtain ⟨tail, htail, top, htop, ⟨hne, hlir⟩, rfl⟩ := h
  obtain ⟨l, hl⟩ := getLast?_eq_some_iff.1 htail
  rw [hl] at htop
  cases l with
  | nil =>
    simp only [nil_append, head?_cons, some.injEq] at htop
    rw [htop] at hne
    exact absurd rfl hne
  | cons e l =>
    simp only [cons_append, head?_cons, some.injEq] at htop
    subst htop
    exact ⟨e, l, hl, hne, by simpa using hlir⟩

theorem pruned_of_none (h : obj_to_remove s = none) : Pruned s := by
  intro l b hstack
  obtain ⟨l', r, hs, hl', hr⟩ := map_eq_append_iff.1 hstack
  obtain ⟨e, rfl, rfl⟩ := map_eq_singleton_iff.1 hr
  cases l' with
  | nil => exact .inl hl'.symm
  | cons top l' =>
    right
    have hnodup := s.LRU_s.q.nodupKeys
    rw [hs, List.NodupKeys, List.keys, cons_append, map_cons, nodup_cons] at hnodup
    have hne : e.1 ≠ top.1 := by
      intro heq
      exact hnodup.1 (by simp [← heq])
    have hlast : s.LRU_s.q.entries.getLast? = some e := by
      rw [hs]
      exact getLast?_concat
    have htop : s.LRU_s.q.entries.head? = some top := by rw [hs, cons_append, head?_cons]
    simpa [obj_to_remove, hlast, htop, hne] using h

theorem forget_spec {Q : Lookup} (h : Tables P hold (fun x => s.LRU_s.q.lookup x) Q (fun x => s.LRU_nh.q.lookup x))
    (he : s.LRU_s.q.lookup e.1 = some e.2) :
    ∃ N' k, (if e.2.md.in_cache then s else forget s e) = { s with LRU_nh := N', nonresident := k } ∧
      (fun x => N'.q.lookup x) = update (fun x => s.LRU_nh.q.lookup x) e.1 none := by
  by_cases hin : e.2.md.in_cache = true
  · rw [if_pos hin]
    refine ⟨s.LRU_nh, s.nonresident, rfl, ?_⟩
    symm
    apply Function.update_eq_self_iff.2
    symm
    by_contra hn
    obtain ⟨o, ho, hmd⟩ := (h.nh e.1).1 hn
    rw [he] at ho
    cases ho
    rw [hmd] at hin
    cases hin
  · rw [if_neg hin]
    refine ⟨(s.LRU_nh.LRU_remove e.1).1, _, rfl, ?_⟩
    rw [← lookup_erase_eq_update, Lru.LRU_remove_q]

theorem LIRS_prune_step_spec (h : Core P hold s) (he : obj_to_remove s = some e) :
    ∃ s', LIRS_prune_step s = some s' ∧ Core P hold s' ∧ s'.LRU_q = s.LRU_q ∧
      stack s.LRU_s = stack s'.LRU_s ++ [(e.1, false)] := by
  obtain ⟨top, l, hs, hne, hlir⟩ := obj_to_remove_some he
  have hlook : s.LRU_s.q.lookup e.1 = some e.2 := lookup_of_mem_entries (by simp [hs])
  obtain ⟨N', k, hforget, hN'⟩ := forget_spec h.tables hlook
  obtain ⟨-, hev, herase⟩ := Lru.LRU_evict_last hs
  have hstack : stack s.LRU_s = stack (s.LRU_s.cache_remove_obj_base e.1 e.2) ++ [(e.1, false)] := by
    show s.LRU_s.q.entries.map _ = (s.LRU_s.q.erase e.1).entries.map _ ++ _
    rw [herase, hs]
    simp [hlir]
  refine ⟨{ s with LRU_s := s.LRU_s.cache_remove_obj_base e.1 e.2, LRU_nh := N', nonresident := k }, ?_,
    ⟨h.frame, ?_, ?_, ?_⟩, rfl, hstack⟩
  · simp only [LIRS_prune_step, he, bind_eq_bind, bind_some, hforget, hev]
    rfl
  · have hhold : ∀ r, hold ≠ some (e.1, r) := by
      rintro r rfl
      obtain ⟨l', hl'⟩ := h.top e.1 r rfl
      simp only [stack, hs, cons_append, map_cons, List.cons.injEq, Prod.mk.injEq] at hl'
      exact hne hl'.1.1.symm
    have ht := h.tables.erase_S hhold
    rw [← hN', ← lookup_erase_eq_update] at ht
    exact ht
  · intro y r hy
    obtain ⟨l', hl'⟩ := h.top y r hy
    have hcons : stack (s.LRU_s.cache_remove_obj_base e.1 e.2) = (top.1, top.2.md.is_LIR) :: l.map fun e => (e.1, e.2.md.is_LIR) := by
      show (s.LRU_s.q.erase e.1).entries.map _ = _
      rw [herase]
      rfl
    rw [hstack, hcons, cons_append, List.cons.injEq] at hl'
    refine ⟨l.map fun e => (e.1, e.2.md.is_LIR), ?_⟩
    rw [← hl'.1]
    exact hcons
  · have hc := h.counts
    rw [hstack] at hc
    simpa using hc

theorem LIRS_prune_spec (h : Core P hold s) :
    ∃ s', LIRS_prune s = some s' ∧ Core P hold s' ∧ Pruned s' ∧ s'.LRU_q = s.LRU_q ∧
      ∃ d, stack s.LRU_s = stack s'.LRU_s ++ d ∧ ∀ b ∈ d, b.2 = false := by
  let I : State → Prop := fun t => Core P hold t ∧ t.LRU_q = s.LRU_q ∧
    ∃ d, stack s.LRU_s = stack t.LRU_s ++ d ∧ ∀ b ∈ d, b.2 = false
  have hbody : ∀ t, I t → (obj_to_remove t).isSome = true →
      ∃ t', LIRS_prune_step t = some t' ∧ I t' ∧ (stack t'.LRU_s).length < (stack t.LRU_s).length := by
    rintro t ⟨hcore, hQ, d, hd, hhir⟩ hsome
    obtain ⟨e, he⟩ := isSome_iff_exists.1 hsome
    obtain ⟨t', hstep, hcore', hQ', hstack⟩ := LIRS_prune_step_spec hcore he
    refine ⟨t', hstep, ⟨hcore', hQ'.trans hQ, (e.1, false) :: d, ?_, ?_⟩, ?_⟩
    · rw [hd, hstack]
      simp
    · intro b hb
      rcases mem_cons.1 hb with rfl | hb
      · rfl
      · exact hhir b hb
    · rw [hstack]
      simp
  obtain ⟨s', hloop, ⟨hcore, hQ, hd⟩, hstop⟩ := whileLoop_total I (fun t => (stack t.LRU_s).length) hbody
    s.LRU_s.q.entries.length s ⟨h, rfl, [], by simp⟩ (by simp [stack])
  exact ⟨s', hloop, hcore, pruned_of_none (by simpa using hstop), hQ, hd⟩

/-! ## Demoting the bottom of `S` -/

theorem Core.drop_LIR (h : Core P hold s) {l : List Block} {o : FifoObj Md}
    (hs : s.LRU_s.q.entries = l ++ [⟨x, o⟩]) (hlir : o.md.is_LIR = true) :
    Core P hold { s with
        lirs_count := s.lirs_count - o.obj_size, LRU_s := s.LRU_s.cache_remove_obj_base x o
        occupied_byte := s.occupied_byte - (o.obj_size + s.obj_md_size), n_obj := s.n_obj - 1 } ∧
      stack s.LRU_s = stack (s.LRU_s.cache_remove_obj_base x o) ++ [(x, true)] := by
  have hlook : s.LRU_s.q.lookup x = some o := lookup_of_mem_entries (e := ⟨x, o⟩) (by simp [hs])
  have herase := erase_last hs
  have hstack : stack s.LRU_s = stack (s.LRU_s.cache_remove_obj_base x o) ++ [(x, true)] := by
    show s.LRU_s.q.entries.map _ = (s.LRU_s.q.erase x).entries.map _ ++ _
    rw [herase, hs]
    simp [hlir]
  refine ⟨⟨h.frame, ?_, ?_, ?_⟩, hstack⟩
  · have hhold : ∀ r, hold ≠ some (x, r) := by
      intro r hr
      obtain ⟨-, o', ho', hmd⟩ := h.tables.held x r hr
      rw [hlook] at ho'
      cases ho'
      rw [hmd] at hlir
      cases hlir
    have ht := h.tables.erase_S hhold
    rw [← lookup_erase_eq_update, Function.update_eq_self_iff.2 (h.tables.lir_notMem_N hlook hlir).symm] at ht
    exact ht
  · intro y r hy
    obtain ⟨l', hl'⟩ := h.top y r hy
    rw [hstack] at hl'
    cases hrest : stack (s.LRU_s.cache_remove_obj_base x o) with
    | nil =>
      rw [hrest] at hl'
      cases hl'
    | cons b l'' =>
      rw [hrest, cons_append, List.cons.injEq] at hl'
      exact ⟨l'', by rw [hl'.1]⟩
  · have hc := h.counts
    rw [hstack, lirs_append, lirs_lir, lirs_nil] at hc
    have hc' := (hc.of_perm (perm_append_singleton x _).symm (.refl _)).drop_LIR
    rw [← (h.tables.S_rec x o hlook).1] at hc'
    rw [h.frame.no_md, add_zero]
    exact hc'

theorem keys_insert {o : FifoObj Md} (h : t.lookup x = none) : (t.insert x o).keys = x :: t.keys := by
  rw [AList.keys, entries_insert_of_notMem (lookup_eq_none.1 h)]
  rfl

theorem Core.add_Q (h : Core P hold s) (req : Request) (hreq : req.obj_size = P.sz req.obj_id)
    (hS : s.LRU_s.q.lookup req.obj_id = none) (hQ : s.LRU_q.q.lookup req.obj_id = none)
    (hsz : P.sz req.obj_id ≤ P.hirs_limit) (hfit : s.hirs_count + P.sz req.obj_id ≤ P.hirs_limit) :
    Core P hold { s with
      LRU_q := s.LRU_q.LRU_insert req ⟨false, true⟩, hirs_count := s.hirs_count + req.obj_size
      occupied_byte := s.occupied_byte + (req.obj_size + s.obj_md_size), n_obj := s.n_obj + 1 } := by
  refine ⟨h.frame, ?_, h.top, ?_⟩
  · have ht := h.tables.insert_Q hS hsz
    rw [← hreq, ← lookup_insert_eq_update] at ht
    exact ht
  · have hc := h.counts.add_Q hfit
    rw [← keys_insert hQ, ← hreq] at hc
    rw [h.frame.no_md, add_zero]
    exact hc

theorem lookup_none_iff_stack {S : Lru Md} : S.q.lookup x = none ↔ x ∉ (stack S).map (·.1) := by
  rw [lookup_eq_none, AList.mem_keys, AList.keys, List.keys, stack, List.map_map]
  rfl

theorem lookup_none_iff_keys : t.lookup x = none ↔ x ∉ t.keys := by
  rw [lookup_eq_none, AList.mem_keys]

theorem demote_to_Q_spec (h : Core P hold s) {o : FifoObj Md} (hsize : o.obj_size = P.sz x)
    (hsz : P.sz x ≤ P.hirs_limit) (hS : s.LRU_s.q.lookup x = none) (hQ : s.LRU_q.q.lookup x = none) :
    ∃ s' kept, demote_to_Q s ⟨x, o⟩ = some s' ∧ Core P hold s' ∧ stack s'.LRU_s = stack s.LRU_s ∧
      s'.LRU_q.q.keys = x :: kept ∧ Trimmed P (P.sz x) s.LRU_q.q.keys kept := by
  obtain ⟨s1, hroom, hcore, hstack, hfit, htrim⟩ := make_room_spec h hsz
  have hS1 : s1.LRU_s.q.lookup x = none := by
    rw [lookup_none_iff_stack] at hS ⊢
    rwa [hstack]
  have hQ1 : s1.LRU_q.q.lookup x = none := by
    rw [lookup_none_iff_keys] at hQ ⊢
    exact fun hmem => hQ (htrim.isPrefix.mem hmem)
  refine ⟨_, s1.LRU_q.q.keys, ?_, hcore.add_Q (obj_to_request ⟨x, o⟩) hsize hS1 hQ1 hsz hfit, hstack,
    keys_insert hQ1, htrim⟩
  have hle : o.obj_size ≤ s.hirs_limit := by
    rw [h.frame.hirs_limit, hsize]
    exact hsz
  rw [← hsize] at hroom
  simp only [demote_to_Q, if_pos hle, hroom, bind_eq_bind]
  rfl

structure Demotes (P : Setup) (x : ObjId) (s s' : State) : Prop where
  lirs : lirs (stack s.LRU_s) = lirs (stack s'.LRU_s) ++ [x]
  shorter : (stack s'.LRU_s).length < (stack s.LRU_s).length
  ids : ∀ y, y ∈ (stack s'.LRU_s).map (·.1) → y ∈ (stack s.LRU_s).map (·.1)
  queue : ∃ kept, s'.LRU_q.q.keys = x :: kept ∧ Trimmed P (P.sz x) s.LRU_q.q.keys kept

theorem evictLIR_spec (h : Core P hold s) {l : List (ObjId × Bool)} (hs : stack s.LRU_s = l ++ [(x, true)]) :
    ∃ s', evictLIR s = some s' ∧ Core P hold s' ∧ Pruned s' ∧ Demotes P x s s' ∧ stack s'.LRU_s <+: stack s.LRU_s := by
  obtain ⟨l', r, hent, -, hr⟩ := map_eq_append_iff.1 hs
  obtain ⟨⟨y, o⟩, rfl, hy⟩ := map_eq_singleton_iff.1 hr
  simp only [Prod.mk.injEq] at hy
  obtain ⟨rfl, hlir⟩ := hy
  have hlook : s.LRU_s.q.lookup y = some o := lookup_of_mem_entries (e := ⟨y, o⟩) (by simp [hent])
  obtain ⟨hsize, hsz, -⟩ := h.tables.S_rec y o hlook
  obtain ⟨hto, hev, -⟩ := Lru.LRU_evict_last hent
  obtain ⟨hdrop, hstack⟩ := h.drop_LIR hent hlir
  have hS : (s.LRU_s.cache_remove_obj_base y o).q.lookup y = none := lookup_erase _ _
  obtain ⟨s1, kept, hdem, hcore1, hstack1, hkept, htrim⟩ := demote_to_Q_spec hdrop hsize hsz hS (h.tables.lir_notMem_Q hlook hlir)
  obtain ⟨s2, hprune, hcore2, hpruned, hQ2, d, hd, hhir⟩ := LIRS_prune_spec hcore1
  have hall : stack s.LRU_s = stack s2.LRU_s ++ d ++ [(y, true)] := by
    rw [hstack, ← hd]
    exact congrArg (· ++ _) hstack1.symm
  refine ⟨s2, ?_, hcore2, hpruned, ⟨?_, ?_, ?_, kept, ?_, htrim⟩, ⟨d ++ [(y, true)], by rw [hall, append_assoc]⟩⟩
  · simp only [evictLIR, hto, hev, bind_eq_bind, bind_some, hdem, hprune]
  · rw [hall]
    simp [lirs_of_hir hhir]
  · rw [hall, length_append, length_append, length_singleton]
    omega
  · intro z hz
    rw [hall]
    simp only [map_append, mem_append]
    exact .inl (.inl hz)
  · rw [hQ2, hkept]

end CacheSim.Lirs
