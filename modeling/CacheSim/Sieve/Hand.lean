import CacheSim.Sieve.Proofs
import CacheSim.Lib.Sweep

/-!
# How long the hand of Sieve goes on

Seen from the hand, the residents of the queue are items that are pinned, unread or read.
-/

namespace CacheSim.Sieve

open Lib List AList

/-! ## The round after an eviction -/

variable {queue : List ObjId}

theorem round_rotate {x v : ObjId} {l r : List ObjId} (hn : queue.Nodup) (hx : x ∈ queue)
    (h : round queue x = l ++ v :: r) : round queue v = v :: (r ++ l) := by
  obtain ⟨P, S, rfl⟩ := append_of_mem hx
  rw [round_of_split hn] at h
  cases l with
  | nil =>
    obtain ⟨rfl, rfl⟩ := List.cons.inj h
    rw [round_of_split hn, append_nil]
  | cons y l =>
    rw [cons_append, List.cons.injEq] at h
    obtain ⟨rfl, h⟩ := h
    rcases append_eq_append_iff.1 h with ⟨m, rfl, hS⟩ | ⟨m, hP, hr⟩
    · -- the hand has passed the head, and `v` is behind `x`
      have hq : P ++ x :: S = (P ++ x :: r.reverse) ++ v :: m.reverse := by
        rw [reverse_eq_iff.1 hS]
        simp
      rw [hq] at hn ⊢
      rw [round_of_split hn]
      simp
    · cases m with
      | nil =>
        -- `v` is the tail
        have hq : P ++ x :: S = (P ++ x :: r.reverse) ++ v :: [] := by
          rw [reverse_eq_iff.1 hr.symm]
          simp
        rw [append_nil] at hP
        rw [hq] at hn ⊢
        rw [round_of_split hn, ← hP]
        simp
      | cons w m =>
        obtain ⟨rfl, rfl⟩ := List.cons.inj hr
        have hq : P ++ x :: S = m.reverse ++ v :: (l.reverse ++ x :: S) := by
          rw [reverse_eq_iff.1 hP]
          simp
        rw [hq] at hn ⊢
        rw [round_of_split hn]
        simp

def hand (s : State) : List ObjId :=
  match start s with
  | none => []
  | some x => round s.fifo.q.keys x

theorem hand_perm {s : State} (h : Inv s) : (hand s).Perm s.fifo.q.keys := by
  unfold hand
  rcases hx : start s with _ | x
  · unfold start at hx
    have hlast : s.fifo.q.keys.getLast? = none := by
      rcases hp : s.pointer with _ | y
      · rwa [hp, Option.none_or] at hx
      · simp [hp] at hx
    rw [getLast?_eq_none_iff.1 hlast]
  · exact perm_round s.fifo.q.keys_nodup (mem_keys.1 (start_mem h hx))

theorem hand_of_taken {s : State} {q : Table ObjId (FifoObj Nat)} {x v : ObjId} {l r : List ObjId} (hx : x ∈ q)
    (h : round q.keys x = l ++ v :: r) (hpointer : s.pointer = prev q.keys v) (hq : s.fifo.q = q.erase v) :
    hand s = r ++ l := by
  have hn := q.keys_nodup
  have hv : v ∈ q.keys := (perm_round hn (mem_keys.1 hx)).mem_iff.1 (by rw [h]; simp)
  have hround := round_rotate hn (mem_keys.1 hx) h
  have hkeys : s.fifo.q.keys = q.keys.erase v := by rw [hq, keys_erase]
  obtain ⟨P, S, hsplit⟩ := append_of_mem hv
  rw [hsplit] at hn hround hpointer hkeys
  rw [round_of_split hn, List.cons.injEq] at hround
  have hnotP : v ∉ P := fun hmem => (nodup_append.1 hn).2.2 v hmem v (by simp) rfl
  rw [prev_of_split hn] at hpointer
  rw [erase_append_right _ hnotP, erase_cons_head] at hkeys
  have hn' : (P ++ S).Nodup := hn.sublist ((sublist_cons_self v S).append_left P)
  rw [← hround.2]
  unfold hand start
  rw [hpointer, hkeys]
  rcases eq_nil_or_concat' P with rfl | ⟨P, p, rfl⟩
  · rcases eq_nil_or_concat' S with rfl | ⟨S, t, rfl⟩
    · rfl
    · rw [nil_append] at hn' ⊢
      simp only [getLast?_nil, Option.none_or, getLast?_concat]
      rw [round_of_split hn']
      simp
  · rw [append_assoc, singleton_append] at hn' ⊢
    simp only [getLast?_concat, Option.some_or]
    rw [round_of_split hn']
    simp

/-! ## The items -/

def item (pin : Pin) (q : Table ObjId (FifoObj Nat)) (x : ObjId) : Item :=
  if pin.is_pinned x then .pinned else if (q.lookup x).any (·.md = 0) then .unread else .read

def items (pin : Pin) (s : State) : List Item := (hand s).map (item pin s.fifo.q)

variable {pin : Pin} {s : State} {x : ObjId} {o : FifoObj Nat}

theorem item_of_lookup {q : Table ObjId (FifoObj Nat)} (h : q.lookup x = some o) :
    item pin q x = if pin.is_pinned x then .pinned else if o.md = 0 then .unread else .read := by
  unfold item
  simp [h]

theorem item_eq_pinned {q : Table ObjId (FifoObj Nat)} : item pin q x = .pinned ↔ pin.is_pinned x = true := by
  unfold item
  split_ifs with hpin hmd
  · simp [hpin]
  · simp [hpin]
  · simp [hpin]

theorem item_worn {q q' : Table ObjId (FifoObj Nat)} (ho : q.lookup x = some o)
    (hmd : o.md ≤ 1) (ho' : q'.lookup x = some (if pin.is_pinned x = false then worn o else o)) :
    item pin q' x = (item pin q x).wear := by
  rw [item_of_lookup ho, item_of_lookup ho']
  cases hpin : pin.is_pinned x with
  | true => rfl
  | false =>
    have hzero : (worn o).md = 0 := by
      unfold worn
      dsimp only
      omega
    simp only [Bool.false_eq_true, if_true]
    split_ifs <;> rfl

theorem unread_mem_items (h : Inv s) :
    .unread ∈ items pin s ↔ ∃ e ∈ s.fifo.q.entries, pin.is_pinned e.1 = false ∧ e.2.md = 0 := by
  unfold items
  rw [mem_map]
  constructor
  · rintro ⟨x, hx, hitem⟩
    obtain ⟨o, ho⟩ := Table.exists_lookup (mem_keys.2 ((hand_perm h).mem_iff.1 hx))
    rw [item_of_lookup ho] at hitem
    cases hpin : pin.is_pinned x with
    | true => simp [hpin] at hitem
    | false =>
      refine ⟨⟨x, o⟩, Table.mem_entries_of_lookup ho, hpin, ?_⟩
      by_contra hmd
      simp [hpin, hmd] at hitem
  · rintro ⟨⟨x, o⟩, he, hpin, hmd⟩
    dsimp only at hpin hmd
    have ho := Table.lookup_of_mem_entries he
    refine ⟨x, (hand_perm h).mem_iff.2 (mem_keys.1 (Table.mem_of_lookup ho)), ?_⟩
    rw [item_of_lookup ho]
    simp [hpin, hmd]

theorem affords_iff (h : Inv s) (hx : start s = some x) : Item.Affords (items pin s) ↔
    (∃ e ∈ s.fifo.q.entries, pin.is_pinned e.1 = false ∧ e.2.md = 0) ∨
    (s.fifo.q.keys.countP pin.is_pinned + ((round s.fifo.q.keys x).takeWhile pin.is_pinned).length : Int) ≤
      s.fifo.n_obj := by
  have hhand : hand s = round s.fifo.q.keys x := by
    unfold hand
    rw [hx]
  have hpinned : (fun y => decide (item pin s.fifo.q y = .pinned)) = pin.is_pinned := by
    funext y
    rw [Bool.eq_iff_iff, decide_eq_true_eq]
    exact item_eq_pinned
  have hcount : (items pin s).count .pinned = s.fifo.q.keys.countP pin.is_pinned := by
    unfold items
    rw [count_eq_countP, countP_map, ← (hand_perm h).countP_eq]
    apply countP_congr
    intro y _
    simpa using item_eq_pinned
  have htake : ((items pin s).takeWhile (· = .pinned)).length =
      ((round s.fifo.q.keys x).takeWhile pin.is_pinned).length := by
    unfold items
    rw [takeWhile_map, length_map, hhand, ← hpinned]
    rfl
  have hlen : ((items pin s).length : Int) = s.fifo.n_obj := by
    unfold items
    rw [length_map, (hand_perm h).length_eq, h.fifo.n_obj, AList.keys, List.keys, length_map]
  unfold Item.Affords
  rw [unread_mem_items h, hcount, htake]
  exact or_congr Iff.rfl (by omega)

section

variable {s' : State} {q : Table ObjId (FifoObj Nat)} {v : ObjId} {l r : List ObjId}

theorem items_after_unread (h : Inv s) (hhand : hand s = l ++ v :: r) (hpin : pin.is_pinned v = false)
    (hzero : (s.fifo.q.lookup v).any (·.md = 0) = true)
    (hpass : ∀ y ∈ l, ∃ o, s.fifo.q.lookup y = some o ∧ (pin.is_pinned y = true ∨ 0 < o.md))
    (hlook : ∀ y, q.lookup y = if y ∈ l ∧ pin.is_pinned y = false then (s.fifo.q.lookup y).map worn else s.fifo.q.lookup y)
    (hhand' : hand s' = r ++ l) (hq : s'.fifo.q = q.erase v) : items pin s' = Item.sweep (items pin s) := by
  have hnodup := hhand ▸ (hand_perm h).nodup_iff.2 s.fifo.q.keys_nodup
  have htaken : item pin s.fifo.q v = .unread := by
    unfold item
    rw [hpin, hzero]
    rfl
  have hread : Item.unread ∉ l.map (item pin s.fifo.q) := by
    intro hin
    obtain ⟨y, hy, hitem⟩ := mem_map.1 hin
    obtain ⟨o, ho, hgo⟩ := hpass y hy
    rw [item_of_lookup ho] at hitem
    rcases hgo with hp | hmd
    · simp [hp] at hitem
    · split_ifs at hitem
      omega
  have hleft : ∀ y ≠ v, s'.fifo.q.lookup y = q.lookup y := by
    intro y hy
    rw [hq]
    exact lookup_erase_ne hy
  have hbehind : ∀ y ∈ r, item pin s'.fifo.q y = item pin s.fifo.q y := by
    intro y hy
    have hne : y ≠ v := by
      rintro rfl
      exact (nodup_cons.1 (nodup_append.1 hnodup).2.1).1 hy
    have hyl : y ∉ l := fun hyl => (nodup_append.1 hnodup).2.2 y hyl y (by simp [hy]) rfl
    have hsame : s'.fifo.q.lookup y = s.fifo.q.lookup y := by rw [hleft y hne, hlook y, if_neg (by simp [hyl])]
    unfold item
    rw [hsame]
  have hpassed : ∀ y ∈ l, item pin s'.fifo.q y = (item pin s.fifo.q y).wear := by
    intro y hy
    have hne : y ≠ v := fun heq => (nodup_append.1 hnodup).2.2 y hy v (by simp) heq
    obtain ⟨o, ho, -⟩ := hpass y hy
    refine item_worn ho (h.freq y o ho) ?_
    rw [hleft y hne, hlook y, ho]
    simp only [hy, true_and]
    exact (apply_ite some _ _ _).symm
  unfold items
  rw [hhand, hhand', map_append, map_append, map_cons, htaken, Item.sweep_unread hread,
    map_congr_left hbehind, map_congr_left hpassed, map_map]
  rfl

theorem items_after_read (h : Inv s) (hhand : hand s = l ++ v :: r) (hpin : pin.is_pinned v = false)
    (hnone : Item.unread ∉ items pin s) (hl : ∀ y ∈ l, pin.is_pinned y = true)
    (hlook : ∀ y o, s.fifo.q.lookup y = some o → q.lookup y = some (if pin.is_pinned y = false then worn o else o))
    (hhand' : hand s' = r ++ l) (hq : s'.fifo.q = q.erase v) : items pin s' = Item.sweep (items pin s) := by
  have hnodup := hhand ▸ (hand_perm h).nodup_iff.2 s.fifo.q.keys_nodup
  unfold items at hnone ⊢
  rw [hhand, map_append, map_cons] at hnone
  have hmap : (l ++ v :: r).map (item pin s.fifo.q) =
      l.map (item pin s.fifo.q) ++ item pin s.fifo.q v :: r.map (item pin s.fifo.q) := by simp
  rw [hhand, hhand', hmap]
  have hpinned : ∀ a ∈ l.map (item pin s.fifo.q), a = .pinned := by
    intro a ha
    obtain ⟨y, hy, rfl⟩ := mem_map.1 ha
    exact item_eq_pinned.2 (hl y hy)
  have htaken : item pin s.fifo.q v = .read := by
    cases hitem : item pin s.fifo.q v with
    | pinned =>
      rw [item_eq_pinned, hpin] at hitem
      cases hitem
    | unread => exact absurd (by simp [hitem]) hnone
    | read => rfl
  have hworn : ∀ y ∈ r ++ l, item pin s'.fifo.q y = (item pin s.fifo.q y).wear := by
    intro y hy
    have hne : y ≠ v := by
      rintro rfl
      rw [perm_middle.nodup_iff, nodup_cons] at hnodup
      exact hnodup.1 (by simpa [or_comm] using hy)
    have hmem : y ∈ hand s := by
      rw [hhand]
      simp only [mem_append] at hy ⊢
      tauto
    obtain ⟨o, ho⟩ := Table.exists_lookup (mem_keys.2 ((hand_perm h).mem_iff.1 hmem))
    refine item_worn ho (h.freq y o ho) ?_
    rw [hq]
    exact (lookup_erase_ne hne).trans (hlook y o ho)
  rw [htaken, (Item.sweep_read hpinned (fun hin => hnone (by simp [hin]))).1, map_congr_left hworn,
    ← map_append, map_map]
  rfl

end

theorem Sieve_evict_sweeps (h : Inv s) (hfree : ∃ y ∈ s.fifo.q.keys, pin.is_pinned y = false)
    (hafford : Item.Affords (items pin s)) :
    ∃ s' v, Sieve_evict pin s = some s' ∧ Inv s' ∧ v ∈ s.fifo.q ∧ pin.is_pinned v = false ∧
      s'.fifo.q.keys = s.fifo.q.keys.erase v ∧ items pin s' = Item.sweep (items pin s) := by
  obtain ⟨x, hx⟩ : ∃ x, start s = some x := by
    obtain ⟨y, hy, -⟩ := hfree
    unfold start
    rw [getLast?_eq_some_getLast (ne_nil_of_mem hy)]
    cases s.pointer <;> simp
  have hhand : hand s = round s.fifo.q.keys x := by
    unfold hand
    rw [hx]
  have hxq := AList.mem_keys.1 (start_mem h hx)
  obtain ⟨s', v, hevict, hs', hv, -, hend⟩ := Sieve_evict_spec pin h hx
  refine ⟨s', v, hevict, hs', hv, ?_⟩
  by_cases hunread : ∃ e ∈ s.fifo.q.entries, pin.is_pinned e.1 = false ∧ e.2.md = 0
  · obtain ⟨k, w, l, r, hwalk, hstop, hpin, hround, hzero, hpass, hkeys, hlook⟩ := ends_at_unread h hx hunread
    obtain ⟨rfl, hpointer, hq⟩ := hend k w hwalk hstop
    have hhand' : hand s' = r ++ l :=
      hand_of_taken (AList.mem_keys.2 (hkeys ▸ hxq)) (by rw [hkeys]; exact hround) hpointer hq
    refine ⟨hpin, by rw [hq, keys_erase, hkeys], ?_⟩
    exact items_after_unread h (hhand.trans hround) hpin hzero hpass hlook hhand' hq
  · have hfits := ((affords_iff h hx).1 hafford).resolve_left hunread
    have hread : ∀ e ∈ s.fifo.q.entries, pin.is_pinned e.1 = false → e.2.md ≠ 0 :=
      fun e he hpin hmd => hunread ⟨e, he, hpin, hmd⟩
    obtain ⟨k, w, hwalk, hstop, hpin, htake⟩ := ends_in_second_round h hx hread hfree
    obtain ⟨rfl, hpointer, hq⟩ := hend k w hwalk hstop
    obtain ⟨l, r, hround, hl, hkeys, hlook⟩ := htake (hpin.2 hfits)
    have hhand' : hand s' = r ++ l :=
      hand_of_taken (AList.mem_keys.2 (hkeys ▸ hxq)) (by rw [hkeys]; exact hround) hpointer hq
    have hnone : Item.unread ∉ items pin s := fun hin => hunread ((unread_mem_items h).1 hin)
    refine ⟨hpin.2 hfits, by rw [hq, keys_erase, hkeys], ?_⟩
    exact items_after_read h (hhand.trans hround) (hpin.2 hfits) hnone hl hlook hhand' hq

end CacheSim.Sieve
