import CacheSim.Sieve.Model

/-!
# The hand of Sieve and the pins

The walk is over one round of the queue, from the hand on.
-/

namespace CacheSim.Sieve

open Lib List Option AList Table

/-! ## One round of the hand -/

variable {P S : List ObjId} {x : ObjId}

section

variable (h : (P ++ x :: S).Nodup)
include h

theorem prev_of_split : prev (P ++ x :: S) x = P.getLast? := by
  have hP : ∀ a ∈ P, decide (a ≠ x) = true := by
    intro a ha
    have := (nodup_append.1 h).2.2 a ha x (by simp)
    simpa using this
  unfold prev
  rw [takeWhile_append_of_pos hP, takeWhile_cons_of_neg (by simp), append_nil]

def next (queue : List ObjId) (x : ObjId) : Option ObjId := (prev queue x).or queue.getLast?

def round (queue : List ObjId) (x : ObjId) : List ObjId :=
  x :: ((queue.takeWhile (· ≠ x)).reverse ++ (queue.dropWhile (· ≠ x)).tail.reverse)

theorem round_of_split : round (P ++ x :: S) x = x :: (P.reverse ++ S.reverse) := by
  have hP : ∀ a ∈ P, decide (a ≠ x) = true := by
    intro a ha
    have := (nodup_append.1 h).2.2 a ha x (by simp)
    simpa using this
  unfold round
  rw [takeWhile_append_of_pos hP, dropWhile_append_of_pos hP, takeWhile_cons_of_neg (by simp),
    dropWhile_cons_of_neg (by simp), append_nil, tail_cons]

theorem chain_to_head : (x :: P.reverse).IsChain (fun a b => next (P ++ x :: S) a = some b) := by
  induction P using List.reverseRecOn generalizing x S with
  | nil => simp
  | append_singleton P a ih =>
    rw [append_assoc, singleton_append] at h ⊢
    rw [reverse_concat, isChain_cons_cons]
    refine ⟨?_, ih h⟩
    have hsplit : P ++ a :: x :: S = (P ++ [a]) ++ x :: S := by simp
    unfold next
    rw [hsplit] at h ⊢
    rw [prev_of_split h]
    simp

end

variable {queue : List ObjId}

theorem chain_round (hn : queue.Nodup) (hx : x ∈ queue) :
    (round queue x ++ [x]).IsChain (fun a b => next queue a = some b) := by
  obtain ⟨P, S, rfl⟩ := append_of_mem hx
  rw [round_of_split hn]
  have hsplit : x :: (P.reverse ++ S.reverse) ++ [x] = (x :: P.reverse) ++ (S.reverse ++ [x]) := by simp
  rw [hsplit, isChain_append]
  refine ⟨chain_to_head hn, ?_, ?_⟩
  · -- from the tail on it is the way from the tail to the head, up to `x`
    rcases eq_nil_or_concat' S with rfl | ⟨S, t, rfl⟩
    · simp
    · have hq : P ++ x :: (S ++ [t]) = (P ++ x :: S) ++ t :: [] := by simp
      rw [hq] at hn ⊢
      have hall := chain_to_head hn
      rw [reverse_append, reverse_cons, append_assoc, ← cons_append, ← append_assoc] at hall
      rw [reverse_concat, cons_append]
      exact hall.left_of_append
  · -- the head has nothing before it
    intro a ha b hb
    have hhead : next (P ++ x :: S) a = (P ++ x :: S).getLast? := by
      obtain ⟨l, hl⟩ : ∃ l, P ++ x :: S = [] ++ a :: l := by
        cases P with
        | nil => exact ⟨S, by simp at ha; simp [ha]⟩
        | cons p P =>
          rw [reverse_cons, ← cons_append, getLast?_concat, mem_some_iff] at ha
          exact ⟨P ++ x :: S, by simp [ha]⟩
      unfold next
      rw [hl] at hn ⊢
      rw [prev_of_split hn]
      rfl
    rw [hhead]
    rcases eq_nil_or_concat' S with rfl | ⟨S, t, rfl⟩
    · simp at hb
      simp [hb]
    · have hlast : P ++ x :: (S ++ [t]) = (P ++ x :: S) ++ [t] := by simp
      simp at hb
      rw [hlast, getLast?_concat, hb]

theorem perm_round (hn : queue.Nodup) (hx : x ∈ queue) : (round queue x).Perm queue := by
  obtain ⟨P, S, rfl⟩ := append_of_mem hx
  rw [round_of_split hn]
  calc x :: (P.reverse ++ S.reverse) |>.Perm (x :: (P ++ S)) :=
        ((reverse_perm P).append (reverse_perm S)).cons x
    _ |>.Perm (P ++ x :: S) := perm_middle.symm

variable (pin : Pin)

abbrev Walks : Nat → Hand → Hand → Prop := Rounds (fun w : Hand => !w.stop) (evict_step pin)

def worn (o : FifoObj Nat) : FifoObj Nat := { o with md := o.md - 1 }

variable {q : Table ObjId (FifoObj Nat)} {budget : Int} {x v : ObjId} {o : FifoObj Nat} {y : ObjId}

theorem pass {l : List ObjId} (hl : l.Nodup)
    (hchain : (l ++ [y]).IsChain (fun a b => next q.keys a = some b))
    (hpass : ∀ x ∈ l, ∃ o, q.lookup x = some o ∧ (pin.is_pinned x = true ∨ 0 < o.md))
    (hbudget : (l.countP pin.is_pinned : Int) < budget) :
    ∃ q', Walks pin l.length { q := q, obj := l.headD y, budget := budget }
        { q := q', obj := y, budget := budget - l.countP pin.is_pinned } ∧
      q'.keys = q.keys ∧
      ∀ x, q'.lookup x = if x ∈ l ∧ pin.is_pinned x = false then (q.lookup x).map worn else q.lookup x := by
  induction l generalizing q budget with
  | nil => exact ⟨q, by simpa using Rounds.refl _, rfl, by simp⟩
  | cons a l ih =>
    obtain ⟨o, ho, hread⟩ := hpass a (by simp)
    have hnext : next q.keys a = some (l.headD y) := by
      cases l with
      | nil => simpa using hchain
      | cons b l => exact (isChain_cons_cons.1 hchain).1
    have hchain' : (l ++ [y]).IsChain (fun a b => next q.keys a = some b) := hchain.tail
    obtain ⟨hal, hl⟩ := nodup_cons.1 hl
    cases hpin : pin.is_pinned a with
    | true =>
      rw [countP_cons_of_pos hpin] at hbudget
      have hstep : evict_step pin { q := q, obj := a, budget := budget } =
          some { q := q, obj := l.headD y, budget := budget - 1 } := by
        unfold next at hnext
        simp only [evict_step, ho, hpin, if_true]
        rw [if_neg (by push_cast at hbudget; omega)]
        simp [Hand.move, hnext]
      obtain ⟨q', hwalk, hkeys, hlook⟩ := ih hl hchain' (fun x hx => hpass x (by simp [hx]))
        (by push_cast at hbudget; omega : (l.countP pin.is_pinned : Int) < budget - 1)
      refine ⟨q', ?_, hkeys, ?_⟩
      · rw [countP_cons_of_pos hpin, length_cons,
          show budget - ((l.countP pin.is_pinned + 1 : Nat) : Int) = budget - 1 - l.countP pin.is_pinned by omega]
        exact .head rfl hstep hwalk
      · intro x
        rw [hlook x]
        rcases eq_or_ne x a with rfl | hx
        · simp [hpin]
        · simp [hx]
    | false =>
      have hmd : 0 < o.md := by simpa [hpin] using hread
      rw [countP_cons_of_neg (by simp [hpin])] at hbudget
      set q1 := q.replace a (worn o)
      have hkeys1 : q1.keys = q.keys := keys_replace _ _ _
      have hlook1 : ∀ x ≠ a, q1.lookup x = q.lookup x := fun x hx => lookup_replace_ne ho _ hx
      have hstep : evict_step pin { q := q, obj := a, budget := budget } =
          some { q := q1, obj := l.headD y, budget := budget } := by
        unfold next at hnext
        simp only [evict_step, ho, hpin, bind_eq_bind, bind_some, Bool.false_eq_true]
        rw [if_pos hmd]
        simp only [Hand.move]
        rw [show (q.replace a { o with md := o.md - 1 }).keys = q.keys from hkeys1, hnext]
        rfl
      have hpass1 : ∀ x ∈ l, ∃ o, q1.lookup x = some o ∧ (pin.is_pinned x = true ∨ 0 < o.md) := by
        intro x hx
        rw [hlook1 x (fun heq => hal (heq ▸ hx))]
        exact hpass x (by simp [hx])
      obtain ⟨q', hwalk, hkeys, hlook⟩ := ih hl (hkeys1 ▸ hchain') hpass1 hbudget
      refine ⟨q', ?_, hkeys.trans hkeys1, ?_⟩
      · rw [countP_cons_of_neg (by simp [hpin]), length_cons]
        exact .head rfl hstep hwalk
      · intro x
        rw [hlook x]
        rcases eq_or_ne x a with rfl | hx
        · simp [hal, hpin, ho, q1, lookup_replace ho]
        · simp [hx, hlook1 x hx]

/-! ## The walk ends -/

theorem next_mem (hx : x ∈ queue) : ∃ y, next queue x = some y ∧ y ∈ queue := by
  unfold next
  rcases hprev : prev queue x with _ | y
  · have hne := ne_nil_of_mem hx
    exact ⟨queue.getLast hne, by simp [getLast?_eq_some_getLast hne], getLast_mem hne⟩
  · exact ⟨y, rfl, (takeWhile_sublist _).mem (mem_of_getLast? hprev)⟩

/-- The table of the walk: the objects of the queue in their order, less read. -/
structure Worn (c : Fifo Nat) (q : Table ObjId (FifoObj Nat)) : Prop where
  fifo : Fifo.Inv { c with q := q }
  keys : q.keys = c.q.keys
  reads : ∀ x o, q.lookup x = some o → ∃ o', c.q.lookup x = some o' ∧ o.md ≤ o'.md

def left (w : Hand) : Nat :=
  w.budget.toNat + (w.q.entries.map fun e => e.2.md).sum + if w.stop then 0 else 1

theorem sum_md_replace (h : q.lookup x = some o)
    (hmd : 0 < o.md) :
    ((q.replace x (worn o)).entries.map fun e => e.2.md).sum + 1 = (q.entries.map fun e => e.2.md).sum := by
  obtain ⟨l1, l2, hq, -, hrep⟩ := split_at h
  rw [hq, hrep]
  simp only [map_append, map_cons, sum_append, sum_cons, worn]
  omega

variable {c : Fifo Nat}

theorem evict_step_spec {w : Hand} (hq : Worn c w.q) (hobj : w.obj ∈ w.q) (hstop : w.stop = false)
    (hbudget : 1 ≤ w.budget) :
    ∃ w', evict_step pin w = some w' ∧ Worn c w'.q ∧ w'.obj ∈ w'.q ∧ (w'.stop = false → 1 ≤ w'.budget) ∧ left w' < left w := by
  obtain ⟨o, ho⟩ := exists_lookup hobj
  obtain ⟨y, hy, hmem⟩ := next_mem (mem_keys.1 hobj)
  unfold next at hy
  unfold evict_step
  simp only [ho, bind_eq_bind, bind_some]
  split_ifs with hpin hspent hread
  · refine ⟨_, rfl, hq, hobj, by simp, ?_⟩
    simp only [left, if_true]
    omega
  · refine ⟨{ w with budget := w.budget - 1, obj := y }, by simp [Hand.move, hy], hq, mem_keys.2 hmem,
      fun _ => by dsimp only at hspent ⊢; omega, ?_⟩
    simp only [left]
    omega
  · have hkeys : (w.q.replace w.obj (worn o)).keys = w.q.keys := keys_replace _ _ _
    have hmove : Hand.move { w with q := w.q.replace w.obj { o with md := o.md - 1 } } =
        some { w with q := w.q.replace w.obj (worn o), obj := y } := by
      simp only [Hand.move]
      rw [show (w.q.replace w.obj { o with md := o.md - 1 }).keys = w.q.keys from hkeys, hy]
      rfl
    refine ⟨_, hmove, ⟨?_, hkeys.trans hq.keys, ?_⟩, ?_, fun _ => hbudget, ?_⟩
    · exact hq.fifo.set_md ho (o.md - 1)
    · intro x o' ho'
      rcases eq_or_ne x w.obj with rfl | hx
      · obtain ⟨o0, ho0, hle⟩ := hq.reads _ o ho
        obtain rfl : worn o = o' := some.inj ((lookup_replace ho _).symm.trans ho')
        exact ⟨o0, ho0, le_trans (Nat.sub_le _ _) hle⟩
      · exact hq.reads x o' ((lookup_replace_ne ho _ hx).symm.trans ho')
    · exact mem_keys.2 (hkeys ▸ hmem)
    · have hsum := sum_md_replace ho hread
      simp only [left]
      omega
  · refine ⟨_, rfl, hq, hobj, by simp, ?_⟩
    simp only [left, hstop, if_true, Bool.false_eq_true, if_false]
    omega

theorem walk_spec {w : Hand} (hq : Worn c w.q) (hobj : w.obj ∈ w.q) (hstop : w.stop = false)
    (hbudget : 1 ≤ w.budget) :
    ∃ w', walk pin w = some w' ∧ Worn c w'.q ∧ w'.obj ∈ w'.q ∧
      ∀ k v, Walks pin k w v → v.stop = true → w' = v := by
  let I : Hand → Prop := fun w => Worn c w.q ∧ w.obj ∈ w.q ∧ (w.stop = false → 1 ≤ w.budget)
  have hbody : ∀ w, I w → (!w.stop) = true → ∃ w', evict_step pin w = some w' ∧ I w' ∧ left w' < left w := by
    rintro w ⟨hq, hobj, hbudget⟩ hcond
    have hstop : w.stop = false := by simpa using hcond
    obtain ⟨w', hstep, hq', hobj', hbudget', hless⟩ := evict_step_spec pin hq hobj hstop (hbudget hstop)
    exact ⟨w', hstep, ⟨hq', hobj', hbudget'⟩, hless⟩
  obtain ⟨w', hwalk, ⟨hq', hobj', -⟩, -⟩ := whileLoop_total I left hbody _ w ⟨hq, hobj, fun _ => hbudget⟩
    (by simp [left, hstop] : left w ≤ w.budget.toNat + (w.q.entries.map fun e => e.2.md).sum + 1)
  exact ⟨w', hwalk, hq', hobj', fun k v hv hend => hv.result (by simp [hend]) hwalk⟩

/-! ## The states -/

structure Inv (s : State) : Prop where
  fifo : s.fifo.Inv
  pointer : ∀ x, s.pointer = some x → x ∈ s.fifo.q
  freq : ∀ x o, s.fifo.q.lookup x = some o → o.md ≤ 1

def start (s : State) : Option ObjId := s.pointer.or s.fifo.q.keys.getLast?

theorem start_mem {s : State} (h : Inv s) (hx : start s = some x) : x ∈ s.fifo.q := by
  unfold start at hx
  rcases hp : s.pointer with _ | y
  · rw [hp, none_or] at hx
    exact mem_keys.2 (mem_of_getLast? hx)
  · rw [hp, some_or] at hx
    exact h.pointer x (hp.trans hx)

theorem prev_mem (h : prev queue x = some y) : y ∈ queue ∧ y ≠ x := by
  have hmem := mem_of_getLast? h
  exact ⟨(takeWhile_sublist _).mem hmem, by simpa using mem_takeWhile_imp hmem⟩

theorem Sieve_evict_spec {s : State} (h : Inv s) (hx : start s = some x) :
    ∃ s' v, Sieve_evict pin s = some s' ∧ Inv s' ∧ v ∈ s.fifo.q ∧ (∀ y, y ∈ s'.fifo.q ↔ y ≠ v ∧ y ∈ s.fifo.q) ∧
      ∀ k w, Walks pin k { q := s.fifo.q, obj := x, budget := s.fifo.n_obj + 1 } w → w.stop = true →
        v = w.obj ∧ s'.pointer = prev w.q.keys v ∧ s'.fifo.q = w.q.erase v := by
  have hworn : Worn s.fifo s.fifo.q := ⟨h.fifo, rfl, fun x o ho => ⟨o, ho, le_rfl⟩⟩
  have hn : 0 ≤ s.fifo.n_obj := by rw [h.fifo.n_obj]; omega
  obtain ⟨w, hwalk, hq, hobj, huniq⟩ := walk_spec pin (w := { q := s.fifo.q, obj := x, budget := s.fifo.n_obj + 1 }) hworn
    (start_mem h hx) rfl (by dsimp only; omega)
  obtain ⟨o, ho⟩ := exists_lookup hobj
  have hsame : ∀ y, y ∈ w.q ↔ y ∈ s.fifo.q := fun y => by rw [AList.mem_keys, hq.keys, AList.mem_keys]
  refine ⟨{ pointer := prev w.q.keys w.obj, fifo := { s.fifo with q := w.q }.cache_remove_obj_base w.obj o }, w.obj,
    ?_, ⟨?_, ?_, ?_⟩, (hsame _).1 hobj, ?_, ?_⟩
  · unfold start at hx
    unfold Sieve_evict
    simp [hx, hwalk, ho]
  · exact hq.fifo.remove ho
  · intro y hy
    obtain ⟨hmem, hne⟩ := prev_mem hy
    exact mem_erase.2 ⟨hne, AList.mem_keys.2 hmem⟩
  · intro y o' ho'
    rcases eq_or_ne y w.obj with rfl | hne
    · exact absurd ((lookup_erase _ w.q).symm.trans ho') (by simp)
    · obtain ⟨o0, ho0, hle⟩ := hq.reads y o' ((lookup_erase_ne hne).symm.trans ho')
      exact hle.trans (h.freq y o0 ho0)
  · intro y
    exact mem_erase.trans (and_congr_right fun _ => hsame y)
  · intro k w' hw hend
    rw [huniq k w' hw hend]
    exact ⟨rfl, rfl, rfl⟩

/-! ## Where the hand stops -/

theorem walk_to {l r : List ObjId} (hx : x ∈ q)
    (hround : round q.keys x = l ++ v :: r)
    (hpass : ∀ y ∈ l, ∃ o, q.lookup y = some o ∧ (pin.is_pinned y = true ∨ 0 < o.md))
    (hbudget : (l.countP pin.is_pinned : Int) < budget) :
    ∃ q', Walks pin l.length { q := q, obj := x, budget := budget }
        { q := q', obj := v, budget := budget - l.countP pin.is_pinned } ∧ q'.keys = q.keys ∧
      ∀ y, q'.lookup y = if y ∈ l ∧ pin.is_pinned y = false then (q.lookup y).map worn else q.lookup y := by
  have hkeys : q.keys.Nodup := q.keys_nodup
  have hnodup : (l ++ v :: r).Nodup := hround ▸ (perm_round hkeys (AList.mem_keys.1 hx)).nodup_iff.2 hkeys
  have hchain : (l ++ [v]).IsChain fun a b => next q.keys a = some b := by
    have hall := (chain_round hkeys (AList.mem_keys.1 hx)).left_of_append
    rw [hround, append_cons] at hall
    exact hall.left_of_append
  have hhead : l.headD v = x := by
    have hfirst := congrArg (fun t : List ObjId => t.headD v) hround
    cases l with
    | nil => simpa [round] using hfirst.symm
    | cons a l => simpa [round] using hfirst.symm
  have hpass' := pass pin (nodup_append.1 hnodup).1 hchain hpass hbudget
  rwa [hhead] at hpass'

theorem walk_round (hx : x ∈ q)
    (hpass : ∀ y ∈ q, ∃ o, q.lookup y = some o ∧ (pin.is_pinned y = true ∨ 0 < o.md))
    (hbudget : (q.keys.countP pin.is_pinned : Int) < budget) :
    ∃ k q', Walks pin k { q := q, obj := x, budget := budget }
        { q := q', obj := x, budget := budget - q.keys.countP pin.is_pinned } ∧ q'.keys = q.keys ∧
      ∀ y o, q.lookup y = some o → q'.lookup y = some (if pin.is_pinned y = false then worn o else o) := by
  have hperm := perm_round q.keys_nodup (AList.mem_keys.1 hx)
  have hcount : (round q.keys x).countP pin.is_pinned = q.keys.countP pin.is_pinned := hperm.countP_eq _
  obtain ⟨q', hwalk, hkeys, hlook⟩ := pass pin (hperm.nodup_iff.2 q.keys_nodup)
    (chain_round q.keys_nodup (AList.mem_keys.1 hx)) (fun y hy => hpass y (AList.mem_keys.2 (hperm.mem_iff.1 hy)))
    (hcount ▸ hbudget)
  rw [hcount] at hwalk
  refine ⟨_, q', hwalk, hkeys, ?_⟩
  intro y o ho
  have hmem : y ∈ round q.keys x := hperm.mem_iff.2 (AList.mem_keys.1 (mem_of_lookup ho))
  rw [hlook y, ho]
  split_ifs with hfree hpin hpin
  · rfl
  · exact absurd hfree.2 hpin
  · exact absurd ⟨hmem, hpin⟩ hfree
  · rfl

theorem stop_at_free
    (ho : q.lookup v = some o) (hpin : pin.is_pinned v = false) (hmd : o.md = 0) :
    Walks pin 1 { q := q, obj := v, budget := budget } { q := q, obj := v, budget := budget, stop := true } := by
  refine .head rfl ?_ (.refl _)
  simp [evict_step, ho, hpin, hmd]

theorem stop_at_pinned (ho : q.lookup v = some o)
    (hpin : pin.is_pinned v = true) :
    Walks pin 1 { q := q, obj := v, budget := 1 } { q := q, obj := v, budget := 0, stop := true } := by
  refine .head rfl ?_ (.refl _)
  simp [evict_step, ho, hpin]

/-- When the hand ends at an object that is not pinned, if there is one: it meets one that was not
read in its first round, or it meets in both rounds together no more pinned objects than there are
objects. -/
def Spares (s : State) : Prop :=
  (∀ x ∈ s.fifo.q.keys, pin.is_pinned x = true) ∨
  (∃ e ∈ s.fifo.q.entries, pin.is_pinned e.1 = false ∧ e.2.md = 0) ∨
  ∃ x ∈ start s, (s.fifo.q.keys.countP pin.is_pinned + ((round s.fifo.q.keys x).takeWhile pin.is_pinned).length : Int) ≤
    s.fifo.n_obj

variable {pin} {s : State}

theorem ends_at_unread (h : Inv s) {x : ObjId} (hx : start s = some x)
    (hfree : ∃ e ∈ s.fifo.q.entries, pin.is_pinned e.1 = false ∧ e.2.md = 0) :
    ∃ k w l r, Walks pin k { q := s.fifo.q, obj := x, budget := s.fifo.n_obj + 1 } w ∧ w.stop = true ∧
      pin.is_pinned w.obj = false ∧ round s.fifo.q.keys x = l ++ w.obj :: r ∧ (s.fifo.q.lookup w.obj).any (·.md = 0) = true ∧
      (∀ y ∈ l, ∃ o, s.fifo.q.lookup y = some o ∧ (pin.is_pinned y = true ∨ 0 < o.md)) ∧ w.q.keys = s.fifo.q.keys ∧
      ∀ y, w.q.lookup y = if y ∈ l ∧ pin.is_pinned y = false then (s.fifo.q.lookup y).map worn else s.fifo.q.lookup y := by
  have hxq := start_mem h hx
  have hperm := perm_round s.fifo.q.keys_nodup (AList.mem_keys.1 hxq)
  let stops : ObjId → Bool := fun y => (s.fifo.q.lookup y).any fun o => !pin.is_pinned y && o.md == 0
  have hsome : ((round s.fifo.q.keys x).find? stops).isSome = true := by
    obtain ⟨e, he, hpin, hmd⟩ := hfree
    have hlook := lookup_of_mem_entries he
    rw [find?_isSome]
    exact ⟨e.1, hperm.mem_iff.2 (AList.mem_keys.1 (mem_of_lookup hlook)), by simp [stops, hlook, hpin, hmd]⟩
  obtain ⟨v, hv⟩ := isSome_iff_exists.1 hsome
  obtain ⟨hstop, l, r, hround, hbefore⟩ := find?_eq_some_iff_append.1 hv
  obtain ⟨o, ho, hvfree⟩ := (any_eq_true _ _).1 hstop
  have hpass : ∀ y ∈ l, ∃ o, s.fifo.q.lookup y = some o ∧ (pin.is_pinned y = true ∨ 0 < o.md) := by
    intro y hy
    have hmem : y ∈ s.fifo.q := AList.mem_keys.2 (hperm.mem_iff.1 (by simp [hround, hy]))
    obtain ⟨o, ho⟩ := exists_lookup hmem
    have hgo := hbefore y hy
    simp only [stops, ho] at hgo
    refine ⟨o, ho, ?_⟩
    by_contra hno
    simp only [not_or, Nat.not_lt, Nat.le_zero] at hno
    simp [hno] at hgo
  have hlen : l.length < s.fifo.q.entries.length := by
    have := hperm.length_eq
    rw [hround, length_append, length_cons, AList.keys, List.keys, length_map] at this
    omega
  have hbudget : (l.countP pin.is_pinned : Int) < s.fifo.n_obj + 1 := by
    have hcount : l.countP pin.is_pinned ≤ l.length := countP_le_length
    rw [h.fifo.n_obj]
    omega
  obtain ⟨q', hwalk, hkeys, hlook⟩ := walk_to pin hxq hround hpass hbudget
  simp only [Bool.and_eq_true, Bool.not_eq_eq_eq_not, Bool.not_true, beq_iff_eq] at hvfree
  have hv' : q'.lookup v = some o := by
    have hvl : v ∉ l := by
      have hn := hround ▸ hperm.nodup_iff.2 s.fifo.q.keys_nodup
      exact fun hmem => (nodup_append.1 hn).2.2 v hmem v (by simp) rfl
    rw [hlook v, if_neg (by simp [hvl]), ho]
  exact ⟨_, _, l, r, hwalk.trans (stop_at_free pin hv' hvfree.1 hvfree.2), rfl, hvfree.1, hround, by simp [ho, hvfree.2],
    hpass, hkeys, hlook⟩

/-- If all that are not pinned were read, the first round passes every object. The second goes over
the pinned ones that come first in it, as long as the budget lasts. -/
theorem ends_in_second_round (h : Inv s) {x : ObjId} (hx : start s = some x)
    (hread : ∀ e ∈ s.fifo.q.entries, pin.is_pinned e.1 = false → e.2.md ≠ 0)
    (hfree : ∃ y ∈ s.fifo.q.keys, pin.is_pinned y = false) :
    ∃ k w, Walks pin k { q := s.fifo.q, obj := x, budget := s.fifo.n_obj + 1 } w ∧ w.stop = true ∧
      (pin.is_pinned w.obj = false ↔ (s.fifo.q.keys.countP pin.is_pinned +
        ((round s.fifo.q.keys x).takeWhile pin.is_pinned).length : Int) ≤ s.fifo.n_obj) ∧
      (pin.is_pinned w.obj = false → ∃ l r, round s.fifo.q.keys x = l ++ w.obj :: r ∧ (∀ y ∈ l, pin.is_pinned y = true) ∧
        w.q.keys = s.fifo.q.keys ∧ ∀ y o, s.fifo.q.lookup y = some o →
          w.q.lookup y = some (if pin.is_pinned y = false then worn o else o)) := by
  have hxq := start_mem h hx
  have hperm := perm_round s.fifo.q.keys_nodup (AList.mem_keys.1 hxq)
  have hpass : ∀ y ∈ s.fifo.q, ∃ o, s.fifo.q.lookup y = some o ∧ (pin.is_pinned y = true ∨ 0 < o.md) := by
    intro y hy
    obtain ⟨o, ho⟩ := exists_lookup hy
    refine ⟨o, ho, ?_⟩
    cases hpin : pin.is_pinned y with
    | true => exact .inl rfl
    | false => exact .inr (Nat.pos_of_ne_zero (hread _ (mem_entries_of_lookup ho) hpin))
  have hle : s.fifo.q.keys.countP pin.is_pinned ≤ s.fifo.q.keys.length := countP_le_length
  have hlen : (s.fifo.q.keys.length : Int) = s.fifo.n_obj := by
    rw [h.fifo.n_obj, AList.keys, List.keys, length_map]
  set p := s.fifo.q.keys.countP pin.is_pinned
  obtain ⟨k, q1, hfirst, hkeys, hlook⟩ := walk_round pin hxq hpass
    (by omega : (p : Int) < s.fifo.n_obj + 1)
  have hxq1 : x ∈ q1 := AList.mem_keys.2 (hkeys ▸ AList.mem_keys.1 hxq)
  set l := (round s.fifo.q.keys x).takeWhile pin.is_pinned
  have hpinned : ∀ y ∈ l, pin.is_pinned y = true := fun y hy => mem_takeWhile_imp hy
  have hpass1 : ∀ y ∈ l, ∃ o, q1.lookup y = some o ∧ (pin.is_pinned y = true ∨ 0 < o.md) := by
    intro y hy
    have hmem : y ∈ s.fifo.q := AList.mem_keys.2 (hperm.mem_iff.1 ((takeWhile_sublist _).mem hy))
    obtain ⟨o, ho⟩ := exists_lookup hmem
    exact ⟨_, hlook y o ho, .inl (hpinned y hy)⟩
  by_cases hfits : (p + l.length : Int) ≤ s.fifo.n_obj
  · -- the first object after the pinned ones was read once, and the first round has taken that read
    obtain ⟨v, r, hdrop⟩ : ∃ v r, (round s.fifo.q.keys x).dropWhile pin.is_pinned = v :: r := by
      apply exists_cons_of_ne_nil
      intro hnil
      obtain ⟨y, hy, hpin⟩ := hfree
      have := dropWhile_eq_nil_iff.1 hnil y (hperm.mem_iff.2 hy)
      rw [hpin] at this
      exact absurd this (by simp)
    have hround : round q1.keys x = l ++ v :: r := by
      rw [hkeys, ← hdrop]
      exact takeWhile_append_dropWhile.symm
    have hcount : l.countP pin.is_pinned = l.length := countP_eq_length.2 hpinned
    obtain ⟨q2, hsecond, hkeys2, hlook2⟩ := walk_to pin hxq1 hround hpass1
      (by omega : (l.countP pin.is_pinned : Int) < s.fifo.n_obj + 1 - p)
    have hv : pin.is_pinned v = false := by
      have := head_dropWhile_not pin.is_pinned (l := round s.fifo.q.keys x) (by simp [hdrop])
      simpa [hdrop] using this
    have hmem : v ∈ s.fifo.q := AList.mem_keys.2 (hperm.mem_iff.1 (by rw [← hkeys, hround]; simp))
    obtain ⟨o, ho⟩ := exists_lookup hmem
    have hvl : v ∉ l := fun hvl => absurd (hpinned v hvl) (by simp [hv])
    have hv2 : q2.lookup v = some (worn o) := by
      rw [hlook2 v, if_neg (by simp [hvl]), hlook v o ho, if_pos hv]
    have hmd : (worn o).md = 0 := by
      have := h.freq v o ho
      unfold worn
      dsimp only
      omega
    refine ⟨_, _, (hfirst.trans hsecond).trans (stop_at_free pin hv2 hv hmd), rfl, by simp [hv, hfits], fun _ => ?_⟩
    refine ⟨l, r, hkeys ▸ hround, hpinned, hkeys2.trans hkeys, fun y o hy => ?_⟩
    rw [hlook2 y, if_neg (by rintro ⟨hyl, hfree⟩; simp [hpinned y hyl] at hfree), hlook y o hy]
  · -- the budget ends at one of the pinned objects that come first
    obtain ⟨j, hj⟩ : ∃ j : Nat, (j : Int) = s.fifo.n_obj - p := ⟨(s.fifo.n_obj - p).toNat, by omega⟩
    have hjl : j < l.length := by omega
    have hround : round q1.keys x = l.take j ++ l[j] :: (l.drop (j + 1) ++ (round s.fifo.q.keys x).dropWhile pin.is_pinned) := by
      rw [hkeys, ← cons_append, ← append_assoc, ← drop_eq_getElem_cons hjl, take_append_drop]
      exact takeWhile_append_dropWhile.symm
    have hcount : (l.take j).countP pin.is_pinned = j := by
      rw [countP_eq_length.2 fun y hy => hpinned y (mem_of_mem_take hy), length_take]
      omega
    obtain ⟨q2, hsecond, -, hlook2⟩ := walk_to pin hxq1 hround
      (fun y hy => hpass1 y (mem_of_mem_take hy))
      (by omega : ((l.take j).countP pin.is_pinned : Int) < s.fifo.n_obj + 1 - p)
    have hvl : l[j] ∈ l := getElem_mem hjl
    have hv := hpinned _ hvl
    obtain ⟨o, ho, -⟩ := hpass1 _ hvl
    have hv2 : q2.lookup l[j] = some o := by rw [hlook2, if_neg (by simp [hv]), ho]
    rw [hcount, show s.fifo.n_obj + 1 - p - (j : Int) = 1 by omega] at hsecond
    exact ⟨_, _, (hfirst.trans hsecond).trans (stop_at_pinned pin hv2 hv), rfl, by simp [hv, hfits], by simp [hv]⟩

theorem Sieve_evict_honours_iff (h : Inv s) (hne : s.fifo.q.keys ≠ []) :
    pin.Honours (fun s x => x ∈ s.fifo.q) (Sieve_evict pin) s ↔ Spares pin s := by
  obtain ⟨x, hx⟩ : ∃ x, start s = some x := by
    unfold start
    rw [getLast?_eq_some_getLast hne]
    cases s.pointer <;> simp
  obtain ⟨s', v, hevict, -, hv, hleft, hend⟩ := Sieve_evict_spec pin h hx
  have hvictim : pin.Honours (fun s x => x ∈ s.fifo.q) (Sieve_evict pin) s ↔
      ((∃ y ∈ s.fifo.q.keys, pin.is_pinned y = false) → pin.is_pinned v = false) := Pin.Honours.iff_victim hevict hv hleft
  rw [hvictim]
  by_cases hall : ∃ y ∈ s.fifo.q.keys, pin.is_pinned y = false
  · have hnot : ¬ ∀ y ∈ s.fifo.q.keys, pin.is_pinned y = true := by
      intro hpin
      obtain ⟨y, hy, hfree⟩ := hall
      simp [hpin y hy] at hfree
    by_cases hunread : ∃ e ∈ s.fifo.q.entries, pin.is_pinned e.1 = false ∧ e.2.md = 0
    · obtain ⟨k, w, l, r, hwalk, hstop, hpin, -⟩ := ends_at_unread h hx hunread
      rw [(hend k w hwalk hstop).1]
      exact ⟨fun _ => .inr (.inl hunread), fun _ _ => hpin⟩
    · have hread : ∀ e ∈ s.fifo.q.entries, pin.is_pinned e.1 = false → e.2.md ≠ 0 :=
        fun e he hpin hmd => hunread ⟨e, he, hpin, hmd⟩
      obtain ⟨k, w, hwalk, hstop, hpin, -⟩ := ends_in_second_round h hx hread hall
      rw [(hend k w hwalk hstop).1]
      unfold Spares
      simp only [hall, hnot, hunread, hx, forall_const, false_or, mem_def, some.injEq, exists_eq_left']
      exact hpin
  · have hpinned : ∀ y ∈ s.fifo.q.keys, pin.is_pinned y = true := by
      intro y hy
      by_contra hfree
      exact hall ⟨y, hy, by simpa using hfree⟩
    exact ⟨fun _ => .inl hpinned, fun _ hfree => absurd hfree hall⟩

/-! ## Every state that is reached -/

theorem init_inv (cache_size : Int) (md : Bool) : Inv (Sieve_init cache_size md) where
  fifo := Fifo.init_inv _ _
  pointer := by simp [Sieve_init]
  freq := by simp [Sieve_init]

variable {req : Request}

theorem Inv.find (h : Inv s) {obj : FifoObj Nat} (ho : s.fifo.q.lookup req.obj_id = some obj) :
    Inv { s with fifo := s.fifo.set_md req.obj_id obj 1 } where
  fifo := h.fifo.set_md ho 1
  pointer := by
    intro x hx
    obtain ⟨o, hlook⟩ := exists_lookup (h.pointer x hx)
    rw [← lookup_isSome, Fifo.lookup_set_md ho]
    split_ifs <;> simp [hlook]
  freq := by
    intro x o hx
    rw [Fifo.lookup_set_md ho] at hx
    split_ifs at hx
    · exact (congrArg FifoObj.md (some.inj hx)).symm.le
    · exact h.freq x o hx

theorem Inv.insert (h : Inv s) (hmiss : req.obj_id ∉ s.fifo.q) : Inv (Sieve_insert s req) where
  fifo := h.fifo.insert 0 hmiss
  pointer := fun x hx => (mem_insert _).2 (.inr (h.pointer x hx))
  freq := by
    intro x o hx
    rw [Sieve_insert, Fifo.lookup_FIFO_insert] at hx
    split_ifs at hx
    · cases hx
      exact Nat.zero_le 1
    · exact h.freq x o hx

variable {t : State}

theorem Inv.evict (h : Inv s) (ht : Sieve_evict pin s = some t) : Inv t ∧ ∀ x ∈ t.fifo.q, x ∈ s.fifo.q := by
  obtain ⟨x, hx⟩ : ∃ x, start s = some x := by
    obtain ⟨x, hx, -⟩ := bind_eq_some_iff.1 ht
    exact ⟨x, hx⟩
  obtain ⟨s', v, hevict, hs', -, hleft, -⟩ := Sieve_evict_spec pin h hx
  obtain rfl : s' = t := some.inj (hevict.symm.trans ht)
  exact ⟨hs', fun y hy => ((hleft y).1 hy).2⟩

theorem Inv.remove (h : Inv s) (id : ObjId) : Inv (Sieve_remove s id).1 := by
  unfold Sieve_remove
  rcases hid : s.fifo.q.lookup id with _ | o
  · exact h
  · refine ⟨h.fifo.remove hid, ?_, ?_⟩
    · intro x hx
      apply mem_erase.2
      split_ifs at hx with hp
      · obtain ⟨hmem, hne⟩ := prev_mem hx
        exact ⟨hne, AList.mem_keys.2 hmem⟩
      · exact ⟨fun heq => hp (heq ▸ hx), h.pointer x hx⟩
    · intro x o' ho'
      rcases eq_or_ne x id with rfl | hne
      · exact absurd ((lookup_erase _ s.fifo.q).symm.trans ho') (by simp)
      · exact h.freq x o' ((lookup_erase_ne hne).symm.trans ho')

theorem Inv.get (h : Inv s) {hit : Bool} (ht : Sieve_get pin s req = some (t, hit)) : Inv t := by
  let Miss : State → Prop := fun s => Inv s ∧ req.obj_id ∉ s.fifo.q
  refine CacheOps.cache_get_base_inv Inv Miss Inv ?_ ?_ ?_ ?_ h ht
  · intro s s' hit hs hfind
    have hs1 : Inv { s with fifo := { s.fifo with n_req := s.fifo.n_req + 1 } } := ⟨⟨hs.fifo.1, hs.fifo.2⟩, hs.2, hs.3⟩
    simp only [ops, Sieve_find] at hfind
    rcases ho : s.fifo.q.lookup req.obj_id with _ | obj
    · rw [ho] at hfind
      cases hfind
      exact ⟨hs1, lookup_eq_none.1 ho⟩
    · rw [ho] at hfind
      cases hfind
      exact hs1.find ho
  · rintro s s' admitted hs hcan
    obtain ⟨rfl, -⟩ := hcan
    split_ifs
    · exact hs
    · exact hs.1
  · rintro s s' ⟨hs, hmiss⟩ - hevict
    obtain ⟨hs', hold⟩ := hs.evict hevict
    exact ⟨hs', fun hmem => hmiss (hold _ hmem)⟩
  · rintro s s' ⟨hs, hmiss⟩ - hinsert
    cases hinsert
    exact hs.insert hmiss

theorem inv_of_reach {cache_size : Int} {md : Bool}
    (h : Reach call (fun _ _ => True) (Sieve_init cache_size md) s) : Inv s := by
  apply h.inv Inv ?_ (init_inv _ _)
  rintro s (⟨pin, req⟩ | pin | id) t hs - ht
  · obtain ⟨⟨u, hit⟩, hget, rfl⟩ := map_eq_some_iff.1 ht
    exact hs.get hget
  · exact (hs.evict ht).1
  · cases ht
    exact hs.remove id

end CacheSim.Sieve
