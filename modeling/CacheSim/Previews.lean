import CacheSim.Sieve.Proofs
import CacheSim.Clock
import CacheSim.Lib.Rotation

/-!
# The preview of Sieve

It looks for the first object that was not read from the hand to the head, and then from the tail.
-/

namespace CacheSim.Sieve

open Lib List

def to_head (queue : List ObjId) (id : ObjId) : List ObjId := id :: (queue.takeWhile (· ≠ id)).reverse

def untouched (q : Table ObjId (FifoObj Nat)) (to_evict_freq : Nat) (x : ObjId) : Bool := (q.lookup x).any (·.md ≤ to_evict_freq)

def find_untouched (q : Table ObjId (FifoObj Nat)) (to_evict_freq : Nat) (pointer : Option ObjId) : Option ObjId :=
  pointer.bind fun id => (to_head q.keys id).find? (untouched q to_evict_freq)

def Sieve_to_evict_with_freq (s : State) (to_evict_freq : Nat) : Option ObjId :=
  (find_untouched s.fifo.q to_evict_freq (s.pointer.or s.fifo.q.keys.getLast?)).or
    (find_untouched s.fifo.q to_evict_freq s.fifo.q.keys.getLast?)

def to_evict_above (s : State) : Nat → Nat → Option ObjId
  | 0, _ => none
  | fuel + 1, to_evict_freq => (Sieve_to_evict_with_freq s to_evict_freq).or (to_evict_above s fuel (to_evict_freq + 1))

def Sieve_to_evict (s : State) : Option ObjId := to_evict_above s ((s.fifo.q.entries.map fun e => e.2.md).sum + 1) 0

def to_evict (s : State) : Option (State × Option ObjId) := (Sieve_to_evict s).map fun id => (s, some id)

variable {s : State} {x : ObjId}

theorem to_head_of_split {P S : List ObjId} (h : (P ++ x :: S).Nodup) : to_head (P ++ x :: S) x = x :: P.reverse := by
  have hP : ∀ a ∈ P, decide (a ≠ x) = true := by
    intro a ha
    have := (nodup_append.1 h).2.2 a ha x (by simp)
    simpa using this
  unfold to_head
  rw [takeWhile_append_of_pos hP, takeWhile_cons_of_neg (by simp), append_nil]

theorem find_round {queue : List ObjId} (hn : queue.Nodup) (hx : x ∈ queue) (p : ObjId → Bool) :
    ((to_head queue x).find? p).or (queue.getLast?.bind fun id => (to_head queue id).find? p) = (round queue x).find? p := by
  obtain ⟨P, S, rfl⟩ := append_of_mem hx
  have hall : ((P ++ x :: S).getLast?.bind fun id => (to_head (P ++ x :: S) id).find? p) = (P ++ x :: S).reverse.find? p := by
    rcases eq_nil_or_concat' (P ++ x :: S) with hnil | ⟨l, t, hl⟩
    · simp at hnil
    · rw [hl] at hn ⊢
      rw [getLast?_concat, Option.bind_some, to_head_of_split hn, reverse_append]
      rfl
  rw [hall, to_head_of_split hn, round_of_split hn]
  simp only [reverse_append, reverse_cons, find?_append, find?_cons]
  cases p x with
  | true => simp
  | false =>
    cases P.reverse.find? p <;> simp

theorem to_evict_with_freq_eq (h : Inv s) (hx : start s = some x) (to_evict_freq : Nat) :
    Sieve_to_evict_with_freq s to_evict_freq =
      (round s.fifo.q.keys x).find? (untouched s.fifo.q to_evict_freq) := by
  have hstart : s.pointer.or s.fifo.q.keys.getLast? = some x := hx
  unfold Sieve_to_evict_with_freq find_untouched
  rw [hstart, Option.bind_some, find_round s.fifo.q.keys_nodup (AList.mem_keys.1 (start_mem h hx))]

/-! ## The preview is what goes -/

theorem not_pinned (x : ObjId) : Pin.is_pinned none x = false := rfl

theorem evict_none_spec (h : Inv s) (hx : start s = some x) :
    ∃ s' v, Sieve_evict none s = some s' ∧ v ∈ s.fifo.q ∧ (∀ y, y ∈ s'.fifo.q ↔ y ≠ v ∧ y ∈ s.fifo.q) ∧
      v = ((round s.fifo.q.keys x).find? (untouched s.fifo.q 0)).getD x := by
  obtain ⟨s', v, hevict, -, hv, hleft, hend⟩ := Sieve_evict_spec none h hx
  refine ⟨s', v, hevict, hv, hleft, ?_⟩
  by_cases hunread : ∃ e ∈ s.fifo.q.entries, Pin.is_pinned none e.1 = false ∧ e.2.md = 0
  · obtain ⟨k, w, l, r, hwalk, hstop, -, hround, hzero, hpass, -⟩ := ends_at_unread h hx hunread
    obtain ⟨rfl, -⟩ := hend k w hwalk hstop
    have hfind : ((round s.fifo.q.keys x).find? (untouched s.fifo.q 0)) = some w.obj := by
      rw [hround, find?_eq_some_iff_append]
      refine ⟨by simpa [untouched] using hzero, l, r, rfl, ?_⟩
      intro y hy
      obtain ⟨o, ho, hread⟩ := hpass y hy
      have hpos : 0 < o.md := by simpa [not_pinned] using hread
      simp [untouched, ho, hpos.ne']
    rw [hfind, Option.getD_some]
  · have hread : ∀ e ∈ s.fifo.q.entries, Pin.is_pinned none e.1 = false → e.2.md ≠ 0 :=
      fun e he hpin hmd => hunread ⟨e, he, hpin, hmd⟩
    have hxq := start_mem h hx
    obtain ⟨k, w, hwalk, hstop, -, htake⟩ := ends_in_second_round h hx hread ⟨x, AList.mem_keys.1 hxq, rfl⟩
    obtain ⟨rfl, -⟩ := hend k w hwalk hstop
    obtain ⟨l, r, hround, hl, -⟩ := htake rfl
    obtain rfl : l = [] := eq_nil_iff_forall_not_mem.2 fun y hy => by simpa [not_pinned] using hl y hy
    have hnone : ((round s.fifo.q.keys x).find? (untouched s.fifo.q 0)) = none := by
      rw [find?_eq_none]
      intro y hy
      obtain ⟨o, ho⟩ := Table.exists_lookup (AList.mem_keys.2 ((perm_round s.fifo.q.keys_nodup (AList.mem_keys.1 hxq)).mem_iff.1 hy))
      simpa [untouched, ho] using hread _ (Table.mem_entries_of_lookup ho) rfl
    rw [hnone, Option.getD_none]
    exact (List.cons.inj hround).1.symm

theorem Sieve_to_evict_eq (h : Inv s) (hx : start s = some x) :
    Sieve_to_evict s = some (((round s.fifo.q.keys x).find? (untouched s.fifo.q 0)).getD x) := by
  unfold Sieve_to_evict
  rw [to_evict_above, to_evict_with_freq_eq h hx]
  rcases hfind : (round s.fifo.q.keys x).find? (untouched s.fifo.q 0) with _ | v
  · -- the object at the hand was read once
    obtain ⟨o, ho⟩ := Table.exists_lookup (start_mem h hx)
    have hread : o.md ≠ 0 := by simpa [untouched, ho] using find?_eq_none.1 hfind x (by simp [round])
    have hfuel := sum_md_replace ho (Nat.pos_of_ne_zero hread)
    rw [← hfuel, Option.none_or, to_evict_above, to_evict_with_freq_eq h hx, round, find?_cons_of_pos]
    · rfl
    · simpa [untouched, ho] using h.freq x o ho
  · rfl

theorem Sieve_to_evict_honoured (h : Inv s) (hne : s.fifo.q.keys ≠ []) :
    Honoured to_evict (Sieve_evict none) (fun s x => x ∈ s.fifo.q) s := by
  obtain ⟨x, hx⟩ : ∃ x, start s = some x := by
    unfold start
    rw [getLast?_eq_some_getLast hne]
    cases s.pointer <;> simp
  obtain ⟨s', v, hevict, hv, hleft, heq⟩ := evict_none_spec h hx
  refine ⟨s, v, s', ?_, hevict, hv, hleft⟩
  rw [to_evict, Sieve_to_evict_eq h hx, heq]
  rfl

end CacheSim.Sieve

/-!
## The previews of Sieve and Clock

Clock turns its queue until an object without a read is at the tail. From the tail on, this is the first of those
with the fewest reads, and the preview finds it without turning the queue.
-/

namespace CacheSim.Clock

open Lib List Option

def to_evict (s : State) : Option (State × Option ObjId) := (Clock_to_evict s).map fun obj => (s, some obj.1)

def lives (queue : List (Sigma fun _ : ObjId => FifoObj Int)) : List Nat := queue.map fun e => e.2.md.toNat

variable {s : State} {e : Sigma fun _ : ObjId => FifoObj Int} {queue : List (Sigma fun _ : ObjId => FifoObj Int)}

section

variable (h : s.fifo.q.entries.reverse = e :: queue)
include h

theorem candidate_none : candidate none s = some e := by
  have hentries := reverse_eq_iff.1 h
  have hlast : s.fifo.q.keys.getLast? = some e.1 := by
    rw [AList.keys, List.keys, hentries]
    simp
  have hskip : Pin.cache_skip_pinned none s.fifo.q.keys = some e.1 := by
    obtain ⟨l, hl⟩ := getLast?_eq_some_iff.1 hlast
    simp [Pin.cache_skip_pinned, hl, Pin.is_pinned]
  have hlook : s.fifo.q.lookup e.1 = some e.2 := Table.lookup_of_mem_entries (by rw [hentries]; simp)
  simp [candidate, hskip, hlook]

theorem second_chance_entries :
    (second_chance s e).fifo.q.entries.reverse = queue ++ [⟨e.1, { e.2 with md := e.2.md - 1 }⟩] := by
  have hentries := reverse_eq_iff.1 h
  have herase : (s.fifo.q.erase e.1).entries = queue.reverse := Table.erase_last (by simpa using hentries)
  show (⟨e.1, { e.2 with md := e.2.md - 1 }⟩ :: (s.fifo.q.erase e.1).entries).reverse = _
  rw [herase]
  simp

end

theorem turns (n : Nat) : ∀ s e queue, s.fifo.q.entries.reverse = e :: queue → spins (lives (e :: queue)) = n →
    ∃ t v rest, Rounds (fun w : State × (Sigma fun _ : ObjId => FifoObj Int) => decide (w.2.2.md ≥ 1)) (fun w => do
        let s := second_chance w.1 w.2
        let obj_to_evict ← candidate none s
        return (s, obj_to_evict)) n (s, e) (t, v) ∧
      ¬ v.2.md ≥ 1 ∧ t.fifo.q.entries.reverse = v :: rest ∧
      (v :: rest).map (·.1) = ((e :: queue).map (·.1)).rotate n := by
  induction n with
  | zero =>
    intro s e queue h hn
    refine ⟨s, e, queue, .refl _, ?_, h, (rotate_zero _).symm⟩
    intro hread
    rw [lives, map_cons, spins_rotate _ (by omega)] at hn
    omega
  | succ n ih =>
    intro s e queue h hn
    have hread : e.2.md ≥ 1 := by
      by_contra hzero
      rw [lives, map_cons, show e.2.md.toNat = 0 by omega, spins_of_zero] at hn
      omega
    have hnext := second_chance_entries h
    obtain ⟨e', queue', hcons⟩ := exists_cons_of_ne_nil (l := queue ++ [⟨e.1, { e.2 with md := e.2.md - 1 }⟩]) (by simp)
    have hn' : spins (lives (e' :: queue')) = n := by
      rw [lives, map_cons, spins_rotate _ (by omega)] at hn
      rw [← hcons]
      simp only [lives, map_append, map_cons, map_nil]
      rw [show (e.2.md - 1).toNat = e.2.md.toNat - 1 by omega]
      omega
    obtain ⟨t, v, rest, hrounds, hstop, ht, hids⟩ := ih _ e' queue' (hnext.trans hcons) hn'
    refine ⟨t, v, rest, .head (by simpa using hread) ?_ hrounds, hstop, ht, ?_⟩
    · simp [candidate_none (hnext.trans hcons)]
    · rw [hids, ← hcons, map_cons, rotate_cons_succ]
      simp

/-! ## The preview -/

theorem fewest_le_lives (h : e ∈ queue) : fewest (lives queue) ≤ e.2.md.toNat := by
  have hmem : e.2.md.toNat ∈ lives queue := mem_map.2 ⟨e, h, rfl⟩
  obtain ⟨x, xs, hcons⟩ := exists_cons_of_ne_nil (ne_nil_of_mem hmem)
  rw [hcons] at hmem ⊢
  exact (fewest_spec x xs).2 _ hmem

theorem fewest_mem (h : queue ≠ []) : fewest (lives queue) ∈ lives queue := by
  obtain ⟨e, queue, rfl⟩ := exists_cons_of_ne_nil h
  exact (fewest_spec _ _).1

theorem fewest_le_reads (h : s.fifo.q.entries.reverse = e :: queue) : fewest (lives (e :: queue)) ≤ reads s := by
  have hle := fewest_le_lives (mem_cons_self (a := e) (l := queue))
  unfold reads
  rw [reverse_eq_iff.1 h, reverse_cons, map_append, sum_append]
  simp
  omega

theorem to_evict_rounds_eq (h : queue ≠ []) {fuel : Nat} : ∀ {n_round : Nat}, n_round ≤ fewest (lives queue) →
    fewest (lives queue) < n_round + fuel →
    to_evict_rounds queue fuel n_round = queue[(lives queue).idxOf (fewest (lives queue))]? := by
  induction fuel with
  | zero =>
    omega
  | succ fuel ih =>
    intro n_round hle hlt
    rw [to_evict_rounds]
    rcases Nat.lt_or_eq_of_le hle with hless | rfl
    · have hnone : (queue.find? fun obj => !(obj.2.md - (n_round : Int) ≥ 1)) = none := by
        rw [find?_eq_none]
        intro obj hobj
        have := fewest_le_lives hobj
        simp
        omega
      have hfuel : fewest (lives queue) < n_round + 1 + fuel := by omega
      rw [hnone, Option.none_or]
      exact ih hless hfuel
    · have hlen : (lives queue).idxOf (fewest (lives queue)) < queue.length := by
        simpa [lives] using idxOf_lt_length_of_mem (fewest_mem h)
      have hfind : (queue.find? fun obj => !(obj.2.md - (fewest (lives queue) : Int) ≥ 1)) =
          some queue[(lives queue).idxOf (fewest (lives queue))] := by
        rw [find?_eq_some_iff_getElem]
        refine ⟨?_, _, hlen, rfl, ?_⟩
        · have hlen' : (lives queue).idxOf (fewest (lives queue)) < (lives queue).length := by simpa [lives] using hlen
          have hfew : (lives queue)[(lives queue).idxOf (fewest (lives queue))] = fewest (lives queue) := getElem_idxOf hlen'
          simp only [lives, getElem_map] at hfew ⊢
          simp
          omega
        · intro j hj
          have hmore := fewest_le_lives (queue.getElem_mem (hj.trans hlen))
          have hne := not_of_lt_findIdx hj
          simp [lives] at hmore hne ⊢
          omega
      rw [hfind, some_or, getElem?_eq_getElem hlen]

theorem Clock_to_evict_honoured (h : s.fifo.q.keys ≠ []) : Honoured to_evict (Clock_evict none) (fun s x => x ∈ s.fifo.q) s := by
  obtain ⟨e, queue, hqueue⟩ := exists_cons_of_ne_nil (l := s.fifo.q.entries.reverse) (by simpa [AList.keys, List.keys] using h)
  obtain ⟨t, v, rest, hrounds, hstop, ht, hids⟩ := turns _ s e queue hqueue rfl
  have hspins : spins (lives (e :: queue)) = ((e :: queue).map (·.1)).length * fewest (lives (e :: queue)) +
      (lives (e :: queue)).idxOf (fewest (lives (e :: queue))) := by simp [spins, lives]
  have hlt : (lives (e :: queue)).idxOf (fewest (lives (e :: queue))) < (e :: queue).length := by
    have hmem := idxOf_lt_length_of_mem (fewest_mem (cons_ne_nil e queue))
    rwa [lives, length_map] at hmem
  have hshown : Clock_to_evict s = (e :: queue)[(lives (e :: queue)).idxOf (fewest (lives (e :: queue)))]? := by
    have hreads := fewest_le_reads hqueue
    rw [Clock_to_evict, hqueue]
    exact to_evict_rounds_eq (cons_ne_nil e queue) (Nat.zero_le _) (by omega)
  generalize (lives (e :: queue)).idxOf (fewest (lives (e :: queue))) = first at hspins hlt hshown
  -- the whole turns leave the queue as it was
  rw [hspins, ← rotate_rotate, rotate_length_mul] at hids
  have hv : (Clock_to_evict s).map (·.1) = some v.1 := by
    have hhead := congrArg List.head? hids
    rw [head?_rotate (by simpa using hlt), getElem?_map] at hhead
    rw [hshown, ← hhead]
    rfl
  have hlook : t.fifo.q.lookup v.1 = some v.2 := Table.lookup_of_mem_entries (by simp [reverse_eq_iff.1 ht])
  have hsame : ∀ x, x ∈ t.fifo.q ↔ x ∈ s.fifo.q := by
    intro x
    have hperm : ((v :: rest).map (·.1)).Perm ((e :: queue).map (·.1)) := hids ▸ rotate_perm _ _
    rw [← hqueue, ← ht, map_reverse, map_reverse] at hperm
    exact mem_reverse.symm.trans (hperm.mem_iff.trans mem_reverse)
  obtain ⟨s', -, hevict, -⟩ := Clock_evict_honours none h
  have hs' : s' = { t with fifo := t.fifo.cache_remove_obj_base v.1 v.2 } := by
    unfold Clock_evict at hevict
    simp only [candidate_none hqueue, bind_eq_bind, Option.bind_some, bind_eq_some_iff] at hevict
    obtain ⟨w, hw, hs'⟩ := hevict
    obtain rfl := hrounds.result (by simpa using hstop) hw
    exact (some.inj hs').symm
  refine ⟨s, v.1, s', ?_, hevict, (hsame _).1 (Table.mem_of_lookup hlook), ?_⟩
  · obtain ⟨obj, hobj, hid⟩ := map_eq_some_iff.1 hv
    rw [to_evict, hobj, ← hid]
    rfl
  · intro x
    rw [hs']
    exact AList.mem_erase.trans (and_congr_right fun _ => hsame x)

end CacheSim.Clock

namespace CacheSim

open Lib

/-- With no pins, what Sieve and Clock show is what they take next. -/
theorem previews_honoured :
    (∀ cache_size md s,
      Reach Sieve.call (fun _ _ => True) (Sieve.Sieve_init cache_size md) s →
        (∀ x, s.pointer = some x → x ∈ s.fifo.q) ∧ (∀ x o, s.fifo.q.lookup x = some o → o.md = 0 ∨ o.md = 1) ∧
        (s.fifo.q.keys ≠ [] → Honoured Sieve.to_evict (Sieve.Sieve_evict none) (fun s x => x ∈ s.fifo.q) s)) ∧
    ∀ s : Clock.State, s.fifo.q.keys ≠ [] → Honoured Clock.to_evict (Clock.Clock_evict none) (fun s x => x ∈ s.fifo.q) s := by
  constructor
  · intro cache_size md s hr
    have h := Sieve.inv_of_reach hr
    exact ⟨h.pointer, fun x o ho => Nat.le_one_iff_eq_zero_or_eq_one.1 (h.freq x o ho), Sieve.Sieve_to_evict_honoured h⟩
  · exact fun s h => Clock.Clock_to_evict_honoured h

theorem previews_honoured_past_tail :
    (∃ s, runs Sieve.call (Sieve.Sieve_init 3 false) [.get none { obj_id := 1 }, .get none { obj_id := 2 },
      .get none { obj_id := 1 }] =
        some s ∧ Honoured Sieve.to_evict (Sieve.Sieve_evict none) (fun s x => x ∈ s.fifo.q) s) ∧
    ∃ s, runs Clock.call (Clock.Clock_init 3 0 1) [.get none { obj_id := 1 }, .get none { obj_id := 2 }, .get none { obj_id := 1 }] =
        some s ∧ Honoured Clock.to_evict (Clock.Clock_evict none) (fun s x => x ∈ s.fifo.q) s := by
  constructor
  · refine exists_some (P := fun s => s.fifo.q.keys ≠ []) (by decide +kernel) fun s hs hne => ?_
    have hreach : Reach Sieve.call (fun _ _ => True) (Sieve.Sieve_init 3 false) s := .of_runs (fun _ _ _ => trivial) hs
    exact (previews_honoured.1 _ _ s hreach).2.2 hne
  · exact exists_some (P := fun s => s.fifo.q.keys ≠ []) (by decide +kernel) fun s _ hne => previews_honoured.2 s hne

end CacheSim
