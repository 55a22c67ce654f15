import CacheSim.Session.Algorithms
import CacheSim.Lib.NodeLists

/-!
# Iterators (`sessionCache.cpp`)

SessionLRU, SessionS3FIFO and SessionARC again, over `std::list`s whose nodes have addresses, with the
iterators that `slot` and `where` keep.
-/

namespace CacheSim.Session

open Lib

/-! ## The policies -/

namespace SessionLRU

abbrev Nodes := NodeLists Unit SessionId

def nodeHooks : Hooks Nodes where
  init := {}
  select_victim _ q ss := some (q, ss, (q.items ()).head?)
  on_touch q _ s is_new := if is_new then q.push s () else q.splice s
  on_removed q s := some (q.unlink s)

end SessionLRU

namespace SessionS3FIFO

variable (rnd : ℚ → ℚ)

structure Nodes where
  queues : NodeLists S3Queue SessionId := {}
  ghost : List SessionId := []
  ghost_set : Finset SessionId := ∅

namespace Nodes

def lists (p : Nodes) : SessionS3FIFO := ⟨p.queues.part, p.ghost, p.ghost_set⟩

def push_ghost (p : Nodes) (s : SessionId) : Nodes :=
  let after := p.lists.push_ghost s
  { p with ghost := after.ghost, ghost_set := after.ghost_set }

def to_main (p : Nodes) (s : SessionId) : Nodes := { p with queues := (p.queues.unlink s).push s .main }

def select_loop : Nat → Nodes → Sessions → Nodes × Sessions × Option SessionId
  | 0, p, ss => (p, ss, p.lists.small.head?.or p.lists.main.head?)
  | rounds + 1, p, ss =>
    match (if prefer_small rnd p.lists then p.lists.small.head? else none) with
    | some s =>
      if (ss.lookup s).any (·.freq > promote_threshold) then
        select_loop rounds (p.to_main s) ss
      else (p, ss, some s)
    | none =>
      match p.lists.main.head? with
      | none => (p, ss, none)
      | some s =>
        match ss.lookup s with
        | none => (p, ss, some s)
        | some m =>
          if m.freq > 0 then
            select_loop rounds (p.to_main s) (ss.insert s { m with freq := m.freq - 1 })
          else (p, ss, some s)

end Nodes

def nodeHooks : Hooks Nodes where
  init := {}
  select_victim _ p ss :=
    let limit := 2 * (p.lists.small.length + p.lists.main.length) + 8
    some (p.select_loop rnd (limit + 1) ss)
  on_touch p _ s is_new :=
    if !is_new then p
    else if p.lists.in_ghost s then
      { p with ghost_set := p.ghost_set.erase s, queues := p.queues.push s .main }
    else { p with queues := p.queues.push s .small }
  on_removed p s :=
    let from_small := (p.queues.slot s).map (·.1) == some .small
    let p := { p with queues := p.queues.unlink s }
    some (if from_small then p.push_ghost s else p)

end SessionS3FIFO

namespace SessionARC

variable (rnd : ℚ → ℚ)

structure Nodes where
  queues : NodeLists ARCList SessionId := {}
  p : ℚ := 0

namespace Nodes

def lists (a : Nodes) : SessionARC := ⟨a.queues.part, a.p⟩

def trim_loop (c : Nat) : Nat → NodeLists ARCList SessionId → NodeLists ARCList SessionId
  | 0, q => q
  | rounds + 1, q =>
    if (q.items .b1).length + (q.items .b2).length > c then
      if !(q.items .b1).isEmpty then trim_loop c rounds (q.pop .b1)
      else if !(q.items .b2).isEmpty then trim_loop c rounds (q.pop .b2)
      else q
    else q

def trim_ghosts (a : Nodes) : Nodes :=
  let c := a.lists.size .t1 + a.lists.size .t2 + 1
  { a with queues := trim_loop c (a.lists.size .b1 + a.lists.size .b2) a.queues }

def move (a : Nodes) (s : SessionId) (k : ARCList) : Nodes :=
  { a with queues := (a.queues.unlink s).push s k }

def locate (a : Nodes) (s : SessionId) : Option ARCList := (a.queues.slot s).map (·.1)

def on_touch (a : Nodes) (s : SessionId) : Nodes :=
  let n1 : ℚ := a.lists.size .b1
  let n2 : ℚ := a.lists.size .b2
  let c : ℚ := (a.lists.size .t1 + a.lists.size .t2 + 1 : Nat)
  let a := match a.locate s with
    | some .t1 | some .t2 => a.move s .t2
    | some .b1 => { a with p := min c (rnd (a.p + step rnd n2 n1)) }.move s .t2
    | some .b2 => { a with p := max 0 (rnd (a.p - step rnd n1 n2)) }.move s .t2
    | none => { a with queues := a.queues.push s .t1 }
  a.trim_ghosts

def on_removed (a : Nodes) (s : SessionId) : Nodes :=
  let k := a.locate s
  let a := { a with queues := a.queues.unlink s }
  let a := match k with
    | some .t1 => { a with queues := a.queues.push s .b1 }
    | some .t2 => { a with queues := a.queues.push s .b2 }
    | _ => a
  a.trim_ghosts

end Nodes

def nodeHooks : Hooks Nodes where
  init := {}
  select_victim _ a ss := some (a, ss, a.lists.select_victim)
  on_touch a _ s _ := a.on_touch rnd s
  on_removed a s := some (a.on_removed s)

end SessionARC

section Lists

variable {κ : Type} [DecidableEq κ]

theorem part_push (q : NodeLists κ SessionId) (s : SessionId) (k : κ) : (q.push s k).part = Queues.place q.part s k := by
  unfold NodeLists.part Queues.place
  rw [NodeLists.items_push]
  congr 1
  funext t
  unfold NodeLists.push
  rcases eq_or_ne t s with rfl | hne
  · simp
  · simp [hne]

theorem part_unlink {q : NodeLists κ SessionId} (h : q.Located) (s : SessionId) :
    (q.unlink s).part = Queues.unlink q.part s := by
  rcases hs : q.slot s with _ | ⟨k, a⟩
  · unfold NodeLists.unlink Queues.unlink NodeLists.part
    simp [hs]
  · have htable : q.part.table s = some k := by
      unfold NodeLists.part
      simp [hs]
    unfold Queues.unlink
    rw [htable]
    unfold NodeLists.part
    rw [h.items_unlink hs]
    congr 1
    funext t
    unfold NodeLists.unlink
    rw [hs]
    rcases eq_or_ne t s with rfl | hne
    · simp
    · simp [hne]

theorem part_pop (q : NodeLists κ SessionId) (k : κ) : (q.pop k).part = Queues.pop_front q.part k := by
  rcases hk : q.nodes k with _ | ⟨n, l⟩
  · have hlist : q.part.list k = [] := by
      show q.items k = []
      unfold NodeLists.items
      rw [hk]
      rfl
    unfold NodeLists.pop Queues.pop_front
    rw [hk, hlist]
  · have hlist : q.part.list k = n.2 :: l.map (·.2) := by
      show q.items k = _
      unfold NodeLists.items
      rw [hk]
      rfl
    unfold Queues.pop_front
    rw [hlist]
    unfold NodeLists.part
    rw [NodeLists.items_pop hk]
    congr 1
    funext t
    unfold NodeLists.pop
    rw [hk]
    rcases eq_or_ne t n.2 with rfl | hne
    · simp
    · simp [hne]

end Lists

/-!
## The order structures hold the live sessions

Over nodes a policy does to its lists what it does without them, so that what is known of the lists
carries over; that each iterator points to the node of its session is kept beside it.
-/

open Prefixsim List Function NodeLists

variable {π π₀ : Type}

/-- `H` does what `H₀` does, `R` relating their fields, as long as `H₀` keeps `Inv`. -/
structure Follows (H : Hooks π) (H₀ : Hooks π₀) (Inv : π₀ → Finset SessionId → Prop) (R : π → π₀ → Prop) :
    Prop where
  init : R H.init H₀.init
  select : ∀ now p p₀ ss p₀' ss' v, R p p₀ → H₀.select_victim now p₀ ss = some (p₀', ss', v) →
    ∃ p', H.select_victim now p ss = some (p', ss', v) ∧ R p' p₀'
  touch : ∀ p p₀ ss t L, R p p₀ → Inv p₀ L →
    R (H.on_touch p ss t (decide (t ∉ L))) (H₀.on_touch p₀ ss t (decide (t ∉ L)))
  removed : ∀ p p₀ t L p₀', R p p₀ → Inv p₀ L → H₀.on_removed p₀ t = some p₀' →
    ∃ p', H.on_removed p t = some p' ∧ R p' p₀'

theorem Follows.sound {H : Hooks π} {H0 : Hooks π₀} {Inv : π₀ → Finset SessionId → Prop} {R : π → π₀ → Prop}
    (hF : Follows H H0 Inv R) (hS : Sound H0 Inv) : Sound H fun p L => ∃ p0, R p p0 ∧ Inv p0 L where
  init := ⟨_, hF.init, hS.init⟩
  select := by
    rintro now p ss ⟨p0, hR, hI⟩
    obtain ⟨p0', ss', v, hsel, hI', hturns, hin, hnone⟩ := hS.select now p0 ss hI
    obtain ⟨p', hsel', hR'⟩ := hF.select now p p0 ss p0' ss' v hR hsel
    exact ⟨p', ss', v, hsel', ⟨p0', hR', hI'⟩, hturns, hin, hnone⟩
  touch := by
    rintro p ss t L ⟨p0, hR, hI⟩ hkey
    exact ⟨_, hF.touch p p0 ss t L hR hI, hS.touch p0 ss t L hI hkey⟩
  removed := by
    rintro p t L ⟨p0, hR, hI⟩ ht
    obtain ⟨p0', hrem, hI'⟩ := hS.removed p0 t L hI ht
    obtain ⟨p', hrem', hR'⟩ := hF.removed p p0 t L p0' hR hI hrem
    exact ⟨p', hrem', p0', hR', hI'⟩

namespace SessionLRU

structure Views (q : Nodes) (p : SessionLRU) : Prop where
  located : q.Located
  order : q.items () = p.order
  slot : ∀ s, s ∈ p.slot ↔ q.slot s ≠ none

theorem follows : Follows nodeHooks hooks Inv Views where
  init := ⟨located_empty, rfl, by simp [hooks, nodeHooks]⟩
  select := by
    rintro now q p ss p' ss' v hV hsel
    cases hsel
    exact ⟨q, by rw [← hV.order]; rfl, hV⟩
  touch := by
    intro q p ss t L hV hI
    show Views (if decide (t ∉ L) = true then _ else _) (if decide (t ∉ L) = true then _ else _)
    split_ifs with hnew hslot
    · have hnone : q.slot t = none := by
        by_contra hne
        have ht := (hV.slot t).2 hne
        rw [hI.slot] at ht
        exact of_decide_eq_true hnew ht
      refine ⟨hV.located.push hnone (), ?_, fun s => ?_⟩
      · rw [items_push, update_self, hV.order]
      · rw [Finset.mem_insert, hV.slot]
        unfold NodeLists.push
        rcases eq_or_ne s t with rfl | hne
        · simp
        · simp [hne]
    · obtain ⟨⟨⟨⟩, a⟩, ha⟩ := Option.ne_none_iff_exists'.1 ((hV.slot t).1 hslot)
      refine ⟨hV.located.splice t, ?_, fun s => ?_⟩
      · rw [hV.located.items_splice ha, update_self, hV.order]
      · rw [hV.slot, splice_slot]
    · have hnone : q.slot t = none := by
        by_contra hne
        exact hslot ((hV.slot t).2 hne)
      rw [splice_none hnone]
      exact hV
  removed := by
    intro q p t L p' hV hI hrem
    cases hrem
    refine ⟨_, rfl, ?_⟩
    split_ifs with hslot
    · obtain ⟨⟨⟨⟩, a⟩, ha⟩ := Option.ne_none_iff_exists'.1 ((hV.slot t).1 hslot)
      refine ⟨hV.located.unlink t, ?_, fun s => ?_⟩
      · rw [hV.located.items_unlink ha, update_self, hV.order]
      · rw [Finset.mem_erase, hV.slot, unlink_slot]
        rcases eq_or_ne s t with rfl | hne
        · simp
        · simp [hne]
    · have hnone : q.slot t = none := by
        by_contra hne
        exact hslot ((hV.slot t).2 hne)
      rw [unlink_none hnone]
      exact hV

/-- `order` holds each live session once, and each iterator of `slot` is that of its session. -/
structure Tracks (q : Nodes) (L : Finset SessionId) : Prop where
  once : (q.items ()).Nodup
  live : ∀ s, s ∈ q.items () ↔ s ∈ L
  located : q.Located

theorem tracks {q : Nodes} {L : Finset SessionId} (h : ∃ p, Views q p ∧ Inv p L) : Tracks q L := by
  obtain ⟨p, hV, hI⟩ := h
  refine ⟨hV.located.items_nodup (), fun s => ?_, hV.located⟩
  rw [hV.order, ← hI.order, mem_toFinset]

end SessionLRU

namespace SessionRandomCompute

structure Tracks (p : SessionRandomCompute) (L : Finset SessionId) : Prop where
  once : p.pool.Nodup
  live : ∀ s, s ∈ p.pool ↔ s ∈ L
  pos : ∀ s i, p.pos s = some i ↔ p.pool[i]? = some s

theorem Inv.tracks {p : SessionRandomCompute} {L : Finset SessionId} (h : Inv p L) : Tracks p L :=
  ⟨h.pos.nodup, fun s => (h.live s).symm, h.pos⟩

end SessionRandomCompute

namespace SessionS3FIFO

variable (rnd : ℚ → ℚ)

structure Views (n : Nodes) (p : SessionS3FIFO) : Prop where
  located : n.queues.Located
  lists : n.lists = p

variable {n : Nodes} {p : SessionS3FIFO}

theorem Views.place {L : Finset SessionId} (hV : Views n p) (hI : Inv p L)
    {t : SessionId} (ht : t ∉ L) (k : S3Queue) :
    (n.queues.push t k).Located ∧ (n.queues.push t k).part = p.queues.place t k := by
  have htable : n.queues.part.table t = none := by
    by_contra hne
    apply ht
    rw [hI.live, ← hV.lists]
    exact hne
  refine ⟨hV.located.push (Option.map_eq_none_iff.1 htable) k, ?_⟩
  rw [part_push, ← hV.lists]
  rfl

theorem Views.unlink (hV : Views n p) (t : SessionId) :
    Views { n with queues := n.queues.unlink t } { p with queues := p.queues.unlink t } := by
  refine ⟨hV.located.unlink t, ?_⟩
  rw [← hV.lists]
  unfold Nodes.lists
  rw [part_unlink hV.located]

theorem Views.to_main (hV : Views n p) (t : SessionId) : Views (n.to_main t) (p.to_main t) := by
  refine ⟨(hV.located.unlink t).push (by rw [unlink_slot, update_self]) .main, ?_⟩
  rw [← hV.lists]
  unfold Nodes.to_main SessionS3FIFO.to_main Nodes.lists
  rw [part_push, part_unlink hV.located]

theorem select_loop_follows (rounds : Nat) : ∀ (n : Nodes) (p : SessionS3FIFO) (ss : Sessions), Views n p →
    ∃ n', n.select_loop rnd rounds ss =
        (n', (select_loop rnd rounds p ss).2.1, (select_loop rnd rounds p ss).2.2) ∧
      Views n' (select_loop rnd rounds p ss).1 := by
  induction rounds with
  | zero =>
    intro n p ss hV
    obtain rfl := hV.lists
    exact ⟨n, rfl, hV⟩
  | succ rounds ih =>
    intro n p ss hV
    obtain rfl := hV.lists
    unfold Nodes.select_loop select_loop
    rcases (if prefer_small rnd n.lists then n.lists.small.head? else none) with _ | s
    · rcases n.lists.main.head? with _ | s
      · exact ⟨n, rfl, hV⟩
      · dsimp only
        rcases ss.lookup s with _ | m
        · exact ⟨n, rfl, hV⟩
        · dsimp only
          split_ifs
          · exact ih _ _ _ (hV.to_main s)
          · exact ⟨n, rfl, hV⟩
    · dsimp only
      split_ifs
      · exact ih _ _ _ (hV.to_main s)
      · exact ⟨n, rfl, hV⟩

theorem follows : Follows (nodeHooks rnd) (hooks rnd) Inv Views where
  init := ⟨located_empty, rfl⟩
  select := by
    intro now n p ss p' ss' v hV hsel
    obtain rfl := hV.lists
    obtain ⟨n', hloop, hV'⟩ := select_loop_follows rnd
      (2 * (n.lists.small.length + n.lists.main.length) + 8 + 1) n n.lists ss hV
    have heq : select_loop rnd (2 * (n.lists.small.length + n.lists.main.length) + 8 + 1) n.lists ss = (p', ss', v) :=
      Option.some.inj hsel
    rw [heq] at hloop hV'
    exact ⟨n', congrArg some hloop, hV'⟩
  touch := by
    intro n p ss t L hV hI
    have hplace : t ∉ L → ∀ k, _ := fun ht k => hV.place hI ht k
    obtain rfl := hV.lists
    show Views (if (!decide (t ∉ L)) = true then _ else _) (if (!decide (t ∉ L)) = true then _ else _)
    split_ifs with hold hghost
    · exact hV
    · obtain ⟨hlocated, hpart⟩ := hplace (by simpa using hold) .main
      exact ⟨hlocated, by unfold Nodes.lists; rw [hpart]; rfl⟩
    · obtain ⟨hlocated, hpart⟩ := hplace (by simpa using hold) .small
      exact ⟨hlocated, by unfold Nodes.lists; rw [hpart]; rfl⟩
  removed := by
    intro n p t L p' hV hI hrem
    have hV' := hV.unlink t
    obtain rfl := hV.lists
    cases hrem
    refine ⟨_, rfl, ?_⟩
    show Views (if ((n.queues.slot t).map (·.1) == some .small) = true then _ else _)
      (if ((n.queues.slot t).map (·.1) == some .small) = true then _ else _)
    split_ifs
    · refine ⟨hV'.located, ?_⟩
      rw [← hV'.lists]
      rfl
    · exact hV'

/-- Each live session is in `small` or in `main`, once, and each iterator of `where` is that of its
session. -/
structure Tracks (n : Nodes) (L : Finset SessionId) : Prop where
  once : (n.queues.items .small ++ n.queues.items .main).Nodup
  live : ∀ s, s ∈ n.queues.items .small ++ n.queues.items .main ↔ s ∈ L
  located : n.queues.Located

theorem tracks {L : Finset SessionId} (h : ∃ p, Views n p ∧ Inv p L) : Tracks n L := by
  obtain ⟨p, hV, hI⟩ := h
  obtain rfl := hV.lists
  refine ⟨hV.located.nodup_append (by decide), fun s => ?_, hV.located⟩
  rw [hI.live, mem_append, ← hV.located.part_table, ← hV.located.part_table]
  show _ ↔ n.queues.part.table s ≠ none
  rcases n.queues.part.table s with _ | k
  · simp
  · cases k <;> simp

end SessionS3FIFO

namespace SessionARC

variable (rnd : ℚ → ℚ)

/-! ### Trimming -/

theorem trim_loop_bound (c : Nat) (rounds : Nat) : ∀ q : Queues ARCList,
    (q.list .b1).length + (q.list .b2).length ≤ c + rounds →
    ((trim_loop c rounds q).list .b1).length + ((trim_loop c rounds q).list .b2).length ≤ c ∧
      (trim_loop c rounds q).list .t1 = q.list .t1 ∧ (trim_loop c rounds q).list .t2 = q.list .t2 := by
  induction rounds with
  | zero => exact fun q h => ⟨h, rfl, rfl⟩
  | succ rounds ih =>
    intro q h
    unfold trim_loop
    split_ifs with hmore hb1 hb2
    · obtain ⟨s, l, hl⟩ := exists_cons_of_ne_nil (by simpa using hb1 : q.list .b1 ≠ [])
      have hpop : q.pop_front .b1 = ⟨update q.table s none, update q.list .b1 l⟩ := by
        unfold Queues.pop_front
        rw [hl]
      rw [hpop]
      apply ih
      rw [hl, length_cons] at h
      simp only [update_self, ne_eq, reduceCtorEq, not_false_eq_true, update_of_ne]
      omega
    · obtain ⟨s, l, hl⟩ := exists_cons_of_ne_nil (by simpa using hb2 : q.list .b2 ≠ [])
      have hpop : q.pop_front .b2 = ⟨update q.table s none, update q.list .b2 l⟩ := by
        unfold Queues.pop_front
        rw [hl]
      rw [hpop]
      apply ih
      rw [hl, length_cons] at h
      simp only [update_self, ne_eq, reduceCtorEq, not_false_eq_true, update_of_ne]
      omega
    · have h1 : q.list .b1 = [] := by simpa using hb1
      have h2 : q.list .b2 = [] := by simpa using hb2
      exact ⟨by simp [h1, h2], rfl, rfl⟩
    · exact ⟨by omega, rfl, rfl⟩

def Bounded (a : SessionARC) : Prop := a.size .b1 + a.size .b2 ≤ a.size .t1 + a.size .t2 + 1

theorem trim_ghosts_bounded (a : SessionARC) : a.trim_ghosts.Bounded := by
  obtain ⟨hbound, ht1, ht2⟩ := trim_loop_bound (a.size .t1 + a.size .t2 + 1) (a.size .b1 + a.size .b2) a.queues
    (Nat.le_add_left _ _)
  unfold Bounded
  rw [show a.trim_ghosts.size .t1 = a.size .t1 from congrArg List.length ht1,
    show a.trim_ghosts.size .t2 = a.size .t2 from congrArg List.length ht2]
  exact hbound

theorem sound_bounded : Sound (hooks rnd) fun a L => Inv a L ∧ a.Bounded where
  init := ⟨(sound rnd).init, Nat.zero_le _⟩
  select := by
    rintro now a ss ⟨hI, hB⟩
    obtain ⟨a', ss', v, hsel, hI', hrest⟩ := (sound rnd).select now a ss hI
    cases hsel
    exact ⟨a, ss, _, rfl, ⟨hI', hB⟩, hrest⟩
  touch := fun a ss t L h hkey => ⟨(sound rnd).touch a ss t L h.1 hkey, trim_ghosts_bounded _⟩
  removed := by
    rintro a t L ⟨hI, -⟩ ht
    obtain ⟨a', hrem, hI'⟩ := (sound rnd).removed a t L hI ht
    cases hrem
    exact ⟨_, rfl, hI', trim_ghosts_bounded _⟩

/-! ### Over nodes -/

structure Views (n : Nodes) (a : SessionARC) : Prop where
  located : n.queues.Located
  lists : n.lists = a

theorem trim_loop_follows (c : Nat) (rounds : Nat) : ∀ q : NodeLists ARCList SessionId, q.Located →
    (Nodes.trim_loop c rounds q).Located ∧ (Nodes.trim_loop c rounds q).part = trim_loop c rounds q.part := by
  induction rounds with
  | zero => exact fun q h => ⟨h, rfl⟩
  | succ rounds ih =>
    intro q h
    unfold Nodes.trim_loop trim_loop
    rw [← part_pop, ← part_pop, show q.part.list = q.items from rfl]
    split_ifs
    · exact ih _ (h.pop .b1)
    · exact ih _ (h.pop .b2)
    · exact ⟨h, rfl⟩
    · exact ⟨h, rfl⟩

variable {n : Nodes} {a : SessionARC}

section

variable (hV : Views n a)
include hV

theorem Views.trim : Views n.trim_ghosts a.trim_ghosts := by
  obtain rfl := hV.lists
  obtain ⟨hlocated, hpart⟩ := trim_loop_follows (n.lists.size .t1 + n.lists.size .t2 + 1)
    (n.lists.size .b1 + n.lists.size .b2) n.queues hV.located
  refine ⟨hlocated, ?_⟩
  unfold Nodes.trim_ghosts Nodes.lists
  dsimp only
  rw [← Nodes.lists, hpart]
  rfl

theorem Views.unlink (t : SessionId) :
    Views { n with queues := n.queues.unlink t } { a with queues := a.queues.unlink t } := by
  refine ⟨hV.located.unlink t, ?_⟩
  rw [← hV.lists]
  unfold Nodes.lists
  rw [part_unlink hV.located]

theorem Views.place {t : SessionId} (ht : n.queues.slot t = none)
    (k : ARCList) : Views { n with queues := n.queues.push t k } { a with queues := a.queues.place t k } := by
  refine ⟨hV.located.push ht k, ?_⟩
  rw [← hV.lists]
  unfold Nodes.lists
  rw [part_push]

theorem Views.move (t : SessionId) (k : ARCList) : Views (n.move t k) (a.move t k) :=
  (hV.unlink t).place (by rw [unlink_slot, update_self]) k

theorem Views.steer (p : ℚ) : Views { n with p := p } { a with p := p } := by
  refine ⟨hV.located, ?_⟩
  rw [← hV.lists]
  rfl

end

theorem follows : Follows (nodeHooks rnd) (hooks rnd) (fun a L => Inv a L ∧ a.Bounded) Views where
  init := ⟨located_empty, rfl⟩
  select := by
    intro now n a ss a' ss' v hV hsel
    obtain rfl := hV.lists
    cases hsel
    exact ⟨n, rfl, hV⟩
  touch := by
    intro n a ss t L hV _
    show Views (n.on_touch rnd t) (on_touch rnd a t)
    obtain rfl := hV.lists
    have htable : n.lists.queues.table t = n.locate t := rfl
    unfold Nodes.on_touch on_touch
    rw [htable]
    apply Views.trim
    rcases ht : n.locate t with _ | k
    · exact hV.place (Option.map_eq_none_iff.1 ht) .t1
    · cases k with
      | t1 => exact hV.move t .t2
      | t2 => exact hV.move t .t2
      | b1 => exact (hV.steer _).move t .t2
      | b2 => exact (hV.steer _).move t .t2
  removed := by
    intro n a t L a' hV _ hrem
    cases hrem
    refine ⟨_, rfl, ?_⟩
    obtain rfl := hV.lists
    have htable : n.lists.queues.table t = n.locate t := rfl
    have hgone : (n.queues.unlink t).slot t = none := by rw [unlink_slot, update_self]
    unfold Nodes.on_removed on_removed
    rw [htable]
    apply Views.trim
    rcases n.locate t with _ | k
    · exact hV.unlink t
    · cases k with
      | t1 => exact (hV.unlink t).place hgone .b1
      | t2 => exact (hV.unlink t).place hgone .b2
      | b1 => exact hV.unlink t
      | b2 => exact hV.unlink t

/-- Each live session is in `t1` or in `t2`, once; the ghosts are others, and not too many. Each
iterator of `where` is that of its session. -/
structure Tracks (n : Nodes) (L : Finset SessionId) : Prop where
  once : (n.queues.items .t1 ++ n.queues.items .t2).Nodup
  live : ∀ s, s ∈ n.queues.items .t1 ++ n.queues.items .t2 ↔ s ∈ L
  located : n.queues.Located
  apart : (n.queues.items .b1).Disjoint (n.queues.items .b2)
  gone : ∀ s ∈ n.queues.items .b1 ++ n.queues.items .b2, s ∉ L
  bounded : (n.queues.items .b1).length + (n.queues.items .b2).length ≤
    (n.queues.items .t1).length + (n.queues.items .t2).length + 1

theorem tracks {L : Finset SessionId} (h : ∃ a, Views n a ∧ Inv a L ∧ a.Bounded) : Tracks n L := by
  obtain ⟨a, hV, hI, hB⟩ := h
  obtain rfl := hV.lists
  have hlive : ∀ s, s ∈ n.queues.items .t1 ++ n.queues.items .t2 ↔ s ∈ L := by
    intro s
    rw [hI.live, mem_append, ← hV.located.part_table, ← hV.located.part_table]
    rfl
  refine ⟨hV.located.nodup_append (by decide), hlive, hV.located, hV.located.disjoint (by decide), ?_, hB⟩
  intro s hs hL
  rw [← hlive, mem_append] at hL
  rcases mem_append.1 hs with hs | hs <;> rcases hL with hL | hL <;> exact hV.located.disjoint (by decide) hs hL

end SessionARC

/-! ## Runs -/

/-- The session policies that keep the sessions in an order of their own. -/
inductive Ordered where
  | session_lru | session_random_compute | session_s3fifo | session_arc
deriving DecidableEq, Repr

namespace Ordered

def Fields : Ordered → Type
  | session_lru => SessionLRU.Nodes
  | session_random_compute => SessionRandomCompute
  | session_s3fifo => SessionS3FIFO.Nodes
  | session_arc => SessionARC.Nodes

def hooks (rng : Nat → Nat) (rnd : ℚ → ℚ) : (alg : Ordered) → Hooks alg.Fields
  | session_lru => SessionLRU.nodeHooks
  | session_random_compute => SessionRandomCompute.hooks rng rnd
  | session_s3fifo => SessionS3FIFO.nodeHooks rnd
  | session_arc => SessionARC.nodeHooks rnd

def Tracks : (alg : Ordered) → alg.Fields → Finset SessionId → Prop
  | session_lru => SessionLRU.Tracks
  | session_random_compute => SessionRandomCompute.Tracks
  | session_s3fifo => SessionS3FIFO.Tracks
  | session_arc => SessionARC.Tracks

def Inv : (alg : Ordered) → alg.Fields → Finset SessionId → Prop
  | session_lru => fun q L => ∃ p, SessionLRU.Views q p ∧ SessionLRU.Inv p L
  | session_random_compute => SessionRandomCompute.Inv
  | session_s3fifo => fun n L => ∃ p, SessionS3FIFO.Views n p ∧ SessionS3FIFO.Inv p L
  | session_arc => fun n L => ∃ a, SessionARC.Views n a ∧ SessionARC.Inv a L ∧ a.Bounded

theorem sound (rng : Nat → Nat) (rnd : ℚ → ℚ) (alg : Ordered) : Sound (alg.hooks rng rnd) alg.Inv := by
  cases alg with
  | session_lru => exact SessionLRU.follows.sound SessionLRU.sound
  | session_random_compute => exact SessionRandomCompute.sound rng rnd
  | session_s3fifo => exact (SessionS3FIFO.follows rnd).sound (SessionS3FIFO.sound rnd)
  | session_arc => exact (SessionARC.follows rnd).sound (SessionARC.sound_bounded rnd)

theorem Inv.tracks {alg : Ordered} {p : alg.Fields} {L : Finset SessionId} (h : alg.Inv p L) : alg.Tracks p L := by
  cases alg with
  | session_lru => exact SessionLRU.tracks h
  | session_random_compute => exact SessionRandomCompute.Inv.tracks h
  | session_s3fifo => exact SessionS3FIFO.tracks h
  | session_arc => exact SessionARC.tracks h

end Ordered

/-- After every served request and every `evict_n` the order structure holds the live sessions, each
once and where its position says; and the next request whose costs fit is served, and the next
`evict_n` returns. -/
theorem order_tracks_live (rng : Nat → Nat) (rnd : ℚ → ℚ) (alg : Ordered) (config : SimulatorConfig)
    (s : Simulator (State alg.Fields))
    (h : Reach (call (alg.hooks rng rnd) config) (fun _ _ => True)
      { cache := session_cache_init (alg.hooks rng rnd) config.cache_size_blocks } s) :
    alg.Tracks s.cache.policy (live s.cache) ∧
    (∀ n, ∃ s', call (alg.hooks rng rnd) config s (.evict_n n) = some s') ∧
    (∀ r, skips config r = false → CostsFit config r →
      ∃ s', call (alg.hooks rng rnd) config s (.serve r) = some s') := by
  have hH := alg.sound rng rnd
  have hexact : Exact config.cache_size_blocks alg.Inv s.cache :=
    h.inv (fun s : Simulator (State alg.Fields) => Exact config.cache_size_blocks alg.Inv s.cache)
      (fun _ _ _ hs _ hc => call_exact hH config hs hc) (init_exact hH _)
  refine ⟨Ordered.Inv.tracks hexact.policy, fun n => ?_, fun r hskip hcost => ?_⟩
  · obtain ⟨e, vs, hev, -⟩ := evict_n_spec hH hexact n
    simp [call, hev]
  · obtain ⟨s', hserve, -⟩ := serve_spec hH config hexact hskip hcost
    exact ⟨s', by simp [call, serve_ok, hserve]⟩

theorem order_tracks_live_after_ghost_hit :
    ∃ s, runs (call (Ordered.session_arc.hooks id id) { cache_size_blocks := 2 })
        { cache := session_cache_init (Ordered.session_arc.hooks id id) 2 }
        [.serve { blocks := [7], session := 1 }, .serve { blocks := [8], session := 2 },
          .serve { blocks := [9], session := 3 }, .serve { blocks := [7], session := 1 }] = some s ∧
      SessionARC.Nodes.locate s.cache.policy 1 = some .t2 ∧
      Ordered.session_arc.Tracks s.cache.policy (live s.cache) := by
  exact exists_some (P := fun s => SessionARC.Nodes.locate s.cache.policy 1 = some .t2) (by decide +kernel) fun s hs ht2 => ⟨ht2,
    (order_tracks_live id id .session_arc { cache_size_blocks := 2 } s (.of_runs (fun _ _ _ => trivial) hs)).1⟩

end CacheSim.Session
