import CacheSim.Candidates

/-!
# Every resident keeps an entry

An entry that is taken off a heap is either of a block that is gone or is replaced, so no resident loses its
last one.
-/

namespace CacheSim.AsymCache

open Lib List Option

variable {D P : Type} [LinearOrder D] {F : Doubles D P} {order : Table ObjId (BlockMeta D) → List ObjId}
  {s t : State D P} {x : ObjId} {m : BlockMeta D} {f g : Bool} {e : HeapEntry D}

/-! ## The entries of a resident -/

def Standing (F : Doubles D P) (Q : HeapEntry D → Prop) (s : State D P) (x : ObjId) (m : BlockMeta D) : Prop :=
  ∃ e ∈ heap (young F s m) s, e.id = x ∧ Q e

variable {Q : HeapEntry D → Prop}

omit [LinearOrder D] in
theorem Reheaped.push (horder : ∀ t, (order t).Perm t.keys) (h : Reheaped s t) (y : ObjId) (n : BlockMeta D) :
    Reheaped s (push F order t y n) := by
  unfold AsymCache.push
  dsimp only
  split_ifs
  · exact (h.file y n).trans (compact_spec horder _).reheaped
  · exact h.file y n

theorem Reheaped.refile (horder : ∀ t, (order t).Perm t.keys) (h : Reheaped s t) (f : Bool) (e : HeapEntry D) :
    Reheaped s (refile F order f t e) := by
  unfold AsymCache.refile
  rcases t.metas.lookup e.id with _ | n
  · exact h.set_heap f _
  · dsimp only
    split_ifs
    · exact (h.set_heap f _).push horder _ n
    · exact h.set_heap f _

omit [LinearOrder D] in
theorem entry_reheaped (h : Reheaped s t) (n : Nat) (x : ObjId) (m : BlockMeta D) : entry F t n x m = entry F s n x m := by
  rw [h]
  rfl

def Meets (F : Doubles D P) (Q : HeapEntry D → Prop) (s : State D P) (x : ObjId) (m : BlockMeta D) : Prop :=
  ∀ n, Q (entry F s n x m)

section

variable (horder : ∀ t, (order t).Perm t.keys)
include horder

section

variable (hm : s.metas.lookup x = some m) (hr : m.resident = true)
include hm hr

section

variable (hQ : Meets F Q s x m)
include hQ

omit [LinearOrder D] in
theorem standing_compact : Standing F Q (compact F order s) x m := by
  have hc := compact_spec (F := F) horder s
  obtain ⟨f, e, he, rfl⟩ := hc.filed x ⟨m, hm, hr⟩
  obtain ⟨m', n, hm', -, hyoung, heq⟩ := hc.made f e he
  cases hm.symm.trans hm'
  refine ⟨e, ?_, rfl, heq ▸ hQ n⟩
  rw [hc.reheaped.young, hyoung]
  exact he

omit [LinearOrder D] in
theorem standing_push {y : ObjId} {n : BlockMeta D} (hy : s.metas.lookup y = some n)
    (h : y = x ∨ Standing F Q s x m) : Standing F Q (push F order s y n) x m := by
  have hre : Reheaped s (file F s y n) := (Reheaped.refl s).file y n
  have hfile : Standing F Q (file F s y n) x m := by
    unfold Standing
    rw [hre.young, heap_file]
    rcases h with rfl | ⟨e, he, hx, hqe⟩
    · cases hm.symm.trans hy
      rw [if_pos rfl]
      exact ⟨_, mem_cons_self, rfl, hQ _⟩
    · refine ⟨e, ?_, hx, hqe⟩
      split_ifs
      · exact mem_cons_of_mem _ he
      · exact he
  unfold push
  dsimp only
  split_ifs
  · refine standing_compact horder (by rw [hre.metas, hm]) hr fun k => ?_
    rw [entry_reheaped hre]
    exact hQ k
  · exact hfile

theorem standing_refile (hre : Reheaped s t) (h : Standing F Q t x m) : Standing F Q (refile F order f t e) x m := by
  have hp := hre.set_heap f ((heap f t).erase e)
  have hleft : e.id ≠ x → Standing F Q (set_heap f t ((heap f t).erase e)) x m := by
    intro hne
    obtain ⟨a, ha, hax, hqa⟩ := h
    have hae : a ≠ e := fun heq => hne (heq ▸ hax)
    refine ⟨a, ?_, hax, hqa⟩
    rw [hp.young, ← hre.young, heap_set_heap]
    split_ifs with hf
    · rw [hf] at ha
      exact (mem_erase_of_ne hae).2 ha
    · exact ha
  unfold refile
  rcases hy : t.metas.lookup e.id with _ | n
  · refine hleft ?_
    rintro rfl
    rw [hre.metas, hm] at hy
    cases hy
  · dsimp only
    split_ifs with hn
    · have hy' : (set_heap f t ((heap f t).erase e)).metas.lookup e.id = some n := by
        rw [hp.metas, ← hre.metas, hy]
      refine standing_push horder (by rw [hp.metas, hm]) hr (fun k => ?_) hy' ?_
      · rw [entry_reheaped hp]
        exact hQ k
      · rcases eq_or_ne e.id x with heq | hne
        · exact .inl heq
        · exact .inr (hleft hne)
    · refine hleft ?_
      rintro rfl
      rw [hre.metas, hm, some.injEq] at hy
      exact hn (hy ▸ hr)

theorem standing_peek (h : Standing F Q s x m) {w : Peek D P} (hpeek : peek_valid F order f s = some w) :
    Standing F Q w.s x m := by
  refine (peek_valid_rounds (fun t => Reheaped s t ∧ Standing F Q t x m) ?_ ⟨.refl s, h⟩ hpeek).2
  rintro t e ⟨hre, ht⟩ - -
  exact ⟨hre.refile horder f e, standing_refile horder hm hr hQ hre ht⟩

end

end

/-! ## The rebuild -/

def ready (F : Doubles D P) (order : Table ObjId (BlockMeta D) → List ObjId) (s : State D P) : State D P :=
  if s.frozen then s else freeze F order s

/-- `choose_victim` finds no block on either heap, and builds them again. -/
def Rebuilds (F : Doubles D P) (order : Table ObjId (BlockMeta D) → List ObjId) (s : State D P) : Prop :=
  0 < s.n_resident ∧ ∃ w₁ w₂, peek_valid F order true (ready F order s) = some w₁ ∧
    peek_valid F order false w₁.s = some w₂ ∧ w₁.out = none ∧ w₂.out = none

structure Searches (F : Doubles D P) (order : Table ObjId (BlockMeta D) → List ObjId) (r : State D P) (w₁ w₂ : Peek D P) :
    Prop where
  first : peek_valid F order true r = some w₁
  second : peek_valid F order false w₁.s = some w₂
  peeking₁ : Peeking F true r w₁
  peeking₂ : Peeking F false w₁.s w₂
  end₁ : w₁.out = none → heap true w₁.s = []
  end₂ : w₂.out = none → heap false w₂.s = []

theorem Inv.searches (h : Inv s) (hfrozen : s.frozen = true) : ∃ w1 w2, Searches F order s w1 w2 := by
  obtain ⟨w1, hpeek1, hw1, hend1⟩ := peek_valid_spec (F := F) horder h.numbered (h.filed hfrozen) true
  have hfiled : ∀ x, Resident w1.s.metas x → Filed w1.s x := fun x hx => hw1.filed x (hw1.reheaped.metas ▸ hx)
  obtain ⟨w2, hpeek2, hw2, hend2⟩ := peek_valid_spec (F := F) horder hw1.numbered hfiled false
  exact ⟨w1, w2, hpeek1, hpeek2, hw1, hw2, hend1, hend2⟩

end

omit [LinearOrder D] in
theorem standing_true (he : e ∈ heap (young F s m) s) (hx : e.id = x) : Standing F (fun _ => True) s x m :=
  ⟨e, he, hx, trivial⟩

section

variable (horder : ∀ t, (order t).Perm t.keys)
include horder

/-- Both searches come out empty exactly when the first finds nothing to file and the second files
all residents to the first heap. -/
theorem Searches.empty_iff {r : State D P} {w1 w2 : Peek D P}
    (h : Searches F order r w1 w2) : w1.out = none ∧ w2.out = none ↔
      (∀ x m, r.metas.lookup x = some m → m.resident = true → young F r m = true) ∧ ∀ e ∈ r.h1, ¬ Resident r.metas e.id := by
  have hmetas1 := h.peeking₁.reheaped.metas
  have hkept : ∀ x m, r.metas.lookup x = some m → m.resident = true → Standing F (fun _ => True) r x m →
      Standing F (fun _ => True) w1.s x m :=
    fun x m hm hr hstand => standing_peek horder hm hr (fun _ => trivial) hstand h.first
  constructor
  · rintro ⟨hout1, hout2⟩
    have hnil1 := h.end₁ hout1
    have hnil2 := h.end₂ hout2
    have hyoung : ∀ x m, r.metas.lookup x = some m → m.resident = true → young F r m = true := by
      intro x m hm hr
      by_contra hold
      -- after the first search an entry of the block is left on the second heap
      obtain ⟨f, e, he, hx⟩ := h.peeking₁.filed x ⟨m, hm, hr⟩
      have hf : f = false := by
        cases f with
        | false => rfl
        | true => simp [hnil1] at he
      have hold1 : young F w1.s m = false := by
        rw [h.peeking₁.reheaped.young]
        simpa using hold
      have hstand : Standing F (fun _ => True) w1.s x m := standing_true (by rwa [hold1, ← hf]) hx
      obtain ⟨e', he', -⟩ := standing_peek horder (hmetas1.symm ▸ hm) hr (fun _ => trivial) hstand h.second
      rw [h.peeking₂.reheaped.young, hold1, hnil2] at he'
      simp at he'
    refine ⟨hyoung, ?_⟩
    rintro e he ⟨m, hm, hr⟩
    have hstand : Standing F (fun _ => True) r e.id m := standing_true (by rwa [hyoung e.id m hm hr]) rfl
    obtain ⟨e', he', -⟩ := hkept e.id m hm hr hstand
    rw [h.peeking₁.reheaped.young, hyoung e.id m hm hr, hnil1] at he'
    simp at he'
  · rintro ⟨hyoung, hgone⟩
    -- what the first search finds on its heap is of blocks that are gone, so it files nothing
    have hfirst : Reheaped r w1.s ∧ ∀ e ∈ heap true w1.s, ¬ Resident r.metas e.id := by
      refine peek_valid_rounds (fun t => Reheaped r t ∧ ∀ e ∈ heap true t, ¬ Resident r.metas e.id) ?_ ⟨.refl r, hgone⟩ h.first
      rintro t e ⟨hre, ht⟩ htop -
      refine ⟨hre.refile horder true e, fun a ha => ht a ?_⟩
      have hnot := ht e (top_mem htop)
      have hpopped : refile F order true t e = set_heap true t ((heap true t).erase e) := by
        unfold refile
        rcases hm : t.metas.lookup e.id with _ | m
        · rfl
        · dsimp only
          rw [if_neg]
          exact fun hr => hnot ⟨m, by rw [← hre.metas, hm], hr⟩
      rw [hpopped, heap_set_heap, if_pos rfl] at ha
      exact mem_of_mem_erase ha
    constructor
    · rcases hout : w1.out with _ | x
      · rfl
      · obtain ⟨e, htop, hv, -⟩ := h.peeking₁.out x hout
        exact absurd (resident_of_valid hv) (hfirst.2 e (top_mem htop))
    · rcases hout : w2.out with _ | x
      · rfl
      · obtain ⟨e, -, hv, -⟩ := h.peeking₂.out x hout
        rw [h.peeking₁.reheaped.valid] at hv
        obtain ⟨m, hm, hr⟩ := resident_of_valid hv
        exact absurd ((young_of_valid hv hm).symm.trans (hyoung e.id m hm hr)) (by simp)

theorem Inv.ready_inv (h : Inv s) :
    Inv (AsymCache.ready F order s) ∧ (AsymCache.ready F order s).frozen = true ∧ (AsymCache.ready F order s).cache = s.cache := by
  obtain ⟨r, hready, hr⟩ := h.ready horder
  unfold AsymCache.ready
  rw [hready]
  exact hr

theorem Inv.rebuilds_iff (h : Inv s) :
    Rebuilds F order s ↔ (∃ x, x ∈ s.cache.q) ∧
      (∀ x m, (AsymCache.ready F order s).metas.lookup x = some m → m.resident = true → young F (AsymCache.ready F order s) m = true) ∧
      ∀ e ∈ (AsymCache.ready F order s).h1, ¬ Resident (AsymCache.ready F order s).metas e.id := by
  obtain ⟨hr, hfrozen, -⟩ := h.ready_inv horder
  obtain ⟨w1, w2, hsearch⟩ := hr.searches horder hfrozen
  rw [← hsearch.empty_iff horder]
  constructor
  · rintro ⟨hpos, w1', w2', hpeek1, hpeek2, hout1, hout2⟩
    cases hsearch.first.symm.trans hpeek1
    cases hsearch.second.symm.trans hpeek2
    refine ⟨?_, hout1, hout2⟩
    by_contra hnil
    have := h.n_resident_nil (not_exists.1 hnil)
    omega
  · rintro ⟨⟨x, hx⟩, hout1, hout2⟩
    exact ⟨h.n_resident_pos hx, w1, w2, hsearch.first, hsearch.second, hout1, hout2⟩

theorem Inv.victim_of_rebuilds (h : Inv s) (hreb : Rebuilds F order s) :
    ∃ t v, choose_victim F order s = some (t, some v) ∧ top_id true t = some v := by
  obtain ⟨⟨x, hx⟩, hyoung, -⟩ := (h.rebuilds_iff horder).1 hreb
  obtain ⟨hpos, w1, w2, hpeek1, hpeek2, hout1, hout2⟩ := hreb
  obtain ⟨hr, hfrozen, hcache⟩ := h.ready_inv (F := F) horder
  obtain ⟨w1', w2', hsearch⟩ := hr.searches (F := F) horder hfrozen
  cases hsearch.first.symm.trans hpeek1
  cases hsearch.second.symm.trans hpeek2
  have hcomp := compact_spec (F := F) horder w2.s
  have hre := hsearch.peeking₁.reheaped.trans hsearch.peeking₂.reheaped
  have hset : Settled F (compact F order w2.s) := by
    intro f e htop
    rw [hcomp.reheaped.valid]
    exact hcomp.valid f e (top_mem htop)
  obtain ⟨m, hm, hres⟩ := (hr.listed x).1 (hcache.symm ▸ hx)
  obtain ⟨f, e, he, rfl⟩ := hcomp.filed x ⟨m, hre.metas.symm ▸ hm, hres⟩
  have hf : f = true := by
    rw [← young_of_valid (hcomp.valid f e he) (hre.metas.symm ▸ hm), hre.young]
    exact hyoung _ m hm hres
  have hne : heap true (compact F order w2.s) ≠ [] := ne_nil_of_mem (hf ▸ he)
  obtain ⟨c, hc⟩ := ne_none_iff_exists'.1 (mt top_eq_none.1 hne : top HeapEntry.before _ ≠ none)
  have htop : top_id true (compact F order w2.s) = some c.id := by simp [top_id, hc]
  refine ⟨compact F order w2.s, c.id, ?_, htop⟩
  have hpeek1' := hpeek1
  unfold AsymCache.ready at hpeek1'
  unfold choose_victim
  rw [if_neg (by omega)]
  simp only [hpeek1', hpeek2, hout1, hout2, bind, bind_some, peek_valid_settled hset, htop]
  rfl

end

/-! ## The counts -/

omit [LinearOrder D] in
theorem Inv.n_resident_eq (h : Inv s) : s.n_resident = s.metas.entries.countP fun e => e.2.resident := by
  rw [h.count]
  unfold Table.weigh
  induction s.metas.entries with
  | nil => rfl
  | cons e l ih =>
    rw [map_cons, sum_cons, ih, countP_cons]
    dsimp only
    cases e.2.resident with
    | true =>
      simp only [if_true]
      omega
    | false =>
      simp only [Bool.false_eq_true, if_false]
      omega

omit [LinearOrder D] in
theorem Inv.length_eq (h : Inv s) : (s.metas.entries.countP fun e => e.2.resident) = s.cache.q.entries.length := by
  have hperm : ((s.metas.entries.filter fun e => e.2.resident).map Sigma.fst).Perm s.cache.q.keys := by
    apply (perm_ext_iff_of_nodup ?_ s.cache.q.keys_nodup).2
    · intro x
      rw [← AList.mem_keys, h.listed, List.mem_map]
      constructor
      · rintro ⟨e, he, rfl⟩
        rw [mem_filter] at he
        exact ⟨e.2, Table.lookup_of_mem_entries he.1, he.2⟩
      · rintro ⟨m, hm, hr⟩
        exact ⟨⟨x, m⟩, mem_filter.2 ⟨Table.mem_entries_of_lookup hm, hr⟩, rfl⟩
    · exact (filter_sublist.map _).nodup s.metas.keys_nodup
  have hlen := hperm.length_eq
  rw [length_map, ← countP_eq_length_filter] at hlen
  rw [hlen]
  exact length_map ..

/-- The heaps cover the residents, and the searches and `choose_victim` end. The heaps are built again
when all residents are young and none is on the first heap. -/
theorem AsymCache_coverage (F : Doubles D P) (order : Table ObjId (BlockMeta D) → List ObjId)
    (horder : ∀ t, (order t).Perm t.keys) (cache_size : Int) (s : State D P)
    (h : Reach (call F order) (fun _ _ => True) (AsymCache_init F cache_size) s) :
    (s.n_resident = s.metas.entries.countP fun e => e.2.resident) ∧ s.n_resident = s.cache.q.entries.length ∧
    (s.frozen = true → ∀ x ∈ s.cache.q, (∃ e ∈ s.h1, e.id = x) ∨ ∃ e ∈ s.h2, e.id = x) ∧
    (∃ w₁ w₂, peek_valid F order true (ready F order s) = some w₁ ∧ peek_valid F order false w₁.s = some w₂) ∧
    (∀ x ∈ s.cache.q, ∃ t v, choose_victim F order s = some (t, some v) ∧ v ∈ s.cache.q ∧
      (Rebuilds F order s → top_id true t = some v)) ∧
    (Rebuilds F order s ↔ (∃ x, x ∈ s.cache.q) ∧
      (∀ x m, (ready F order s).metas.lookup x = some m → m.resident = true → young F (ready F order s) m = true) ∧
      ∀ e ∈ (ready F order s).h1, ¬ Resident (ready F order s).metas e.id) := by
  have hinv := inv_of_reach horder h
  refine ⟨hinv.n_resident_eq, ?_, ?_, ?_, ?_, hinv.rebuilds_iff horder⟩
  · rw [hinv.n_resident_eq, hinv.length_eq]
  · intro hfrozen x hx
    obtain ⟨f, e, he, hid⟩ := hinv.filed hfrozen x ((hinv.listed x).1 hx)
    cases f with
    | true => exact .inl ⟨e, he, hid⟩
    | false => exact .inr ⟨e, he, hid⟩
  · obtain ⟨hr, hfrozen, -⟩ := hinv.ready_inv horder
    obtain ⟨w₁, w₂, hsearch⟩ := hr.searches horder hfrozen
    exact ⟨w₁, w₂, hsearch.first, hsearch.second⟩
  · intro x hx
    obtain ⟨t, v, hchoose, -, -, hv⟩ := choose_victim_spec horder hinv hx
    refine ⟨t, v, hchoose, hv, fun hreb => ?_⟩
    obtain ⟨t', v', hchoose', htop⟩ := hinv.victim_of_rebuilds horder hreb
    cases hchoose.symm.trans hchoose'
    exact htop

/-- Block 1 is on the second heap and is accessed again. The search of the first heap finds nothing, and
the search of the second files the block to the first. -/
theorem heaps_rebuilt_in_run : ∃ s, Reach (call .seconds fun t => t.keys) (fun _ _ => True) (AsymCache_init .seconds 3) s ∧
    Rebuilds .seconds (fun t => t.keys) s := by
  obtain ⟨s, hs, hpos, w1, hpeek1, hout1, w2, hpeek2, hout2⟩ : ∃ s, runs (call .seconds fun t => t.keys) (AsymCache_init .seconds 3)
      [.record_request [1, 2], .get { obj_id := 1 }, .get { obj_id := 2 }, .set_request_ctx 1000, .evict,
        .record_request [1]] = some s ∧
      0 < s.n_resident ∧ ∃ w1, peek_valid .seconds (fun t => t.keys) true (ready .seconds (fun t => t.keys) s) = some w1 ∧
        w1.out = none ∧ ∃ w2, peek_valid .seconds (fun t => t.keys) false w1.s = some w2 ∧ w2.out = none := by decide +kernel
  exact ⟨s, .of_runs (fun _ _ _ => trivial) hs, hpos, w1, w2, hpeek1, hpeek2, hout1, hout2⟩

theorem AsymCache_coverage_of_three_blocks : ∃ s t v,
    Reach (call .seconds fun t => t.keys) (fun _ _ => True) (AsymCache_init .seconds 3) s ∧
    choose_victim .seconds (fun t => t.keys) s = some (t, some v) ∧ v ∈ s.cache.q := by
  obtain ⟨s, hs, hend⟩ : ∃ s, runs (call .seconds fun t => t.keys) (AsymCache_init .seconds 3)
      [.record_request [1, 2], .get { obj_id := 1 }, .get { obj_id := 2 }, .get { obj_id := 3 }] = some s ∧
      1 ∈ s.cache.q := by decide +kernel
  have hreach : Reach (call .seconds fun t => t.keys) (fun _ _ => True) (AsymCache_init .seconds 3) s :=
    .of_runs (fun _ _ _ => trivial) hs
  obtain ⟨-, -, -, -, hvictim, -⟩ := AsymCache_coverage .seconds (fun t => t.keys) (fun _ => .refl _) 3 s hreach
  obtain ⟨t, v, hchoose, hv, -⟩ := hvictim 1 hend
  exact ⟨s, t, v, hreach, hchoose, hv⟩

end CacheSim.AsymCache
