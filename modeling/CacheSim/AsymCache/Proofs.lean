import CacheSim.AsymCache.Model

/-!
# What becomes of the candidate of AsymCache

`choose_victim` leaves its candidates on the heaps, so the eviction finds them again. But while it
looks at the second heap it may file blocks to the first, whose candidate it has taken already.
-/

namespace CacheSim.AsymCache

open Lib List Option AList Table

variable {D P : Type} [LinearOrder D] {F : Doubles D P} {order : Table ObjId (BlockMeta D) → List ObjId}
  {s t : State D P} {x : ObjId} {m : BlockMeta D} {f g : Bool} {e : HeapEntry D}

variable {a b : HeapEntry D}

theorem before_iff : a.before b = true ↔ a.key < b.key ∨ a.key = b.key ∧ a.seq < b.seq := by
  unfold HeapEntry.before
  rcases eq_or_ne a.key b.key with hkey | hkey
  · simp [hkey]
  · simp [hkey]

theorem before_asymm (a b : HeapEntry D) (h : a.before b = true) : b.before a = false := by
  rw [← Bool.not_eq_true, before_iff]
  rcases before_iff.1 h with hlt | ⟨heq, hlt⟩
  · rintro (hlt' | ⟨heq', -⟩)
    · exact lt_asymm hlt hlt'
    · exact hlt.ne heq'.symm
  · rintro (hlt' | ⟨-, hlt'⟩)
    · exact hlt'.ne heq.symm
    · omega

theorem before_split (a b c : HeapEntry D) (h : a.before c = true) : a.before b = true ∨ b.before c = true := by
  rw [before_iff, before_iff]
  rcases before_iff.1 h with hlt | ⟨heq, hlt⟩
  · rcases lt_or_ge a.key b.key with hab | hab
    · exact .inl (.inl hab)
    · exact .inr (.inl (hab.trans_lt hlt))
  · rcases lt_trichotomy a.key b.key with hab | hab | hab
    · exact .inl (.inl hab)
    · rcases lt_or_ge a.seq b.seq with hseq | hseq
      · exact .inl (.inr ⟨hab, hseq⟩)
      · exact .inr (.inr ⟨hab.symm.trans heq, by omega⟩)
    · exact .inr (.inl (heq ▸ hab))

theorem not_before {h : List (HeapEntry D)} (htop : top HeapEntry.before h = some a) (hb : b ∈ h) : b.before a = false :=
  not_before_top before_asymm before_split htop hb

/-! ## The heaps -/

def with_heaps (s : State D P) (h1 h2 : List (HeapEntry D)) (seq : Nat) : State D P := { s with h1 := h1, h2 := h2, seq := seq }

def Reheaped (s t : State D P) : Prop := t = with_heaps s t.h1 t.h2 t.seq

omit [LinearOrder D] in
theorem Reheaped.refl (s : State D P) : Reheaped s s := rfl

omit [LinearOrder D] in
theorem Reheaped.trans {u : State D P} (h1 : Reheaped s t) (h2 : Reheaped t u) : Reheaped s u := by
  rw [h2, h1]
  rfl

section

variable (h : Reheaped s t)
include h

omit [LinearOrder D] in
theorem Reheaped.file (x : ObjId) (m : BlockMeta D) : Reheaped s (file F t x m) := by
  refine h.trans ?_
  unfold AsymCache.file
  split_ifs <;> rfl

omit [LinearOrder D] in
theorem Reheaped.set_heap (f : Bool) (l : List (HeapEntry D)) : Reheaped s (set_heap f t l) := by
  refine h.trans ?_
  unfold AsymCache.set_heap
  split_ifs <;> rfl

theorem Reheaped.valid (f : Bool) (e : HeapEntry D) : valid F t f e = valid F s f e := by
  rw [h]
  rfl

omit [LinearOrder D] in
theorem Reheaped.metas : t.metas = s.metas := by
  rw [h]
  rfl

omit [LinearOrder D] in
theorem Reheaped.young (m : BlockMeta D) : young F t m = young F s m := by
  rw [h]
  rfl

end

omit [LinearOrder D] in
theorem heap_file (f : Bool) (s : State D P) (x : ObjId) (m : BlockMeta D) :
    heap f (file F s x m) = if young F s m = f then entry F s s.seq x m :: heap f s else heap f s := by
  unfold heap file
  cases f <;> cases young F s m <;> simp

omit [LinearOrder D] in
theorem seq_file (s : State D P) (x : ObjId) (m : BlockMeta D) : (file F s x m).seq = s.seq + 1 := by
  unfold file
  split_ifs <;> rfl

omit [LinearOrder D] in
theorem heap_set_heap (f g : Bool) (s : State D P) (l : List (HeapEntry D)) :
    heap f (set_heap g s l) = if f = g then l else heap f s := by
  unfold heap set_heap
  cases f <;> cases g <;> simp

omit [LinearOrder D] in
theorem seq_set_heap (g : Bool) (s : State D P) (l : List (HeapEntry D)) : (set_heap g s l).seq = s.seq := by
  unfold set_heap
  split_ifs <;> rfl

theorem valid_entry (hm : s.metas.lookup x = some m) (hr : m.resident = true) (n : Nat) :
    valid F s f (entry F s n x m) = true ↔ young F s m = f := by
  simp [valid, entry, hm, hr]

def Filed (s : State D P) (x : ObjId) : Prop := ∃ f, ∃ e ∈ heap f s, e.id = x

omit [LinearOrder D] in
theorem Filed.file (h : Filed s x) (y : ObjId) (m : BlockMeta D) : Filed (file F s y m) x := by
  obtain ⟨f, e, he, rfl⟩ := h
  refine ⟨f, e, ?_, rfl⟩
  rw [heap_file]
  split_ifs
  · exact mem_cons_of_mem _ he
  · exact he

omit [LinearOrder D] in
theorem filed_self (s : State D P) (x : ObjId) (m : BlockMeta D) : Filed (file F s x m) x := by
  refine ⟨young F s m, entry F s s.seq x m, ?_, rfl⟩
  rw [heap_file, if_pos rfl]
  exact mem_cons_self

def Numbered (s : State D P) : Prop := ∀ f, ∀ e ∈ heap f s, e.seq < s.seq

omit [LinearOrder D] in
theorem Numbered.file (h : Numbered s) (x : ObjId) (m : BlockMeta D) : Numbered (file F s x m) := by
  intro f e he
  rw [heap_file] at he
  rw [seq_file]
  split_ifs at he
  · rcases mem_cons.1 he with rfl | he
    · exact Nat.lt_succ_self _
    · exact Nat.lt_succ_of_lt (h f e he)
  · exact Nat.lt_succ_of_lt (h f e he)

theorem Numbered.pop (h : Numbered s) (f : Bool) (e : HeapEntry D) : Numbered (set_heap f s ((heap f s).erase e)) := by
  intro g a ha
  rw [seq_set_heap]
  rw [heap_set_heap] at ha
  split_ifs at ha with hg
  · exact h f a (mem_of_mem_erase ha)
  · exact h g a ha

def Resident (metas : Table ObjId (BlockMeta D)) (x : ObjId) : Prop := ∃ m, metas.lookup x = some m ∧ m.resident = true

def Made (F : Doubles D P) (s : State D P) (f : Bool) (e : HeapEntry D) : Prop :=
  ∃ m n, s.metas.lookup e.id = some m ∧ m.resident = true ∧ young F s m = f ∧ e = entry F s n e.id m

theorem Made.valid (h : Made F s f e) : valid F s f e = true := by
  obtain ⟨m, n, hm, hr, hyoung, heq⟩ := h
  rw [heq]
  exact (valid_entry hm hr n).2 hyoung

omit [LinearOrder D] in
theorem Made.of_reheaped (h : Made F t f e) (hre : Reheaped s t) : Made F s f e := by
  obtain ⟨m, n, hm, hr, hyoung, heq⟩ := h
  refine ⟨m, n, hre.metas ▸ hm, hr, hre.young m ▸ hyoung, ?_⟩
  rw [heq, hre]
  rfl

structure Compacted (F : Doubles D P) (s t : State D P) : Prop where
  reheaped : Reheaped s t
  filed : ∀ x, Resident s.metas x → Filed t x
  made : ∀ f, ∀ e ∈ heap f t, Made F s f e
  numbered : Numbered t

theorem Compacted.valid (h : Compacted F s t) (f : Bool) (e : HeapEntry D) (he : e ∈ heap f t) : valid F s f e = true :=
  (h.made f e he).valid

def compact_body (F : Doubles D P) (s : State D P) (id : ObjId) : State D P :=
  match s.metas.lookup id with
  | none => s
  | some m => if m.resident then file F s id m else s

omit [LinearOrder D] in
theorem compact_body_other (h : ¬ Resident s.metas x) : compact_body F s x = s := by
  rcases hm : s.metas.lookup x with _ | m
  · simp [compact_body, hm]
  · have hr : ¬ m.resident = true := fun hr => h ⟨m, hm, hr⟩
    simp [compact_body, hm, hr]

omit [LinearOrder D] in
theorem made_file {t : State D P} (ht : Reheaped s t) (hm : s.metas.lookup x = some m) (hr : m.resident = true)
    (hv : ∀ f, ∀ e ∈ heap f t, Made F s f e) : ∀ f, ∀ e ∈ heap f (file F t x m), Made F s f e := by
  intro f e he
  rw [heap_file] at he
  split_ifs at he with hyoung
  · rcases mem_cons.1 he with rfl | he
    · refine ⟨m, t.seq, hm, hr, ht.young m ▸ hyoung, ?_⟩
      rw [ht]
      rfl
    · exact hv f e he
  · exact hv f e he

omit [LinearOrder D] in
theorem compact_loop (ids : List ObjId) : ∀ t : State D P, Reheaped s t → Numbered t → (∀ f, ∀ e ∈ heap f t, Made F s f e) →
    Reheaped s (ids.foldl (compact_body F) t) ∧ Numbered (ids.foldl (compact_body F) t) ∧
    (∀ f, ∀ e ∈ heap f (ids.foldl (compact_body F) t), Made F s f e) ∧
    ∀ x, Resident s.metas x → x ∈ ids ∨ Filed t x → Filed (ids.foldl (compact_body F) t) x := by
  induction ids with
  | nil => exact fun t ht hn hv => ⟨ht, hn, hv, fun x _ hx => by simpa using hx⟩
  | cons y ids ih =>
    intro t ht hn hv
    rw [foldl_cons]
    by_cases hy : Resident s.metas y
    · obtain ⟨m, hm, hr⟩ := hy
      have hbody : compact_body F t y = file F t y m := by simp [compact_body, ht.metas, hm, hr]
      rw [hbody]
      obtain ⟨h1, h2, h3, h4⟩ := ih (file F t y m) (ht.file y m) (hn.file y m) (made_file ht hm hr hv)
      refine ⟨h1, h2, h3, fun x hx hin => h4 x hx ?_⟩
      rcases hin with hin | hin
      · rcases mem_cons.1 hin with rfl | hin
        · exact .inr (filed_self t x m)
        · exact .inl hin
      · exact .inr (hin.file y m)
    · have hbody : compact_body F t y = t := compact_body_other (by rwa [ht.metas])
      rw [hbody]
      obtain ⟨h1, h2, h3, h4⟩ := ih t ht hn hv
      refine ⟨h1, h2, h3, fun x hx hin => h4 x hx ?_⟩
      rcases hin with hin | hin
      · rcases mem_cons.1 hin with rfl | hin
        · exact absurd hx hy
        · exact .inl hin
      · exact .inr hin

omit [LinearOrder D] in
theorem compact_spec (horder : ∀ t, (order t).Perm t.keys) (s : State D P) : Compacted F s (compact F order s) := by
  have hempty : ∀ f, heap f ({ s with h1 := [], h2 := [] } : State D P) = [] := by
    intro f
    unfold heap
    split_ifs <;> rfl
  obtain ⟨h₁, h₂, h3, h4⟩ := compact_loop (order s.metas) { s with h1 := [], h2 := [] } rfl
    (fun f e he => by simp [hempty] at he) (fun f e he => by simp [hempty] at he)
  refine ⟨h₁, fun x hx => h4 x hx (.inl ?_), h3, h₂⟩
  obtain ⟨m, hm, -⟩ := hx
  exact (horder s.metas).mem_iff.2 (mem_of_lookup hm)

theorem push_spec (horder : ∀ t, (order t).Perm t.keys) (hm : s.metas.lookup x = some m) (hr : m.resident = true)
    (hn : Numbered s) : Reheaped s (push F order s x m) ∧ Numbered (push F order s x m) ∧
      (∀ y, Resident s.metas y → y = x ∨ Filed s y → Filed (push F order s x m) y) ∧
      (∀ f, ∀ e ∈ heap f (push F order s x m), e ∈ heap f s ∨ Made F s f e) ∧
      (∀ f, (heap f (push F order s x m)).countP (fun e => !valid F s f e) ≤ (heap f s).countP (fun e => !valid F s f e)) := by
  have hre : Reheaped s (file F s x m) := (Reheaped.refl s).file x m
  unfold push
  dsimp only
  split_ifs
  · have hc := compact_spec (F := F) horder (file F s x m)
    refine ⟨hre.trans hc.reheaped, hc.numbered, ?_, ?_, ?_⟩
    · intro y hy _
      exact hc.filed y (hre.metas ▸ hy)
    · intro f e he
      exact .inr ((hc.made f e he).of_reheaped hre)
    · intro f
      rw [countP_eq_zero.2]
      · exact Nat.zero_le _
      · intro e he
        simp [← hre.valid f e, hc.valid f e he]
  · refine ⟨hre, hn.file x m, ?_, ?_, ?_⟩
    · rintro y - (rfl | hy)
      · exact filed_self s y m
      · exact hy.file x m
    · intro f e he
      rw [heap_file] at he
      split_ifs at he with hyoung
      · rcases mem_cons.1 he with rfl | he
        · exact .inr ⟨m, s.seq, hm, hr, hyoung, rfl⟩
        · exact .inl he
      · exact .inl he
    · intro f
      rw [heap_file]
      split_ifs with hyoung
      · simp [(valid_entry hm hr s.seq).2 hyoung]
      · exact le_rfl

/-! ## The search of a heap -/

structure Peeking (F : Doubles D P) (f : Bool) (s : State D P) (w : Peek D P) : Prop where
  reheaped : Reheaped s w.s
  numbered : Numbered w.s
  filed : ∀ x, Resident s.metas x → Filed w.s x
  out : ∀ x, w.out = some x → ∃ e, top HeapEntry.before (heap f w.s) = some e ∧ valid F s f e = true ∧ e.id = x

def to_go (F : Doubles D P) (f : Bool) (s : State D P) (w : Peek D P) : Nat :=
  if w.out.isNone then (heap f w.s).countP (fun e => !valid F s f e) + 1 else 0

theorem resident_of_valid (h : valid F s f e = true) : Resident s.metas e.id := by
  obtain ⟨m, hm, hok⟩ := (any_eq_true _ _).1 h
  simp only [Bool.and_eq_true] at hok
  exact ⟨m, hm, hok.1.1⟩

def refile (F : Doubles D P) (order : Table ObjId (BlockMeta D) → List ObjId) (f : Bool) (s : State D P) (e : HeapEntry D) :
    State D P :=
  let popped := set_heap f s ((heap f s).erase e)
  match s.metas.lookup e.id with
  | none => popped
  | some m => if m.resident then push F order popped e.id m else popped

variable {w : Peek D P}

section

variable (htop : top HeapEntry.before (heap f w.s) = some e)
include htop

theorem peek_step_bad (hbad : valid F w.s f e = false) :
    peek_step F order f w = some { w with s := refile F order f w.s e } := by
  unfold peek_step refile
  simp only [htop, bind, bind_some]
  rcases w.s.metas.lookup e.id with _ | m
  · rfl
  · dsimp only
    cases m.resident with
    | false => rfl
    | true => simp [hbad]

theorem peek_step_good (hgood : valid F w.s f e = true) :
    peek_step F order f w = some { w with out := some e.id } := by
  obtain ⟨m, hm, hr⟩ := resident_of_valid hgood
  unfold peek_step
  simp [htop, hm, hr, hgood]

end

theorem Peeking.step (horder : ∀ t, (order t).Perm t.keys) (h : Peeking F f s w) (hout : w.out = none)
    (hne : heap f w.s ≠ []) :
    ∃ w', peek_step F order f w = some w' ∧ Peeking F f s w' ∧ to_go F f s w' < to_go F f s w := by
  obtain ⟨e, htop⟩ := ne_none_iff_exists'.1 (mt top_eq_none.1 hne : top HeapEntry.before (heap f w.s) ≠ none)
  have hmem := top_mem htop
  have hto : to_go F f s w = (heap f w.s).countP (fun e => !valid F s f e) + 1 := by simp [to_go, hout]
  by_cases hgood : valid F s f e = true
  · refine ⟨_, peek_step_good htop (by rw [h.reheaped.valid, hgood]), { h with out := ?_ }, ?_⟩
    · intro x hx
      exact ⟨e, htop, hgood, some.inj hx⟩
    · rw [hto]
      simp [to_go]
  · have hbad : valid F w.s f e = false := by
      rw [h.reheaped.valid]
      simpa using hgood
    set p := set_heap f w.s ((heap f w.s).erase e)
    have hp : Reheaped s p := h.reheaped.set_heap f _
    have hnum : Numbered p := h.numbered.pop f e
    have hfiled : ∀ x, Resident s.metas x → x ≠ e.id → Filed p x := by
      intro x hx hout
      obtain ⟨g, a, ha, rfl⟩ := h.filed x hx
      have hae : a ≠ e := fun heq => hout (congrArg HeapEntry.id heq)
      refine ⟨g, a, ?_, rfl⟩
      rw [heap_set_heap]
      split_ifs with hg
      · subst hg
        exact (mem_erase_of_ne hae).2 ha
      · exact ha
    have hcount : (heap f p).countP (fun e => !valid F s f e) + 1 = (heap f w.s).countP (fun e => !valid F s f e) := by
      rw [heap_set_heap, if_pos rfl, (perm_cons_erase hmem).countP_eq, countP_cons_of_pos (by simpa using hgood)]
    have hdrop : ¬ Resident s.metas e.id → Peeking F f s { w with s := p } ∧ to_go F f s { w with s := p } < to_go F f s w := by
      intro hnot
      refine ⟨⟨hp, hnum, fun x hx => hfiled x hx ?_, by simp [hout]⟩, ?_⟩
      · rintro rfl
        exact hnot hx
      · rw [hto, ← hcount]
        simp [to_go, hout]
    rw [peek_step_bad htop hbad]
    change ∃ w', some { w with s := match w.s.metas.lookup e.id with
      | none => p
      | some m => if m.resident then push F order p e.id m else p } = some w' ∧ _
    rcases hm : w.s.metas.lookup e.id with _ | m
    · rw [h.reheaped.metas] at hm
      exact ⟨_, rfl, hdrop (by simp [Resident, hm])⟩
    · dsimp only
      split_ifs with hr
      · have hm' : p.metas.lookup e.id = some m := by rw [hp.metas, ← h.reheaped.metas, hm]
        obtain ⟨h1, h2, h3, -, h5⟩ := push_spec horder hm' hr hnum
        refine ⟨_, rfl, ⟨hp.trans h1, h2, ?_, by simp [hout]⟩, ?_⟩
        · intro x hx
          apply h3 x (hp.metas ▸ hx)
          rcases eq_or_ne x e.id with heq | hne
          · exact .inl heq
          · exact .inr (hfiled x hx hne)
        · have hle := h5 f
          simp only [hp.valid] at hle
          simp only [to_go, hout, isNone_none, if_true]
          omega
      · rw [h.reheaped.metas] at hm
        exact ⟨_, rfl, hdrop (by simp [Resident, hm, hr])⟩

theorem peek_valid_spec (horder : ∀ t, (order t).Perm t.keys) (hn : Numbered s) (hf : ∀ x, Resident s.metas x → Filed s x)
    (f : Bool) : ∃ w, peek_valid F order f s = some w ∧ Peeking F f s w ∧ (w.out = none → heap f w.s = []) := by
  have hbody : ∀ w : Peek D P, Peeking F f s w → (w.out.isNone && !(heap f w.s).isEmpty) = true →
      ∃ w', peek_step F order f w = some w' ∧ Peeking F f s w' ∧ to_go F f s w' < to_go F f s w := by
    intro w hw hcond
    simp only [Bool.and_eq_true, isNone_iff_eq_none, Bool.not_eq_true', isEmpty_eq_false_iff] at hcond
    exact hw.step horder hcond.1 hcond.2
  have hfuel : to_go F f s { s := s } ≤ (heap f s).length + 2 := by
    have := countP_le_length (p := fun e => !valid F s f e) (l := heap f s)
    simp only [to_go, isNone_none, if_true]
    omega
  obtain ⟨w, hloop, hw, hend⟩ := whileLoop_total (Peeking F f s) (to_go F f s) hbody ((heap f s).length + 2) { s := s }
    ⟨.refl s, hn, hf, by simp⟩ hfuel
  refine ⟨w, hloop, hw, fun hout => ?_⟩
  simpa [hout] using hend

theorem peek_valid_rounds (J : State D P → Prop)
    (hJ : ∀ t e, J t → top HeapEntry.before (heap f t) = some e → valid F t f e = false → J (refile F order f t e))
    (hs : J s) (hpeek : peek_valid F order f s = some w) : J w.s := by
  refine (whileLoop_inv (fun w : Peek D P => J w.s) ?_ _ _ _ hs hpeek).1
  rintro w w' hw hcond hstep
  simp only [Bool.and_eq_true, Bool.not_eq_true', isEmpty_eq_false_iff] at hcond
  obtain ⟨e, htop⟩ := ne_none_iff_exists'.1 (mt top_eq_none.1 hcond.2 : top HeapEntry.before (heap f w.s) ≠ none)
  by_cases hgood : valid F w.s f e = true
  · cases (peek_step_good htop hgood).symm.trans hstep
    exact hw
  · have hbad : valid F w.s f e = false := by simpa using hgood
    cases (peek_step_bad htop hbad).symm.trans hstep
    exact hJ w.s e hw htop hbad

/-! ## A search that does not compact -/

def Short (s : State D P) : Prop := (s.h1.length + s.h2.length : Int) ≤ 3 * s.n_resident + 2048

omit [LinearOrder D] in
theorem length_file (s : State D P) (x : ObjId) (m : BlockMeta D) :
    (file F s x m).h1.length + (file F s x m).h2.length = s.h1.length + s.h2.length + 1 := by
  unfold file
  split_ifs
  · dsimp only
    rw [length_cons]
    omega
  · dsimp only
    rw [length_cons]
    omega

theorem length_pop (he : e ∈ heap f s) : (set_heap f s ((heap f s).erase e)).h1.length +
    (set_heap f s ((heap f s).erase e)).h2.length + 1 = s.h1.length + s.h2.length := by
  have hlen := length_erase_of_mem he
  have hpos := length_pos_of_mem he
  unfold set_heap heap at *
  cases f with
  | true =>
    simp only [if_true] at hlen hpos ⊢
    omega
  | false =>
    simp only [Bool.false_eq_true, if_false] at hlen hpos ⊢
    omega

theorem refile_short (order : Table ObjId (BlockMeta D) → List ObjId) (hs : Short s) (he : e ∈ heap f s) :
    refile F order f s e = set_heap f s ((heap f s).erase e) ∨
      ∃ m, s.metas.lookup e.id = some m ∧ m.resident = true ∧
        refile F order f s e = file F (set_heap f s ((heap f s).erase e)) e.id m := by
  have hpop := length_pop he
  have hn : (set_heap f s ((heap f s).erase e)).n_resident = s.n_resident := by
    unfold set_heap
    split_ifs <;> rfl
  unfold refile
  rcases hm : s.metas.lookup e.id with _ | m
  · exact .inl rfl
  · dsimp only
    split_ifs with hr
    · refine .inr ⟨m, rfl, hr, ?_⟩
      have hlen := length_file (F := F) (set_heap f s ((heap f s).erase e)) e.id m
      have hn' : (file F (set_heap f s ((heap f s).erase e)) e.id m).n_resident = s.n_resident := by
        rw [← hn]
        unfold file
        split_ifs <;> rfl
      apply if_neg
      unfold Short at hs
      omega
    · exact .inl rfl

structure Quiet (F : Doubles D P) (s t : State D P) : Prop where
  reheaped : Reheaped s t
  short : Short t
  seq : s.seq ≤ t.seq
  kept : ∀ f, ∀ e ∈ heap f s, valid F s f e = true → e ∈ heap f t
  new : ∀ f, ∀ e ∈ heap f t, e ∈ heap f s ∨ valid F s f e = true

omit [LinearOrder D] in
theorem Reheaped.n_resident (h : Reheaped s t) : t.n_resident = s.n_resident := by
  rw [h]
  rfl

theorem Quiet.refile (h : Quiet F s t) (he : e ∈ heap f t) (hbad : valid F s f e = false) : Quiet F s (refile F order f t e) := by
  have hlen := length_pop he
  have hcases := refile_short (F := F) order h.short he
  have hshort := h.short
  have hp := h.reheaped.set_heap f ((heap f t).erase e)
  have hseq := seq_set_heap f t ((heap f t).erase e)
  have hheap := fun g => heap_set_heap g f t ((heap f t).erase e)
  generalize set_heap f t ((heap f t).erase e) = p at hlen hcases hp hseq hheap
  have hkept : ∀ g, ∀ a ∈ heap g s, valid F s g a = true → a ∈ heap g p := by
    intro g a ha hv
    have hin := h.kept g a ha hv
    rw [hheap]
    split_ifs with hg
    · subst hg
      have hne : a ≠ e := by
        rintro rfl
        simp [hv] at hbad
      exact (mem_erase_of_ne hne).2 hin
    · exact hin
  have hnew : ∀ g, ∀ a ∈ heap g p, a ∈ heap g s ∨ valid F s g a = true := by
    intro g a ha
    rw [hheap] at ha
    split_ifs at ha with hg
    · subst hg
      exact h.new g a (mem_of_mem_erase ha)
    · exact h.new g a ha
  unfold Short at hshort
  rcases hcases with hre | ⟨m, hm, hr, hre⟩
  · rw [hre]
    refine ⟨hp, ?_, hseq ▸ h.seq, hkept, hnew⟩
    unfold Short
    rw [hp.n_resident, ← h.reheaped.n_resident]
    omega
  · rw [hre]
    have hlen' := length_file (F := F) p e.id m
    refine ⟨hp.file e.id m, ?_, ?_, ?_, ?_⟩
    · unfold Short
      rw [(hp.file (F := F) e.id m).n_resident, ← h.reheaped.n_resident]
      omega
    · rw [seq_file, hseq]
      exact Nat.le_succ_of_le h.seq
    · intro g a ha hv
      have hin := hkept g a ha hv
      rw [heap_file]
      split_ifs
      · exact mem_cons_of_mem _ hin
      · exact hin
    · intro g a ha
      rw [heap_file] at ha
      split_ifs at ha with hyoung
      · rcases mem_cons.1 ha with rfl | ha
        · have hm' : p.metas.lookup e.id = some m := by rw [hp.metas, ← h.reheaped.metas, hm]
          exact .inr (hp.valid g _ ▸ (valid_entry hm' hr _).2 hyoung)
        · exact hnew g a ha
      · exact hnew g a ha

theorem peek_valid_quiet (hs : Short s) (J : State D P → Prop)
    (hJ : ∀ t e, Quiet F s t → J t → top HeapEntry.before (heap f t) = some e → valid F s f e = false → J (refile F order f t e))
    (hstart : J s) (hpeek : peek_valid F order f s = some w) : Quiet F s w.s ∧ J w.s := by
  refine peek_valid_rounds (fun t => Quiet F s t ∧ J t) ?_ ⟨⟨.refl s, hs, le_rfl, ?_, ?_⟩, hstart⟩ hpeek
  · rintro t e ⟨hq, hj⟩ htop hbad
    rw [hq.reheaped.valid] at hbad
    exact ⟨hq.refile (top_mem htop) hbad, hJ t e hq hj htop hbad⟩
  · exact fun _ _ he _ => he
  · exact fun _ _ he => .inl he

/-- No push of the search compacts, and no block that the search of the second heap files to the first comes to its top. -/
structure Calm (F : Doubles D P) (s : State D P) : Prop where
  short : Short s
  below : ∀ e ∈ s.h2, (∀ a ∈ s.h2, valid F s false a = true → a.before e = false) →
    ∀ m, s.metas.lookup e.id = some m → m.resident = true → young F s m = true →
    ∃ a ∈ s.h1, valid F s true a = true ∧ a.key ≤ F.key s.fitted true m.last_access m.cost

theorem young_of_valid (h : valid F s f e = true) (hm : s.metas.lookup e.id = some m) : young F s m = f := by
  simp only [AsymCache.valid, hm, any_some, Bool.and_eq_true, beq_iff_eq] at h
  exact h.2

theorem Calm.quiet (h : Calm F s) (hq : Quiet F s t) : Calm F t := by
  refine ⟨hq.short, fun e he hfirst m hm hr hyoung => ?_⟩
  rw [hq.reheaped.metas] at hm
  rw [hq.reheaped.young] at hyoung
  have hold : e ∈ s.h2 := by
    rcases hq.new false e he with hin | hv
    · exact hin
    · exact absurd ((young_of_valid hv hm).symm.trans hyoung) (by simp)
  have hfirst' : ∀ a ∈ s.h2, valid F s false a = true → a.before e = false :=
    fun a ha hv => hfirst a (hq.kept false a ha hv) (by rw [hq.reheaped.valid, hv])
  obtain ⟨a, ha, hv, hkey⟩ := h.below e hold hfirst' m hm hr hyoung
  refine ⟨a, hq.kept true a ha hv, by rw [hq.reheaped.valid, hv], ?_⟩
  rw [hq.reheaped]
  exact hkey

theorem peek_second_top (h : Calm F s) (hn : Numbered s) (hpeek : peek_valid F order false s = some w) :
    Quiet F s w.s ∧ top HeapEntry.before w.s.h1 = top HeapEntry.before s.h1 := by
  refine peek_valid_quiet h.short (fun t => top HeapEntry.before t.h1 = top HeapEntry.before s.h1) ?_ rfl hpeek
  intro t e hq htop1 htop hbad
  have hmem := top_mem htop
  have hp := hq.reheaped.set_heap false ((heap false t).erase e)
  have hp1 : (set_heap false t ((heap false t).erase e)).h1 = t.h1 := rfl
  have hpseq : (set_heap false t ((heap false t).erase e)).seq = t.seq := rfl
  rcases refile_short order hq.short hmem with hre | ⟨m, hm, hr, hre⟩
  · rw [hre, hp1, htop1]
  · rw [hre]
    generalize set_heap false t ((heap false t).erase e) = p at hp hp1 hpseq
    have hfile := heap_file (F := F) true p e.id m
    rw [hp.young] at hfile
    change top HeapEntry.before (heap true (file F p e.id m)) = _
    rw [hfile]
    split_ifs with hyoung
    · have hm' : s.metas.lookup e.id = some m := by rw [← hq.reheaped.metas, hm]
      have hold : e ∈ s.h2 := by
        rcases hq.new false e hmem with hin | hv
        · exact hin
        · simp [hv] at hbad
      obtain ⟨a, ha, hv, hkey⟩ := h.below e hold
        (fun a ha hv => not_before htop (hq.kept false a ha hv)) m hm' hr hyoung
      obtain ⟨b, hb⟩ := ne_none_iff_exists'.1
        (mt top_eq_none.1 (ne_nil_of_mem ha) : top HeapEntry.before s.h1 ≠ none)
      have hba : b.key ≤ a.key := by
        have hnot := not_before hb ha
        rw [← Bool.not_eq_true, before_iff] at hnot
        exact not_lt.1 fun hlt => hnot (.inl hlt)
      have hseq : b.seq < p.seq := by
        have hlt : b.seq < s.seq := hn true b (top_mem hb)
        have := hq.seq
        omega
      have hentry : (entry F p p.seq e.id m).key = F.key s.fitted true m.last_access m.cost := by
        rw [hp]
        change F.key s.fitted (young F s m) m.last_access m.cost = _
        rw [hyoung]
      have hbefore : b.before (entry F p p.seq e.id m) = true := by
        rw [before_iff, hentry]
        rcases (hba.trans hkey).lt_or_eq with hlt | heq
        · exact .inl hlt
        · exact .inr ⟨heq, hseq⟩
      change top HeapEntry.before (entry F p p.seq e.id m :: p.h1) = _
      rw [hp1, hb]
      exact top_cons (htop1.trans hb) hbefore
    · exact (congrArg _ hp1).trans htop1

/-! ## The candidates -/

def top_id (f : Bool) (s : State D P) : Option ObjId := (top HeapEntry.before (heap f s)).map fun e => e.id

def Settled (F : Doubles D P) (s : State D P) : Prop :=
  ∀ f e, top HeapEntry.before (heap f s) = some e → valid F s f e = true

theorem Peeking.out_eq (h : Peeking F f s w) (hend : w.out = none → heap f w.s = []) :
    w.out = top_id f w.s ∧ ∀ e, top HeapEntry.before (heap f w.s) = some e → valid F s f e = true := by
  unfold top_id
  rcases hout : w.out with _ | x
  · rw [hend hout]
    simp [top]
  · obtain ⟨e, htop, hv, rfl⟩ := h.out x hout
    refine ⟨by simp [htop], fun a ha => ?_⟩
    rw [← some.inj (htop.symm.trans ha)]
    exact hv

theorem peek_valid_settled (h : Settled F s) (f : Bool) : peek_valid F order f s = some { s := s, out := top_id f s } := by
  unfold peek_valid top_id
  rcases htop : top HeapEntry.before (heap f s) with _ | e
  · have hnil := top_eq_none.1 htop
    apply whileLoop_stop
    simp [hnil]
  · have hne : heap f s ≠ [] := ne_nil_of_mem (top_mem htop)
    have hstep : peek_step F order f { s := s } = some { s := s, out := some e.id } := peek_step_good htop (h f e htop)
    rw [whileLoop]
    simp only [isNone_none, Bool.true_and, Bool.not_eq_true', isEmpty_eq_false_iff, if_pos hne, hstep]
    exact whileLoop_stop _ _ _ _ (by simp)

variable {c1 c2 : Option ObjId}

omit [LinearOrder D] in
theorem pick_eq_none (h : pick F s c1 c2 = none) : c1 = none ∧ c2 = none := by
  cases c1 <;> cases c2 <;> simp_all [pick]

omit [LinearOrder D] in
theorem pick_eq_some (h : pick F s c1 c2 = some x) : c1 = some x ∨ c2 = some x := by
  rcases c1 with _ | c1 <;> rcases c2 with _ | c2
  · simp [pick] at h
  · exact .inr h
  · exact .inl h
  · simp only [pick] at h ⊢
    split_ifs at h
    · exact .inl h
    · exact .inr h

/-! ## The invariant -/

/-- The table and the blocks agree, and after `freeze` every resident is filed. -/
structure Inv (s : State D P) : Prop where
  fifo : s.cache.Inv
  listed : ∀ x, x ∈ s.cache.q ↔ Resident s.metas x
  count : s.n_resident = s.metas.weigh fun _ m => if m.resident then 1 else 0
  filed : s.frozen = true → ∀ x, Resident s.metas x → Filed s x
  numbered : Numbered s

omit [LinearOrder D] in
theorem Inv.n_resident_pos (h : Inv s) (hx : x ∈ s.cache.q) : 0 < s.n_resident := by
  obtain ⟨m, hm, hr⟩ := (h.listed x).1 hx
  have hweigh := weigh_erase (fun (_ : ObjId) (m : BlockMeta D) => if m.resident then (1 : Int) else 0) hm
  have hrest : 0 ≤ Table.weigh (fun _ m => if m.resident then (1 : Int) else 0) (s.metas.erase x) := by
    apply sum_nonneg
    intro n hn
    obtain ⟨e, -, rfl⟩ := mem_map.1 hn
    dsimp only
    split_ifs <;> decide
  rw [h.count]
  simp only [hr, if_true] at hweigh
  omega

omit [LinearOrder D] in
theorem Inv.n_resident_nil (h : Inv s) (hnil : ∀ x, x ∉ s.cache.q) : s.n_resident ≤ 0 := by
  rw [h.count]
  apply le_of_eq
  apply sum_eq_zero
  intro n hn
  obtain ⟨e, he, rfl⟩ := mem_map.1 hn
  apply if_neg
  intro hr
  exact hnil e.1 ((h.listed e.1).2 ⟨e.2, lookup_of_mem_entries he, hr⟩)

omit [LinearOrder D] in
theorem Inv.reheaped (h : Inv s) (hre : Reheaped s t) (hfiled : t.frozen = true → ∀ x, Resident t.metas x → Filed t x)
    (hn : Numbered t) : Inv t := by
  refine ⟨?_, ?_, ?_, hfiled, hn⟩
  · rw [hre]
    exact h.fifo
  · rw [hre]
    exact h.listed
  · rw [hre]
    exact h.count

theorem Inv.freeze (horder : ∀ t, (order t).Perm t.keys) (h : Inv s) :
    Inv (freeze F order s) ∧ (freeze F order s).frozen = true ∧ (freeze F order s).cache = s.cache ∧
      Settled F (freeze F order s) := by
  set r : State D P := { s with fitted := F.fit s.gaps, gaps := [], frozen := true }
  have hc : Compacted F r (AsymCache.freeze F order s) := compact_spec horder r
  have hre := hc.reheaped
  refine ⟨⟨?_, ?_, ?_, ?_, hc.numbered⟩, ?_, ?_, ?_⟩
  · rw [hre]
    exact h.fifo
  · rw [hre]
    exact h.listed
  · rw [hre]
    exact h.count
  · intro _ x hx
    exact hc.filed x (hre.metas ▸ hx)
  · rw [hre]
    rfl
  · rw [hre]
    rfl
  · intro f e htop
    rw [hre.valid]
    exact hc.valid f e (top_mem htop)

theorem choose_victim_settled (hset : Settled F s) (hfrozen : s.frozen = true) (hpos : 0 < s.n_resident)
    (hv : pick F s (top_id true s) (top_id false s) = some x) : choose_victim F order s = some (s, some x) := by
  unfold choose_victim
  rw [if_neg (by omega), if_pos hfrozen]
  simp only [peek_valid_settled hset, bind, bind_some, hv]
  rfl

theorem Inv.pick_settled (h : Inv s) (hset : Settled F s) (hfrozen : s.frozen = true) (hx : x ∈ s.cache.q) :
    ∃ v, pick F s (top_id true s) (top_id false s) = some v ∧ v ∈ s.cache.q := by
  obtain ⟨v, hv⟩ : ∃ v, pick F s (top_id true s) (top_id false s) = some v := by
    apply ne_none_iff_exists'.1
    intro hnone
    obtain ⟨h1, h2⟩ := pick_eq_none hnone
    obtain ⟨f, e, he, -⟩ := h.filed hfrozen x ((h.listed x).1 hx)
    have hnil : heap f s = [] := by
      cases f with
      | true => exact top_eq_none.1 (map_eq_none_iff.1 h1)
      | false => exact top_eq_none.1 (map_eq_none_iff.1 h2)
    simp [hnil] at he
  refine ⟨v, hv, (h.listed v).2 ?_⟩
  have hres : ∀ f, top_id f s = some v → Resident s.metas v := by
    intro f hf
    obtain ⟨e, he, rfl⟩ := map_eq_some_iff.1 hf
    exact resident_of_valid (hset f e he)
  rcases pick_eq_some hv with hv | hv
  · exact hres true hv
  · exact hres false hv

omit [LinearOrder D] in
theorem Reheaped.cache (h : Reheaped s t) : t.cache = s.cache ∧ t.frozen = s.frozen := by
  rw [h]
  exact ⟨rfl, rfl⟩

section

variable (horder : ∀ t, (order t).Perm t.keys)
include horder

theorem Inv.ready (h : Inv s) :
    ∃ r, (if s.frozen then s else AsymCache.freeze F order s) = r ∧ Inv r ∧ r.frozen = true ∧ r.cache = s.cache := by
  split_ifs with hfrozen
  · exact ⟨s, rfl, h, hfrozen, rfl⟩
  · obtain ⟨hinv, hfr, hcache, -⟩ := h.freeze horder
    exact ⟨_, rfl, hinv, hfr, hcache⟩

theorem choose_victim_spec (h : Inv s) (hx : x ∈ s.cache.q) :
    ∃ t v, choose_victim F order s = some (t, some v) ∧ Inv t ∧ t.cache = s.cache ∧ v ∈ s.cache.q := by
  have hpos := h.n_resident_pos hx
  obtain ⟨r, hready, hr, hfrozen, hcache⟩ := h.ready (F := F) horder
  obtain ⟨w1, hpeek1, hw1, -⟩ := peek_valid_spec (F := F) horder hr.numbered (hr.filed hfrozen) true
  have hf1 : ∀ x, Resident w1.s.metas x → Filed w1.s x := fun x hx => hw1.filed x (hw1.reheaped.metas ▸ hx)
  obtain ⟨w2, hpeek2, hw2, -⟩ := peek_valid_spec (F := F) horder hw1.numbered hf1 false
  have hre := hw1.reheaped.trans hw2.reheaped
  have hf2 : ∀ x, Resident w2.s.metas x → Filed w2.s x := fun x hx => hw2.filed x (hw2.reheaped.metas ▸ hx)
  have hinv : Inv w2.s := hr.reheaped hre (fun _ => hf2) hw2.numbered
  have hc2 : w2.s.cache = s.cache := hre.cache.1.trans hcache
  unfold choose_victim
  rw [if_neg (by omega), hready]
  simp only [hpeek1, hpeek2, bind, bind_some]
  rcases hpick : pick F w2.s w1.out w2.out with _ | v
  · -- every resident is filed anew
    have hcomp := compact_spec (F := F) horder w2.s
    have hset : Settled F (compact F order w2.s) := by
      intro f e htop
      rw [hcomp.reheaped.valid]
      exact hcomp.valid f e (top_mem htop)
    have hinv' : Inv (compact F order w2.s) :=
      hinv.reheaped hcomp.reheaped (fun _ x hx => hcomp.filed x (hcomp.reheaped.metas ▸ hx)) hcomp.numbered
    have hc3 : (compact F order w2.s).cache = s.cache := hcomp.reheaped.cache.1.trans hc2
    have hfr : (compact F order w2.s).frozen = true := by
      rw [hcomp.reheaped.cache.2, hre.cache.2, hfrozen]
    have hres : ∀ f v, top_id f (compact F order w2.s) = some v → v ∈ s.cache.q := by
      intro f v hv
      obtain ⟨e, he, rfl⟩ := map_eq_some_iff.1 hv
      rw [← hc3]
      exact (hinv'.listed _).2 (resident_of_valid (hset f e he))
    simp only [peek_valid_settled hset, bind_some]
    rcases h1 : top_id true (compact F order w2.s) with _ | c1
    · rcases h2 : top_id false (compact F order w2.s) with _ | c2
      · obtain ⟨v, hv, -⟩ := hinv'.pick_settled hset hfr (hc3 ▸ hx)
        simp [h1, h2, pick] at hv
      · exact ⟨_, c2, rfl, hinv', hc3, hres false c2 h2⟩
    · exact ⟨_, c1, rfl, hinv', hc3, hres true c1 h1⟩
  · refine ⟨_, v, rfl, hinv, hc2, ?_⟩
    rw [← hc2, hinv.listed, hre.metas]
    rcases pick_eq_some hpick with hv | hv
    · obtain ⟨e, -, hvalid, rfl⟩ := hw1.out v hv
      exact resident_of_valid hvalid
    · obtain ⟨e, -, hvalid, rfl⟩ := hw2.out v hv
      exact hw1.reheaped.metas ▸ resident_of_valid hvalid

theorem choose_victim_calm (h : Inv s) (hfrozen : s.frozen = true) (hcalm : Calm F s)
    (hx : x ∈ s.cache.q) :
    ∃ t v, choose_victim F order s = some (t, some v) ∧ Inv t ∧ t.frozen = true ∧ t.cache = s.cache ∧ Settled F t ∧
      pick F t (top_id true t) (top_id false t) = some v := by
  have hpos := h.n_resident_pos hx
  obtain ⟨w1, hpeek1, hw1, hend1⟩ := peek_valid_spec (F := F) horder h.numbered (h.filed hfrozen) true
  have hf1 : ∀ x, Resident w1.s.metas x → Filed w1.s x := fun x hx => hw1.filed x (hw1.reheaped.metas ▸ hx)
  obtain ⟨w2, hpeek2, hw2, hend2⟩ := peek_valid_spec (F := F) horder hw1.numbered hf1 false
  obtain ⟨hq1, -⟩ := peek_valid_quiet hcalm.short (fun _ => True) (fun _ _ _ _ _ _ => trivial) trivial hpeek1
  obtain ⟨-, hsame⟩ := peek_second_top (hcalm.quiet hq1) hw1.numbered hpeek2
  have hre := hw1.reheaped.trans hw2.reheaped
  have hf2 : ∀ x, Resident w2.s.metas x → Filed w2.s x := fun x hx => hw2.filed x (hw2.reheaped.metas ▸ hx)
  have hinv : Inv w2.s := h.reheaped hre (fun _ => hf2) hw2.numbered
  obtain ⟨hout1, hgood1⟩ := hw1.out_eq hend1
  obtain ⟨hout2, hgood2⟩ := hw2.out_eq hend2
  have hsame' : top HeapEntry.before (heap true w2.s) = top HeapEntry.before (heap true w1.s) := hsame
  have htop1 : w1.out = top_id true w2.s := by rw [hout1, top_id, top_id, hsame']
  have hset : Settled F w2.s := by
    intro f e htop
    cases f with
    | true => rw [hre.valid, hgood1 e (hsame'.symm.trans htop)]
    | false => rw [hw2.reheaped.valid, hgood2 e htop]
  have hc2 := hre.cache
  obtain ⟨v, hv, -⟩ := hinv.pick_settled hset (hc2.2.trans hfrozen) (hc2.1 ▸ hx)
  refine ⟨w2.s, v, ?_, hinv, hc2.2.trans hfrozen, hc2.1, hset, hv⟩
  unfold choose_victim
  rw [if_neg (by omega), if_pos hfrozen]
  simp only [hpeek1, hpeek2, bind, bind_some]
  rw [htop1, hout2, hv]
  rfl

end

/-! ## The calls keep the invariant -/

omit [LinearOrder D] in
theorem Inv.write_meta (h : Inv s) {m' : BlockMeta D} (hm : s.metas.lookup x = some m) (hr : m'.resident = m.resident) :
    Inv { s with metas := s.metas.insert x m' } := by
  have hall : ∀ y, Resident (s.metas.insert x m') y ↔ Resident s.metas y := by
    intro y
    rcases eq_or_ne y x with rfl | hne
    · simp [Resident, hm, hr]
    · simp [Resident, lookup_insert_ne hne]
  refine ⟨h.fifo, fun y => (h.listed y).trans (hall y).symm, ?_, fun hf y hy => h.filed hf y ((hall y).1 hy), h.numbered⟩
  dsimp only
  rw [weigh_update _ hm, hr, ← h.count]
  omega

omit [LinearOrder D] in
theorem Inv.new_meta (h : Inv s) (hx : s.metas.lookup x = none) (hr : m.resident = false) :
    Inv { s with metas := s.metas.insert x m } := by
  have hall : ∀ y, Resident (s.metas.insert x m) y ↔ Resident s.metas y := by
    intro y
    rcases eq_or_ne y x with rfl | hne
    · simp [Resident, hx, hr]
    · simp [Resident, lookup_insert_ne hne]
  refine ⟨h.fifo, fun y => (h.listed y).trans (hall y).symm, ?_, fun hf y hy => h.filed hf y ((hall y).1 hy), h.numbered⟩
  rw [weigh_insert_of_notMem _ _ (lookup_eq_none.1 hx), ← h.count]
  simp [hr]

omit [LinearOrder D] in
theorem Inv.observe_gap (h : Inv s) (gap : D) : Inv (observe_gap F s gap) ∧ (observe_gap F s gap).metas = s.metas ∧
    (observe_gap F s gap).cache = s.cache := by
  unfold AsymCache.observe_gap
  split_ifs
  · exact ⟨h, rfl, rfl⟩
  · exact ⟨{ h with }, rfl, rfl⟩

section

variable (horder : ∀ t, (order t).Perm t.keys)
include horder

theorem Inv.push (h : Inv s) (hm : s.metas.lookup x = some m) (hr : m.resident = true) :
    Inv (push F order s x m) ∧ (push F order s x m).cache = s.cache := by
  obtain ⟨h1, h2, h3, -, -⟩ := push_spec horder hm hr h.numbered
  refine ⟨h.reheaped h1 (fun hf y hy => ?_) h2, h1.cache.1⟩
  rw [h1.metas] at hy
  exact h3 y hy (.inr (h.filed (h1.cache.2 ▸ hf) y hy))

theorem Inv.find (h : Inv s) (req : Request) :
    Inv (AsymCache_find F order s req).1 ∧ (AsymCache_find F order s req).1.cache = s.cache ∧
      ((AsymCache_find F order s req).2 = true ↔ req.obj_id ∈ s.cache.q) := by
  have hhit : (AsymCache_find F order s req).2 = (s.cache.q.lookup req.obj_id).isSome := by
    unfold AsymCache_find
    split_ifs <;> rfl
  rw [hhit, lookup_isSome, ← and_assoc]
  refine ⟨?_, Iff.rfl⟩
  unfold AsymCache_find
  by_cases hooked : s.hooked = true
  · rw [if_pos hooked]
    exact ⟨h, rfl⟩
  rw [if_neg hooked]
  by_cases hin : req.obj_id ∈ s.cache.q
  · obtain ⟨m, hm, hr⟩ := (h.listed _).1 hin
    rw [if_pos (lookup_isSome.2 hin), hm]
    obtain ⟨hg, hmetas, hcache⟩ := h.observe_gap (F.sub s.now m.last_access)
    dsimp only
    generalize AsymCache.observe_gap F s (F.sub s.now m.last_access) = u at hg hmetas hcache ⊢
    have hm' : u.metas.lookup req.obj_id = some m := by rw [hmetas, hm]
    have hw : Inv { u with metas := u.metas.insert req.obj_id { m with last_access := u.now } } := hg.write_meta hm' rfl
    split_ifs with hfrozen
    · obtain ⟨hp, hpc⟩ := hw.push horder (lookup_insert _) hr
      exact ⟨{ hp with }, hpc.trans hcache⟩
    · exact ⟨{ hw with }, hcache⟩
  · rw [if_neg (fun hit => hin (lookup_isSome.1 hit))]
    exact ⟨{ h with }, rfl⟩

theorem Inv.insert (h : Inv s) {req : Request} (hx : req.obj_id ∉ s.cache.q) : Inv (AsymCache_insert F order s req) := by
  have hnot : ¬ Resident s.metas req.obj_id := fun hr => hx ((h.listed _).2 hr)
  have hadmit : ∀ m : BlockMeta D, m.resident = false →
      Inv (let s := { s with cache := s.cache.FIFO_insert req () }
        let s := { s with
          n_resident := if m.resident then s.n_resident else s.n_resident + 1
          metas := s.metas.insert req.obj_id { m with resident := true } }
        if s.frozen then AsymCache.push F order s req.obj_id { m with resident := true } else s) := by
    intro m hr
    rw [hr]
    simp only [Bool.false_eq_true, if_false]
    set r : State D P := { s with
      cache := s.cache.FIFO_insert req ()
      n_resident := s.n_resident + 1
      metas := s.metas.insert req.obj_id { m with resident := true } }
    have hall : ∀ y, Resident r.metas y ↔ y = req.obj_id ∨ Resident s.metas y := by
      intro y
      rcases eq_or_ne y req.obj_id with rfl | hne
      · simp [Resident, r]
      · simp [Resident, r, hne]
    have hlisted : ∀ y, y ∈ r.cache.q ↔ Resident r.metas y := by
      intro y
      rw [hall, ← h.listed]
      exact mem_insert _
    have hcount : r.n_resident = r.metas.weigh fun _ m => if m.resident then 1 else 0 := by
      dsimp only [r]
      rcases hm : s.metas.lookup req.obj_id with _ | m0
      · rw [weigh_insert_of_notMem _ _ (lookup_eq_none.1 hm), ← h.count, if_pos rfl]
        omega
      · have hr0 : ¬ m0.resident = true := fun hr0 => hnot ⟨m0, hm, hr0⟩
        rw [weigh_update _ hm, ← h.count, if_pos rfl, if_neg hr0]
        omega
    have hfifo : r.cache.Inv := h.fifo.insert () hx
    split_ifs with hfrozen
    · obtain ⟨h1, h2, h3, -, -⟩ := push_spec (F := F) (s := r) horder (lookup_insert _) rfl h.numbered
      refine ⟨?_, ?_, ?_, fun _ y hy => ?_, h2⟩
      · rw [h1]
        exact hfifo
      · rw [h1]
        exact hlisted
      · rw [h1]
        exact hcount
      · rw [h1.metas] at hy
        apply h3 y hy
        rcases (hall y).1 hy with heq | hy
        · exact .inl heq
        · exact .inr (h.filed hfrozen y hy)
    · exact ⟨hfifo, hlisted, hcount, fun hf => absurd hf hfrozen, h.numbered⟩
  unfold AsymCache_insert
  dsimp only
  rcases hm : s.metas.lookup req.obj_id with _ | m
  · exact hadmit _ rfl
  · have hr : m.resident = false := by
      by_contra hr
      exact hnot ⟨m, hm, by simpa using hr⟩
    exact hadmit { m with cost := F.ofInt req.obj_cost } hr

end

omit [LinearOrder D] in
theorem Inv.drop (h : Inv s) {o : FifoObj Unit} (ho : s.cache.q.lookup x = some o) :
    Inv { forget s x with cache := s.cache.cache_remove_obj_base x o } := by
  obtain ⟨m, hm, hr⟩ := (h.listed x).1 (mem_of_lookup ho)
  have hforget : forget s x = { s with n_resident := s.n_resident - 1, metas := s.metas.erase x } := by
    simp [forget, hm, hr]
  have hall : ∀ y, Resident (s.metas.erase x) y ↔ y ≠ x ∧ Resident s.metas y := by
    intro y
    rcases eq_or_ne y x with rfl | hne
    · simp [Resident]
    · simp [Resident, hne]
  rw [hforget]
  refine ⟨h.fifo.remove ho, ?_, ?_, fun hf y hy => h.filed hf y ((hall y).1 hy).2, h.numbered⟩
  · intro y
    refine Iff.trans ?_ (hall y).symm
    rw [← h.listed]
    exact mem_erase
  · rw [weigh_erase _ hm, ← h.count, if_pos hr]

omit [LinearOrder D] in
theorem forget_cache (s : State D P) (x : ObjId) : (forget s x).cache = s.cache := by
  unfold forget
  split <;> rfl

omit [LinearOrder D] in
theorem Inv.remove (h : Inv s) (x : ObjId) : Inv (AsymCache_remove s x).1 := by
  unfold AsymCache_remove
  split
  · exact h
  · rename_i o ho
    dsimp only
    rw [forget_cache]
    exact h.drop ho

omit [LinearOrder D] in
theorem Inv.record_block (h : Inv s) (x : ObjId) : Inv (record_block F s x) := by
  unfold AsymCache.record_block
  rcases hm : s.metas.lookup x with _ | m
  · exact h.new_meta hm rfl
  · obtain ⟨hg, hmetas, -⟩ := h.observe_gap (F.sub s.now m.last_access)
    exact hg.write_meta (m := m) (by rw [hmetas, hm]) rfl

omit [LinearOrder D] in
theorem Inv.record_request (h : Inv s) (ids : List ObjId) : Inv (AsymCache_record_request F s ids) := by
  have hfold : ∀ (l : List ObjId) (s : State D P), Inv s → Inv (l.foldl (AsymCache.record_block F) s) := by
    intro l
    induction l with
    | nil => exact fun _ hs => hs
    | cons x l ih => exact fun s hs => ih _ (hs.record_block x)
  exact hfold ids { s with hooked := true } { h with }

theorem AsymCache_evict_of_choose {v : ObjId} (hchoose : choose_victim F order s = some (t, some v)) (ht : Inv t)
    (hv : v ∈ t.cache.q) : ∃ o, t.cache.q.lookup v = some o ∧
      AsymCache_evict F order s = some { forget t v with cache := t.cache.cache_remove_obj_base v o } ∧
      Inv { forget t v with cache := t.cache.cache_remove_obj_base v o } := by
  obtain ⟨o, ho⟩ := exists_lookup hv
  refine ⟨o, ho, ?_, ht.drop ho⟩
  unfold AsymCache_evict
  simp only [hchoose, bind, bind_some, ho, forget_cache]
  rfl

theorem Inv.evict (horder : ∀ t, (order t).Perm t.keys) (h : Inv s) (hx : x ∈ s.cache.q) :
    ∃ u v o, AsymCache_evict F order s = some u ∧ Inv u ∧ u.cache = s.cache.cache_remove_obj_base v o ∧ v ∈ s.cache.q := by
  obtain ⟨t, v, hchoose, ht, hcache, hv⟩ := choose_victim_spec horder h hx
  obtain ⟨o, -, hevict, hu⟩ := AsymCache_evict_of_choose hchoose ht (hcache ▸ hv)
  exact ⟨_, v, o, hevict, hu, congrArg (fun c : Fifo Unit => c.cache_remove_obj_base v o) hcache, hv⟩

theorem Inv.count_req (h : Inv s) : Inv ((ops F order).count_req s) :=
  { h with fifo := ⟨h.fifo.1, h.fifo.2⟩ }

theorem Inv.get (horder : ∀ t, (order t).Perm t.keys) (h : Inv s) (req : Request) :
    ∃ t hit, AsymCache_get F order s req = some (t, hit) ∧ Inv t := by
  refine Fifo.cache_get_base_of_queue (ops F order) State.cache Inv Inv Inv (fun _ => ⟨rfl, rfl, rfl⟩) (fun _ => rfl) ?_
    (fun _ hu => ⟨hu.fifo, hu⟩) ?_ (fun _ hu hmiss => ⟨_, rfl, hu.insert horder hmiss⟩) h
  · intro s h
    obtain ⟨hinv, hcache, hhit⟩ := (show Inv ((ops F order).count_req s) from h.count_req).find horder req
    rcases hfind : AsymCache_find F order ((ops F order).count_req s) req with ⟨u, hit⟩
    rw [hfind] at hinv hcache hhit
    refine ⟨u, hit, congrArg some hfind, ?_⟩
    cases hit with
    | true => exact hinv
    | false => exact ⟨hinv, fun hin => Bool.false_ne_true (hhit.2 (hcache ▸ hin))⟩
  · intro u hu hne
    obtain ⟨e, he⟩ := exists_mem_of_ne_nil _ hne
    obtain ⟨w, v, o, hevict, hw, hcache, hv⟩ := hu.evict horder (mem_of_lookup (lookup_of_mem_entries he))
    exact ⟨w, hevict, hw, hcache ▸ Fifo.less_of_remove hv o⟩

omit [LinearOrder D] in
theorem init_inv (cache_size : Int) : Inv (AsymCache_init F cache_size) := by
  refine ⟨Fifo.init_inv cache_size 0, ?_, rfl, by simp [AsymCache_init], ?_⟩
  · simp [AsymCache_init, Resident]
  · intro f e he
    cases f <;> simp [AsymCache_init, heap] at he

theorem choose_victim_nil (h : Inv s) (hnil : ∀ x, x ∉ s.cache.q) : choose_victim F order s = some (s, none) := by
  unfold choose_victim
  rw [if_pos (h.n_resident_nil hnil)]
  rfl

section

variable (horder : ∀ t, (order t).Perm t.keys)
include horder

theorem Inv.call (h : Inv s) {c : Call D} (ht : AsymCache.call F order s c = some t) : Inv t := by
  cases c with
  | get req =>
    obtain ⟨u, hit, hu, hinv⟩ := h.get (F := F) horder req
    simp only [AsymCache.call, hu, map_some, some.injEq] at ht
    exact ht ▸ hinv
  | to_evict =>
    simp only [AsymCache.call, AsymCache_to_evict, bind, map_eq_some_iff, bind_eq_some_iff] at ht
    obtain ⟨_, ⟨⟨u, v⟩, hu, hpure⟩, rfl⟩ := ht
    cases hpure
    by_cases hx : ∃ x, x ∈ s.cache.q
    · obtain ⟨x, hx⟩ := hx
      obtain ⟨u', v', hu', hinv, -⟩ := choose_victim_spec (F := F) horder h hx
      cases hu'.symm.trans hu
      exact hinv
    · cases (choose_victim_nil (F := F) h (not_exists.1 hx)).symm.trans hu
      exact h
  | evict =>
    by_cases hx : ∃ x, x ∈ s.cache.q
    · obtain ⟨x, hx⟩ := hx
      obtain ⟨u, v, o, hu, hinv, -⟩ := h.evict (F := F) horder hx
      cases hu.symm.trans ht
      exact hinv
    · simp [AsymCache.call, AsymCache_evict, choose_victim_nil (F := F) h (not_exists.1 hx)] at ht
  | remove x =>
    cases ht
    exact h.remove x
  | set_request_ctx timestamp =>
    cases ht
    exact { h with }
  | record_request ids =>
    cases ht
    exact h.record_request ids

theorem inv_of_reach {cache_size : Int}
    (h : Reach (AsymCache.call F order) (fun _ _ => True) (AsymCache_init F cache_size) s) : Inv s :=
  h.inv Inv (fun _ _ _ hs _ ht => hs.call horder ht) (init_inv cache_size)

theorem AsymCache_honoured (h : Inv s) (hx : x ∈ s.cache.q)
    (hcalm : s.frozen = false ∨ Calm F s) :
    Honoured (AsymCache_to_evict F order) (AsymCache_evict F order) (fun s x => x ∈ s.cache.q) s := by
  obtain ⟨t, v, hchoose, ht, hfrozen, hcache, hset, hpick⟩ : ∃ t v, choose_victim F order s = some (t, some v) ∧ Inv t ∧
      t.frozen = true ∧ t.cache = s.cache ∧ Settled F t ∧ pick F t (top_id true t) (top_id false t) = some v := by
    by_cases hfr : s.frozen = true
    · exact choose_victim_calm horder h hfr (hcalm.resolve_left (by simp [hfr])) hx
    · -- `freeze` files every block anew
      obtain ⟨hinv, hfr', hcache, hset⟩ := h.freeze horder
      have hx' : x ∈ (freeze F order s).cache.q := hcache ▸ hx
      obtain ⟨v, hv, -⟩ := hinv.pick_settled hset hfr' hx'
      refine ⟨_, v, ?_, hinv, hfr', hcache, hset, hv⟩
      have hsettled : choose_victim F order (freeze F order s) = some (freeze F order s, some v) :=
        choose_victim_settled hset hfr' (hinv.n_resident_pos hx') hv
      unfold choose_victim at hsettled ⊢
      rw [if_neg (by have := hinv.n_resident_pos hx'; omega), if_pos hfr'] at hsettled
      rw [if_neg (by have := h.n_resident_pos hx; omega), if_neg hfr]
      exact hsettled
  have hx' : x ∈ t.cache.q := hcache ▸ hx
  obtain ⟨v', hv', hmem⟩ := ht.pick_settled hset hfrozen hx'
  obtain rfl := some.inj (hpick.symm.trans hv')
  have hagain : choose_victim F order t = some (t, some v) := choose_victim_settled hset hfrozen (ht.n_resident_pos hx') hpick
  obtain ⟨o, -, hevict, -⟩ := AsymCache_evict_of_choose hagain ht hmem
  have hv : v ∈ s.cache.q := hcache ▸ hmem
  refine ⟨t, v, _, ?_, hevict, hv, fun y => ?_⟩
  · obtain ⟨o', ho'⟩ := exists_lookup hmem
    simp [AsymCache_to_evict, hchoose, ho']
  · change y ∈ t.cache.q.erase v ↔ y ≠ v ∧ y ∈ s.cache.q
    rw [← hcache]
    exact mem_erase

end

end CacheSim.AsymCache
