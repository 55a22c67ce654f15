import CacheSim.Lirs.Ledger

/-!
# An eviction frees a block, if the bottom of `S` is an LIR one

`evictLIR` takes the bottom of `S` for an LIR block, and pruning does not look at the top of `S`.
-/

namespace CacheSim.Lirs

open Lib List Option Setup

variable {P : Setup} {hold : Option (ObjId × Bool)} {s s' : State} {x : ObjId} {req : Request}

def bottom_LIR (S : List Block) : Bool := S.getLast?.any (·.2.md.is_LIR)

def Forcible (s : State) : Prop := s.LRU_q.q.entries = [] → s.lirs_count > 0 → bottom_LIR s.LRU_s.q.entries = true

/-- What `LIRS_evict` takes for granted. For a non-resident block of `S` it demotes LIR blocks until one
leaves `Q`, and pruning spares that block on top of `S`. Where a block is too large for both sets, it
evicts one from `Q`. -/
def CanEvict (s : State) (req : Request) : Prop :=
  match s.LRU_s.q.lookup req.obj_id, s.LRU_q.q.lookup req.obj_id with
  | some obj_s, _ =>
    if is_nonresident obj_s then
      bottom_LIR s.LRU_s.q.entries = true ∧
        (s.LRU_s.q.entries.head?.map (·.1) = some req.obj_id → s.hirs_limit < s.occupied_byte)
    else Forcible s
  | none, some _ => True
  | none, none =>
    if s.lirs_count + req.obj_size > s.lirs_limit ∧ s.hirs_count + req.obj_size > s.hirs_limit then
      s.LRU_q.q.entries ≠ []
    else Forcible s

instance (s : State) : Decidable (Forcible s) :=
  inferInstanceAs (Decidable (s.LRU_q.q.entries = [] → s.lirs_count > 0 → bottom_LIR s.LRU_s.q.entries = true))

instance (s : State) (req : Request) : Decidable (CanEvict s req) := by
  unfold CanEvict
  rcases s.LRU_s.q.lookup req.obj_id with _ | obj_s
  · rcases s.LRU_q.q.lookup req.obj_id with _ | obj_q
    · infer_instance
    · infer_instance
  · infer_instance

variable {S : Lru Md}

theorem stack_of_bottom (h : bottom_LIR S.q.entries = true) : ∃ l y, stack S = l ++ [(y, true)] := by
  obtain ⟨e, he, hlir⟩ := (any_eq_true _ _).1 h
  obtain ⟨l, hl⟩ := getLast?_eq_some_iff.1 he
  refine ⟨l.map fun e => (e.1, e.2.md.is_LIR), e.1, ?_⟩
  rw [stack, hl, map_append, map_singleton, hlir]

variable {l : List (ObjId × Bool)}

theorem bottom_of_stack (h : stack S = l ++ [(x, true)]) : bottom_LIR S.q.entries = true := by
  obtain ⟨l', r, hs, -, hr⟩ := map_eq_append_iff.1 h
  obtain ⟨e, rfl, he⟩ := map_eq_singleton_iff.1 hr
  rw [bottom_LIR, hs, getLast?_concat]
  exact congrArg Prod.snd he

def residents (s : State) : List ObjId := lirs (stack s.LRU_s) ++ s.LRU_q.q.keys

theorem Core.occupied_eq (h : Core P hold s) : s.occupied_byte = P.total (residents s) := by
  rw [residents, P.total_append, ← h.counts.lirs, ← h.counts.hirs]
  exact h.counts.occupied

structure Narrows (s s' : State) : Prop where
  residents : ∀ y ∈ residents s', y ∈ residents s
  occupied : s'.occupied_byte ≤ s.occupied_byte

theorem Narrows.rfl : Narrows s s := ⟨fun _ hy => hy, le_rfl⟩

theorem Narrows.trans {a b c : State} (h : Narrows a b) (h' : Narrows b c) : Narrows a c :=
  ⟨fun y hy => h.residents y (h'.residents y hy), h'.occupied.trans h.occupied⟩

theorem total_prefix {l l' : List ObjId} (h : l <+: l') : P.total l ≤ P.total l' := by
  obtain ⟨rest, rfl⟩ := h
  have := P.total_nonneg rest
  rw [P.total_append]
  omega

theorem Demotes.narrows (h : Core P hold s) (h' : Core P hold s') (hd : Demotes P x s s') : Narrows s s' := by
  obtain ⟨kept, hkept, htrim⟩ := hd.queue
  refine ⟨fun y hy => ?_, ?_⟩
  · rw [residents, hkept, mem_append, mem_cons] at hy
    rw [residents, hd.lirs, mem_append, mem_append, mem_singleton]
    rcases hy with hy | rfl | hy
    · exact .inl (.inl hy)
    · exact .inl (.inr rfl)
    · exact .inr (htrim.isPrefix.mem hy)
  · have hless := total_prefix (P := P) htrim.isPrefix
    rw [h.occupied_eq, h'.occupied_eq, residents, residents, hkept, hd.lirs]
    simp only [total_append, total_cons, total_nil]
    omega

theorem evictHIR_frees (h : Sound P hold s) (hQ : s.LRU_q.q.entries ≠ []) :
    ∃ s', evictHIR s = some (s', true) ∧ Sound P hold s' ∧ Narrows s s' ∧ s'.occupied_byte < s.occupied_byte := by
  rcases eq_nil_or_concat s.LRU_q.q.keys with hnil | ⟨l, y, hkeys⟩
  · exact absurd (map_eq_nil_iff.1 hnil) hQ
  rw [concat_eq_append] at hkeys
  obtain ⟨s', hev, hcore, hkeys', hstack⟩ := evictHIR_spec h.toCore hkeys
  have hless : s'.occupied_byte < s.occupied_byte := by
    have hpos := P.sz_pos y
    rw [h.toCore.occupied_eq, hcore.occupied_eq, residents, residents, hkeys, hkeys', hstack]
    simp only [total_append, total_cons, total_nil]
    omega
  refine ⟨s', hev, h.evictHIR hev, ⟨fun z hz => ?_, hless.le⟩, hless⟩
  rw [residents, hstack, hkeys', mem_append] at hz
  rw [residents, hkeys, mem_append, mem_append]
  exact hz.imp_right .inl

/-! ## A demotion for a non-resident block -/

theorem trim_HIR_spec (h : Sound P hold s) : ∃ s' acted, trim_HIR s = some (s', acted) ∧ Sound P hold s' ∧
    stack s'.LRU_s = stack s.LRU_s ∧ s'.LRU_s.q.keys = s.LRU_s.q.keys ∧ Trimmed P 1 s.LRU_q.q.keys s'.LRU_q.q.keys := by
  obtain ⟨s', hroom, -, hstack, -, htrim⟩ := make_room_spec h.toCore P.hirs_pos
  -- the loop of `make_room`, with a flag
  have hloop : (whileLoop (fun w : (State × Bool) × Bool => w.1.2 && w.1.1.hirs_count ≥ w.1.1.hirs_limit)
      (fun w => (evictHIR w.1.1).map fun r => (r, w.2 || r.2)) (s.LRU_q.q.entries.length + 1) ((s, true), false)).map (·.1) =
      whileLoop (fun w => w.2 && w.1.hirs_count + 1 > w.1.hirs_limit) (fun w => evictHIR w.1)
        (s.LRU_q.q.entries.length + 1) (s, true) := by
    apply whileLoop_map
    · intro w
      have hiff : w.1.1.hirs_count ≥ w.1.1.hirs_limit ↔ w.1.1.hirs_count + 1 > w.1.1.hirs_limit := by omega
      simp only [hiff]
    · intro w
      rw [Option.map_map]
      exact map_id'
  have hsound := h.make_room hroom
  obtain ⟨v, hv, rfl⟩ := map_eq_some_iff.1 hroom
  rw [hv] at hloop
  obtain ⟨⟨w, acted⟩, hw, rfl⟩ := map_eq_some_iff.1 hloop
  refine ⟨w.1, acted, by simp [trim_HIR, hw], hsound, hstack, ?_, htrim⟩
  have hkeys := congrArg (List.map Prod.fst) hstack
  rw [stack, stack, List.map_map, List.map_map] at hkeys
  exact hkeys

theorem Demotes.of_trimmed {t : State} (h : Demotes P x t s') (hstack : stack t.LRU_s = stack s.LRU_s)
    (htrim : Trimmed P 1 s.LRU_q.q.keys t.LRU_q.q.keys) : Demotes P x s s' := by
  obtain ⟨kept, hkept, htrim'⟩ := h.queue
  refine ⟨hstack ▸ h.lirs, hstack ▸ h.shorter, hstack ▸ h.ids, kept, hkept, ?_, fun young hyoung hfit => ?_⟩
  · exact htrim'.isPrefix.trans htrim.isPrefix
  · have hpos := P.sz_pos x
    exact htrim'.keeps young (htrim.keeps young hyoung (by omega)) hfit

variable {o : FifoObj Md} {y : ObjId}

theorem demoting_round (h : Sound P hold s) (hx : s.LRU_s.q.lookup req.obj_id = some o)
    (hnr : is_nonresident o = true) (hs : stack s.LRU_s = l ++ [(y, true)]) :
    ∃ t acted s', (trim_HIR s = some (t, acted) ∧ Sound P hold t ∧ stack t.LRU_s = stack s.LRU_s ∧ evictLIR t = some s') ∧
      LIRS_evict_once s req = some (s', true) ∧ Sound P hold s' ∧ Pruned s' ∧ Demotes P y s s' ∧
      stack s'.LRU_s <+: stack s.LRU_s := by
  obtain ⟨t, acted, htrim, hsound, hstack, -, hkept⟩ := trim_HIR_spec h
  have ht : stack t.LRU_s = l ++ [(y, true)] := hstack.trans hs
  obtain ⟨s', hev, -, hpruned, hdem, hpre⟩ := evictLIR_spec hsound.toCore ht
  refine ⟨t, acted, s', ⟨htrim, hsound, hstack, hev⟩, ?_, hsound.evictLIR ht hev, hpruned, hdem.of_trimmed hstack hkept,
    hstack ▸ hpre⟩
  simp only [LIRS_evict_once, hx, hnr, htrim, hev, bind_eq_bind, bind_some]
  rfl

theorem evict_round_demoting (h : Core P hold s) (h' : Core P hold s') (hd : Demotes P x s s')
    (hev : LIRS_evict_once s req = some (s', true)) (b : Int) :
    evict_round req b (s, none) = some (s', if s'.occupied_byte < b then some true else none) := by
  have hfewer : s'.lirs_count ≠ s.lirs_count := by
    have hpos := P.sz_pos x
    rw [h.counts.lirs, h'.counts.lirs, hd.lirs]
    simp only [total_append, total_cons, total_nil]
    omega
  have hacted : (!true || (s'.occupied_byte == s.occupied_byte && s'.lirs_count == s.lirs_count &&
      s'.hirs_count == s.hirs_count)) = false := by simp [hfewer]
  simp only [evict_round, hev, bind_eq_bind, bind_some]
  split_ifs with hless
  · rfl
  · exact absurd (hacted.symm.trans ‹_›) Bool.false_ne_true
  · rfl

theorem Ledger.n_obj_pos (h : Ledger P s) : s.LRU_q.n_obj > 0 ↔ s.LRU_q.q.entries ≠ [] := by
  rw [h.queue.n_obj, gt_iff_lt, Int.natCast_pos, length_pos_iff]

structure Frees (P : Setup) (hold : Option (ObjId × Bool)) (s s' : State) : Prop where
  sound : Sound P hold s'
  narrows : Narrows s s'
  less : s'.occupied_byte < s.occupied_byte

theorem force_demote_frees (h : Sound P hold s)
    (hs : stack s.LRU_s = l ++ [(y, true)]) :
    ∃ s', force_demote s.occupied_byte (s, none) = some (s', some true) ∧ Frees P hold s s' := by
  obtain ⟨t, hev, hcore, -, hdem, -⟩ := evictLIR_spec h.toCore hs
  have hsound := h.evictLIR hs hev
  have hnarrows := hdem.narrows h.toCore hcore
  by_cases hless : t.occupied_byte < s.occupied_byte
  · refine ⟨t, ?_, hsound, hnarrows, hless⟩
    simp only [force_demote, hev, bind_eq_bind, bind_some, if_pos hless]
    rfl
  · have hsome : t.LRU_q.q.entries ≠ [] := by
      obtain ⟨kept, hkept, -⟩ := hdem.queue
      intro hnil
      have hkeys : t.LRU_q.q.keys = [] := by
        rw [AList.keys, hnil]
        rfl
      rw [hkeys] at hkept
      cases hkept
    obtain ⟨s', hev', hsound', hnarrows', hless'⟩ := evictHIR_frees hsound hsome
    refine ⟨s', ?_, hsound', hnarrows.trans hnarrows', hless'.trans_le hnarrows.occupied⟩
    simp only [force_demote, hev, bind_eq_bind, bind_some, if_neg hless,
      if_pos (hsound.n_obj_pos.2 hsome), hev']
    rfl

theorem LIRS_force_evict_one_frees (h : Sound P hold s) (hready : Forcible s) (hres : residents s ≠ []) :
    ∃ s', LIRS_force_evict_one s = some (s', true) ∧ Frees P hold s s' := by
  unfold LIRS_force_evict_one
  by_cases hQ : s.LRU_q.q.entries = []
  · have hkeys : s.LRU_q.q.keys = [] := by
      rw [AList.keys, hQ]
      rfl
    have hcount : s.lirs_count > 0 := by
      rcases hl : lirs (stack s.LRU_s) with _ | ⟨y, l⟩
      · exact absurd (by rw [residents, hl, hkeys]; rfl) hres
      · have hpos := P.sz_pos y
        have hrest := P.total_nonneg l
        rw [h.counts.lirs, hl, P.total_cons]
        omega
    obtain ⟨l, y, hs⟩ := stack_of_bottom (hready hQ hcount)
    obtain ⟨s', hdemote, hfrees⟩ := force_demote_frees h hs
    have hsome : 1 ≤ s.LRU_s.q.entries.length := by
      have hlen := congrArg List.length hs
      rw [stack, length_map, length_append, length_singleton] at hlen
      omega
    have hloop : whileLoop (fun w => w.2.isNone && w.1.lirs_count > 0) (force_demote s.occupied_byte)
        s.LRU_s.q.entries.length (s, none) = some (s', some true) := by
      obtain ⟨n, hn⟩ := Nat.exists_eq_add_of_le' hsome
      have hcond : ((none : Option Bool).isNone && decide (s.lirs_count > 0)) = true := by simp [hcount]
      rw [hn, whileLoop, if_pos hcond, hdemote]
      exact whileLoop_stop _ _ n _ rfl
    refine ⟨s', ?_, hfrees⟩
    rw [if_neg (fun hn => h.n_obj_pos.1 hn hQ), hloop]
    rfl
  · obtain ⟨s', hev, hsound, hnarrows, hless⟩ := evictHIR_frees h hQ
    exact ⟨s', by rw [if_pos (h.n_obj_pos.2 hQ), hev], hsound, hnarrows, hless⟩

/-! ## The loop of `LIRS_evict` -/

def rounds_left (w : State × Option Bool) : Nat := if w.2.isNone then (stack w.1.LRU_s).length + 1 else 0

theorem rounds_left_le (s : State) : rounds_left (s, none) ≤ s.LRU_s.q.entries.length + 1 := by
  simp [rounds_left, stack]

theorem rounds_left_demoted {r : Option Bool} (hd : Demotes P x s s') : rounds_left (s', r) < rounds_left (s, none) := by
  have hshorter := hd.shorter
  unfold rounds_left
  simp only [isNone_none]
  split_ifs <;> omega

theorem Core.lirs_of_large (h : Core P hold s) (hlarge : P.hirs_limit < s.occupied_byte) : lirs (stack s.LRU_s) ≠ [] := by
  intro hnil
  have hzero := h.counts.lirs
  have hfit := h.counts.hirs_fit
  have hocc := h.counts.occupied
  rw [hnil, total_nil] at hzero
  omega

/-- The non-resident block on top of `S` that is about to become an LIR one stays there, and whether
`LRU_nh` has a record of it makes no difference. -/
theorem LIRS_evict_held (I : State → Prop) {e : Block} (hreq : req.obj_id = e.1) (h : Sound P (some (e.1, false)) s)
    (hp : Pruned s) (hlarge : P.hirs_limit < s.occupied_byte) (hI : I s)
    (hkeep : ∀ t t' y, Core P (some (e.1, false)) t → Core P (some (e.1, false)) t' →
      t.occupied_byte = s.occupied_byte → Demotes P y t t' → I t → I t') :
    ∃ s', LIRS_evict s req = some s' ∧ LIRS_evict (forget s e) req = some (forget s' e) ∧
      Frees P (some (e.1, false)) s s' ∧ Pruned s' ∧ I s' := by
  let J : State × Option Bool → Prop := fun w => Sound P (some (e.1, false)) w.1 ∧ Pruned w.1 ∧ Narrows s w.1 ∧
    I w.1 ∧ (w.2 = none ∧ w.1.occupied_byte = s.occupied_byte ∨ w.2 = some true ∧ w.1.occupied_byte < s.occupied_byte)
  have hbody : ∀ w, J w → w.2.isNone = true → ∃ w', evict_round req s.occupied_byte w = some w' ∧
      evict_round req s.occupied_byte (forget w.1 e, w.2) = some (forget w'.1 e, w'.2) ∧ J w' ∧
      rounds_left w' < rounds_left w := by
    rintro ⟨t, r⟩ ⟨hsound, hpruned, hnarrows, hIt, hcase⟩ hnone
    obtain rfl : r = none := isNone_iff_eq_none.1 hnone
    have hocc : t.occupied_byte = s.occupied_byte := hcase.elim And.right fun hc => nomatch hc.1
    obtain ⟨-, o, hlook, hmd⟩ := hsound.tables.held _ _ rfl
    have hx : t.LRU_s.q.lookup req.obj_id = some o := hreq ▸ hlook
    obtain ⟨l, y, hs⟩ := hpruned.bottom (hsound.toCore.lirs_of_large (hocc ▸ hlarge))
    obtain ⟨u, acted, t', ⟨htrim, hu, hstack, hout⟩, hev, hsound', hpruned', hdem, -⟩ :=
      demoting_round hsound hx (by simp [is_nonresident, hmd]) hs
    have hnarrows' := hdem.narrows hsound.toCore hsound'.toCore
    have hround := evict_round_demoting hsound.toCore hsound'.toCore hdem hev s.occupied_byte
    have hforget := evict_round_forget hsound hreq htrim hu (hstack.trans hs) hout s.occupied_byte
    rw [hround] at hforget
    refine ⟨_, hround, hforget, ⟨hsound', hpruned', hnarrows.trans hnarrows',
      hkeep t t' y hsound.toCore hsound'.toCore hocc hdem hIt, ?_⟩, rounds_left_demoted hdem⟩
    by_cases hless : t'.occupied_byte < s.occupied_byte
    · exact .inr ⟨if_pos hless, hless⟩
    · exact .inl ⟨if_neg hless, le_antisymm (hocc ▸ hnarrows'.occupied) (not_lt.1 hless)⟩
  have hstart : J (s, none) := ⟨h, hp, .rfl, hI, .inl ⟨rfl, rfl⟩⟩
  obtain ⟨⟨s', r⟩, hloop, ⟨hsound, hpruned, hnarrows, hIs, hcase⟩, hstop⟩ := whileLoop_total J rounds_left
    (fun w hw hc => (hbody w hw hc).imp fun w' hw' => ⟨hw'.1, hw'.2.2⟩)
    (s.LRU_s.q.entries.length + 1) (s, none) hstart (rounds_left_le s)
  have hmoved := whileLoop_commute (fun w : State × Option Bool => (forget w.1 e, w.2)) J (fun _ => rfl) ?_ _ _ _ hstart hloop
  · rcases hcase with ⟨rfl, -⟩ | ⟨rfl, hless⟩
    · cases hstop
    · refine ⟨s', ?_, ?_, ⟨hsound, hnarrows, hless⟩, hpruned, hIs⟩
      · simp only [LIRS_evict, hloop]
        rfl
      · have hmoved' : whileLoop (fun w => w.2.isNone) (evict_round req (forget s e).occupied_byte)
            ((forget s e).LRU_s.q.entries.length + 1) (forget s e, none) = some (forget s' e, some true) := hmoved
        simp only [LIRS_evict, hmoved']
        rfl
  · intro w w' hw hc hround
    obtain ⟨w1, hround1, hforget, hJ, -⟩ := hbody w hw hc
    cases hround1.symm.trans hround
    exact ⟨hforget, hJ⟩

theorem CanEvict.next (h : Sound P none s) (h' : Sound P none s') (hcan : CanEvict s req) (hp : Pruned s')
    (hx : s.LRU_s.q.lookup req.obj_id = some o) (hnr : is_nonresident o = true) (hd : Demotes P x s s')
    (hpre : stack s'.LRU_s <+: stack s.LRU_s) (hocc : s'.occupied_byte = s.occupied_byte) : CanEvict s' req := by
  have hQ : s'.LRU_q.q.entries ≠ [] := by
    obtain ⟨kept, hkept, -⟩ := hd.queue
    intro hnil
    rw [AList.keys, hnil] at hkept
    cases hkept
  have hforcible : Forcible s' := fun hnil => absurd hnil hQ
  simp only [CanEvict, hx, hnr] at hcan
  obtain ⟨-, htop⟩ := hcan
  unfold CanEvict
  rcases hx' : s'.LRU_s.q.lookup req.obj_id with _ | o'
  · rcases s'.LRU_q.q.lookup req.obj_id with _ | q
    · split_ifs
      · exact hQ
      · exact hforcible
    · trivial
  · dsimp only
    split_ifs
    · have hlarge : s'.LRU_s.q.entries.head?.map (·.1) = some req.obj_id → s'.hirs_limit < s'.occupied_byte := by
        intro hhead
        rw [h'.frame.hirs_limit, ← h.frame.hirs_limit, hocc]
        apply htop
        -- the top of `S` is the same
        obtain ⟨rest, hrest⟩ := hpre
        have hheads := congrArg (fun l => l.head?.map Prod.fst) hrest
        cases hs' : s'.LRU_s.q.entries with
        | nil =>
          rw [hs'] at hhead
          cases hhead
        | cons e l =>
          simp only [stack, hs', head?_map,
            Option.map_map] at hheads hhead
          rw [← hhead]
          exact hheads.symm
      refine ⟨?_, hlarge⟩
      by_cases hlirs : lirs (stack s'.LRU_s) = []
      · -- the block would be alone in `S`, and the others in `Q`
        exfalso
        have hmem : req.obj_id ∈ (stack s'.LRU_s).map (·.1) := by
          by_contra hnot
          rw [lookup_none_iff_stack.2 hnot] at hx'
          cases hx'
        rcases eq_nil_or_concat (stack s'.LRU_s) with hnil | ⟨l, b, hl⟩
        · rw [hnil] at hmem
          cases hmem
        rw [concat_eq_append] at hl
        rcases hp l b hl with rfl | hb
        · rw [nil_append] at hl
          rw [hl, map_singleton, mem_singleton] at hmem
          have hhead : s'.LRU_s.q.entries.head?.map (·.1) = some req.obj_id := by
            have hheads := congrArg (fun l => l.head?.map Prod.fst) hl
            simp only [stack, head?_map, Option.map_map, head?_cons] at hheads
            rw [hmem]
            exact hheads
          have hlarge' := hlarge hhead
          rw [h'.frame.hirs_limit] at hlarge'
          exact h'.toCore.lirs_of_large hlarge' hlirs
        · rw [hl, lirs_append, ← Prod.mk.eta (p := b), hb, lirs_lir] at hlirs
          exact absurd hlirs (by simp)
      · obtain ⟨l, y, hl⟩ := hp.bottom hlirs
        exact bottom_of_stack hl
    · exact hforcible

inductive Evicting (req : Request) (s t : State) : Option Bool → Prop
  | more : t.occupied_byte = s.occupied_byte → CanEvict t req → Evicting req s t none
  | freed : t.occupied_byte < s.occupied_byte → Evicting req s t (some true)
  | stuck : t.occupied_byte = s.occupied_byte → Forcible t → Evicting req s t (some false)

theorem evict_round_stuck (hev : LIRS_evict_once s req = some (s, false)) :
    evict_round req s.occupied_byte (s, none) = some (s, some false) := by
  simp only [evict_round, hev, bind_eq_bind, bind_some, if_neg (lt_irrefl _)]
  rfl

theorem evict_round_spec (h : Sound P none s) (hcan : CanEvict s req) : ∃ s' r,
    evict_round req s.occupied_byte (s, none) = some (s', r) ∧ Sound P none s' ∧ Narrows s s' ∧ Evicting req s s' r ∧
      rounds_left (s', r) < rounds_left (s, none) := by
  have hstuck : LIRS_evict_once s req = some (s, false) → Forcible s → ∃ s' r,
      evict_round req s.occupied_byte (s, none) = some (s', r) ∧ Sound P none s' ∧ Narrows s s' ∧ Evicting req s s' r ∧
        rounds_left (s', r) < rounds_left (s, none) := fun hev hready =>
    ⟨s, some false, evict_round_stuck hev, h, .rfl, .stuck rfl hready, by simp [rounds_left]⟩
  rcases hx : s.LRU_s.q.lookup req.obj_id with _ | o
  · rcases hq : s.LRU_q.q.lookup req.obj_id with _ | q
    · simp only [CanEvict, hx, hq] at hcan
      split_ifs at hcan with hfull
      · obtain ⟨s', hev, hsound, hnarrows, hless⟩ := evictHIR_frees h hcan
        refine ⟨s', some true, ?_, hsound, hnarrows, .freed hless, by simp [rounds_left]⟩
        simp only [evict_round, LIRS_evict_once, hx, hq, if_pos hfull, hev, bind_eq_bind, bind_some, if_pos hless]
        rfl
      · exact hstuck (by simp only [LIRS_evict_once, hx, hq, if_neg hfull]) hcan
    · have hin : q.md.in_cache = true := by rw [(h.tables.Q_rec _ q hq).1]
      have hsome : s.LRU_q.q.entries ≠ [] := ne_nil_of_mem (Table.mem_entries_of_lookup hq)
      exact hstuck (by simp only [LIRS_evict_once, hx, hq, hin, if_true]) fun hnil => absurd hnil hsome
  · by_cases hnr : is_nonresident o = true
    · have hcan' := hcan
      simp only [CanEvict, hx, hnr] at hcan'
      obtain ⟨l, y, hs⟩ := stack_of_bottom hcan'.1
      obtain ⟨-, -, s', -, hev, hsound, hpruned, hdem, hpre⟩ := demoting_round h hx hnr hs
      have hnarrows := hdem.narrows h.toCore hsound.toCore
      refine ⟨s', _, evict_round_demoting h.toCore hsound.toCore hdem hev _, hsound, hnarrows, ?_, rounds_left_demoted hdem⟩
      split_ifs with hless
      · exact .freed hless
      · have hocc := le_antisymm hnarrows.occupied (not_lt.1 hless)
        exact .more hocc (hcan.next h hsound hpruned hx hnr hdem hpre hocc)
    · simp only [CanEvict, hx, if_neg hnr] at hcan
      exact hstuck (by simp only [LIRS_evict_once, hx, if_neg hnr]) hcan

theorem LIRS_evict_frees (h : Sound P none s) (hcan : CanEvict s req) (hres : residents s ≠ []) :
    ∃ s', LIRS_evict s req = some s' ∧ Frees P none s s' := by
  have hocc_pos : ∀ t, Sound P none t → t.occupied_byte = s.occupied_byte → residents t ≠ [] := by
    intro t ht hocc hnil
    have hzero := ht.toCore.occupied_eq
    rw [hnil, total_nil, hocc, h.toCore.occupied_eq] at hzero
    obtain ⟨y, l, hl⟩ := exists_cons_of_ne_nil hres
    have hpos := P.sz_pos y
    have hrest := P.total_nonneg l
    rw [hl, P.total_cons] at hzero
    omega
  let J : State × Option Bool → Prop := fun w => Sound P none w.1 ∧ Narrows s w.1 ∧ Evicting req s w.1 w.2
  have hbody : ∀ w, J w → w.2.isNone = true →
      ∃ w', evict_round req s.occupied_byte w = some w' ∧ J w' ∧ rounds_left w' < rounds_left w := by
    rintro ⟨t, r⟩ ⟨hsound, hnarrows, hcase⟩ hnone
    obtain rfl : r = none := isNone_iff_eq_none.1 hnone
    cases hcase with
    | more hocc hcan =>
      obtain ⟨t', r, hround, hsound', hnarrows', hcase', hleft⟩ := evict_round_spec hsound hcan
      rw [hocc] at hround
      refine ⟨(t', r), hround, ⟨hsound', hnarrows.trans hnarrows', ?_⟩, hleft⟩
      cases hcase' with
      | more hocc' hcan' => exact .more (hocc'.trans hocc) hcan'
      | freed hless => exact .freed (hless.trans_eq hocc)
      | stuck hocc' hready => exact .stuck (hocc'.trans hocc) hready
  obtain ⟨⟨t, r⟩, hloop, ⟨hsound, hnarrows, hcase⟩, hstop⟩ := whileLoop_total J rounds_left hbody
    (s.LRU_s.q.entries.length + 1) (s, none) ⟨h, .rfl, .more rfl hcan⟩ (rounds_left_le s)
  cases hcase with
  | more => cases hstop
  | freed hless =>
    refine ⟨t, ?_, hsound, hnarrows, hless⟩
    simp only [LIRS_evict, hloop]
    rfl
  | stuck hocc hready =>
    obtain ⟨s', hforce, hfrees⟩ := LIRS_force_evict_one_frees hsound hready (hocc_pos t hsound hocc)
    refine ⟨s', ?_, hfrees.sound, hnarrows.trans hfrees.narrows, hfrees.less.trans_eq hocc⟩
    simp only [LIRS_evict, hloop, bind_eq_bind, bind_some, hforce]
    rfl

theorem LIRS_evict_empty (h : Sound P none s) (hcan : CanEvict s req) (hres : residents s = []) : LIRS_evict s req = some s := by
  obtain ⟨hlirs, hkeys⟩ := append_eq_nil_iff.1 hres
  have hQ : s.LRU_q.q.entries = [] := map_eq_nil_iff.1 hkeys
  have honce : LIRS_evict_once s req = some (s, false) := by
    rcases hx : s.LRU_s.q.lookup req.obj_id with _ | o
    · have hq : s.LRU_q.q.lookup req.obj_id = none := by
        rw [lookup_none_iff_keys, hkeys]
        exact not_mem_nil
      simp only [CanEvict, hx, hq] at hcan
      split_ifs at hcan with hfull
      · exact absurd hQ hcan
      · simp only [LIRS_evict_once, hx, hq, if_neg hfull]
    · by_cases hnr : is_nonresident o = true
      · simp only [CanEvict, hx, hnr] at hcan
        obtain ⟨l, y, hl⟩ := stack_of_bottom hcan.1
        rw [hl, lirs_append] at hlirs
        simp at hlirs
      · simp only [LIRS_evict_once, hx, if_neg hnr]
  have hloop : whileLoop (fun w => w.2.isNone) (evict_round req s.occupied_byte) (s.LRU_s.q.entries.length + 1) (s, none) =
      some (s, some false) := by
    have hmore : ((s, none) : State × Option Bool).2.isNone = true := rfl
    rw [whileLoop, if_pos hmore, evict_round_stuck honce]
    exact whileLoop_stop _ _ _ _ rfl
  have hcount : ¬ s.lirs_count > 0 := by
    rw [h.counts.lirs, hlirs, total_nil]
    exact lt_irrefl 0
  have hforce : LIRS_force_evict_one s = some (s, false) := by
    unfold LIRS_force_evict_one
    rw [if_neg (fun hn => h.n_obj_pos.1 hn hQ), whileLoop_stop _ _ _ _ (by simp [hcount])]
    rfl
  simp only [LIRS_evict, hloop, bind_eq_bind, bind_some, hforce]
  rfl

end CacheSim.Lirs
