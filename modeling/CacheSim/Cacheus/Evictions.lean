import CacheSim.Cacheus.Twin

/-!
# The evictions of Cacheus

Whichever expert names the victim, both lose it, and the history notes its frequency.
-/

namespace CacheSim.Cacheus

open Lib Option Function

variable {W : Type} {E : Weights W} {c : Int} {s s' t u : State W} {req : Request} {id x : ObjId}

/-! ## The victim leaves both experts -/

variable {o : FifoObj Md}

theorem notes_set_md {h : Lru Md} (ho : h.q.lookup id = some o) {md : Md} (hnew : md.new_obj = o.md.new_obj) :
    notes (h.set_md id o md) = notes h := by
  obtain ⟨l1, l2, hentries, -, hreplace⟩ := Table.split_at ho
  unfold notes Fifo.set_md
  rw [hreplace, hentries]
  simp [hnew]

variable {l : SrLru}

theorem Lists.offload (h : Lists c l) (ho : l.H_list.q.lookup id = some o) {f : Int} (hf : 0 ≤ f) :
    Lists c (offloaded l id o f) ∧ notes (offloaded l id o f).H_list = notes l.H_list ∧
      (offloaded l id o f).freqs = update l.freqs id (some f) := by
  have hlook := Fifo.lookup_set_md ho { o.md with freq := f }
  have hnotes : notes (offloaded l id o f).H_list = notes l.H_list := notes_set_md ho rfl
  have hmem : ∀ x, x ∈ (offloaded l id o f).H_list.q → x ∈ l.H_list.q := by
    intro x hx
    obtain ⟨p, hp⟩ := Table.exists_lookup hx
    rw [show (offloaded l id o f).H_list.q.lookup x = _ from hlook x] at hp
    split_ifs at hp with heq
    · exact heq ▸ Table.mem_of_lookup ho
    · exact Table.mem_of_lookup hp
  refine ⟨{ h with H := h.H.set_md ho _, H_out := fun x hx => h.H_out x (hmem x hx), H_freq := ?_, H_new := ?_ }, hnotes, ?_⟩
  · intro x p hp
    rw [show (offloaded l id o f).H_list.q.lookup x = _ from hlook x] at hp
    split_ifs at hp
    · cases hp
      exact hf
    · exact h.H_freq x p hp
  · have hdrift := h.H_new
    rw [new_drift_eq] at hdrift ⊢
    rw [hnotes]
    exact hdrift
  · funext x
    unfold SrLru.freqs
    rw [show (offloaded l id o f).H_list.q.lookup x = _ from hlook x]
    rcases eq_or_ne x id with rfl | hne
    · rw [if_pos rfl, update_self]
      rfl
    · rw [if_neg hne, update_of_ne hne]

structure Evicts (c : Int) (id : ObjId) (t t' : Twin) : Prop where
  pair : Pair c t'
  holds : ∀ x, t'.lru.holds x ↔ x ≠ id ∧ t.lru.holds x
  occupied : SR_LRU_get_occupied_byte t'.lru = SR_LRU_get_occupied_byte t.lru - 1
  SR_size : t'.lru.SR_list.cache_size = t.lru.SR_list.cache_size
  SR_occupied : t'.lru.SR_list.occupied_byte = t.lru.SR_list.occupied_byte - if id ∈ t.lru.SR_list.q then 1 else 0
  H_room : t'.lru.H_list.occupied_byte < c
  drift : t'.lru.demoted_drift = t.lru.demoted_drift
  freq_of : Within t'.freq_of t.freq_of
  noted : ∃ new, notes t'.lru.H_list = ((id, new) :: notes t.lru.H_list).take (c - 1).toNat ∧
    t'.lru.C_new = t.lru.C_new + (if new then 1 else 0) ∧ (id ∈ t.lru.R_list.q → new = false)

theorem Leaves.evicts {t : Twin} (h : Pair c t) {lru : SrLru} (hl : Leaves c id t.lru lru)
    (ho : lru.H_list.q.lookup id = some o) {f : Int} (hf : t.lfu.freqs id = some f) {lfu : CrLfu} (hlfu : lfu.Inv)
    (hfreqs : lfu.freqs = update t.lfu.freqs id none) : Evicts c id t { lru := offloaded lru id o f, lfu := lfu } := by
  have hpos := (h.lfu.range id f hf).1
  obtain ⟨hlists, hnotes, hhist⟩ := hl.lists.offload ho (Int.le_trans Int.one_nonneg hpos)
  refine { hl with pair := ⟨hlists, hlfu, fun x => ?_⟩, freq_of := ?_, noted := ?_ }
  · show _ ↔ lru.holds x
    rw [hl.holds, hfreqs, ← h.sync x]
    rcases eq_or_ne x id with rfl | hne
    · simp
    · rw [update_of_ne hne]
      exact ⟨fun hx => ⟨hne, hx⟩, fun hx => hx.2⟩
  · unfold Twin.freq_of
    rw [hfreqs, hhist, ← both_move hf]
    apply Within.both_right
    intro x n hx
    rcases eq_or_ne x id with rfl | hne
    · rw [update_self] at hx ⊢
      exact hx
    · rw [update_of_ne hne] at hx ⊢
      exact hl.freqs x hne n hx
  · obtain ⟨new, hnoted, hC_new, hold⟩ := hl.noted
    exact ⟨new, hnotes.trans hnoted, hC_new, hold⟩

/-- `SR` is smaller than the cache, and a cache without objects has not lost track of its least frequency. -/
structure Inv (c : Int) (s : State W) : Prop where
  pair : Pair c s.twin
  cache_size : s.cache_size = c
  obj_md_size : s.obj_md_size = 0
  not_drawn : s.to_evict_candidate_gen_vtime = -1 ∧ 0 ≤ s.n_req
  fits : SR_LRU_get_occupied_byte s.twin.lru ≤ c
  H_room : s.twin.lru.H_list.occupied_byte < c
  SR_size : 0 ≤ s.twin.lru.SR_list.cache_size ∧ s.twin.lru.SR_list.cache_size ≤ c - 1
  vacant : (∀ x, ¬ s.twin.lru.holds x) → s.twin.lfu.min_freq = -1 ∨ ∀ x, x ∉ s.twin.lru.H_list.q
  ghosts : s.LRU_g.Inv ∧ s.LFU_g.Inv
  ghosts_out : ∀ x, s.twin.lru.holds x → x ∉ s.LRU_g.q ∧ x ∉ s.LFU_g.q

theorem Pair.freqs_eq_none {t : Twin} (h : Pair c t) : t.lfu.freqs x = none ↔ ¬ t.lru.holds x := by
  rw [← h.sync x, eq_none_iff_forall_ne_some, not_exists]

theorem Lists.occupied_pos_iff (h : Lists c l) : 0 < SR_LRU_get_occupied_byte l ↔ ∃ x, l.holds x := by
  have hR := h.R.nonneg
  have hSR := h.SR.nonneg
  unfold SR_LRU_get_occupied_byte
  constructor
  · intro hpos
    by_cases hempty : l.R_list.occupied_byte = 0
    · obtain ⟨x, hx⟩ := h.SR.exists_mem (by omega)
      exact ⟨x, .inr hx⟩
    · obtain ⟨x, hx⟩ := h.R.exists_mem (by omega)
      exact ⟨x, .inl hx⟩
  · rintro ⟨x, hx | hx⟩
    · have hpos := h.R.occupied_pos hx
      omega
    · have hpos := h.SR.occupied_pos hx
      omega

theorem ghost_spec {g : Lru Unit} (h : g.Inv) (req : Request) (hmiss : req.obj_id ∉ g.q) :
    ∃ g', g.LRU_get req = some (g', false) ∧ g'.Inv ∧ ∀ x ∈ g'.q, x = req.obj_id ∨ x ∈ g.q := by
  have hnone := AList.lookup_eq_none.2 hmiss
  rcases lt_or_ge g.cache_size (req.obj_size + g.obj_md_size) with hlarge | hroom
  · exact ⟨_, Lru.LRU_get_reject hnone hlarge, ⟨h.occupied, h.n_obj⟩, fun x hx => .inr hx⟩
  · obtain ⟨g', hget, hinv, -, -, -, hold, -⟩ := Lru.LRU_get_insert h hnone hroom
    refine ⟨g', hget, hinv, fun x hx => ?_⟩
    rcases eq_or_ne x req.obj_id with heq | hne
    · exact .inl heq
    · obtain ⟨o, ho⟩ := Table.exists_lookup hx
      exact .inr (Table.mem_of_lookup (hold x o hne ho))

/-! ## Eviction -/

def victim (E : Weights W) (s : State W) : Option ObjId := do
  let lru_to_evict ← SR_LRU_to_evict s.twin.lru
  let lfu_to_evict ← CR_LFU_to_evict s.twin.lfu
  return if E.picks_lru (E.next_rand s.n_rand % 100) s.w then lru_to_evict.1 else lfu_to_evict

structure Loses (c : Int) (id : ObjId) (s s' : State W) : Prop where
  inv : Inv c s'
  held : s.twin.lru.holds id
  evicts : Evicts c id s.twin s'.twin
  ghosts : ∀ x, x ∈ s'.LRU_g.q ∨ x ∈ s'.LFU_g.q → x = id ∨ x ∈ s.LRU_g.q ∨ x ∈ s.LFU_g.q

theorem Inv.evicted (h : Inv c s) (s' : State W) (hheld : s.twin.lru.holds id)
    (hev : Evicts c id s.twin s'.twin) (hcs : s'.cache_size = s.cache_size)
    (hmd : s'.obj_md_size = s.obj_md_size) (hgen : s'.to_evict_candidate_gen_vtime = -1) (hreq : s'.n_req = s.n_req)
    (hmin : (∀ x, ¬ s'.twin.lru.holds x) → s'.twin.lfu.min_freq = -1) (hg : s'.LRU_g.Inv ∧ s'.LFU_g.Inv)
    (hgout : ∀ x, x ∈ s'.LRU_g.q ∨ x ∈ s'.LFU_g.q → x = id ∨ x ∈ s.LRU_g.q ∨ x ∈ s.LFU_g.q) : Loses c id s s' := by
  have hfits := h.fits
  have hocc := hev.occupied
  refine ⟨⟨hev.pair, hcs.trans h.cache_size, hmd.trans h.obj_md_size, ⟨hgen, hreq ▸ h.not_drawn.2⟩, by omega, hev.H_room,
    hev.SR_size ▸ h.SR_size, fun hnone => .inl (hmin hnone), hg, fun x hx => ?_⟩, hheld, hev, hgout⟩
  obtain ⟨hne, hx⟩ := (hev.holds x).1 hx
  obtain ⟨hlru, hlfu⟩ := h.ghosts_out x hx
  have hnot : ¬ (x = id ∨ x ∈ s.LRU_g.q ∨ x ∈ s.LFU_g.q) := by
    rintro (heq | hmem | hmem)
    · exact hne heq
    · exact hlru hmem
    · exact hlfu hmem
  exact ⟨fun hmem => hnot (hgout x (.inl hmem)), fun hmem => hnot (hgout x (.inr hmem))⟩

theorem Cacheus_evict_spec (h : Inv c s) (hc : 2 ≤ c) (hocc : 0 < SR_LRU_get_occupied_byte s.twin.lru) :
    ∃ id s', victim E s = some id ∧ Cacheus_evict E s = some s' ∧ Loses c id s s' := by
  obtain ⟨e, lru, hto, hev, hheld, hleaves⟩ := SR_LRU_evict_spec h.pair.lists hc hocc
  obtain ⟨f, hf⟩ := (h.pair.sync e.1).2 hheld
  obtain ⟨v, hv, hfv⟩ := CR_LFU_to_evict_some h.pair.lfu hf
  have hheldv : s.twin.lru.holds v := (h.pair.sync v).1 ⟨_, hfv⟩
  have hgen : s.to_evict_candidate_gen_vtime ≠ s.n_req := by
    have hdrawn := h.not_drawn
    omega
  have hvictim : victim E s = some (if E.picks_lru (E.next_rand s.n_rand % 100) s.w then e.1 else v) := by
    unfold victim
    rw [hto, hv]
    rfl
  let drawn : Candidate := if E.picks_lru (E.next_rand s.n_rand % 100) s.w then .lru e.1 else .lfu v
  have hdraw : Cacheus_to_evict E s = { s with
      to_evict_candidate_gen_vtime := s.n_req, n_rand := s.n_rand + 1, to_evict_candidate := some drawn } := by
    unfold Cacheus_to_evict
    rw [hto, hv]
    dsimp only [drawn]
    split_ifs <;> rfl
  have hevict : Cacheus_evict E s = (evict_from_experts (Cacheus_to_evict E s) e v drawn).bind fun s =>
      some { s with to_evict_candidate_gen_vtime := -1 } := by
    unfold Cacheus_evict
    rw [hto, hv]
    rw [if_neg hgen, hdraw]
    rfl
  rw [hevict, hvictim]
  by_cases hagree : e.1 = v
  · -- both experts name it
    obtain ⟨o, ho⟩ := hleaves.entry
    obtain ⟨lfu, hlfuev, hlfu, hfreqs, hmin⟩ := CR_LFU_evict_spec (t := { s.twin with lru := lru }) h.pair.lfu hv hfv
      (hagree ▸ ho)
    rw [← hagree] at hfv hfreqs
    have hevicts := hleaves.evicts h.pair ho hfv hlfu hfreqs
    refine ⟨e.1, _, ?_, ?_, h.evicted { Cacheus_to_evict E s with
      twin := { lru := offloaded lru e.1 o s.twin.lfu.min_freq, lfu := lfu }
      to_evict_candidate_gen_vtime := -1 } hheld hevicts rfl rfl rfl rfl ?_ h.ghosts ?_⟩
    · rw [← hagree, ite_self]
    · unfold evict_from_experts
      rw [if_pos hagree, hdraw]
      simp only [hev, bind_eq_bind, bind_some, hlfuev]
      rw [hagree]
      rfl
    · exact fun hnone => hmin fun x => hevicts.pair.freqs_eq_none.2 (hnone x)
    · exact fun x hx => .inr hx
  · by_cases hpick : E.picks_lru (E.next_rand s.n_rand % 100) s.w = true
    · -- SR-LRU names it
      obtain ⟨o, ho⟩ := hleaves.entry
      obtain ⟨lfu, hremove, hlfu, hfreqs⟩ := CR_LFU_remove_spec (t := { s.twin with lru := lru }) h.pair.lfu hf ho
      have hevicts := hleaves.evicts h.pair ho hf hlfu hfreqs
      obtain ⟨g, hget, hginv, hgout⟩ := ghost_spec h.ghosts.1 (copy_cache_obj_to_request e) (h.ghosts_out e.1 hheld).1
      refine ⟨e.1, _, ?_, ?_, h.evicted { Cacheus_to_evict E s with
        twin := { lru := offloaded lru e.1 o f, lfu := lfu }
        LRU_g := g
        to_evict_candidate_gen_vtime := -1 } hheld hevicts rfl rfl rfl rfl ?_ ⟨hginv, h.ghosts.2⟩ ?_⟩
      · rw [if_pos hpick]
      · unfold evict_from_experts
        rw [if_neg hagree, hdraw, if_pos (if_pos hpick)]
        simp only [hev, bind_eq_bind, bind_some, hremove, hget]
        rfl
      · intro hnone
        exact absurd ((hevicts.holds v).2 ⟨Ne.symm hagree, hheldv⟩) (hnone v)
      · rintro x (hx | hx)
        · rcases hgout x hx with heq | hx
          · exact .inl heq
          · exact .inr (.inl hx)
        · exact .inr (.inr hx)
    · -- CR-LFU names it
      obtain ⟨lru, hremove, hleaves⟩ := SR_LRU_remove_spec h.pair.lists hc hheldv
      obtain ⟨o, ho⟩ := hleaves.entry
      obtain ⟨obj, hobj, -⟩ := CrLfu.freqs_eq_some.1 hfv
      obtain ⟨lfu, hlfuev, hlfu, hfreqs, hmin⟩ := CR_LFU_evict_spec (t := { s.twin with lru := lru }) h.pair.lfu hv hfv ho
      have hevicts := hleaves.evicts h.pair ho hfv hlfu hfreqs
      obtain ⟨g, hget, hginv, hgout⟩ := ghost_spec h.ghosts.2 (copy_cache_obj_to_request ⟨v, obj⟩)
        (h.ghosts_out v hheldv).2
      have hdrawn : drawn = .lfu v := if_neg hpick
      refine ⟨v, _, ?_, ?_, h.evicted { Cacheus_to_evict E s with
        twin := { lru := offloaded lru v o s.twin.lfu.min_freq, lfu := lfu }
        LFU_g := g
        to_evict_candidate_gen_vtime := -1 } hheldv hevicts rfl rfl rfl rfl ?_ ⟨h.ghosts.1, hginv⟩ ?_⟩
      · rw [if_neg hpick]
      · unfold evict_from_experts
        rw [if_neg hagree, hdraw, hdrawn, if_neg (by simp)]
        simp only [Candidate.obj_id, hobj, bind_eq_bind, bind_some, hremove, hlfuev, hget]
        rfl
      · exact fun hnone => hmin fun x => hevicts.pair.freqs_eq_none.2 (hnone x)
      · rintro x (hx | hx)
        · exact .inr (.inl hx)
        · rcases hgout x hx with heq | hx
          · exact .inl heq
          · exact .inr (.inr hx)

end CacheSim.Cacheus
