import CacheSim.Cacheus.Frequencies
import CacheSim.Cacheus.Lists

/-!
# SR-LRU and CR-LFU together

What one of the experts gives up leaves the other one too, and the history notes the frequency that it had.
-/

namespace CacheSim.Cacheus

open Lib List Option Function Table Lru

variable {c : Int} {s s' : SrLru} {t t' u : Twin} {req : Request} {id x : ObjId}

/-! ## The history -/

def notes (h : Lru Md) : List (ObjId × Bool) := h.q.entries.map fun e => (e.1, e.2.md.new_obj)

def marked (l : List (ObjId × Bool)) : Int := (l.countP (·.2) : Nat)

theorem marked_append (l l' : List (ObjId × Bool)) : marked (l ++ l') = marked l + marked l' := by
  unfold marked
  rw [countP_append, Nat.cast_add]

theorem marked_cons (e : ObjId × Bool) (l : List (ObjId × Bool)) : marked (e :: l) = (if e.2 then 1 else 0) + marked l := by
  unfold marked
  rw [countP_cons]
  split_ifs <;> push_cast <;> omega

theorem marked_nonneg (l : List (ObjId × Bool)) : 0 ≤ marked l := Int.natCast_nonneg _

theorem count_eq_marked (h : Lru Md) : h.count (·.new_obj) = marked (notes h) := by
  unfold Lru.count Table.weigh notes marked
  rw [countP_map]
  induction h.q.entries with
  | nil => rfl
  | cons e l ih =>
    rw [map_cons, sum_cons, ih, countP_cons]
    simp only [comp_apply]
    split_ifs <;> push_cast <;> omega

theorem new_drift_eq (s : SrLru) : s.new_drift = s.C_new - marked (notes s.H_list) := by
  unfold SrLru.new_drift
  rw [count_eq_marked]

theorem notes_insert {h : Lru Md} (req : Request) (hmiss : req.obj_id ∉ h.q) (md : Md) :
    notes (h.LRU_insert req md) = (req.obj_id, md.new_obj) :: notes h := by
  have hentries : (h.LRU_insert req md).q.entries = ⟨req.obj_id, { obj_size := req.obj_size, md := md }⟩ :: h.q.entries :=
    AList.entries_insert_of_notMem hmiss
  unfold notes
  rw [hentries]
  rfl

variable {o : FifoObj Md}

theorem lookup_of_kept {h h' : Lru Md} (hpre : h'.q.entries <+: h.q.entries) (ho : h'.q.lookup x = some o) :
    h.q.lookup x = some o :=
  lookup_of_mem_entries (hpre.subset (mem_entries_of_lookup ho))

theorem trim_spec {h : Lru Md} (hh : h.Ones) (hpos : 1 ≤ h.cache_size) :
    ∃ h', whileLoop (fun h => h.occupied_byte ≥ h.cache_size) Fifo.FIFO_evict h.q.entries.length h = some h' ∧ Lru.Ones h' ∧
      h'.cache_size = h.cache_size ∧ h'.occupied_byte < h.cache_size ∧
      h'.q.entries = h.q.entries.take (h.cache_size - 1).toNat := by
  let I : Fifo Md → Prop := fun d => Lru.Ones d ∧ d.cache_size = h.cache_size ∧ d.q.entries <+: h.q.entries ∧
    (d.q.entries = h.q.entries ∨ h.cache_size - 1 ≤ d.q.entries.length)
  have hbody : ∀ d, I d → decide (d.occupied_byte ≥ d.cache_size) = true →
      ∃ d', Fifo.FIFO_evict d = some d' ∧ I d' ∧ d'.q.entries.length < d.q.entries.length := by
    rintro d ⟨hd, hcs, hpre, -⟩ hfull
    have hfull := of_decide_eq_true hfull
    obtain ⟨e, l, hl, -, -, hevict, hleft⟩ := hd.evict (by omega)
    have hlen : d.q.entries.length = l.length + 1 := by rw [hl]; simp
    have hocc := hd.occupied
    refine ⟨_, hevict, ⟨hd.remove e.1, (Fifo.FIFO_remove_cache_size e.1).trans hcs, ?_, .inr ?_⟩, ?_⟩
    · rw [hleft]
      exact (prefix_append l [e]).trans (hl ▸ hpre)
    · rw [hleft]
      omega
    · rw [hleft]
      omega
  obtain ⟨h', hloop, ⟨hones, hcs, hpre, hwhich⟩, hexit⟩ := whileLoop_total I (fun d => d.q.entries.length) hbody
    h.q.entries.length h ⟨hh, rfl, prefix_rfl, .inl rfl⟩ le_rfl
  have hroom : h'.occupied_byte < h.cache_size := by
    by_contra hfull
    exact absurd ((decide_eq_true (by rw [hcs]; omega)).symm.trans hexit) (by decide)
  have hocc := hones.occupied
  refine ⟨h', hloop, hones, hcs, hroom, ?_⟩
  rcases hwhich with heq | hmin
  · rw [heq, take_of_length_le]
    rw [heq] at hocc
    omega
  · rw [prefix_iff_eq_take.1 hpre]
    congr 1
    omega

structure Trims (c : Int) (s s' : SrLru) : Prop where
  lists : Lists c s'
  R_list : s'.R_list = s.R_list
  SR_list : s'.SR_list = s.SR_list
  C_new : s'.C_new = s.C_new
  drift : s'.demoted_drift = s.demoted_drift
  H_room : s'.H_list.occupied_byte < c
  entries : s'.H_list.q.entries = s.H_list.q.entries.take (c - 1).toNat

theorem trim_history_spec (h : Lists c s) (hc : 1 ≤ c) : ∃ s', trim_history s = some s' ∧ Trims c s s' := by
  obtain ⟨H, hloop, hones, hcs, hroom, hentries⟩ := trim_spec h.H (h.H_size ▸ hc)
  rw [h.H_size] at hcs hroom hentries
  have hpre : H.q.entries <+: s.H_list.q.entries := hentries ▸ take_prefix _ _
  have htrim : trim_history s = some { s with H_list := H } := by
    unfold trim_history
    rw [hloop]
    rfl
  refine ⟨_, htrim, { h with H := hones, H_size := hcs, H_out := ?_, H_freq := ?_, H_new := ?_ }, rfl, rfl, rfl, rfl, hroom, hentries⟩
  · intro x hx
    obtain ⟨o, ho⟩ := exists_lookup hx
    exact h.H_out x (mem_of_lookup (lookup_of_kept hpre ho))
  · intro x o ho
    exact h.H_freq x o (lookup_of_kept hpre ho)
  · have hdrift := h.H_new
    rw [new_drift_eq] at hdrift ⊢
    have hsplit : notes s.H_list = notes H ++ (s.H_list.q.entries.drop (c - 1).toNat).map fun e => (e.1, e.2.md.new_obj) := by
      unfold notes
      rw [hentries, ← map_append, take_append_drop]
    rw [hsplit, marked_append] at hdrift
    have hgone := marked_nonneg ((s.H_list.q.entries.drop (c - 1).toNat).map fun e => (e.1, e.2.md.new_obj))
    dsimp only
    omega

/-! ## What SR gives up -/

structure Pair (c : Int) (t : Twin) : Prop where
  lists : Lists c t.lru
  lfu : t.lfu.Inv
  sync : ∀ x, (∃ f, t.lfu.freqs x = some f) ↔ t.lru.holds x

def SrLru.freqs (s : SrLru) (x : ObjId) : Option Int := (s.H_list.q.lookup x).map (·.md.freq)

def Twin.freq_of (t : Twin) : ObjId → Option Int := both t.lfu.freqs t.lru.freqs

theorem freqs_insert (s : SrLru) (req : Request) (md : Md) : ({ s with H_list := s.H_list.LRU_insert req md } : SrLru).freqs =
    update s.freqs req.obj_id (some md.freq) := by
  funext x
  unfold SrLru.freqs
  rcases eq_or_ne x req.obj_id with rfl | hne
  · rw [lookup_LRU_insert_self, update_self]
    rfl
  · rw [lookup_LRU_insert_ne _ _ hne, update_of_ne hne]

structure Sends (c : Int) (t t' : Twin) : Prop where
  pair : Pair c t'
  R_list : t'.lru.R_list = t.lru.R_list
  SR_size : t'.lru.SR_list.cache_size = t.lru.SR_list.cache_size
  SR_entries : t'.lru.SR_list.q.entries <+: t.lru.SR_list.q.entries
  freq_of : t'.freq_of = t.freq_of
  drift : t'.lru.demoted_drift = t.lru.demoted_drift
  sent : ∃ sent, notes t'.lru.H_list = sent ++ notes t.lru.H_list ∧ t'.lru.C_new = t.lru.C_new + marked sent ∧
    (sent.length : Int) = t.lru.SR_list.occupied_byte - t'.lru.SR_list.occupied_byte

theorem Sends.refl (h : Pair c t) : Sends c t t :=
  ⟨h, rfl, rfl, prefix_rfl, rfl, rfl, [], rfl, (Int.add_zero _).symm, (Int.sub_self _).symm⟩

theorem Sends.trans (h1 : Sends c t t') (h2 : Sends c t' u) : Sends c t u := by
  obtain ⟨l1, hnotes1, hnew1, hlen1⟩ := h1.sent
  obtain ⟨l2, hnotes2, hnew2, hlen2⟩ := h2.sent
  refine ⟨h2.pair, h2.R_list.trans h1.R_list, h2.SR_size.trans h1.SR_size, h2.SR_entries.trans h1.SR_entries,
    h2.freq_of.trans h1.freq_of, h2.drift.trans h1.drift, l2 ++ l1, ?_, ?_, ?_⟩
  · rw [hnotes2, hnotes1, append_assoc]
  · rw [hnew2, hnew1, marked_append]
    omega
  · rw [length_append]
    omega

theorem Sends.holds (h : Sends c t t') (hx : t'.lru.holds x) : t.lru.holds x := by
  rcases hx with hx | hx
  · exact .inl (h.R_list ▸ hx)
  · obtain ⟨o, ho⟩ := exists_lookup hx
    exact .inr (mem_of_lookup (lookup_of_kept h.SR_entries ho))

theorem overflow_spec (h : Pair c t) (hocc : 0 < t.lru.SR_list.occupied_byte) :
    ∃ t', overflow t = some t' ∧ Sends c t t' ∧
      t'.lru.SR_list.occupied_byte = t.lru.SR_list.occupied_byte - 1 ∧
      t'.lru.SR_list.q.entries.length < t.lru.SR_list.q.entries.length := by
  obtain ⟨e, l, hl, hlast, hlook, hevict, hleft⟩ := h.lists.SR.evict hocc
  have hmem := mem_of_lookup hlook
  have hsize : (copy_cache_obj_to_request e).obj_size = 1 := h.lists.SR.one e.1 e.2 hlook
  have hmissH : e.1 ∉ t.lru.H_list.q := fun hH => h.lists.H_out e.1 hH (.inr hmem)
  have hmissR : e.1 ∉ t.lru.R_list.q := fun hR => h.lists.R_SR e.1 hR hmem
  have hSR := h.lists.SR.occupied_remove hmem
  obtain ⟨f, hf⟩ := (h.sync e.1).2 (.inr hmem)
  have hf0 := (h.lfu.range e.1 f hf).1
  obtain ⟨lfu, hremove, hlfu, hfreqs⟩ := CR_LFU_remove_spec
    (t := { t with lru := { t.lru with H_list := t.lru.H_list.LRU_insert (copy_cache_obj_to_request e) {} } }) h.lfu hf
    (lookup_LRU_insert_self (copy_cache_obj_to_request e) _)
  have hoffloaded : offloaded { t.lru with H_list := t.lru.H_list.LRU_insert (copy_cache_obj_to_request e) {} } e.1
      { obj_size := (copy_cache_obj_to_request e).obj_size, md := {} } f =
      { t.lru with H_list := t.lru.H_list.LRU_insert (copy_cache_obj_to_request e) { freq := f } } := by
    exact congrArg (fun H_list => ({ t.lru with H_list := H_list } : SrLru)) (LRU_insert_set_md ..)
  rw [hoffloaded] at hremove
  let md : Md := { freq := f, new_obj := e.2.md.new_obj }
  let lru : SrLru := { t.lru with
    H_list := t.lru.H_list.LRU_insert (copy_cache_obj_to_request e) md
    SR_list := (t.lru.SR_list.LRU_remove e.1).1
    C_new := if e.2.md.new_obj then t.lru.C_new + 1 else t.lru.C_new
    C_demoted := if e.2.md.demoted then t.lru.C_demoted - 1 else t.lru.C_demoted }
  have hoverflow : overflow t = some { lru := lru, lfu := lfu } := by
    have hset := LRU_insert_set_md t.lru.H_list (copy_cache_obj_to_request e) { freq := f } md
    have hself := lookup_LRU_insert_self (c := t.lru.H_list) (copy_cache_obj_to_request e) { freq := f }
    unfold overflow
    simp only [bind_eq_bind, hlast, bind_some, hremove]
    rw [show (t.lru.H_list.LRU_insert (copy_cache_obj_to_request e) { freq := f }).q.lookup e.1 = _ from hself]
    simp only [bind_some, hevict]
    rw [show (t.lru.H_list.LRU_insert (copy_cache_obj_to_request e) { freq := f }).set_md e.1 _ _ = _ from hset]
    rfl
  have hnotes : notes lru.H_list = (e.1, e.2.md.new_obj) :: notes t.lru.H_list :=
    notes_insert (copy_cache_obj_to_request e) hmissH md
  have hmarked := marked_cons (e.1, e.2.md.new_obj) (notes t.lru.H_list)
  have hC_new : lru.C_new = t.lru.C_new + if e.2.md.new_obj then 1 else 0 := by
    show (if e.2.md.new_obj then _ else _) = _
    split_ifs <;> omega
  have hlists : Lists c lru := by
    refine { h.lists with
      SR := h.lists.SR.remove e.1, H := h.lists.H.insert hmissH hsize md, R_SR := ?_, H_out := ?_, H_size := h.lists.H_size,
      R_size := ?_, H_freq := ?_, H_new := ?_ }
    · exact fun x hx hx' => h.lists.R_SR x hx (mem_LRU_remove.1 hx').2
    · rintro x hx (hx' | hx')
      · rcases (mem_LRU_insert _).1 hx with rfl | hx
        · exact hmissR hx'
        · exact h.lists.H_out x hx (.inl hx')
      · obtain ⟨hne, hx'⟩ := mem_LRU_remove.1 hx'
        rcases (mem_LRU_insert _).1 hx with rfl | hx
        · exact hne rfl
        · exact h.lists.H_out x hx (.inr hx')
    · show t.lru.R_list.cache_size = c - (t.lru.SR_list.LRU_remove e.1).1.cache_size
      rw [Lru.LRU_remove, Fifo.FIFO_remove_cache_size]
      exact h.lists.R_size
    · intro x o ho
      rcases eq_or_ne x e.1 with rfl | hne
      · cases (lookup_LRU_insert_self (copy_cache_obj_to_request e) md).symm.trans ho
        exact Int.le_trans Int.one_nonneg hf0
      · exact h.lists.H_freq x o ((lookup_LRU_insert_ne (copy_cache_obj_to_request e) md hne).symm.trans ho)
    · have hdrift := h.lists.H_new
      rw [new_drift_eq] at hdrift ⊢
      rw [hnotes, hmarked, hC_new]
      dsimp only
      omega
  have hsync : ∀ x, (∃ f, lfu.freqs x = some f) ↔ lru.holds x := by
    intro x
    show _ ↔ x ∈ t.lru.R_list.q ∨ x ∈ (t.lru.SR_list.LRU_remove e.1).1.q
    rw [hfreqs, mem_LRU_remove]
    rcases eq_or_ne x e.1 with rfl | hne
    · simp [hmissR]
    · rw [update_of_ne hne]
      exact (h.sync x).trans (or_congr_right ⟨fun hx => ⟨hne, hx⟩, fun hx => hx.2⟩)
  refine ⟨_, hoverflow, ⟨⟨hlists, hlfu, hsync⟩, rfl, Fifo.FIFO_remove_cache_size e.1, ?_, ?_, ?_,
    [(e.1, e.2.md.new_obj)], hnotes, ?_, ?_⟩, hSR, ?_⟩
  · rw [hleft, hl]
    exact prefix_append l [e]
  · unfold Twin.freq_of
    rw [hfreqs, ← both_move hf]
    exact congrArg (both _) (freqs_insert t.lru (copy_cache_obj_to_request e) md)
  · have hcount := count_remove (p := (·.demoted)) hlook
    show (if e.2.md.demoted then t.lru.C_demoted - 1 else t.lru.C_demoted) - (t.lru.SR_list.LRU_remove e.1).1.count _ = _
    rw [hcount]
    unfold SrLru.demoted_drift
    split_ifs <;> omega
  · rw [hC_new, marked_cons]
    exact congrArg _ (Int.add_zero _).symm
  · show (1 : Int) = t.lru.SR_list.occupied_byte - (t.lru.SR_list.LRU_remove e.1).1.occupied_byte
    omega
  · rw [hleft, hl, length_append]
    exact Nat.lt_succ_self _

theorem overflow_loop (h : Pair c t) (hsize : 0 ≤ t.lru.SR_list.cache_size) :
    ∃ t', whileLoop (fun t : Twin => t.lru.SR_list.occupied_byte > t.lru.SR_list.cache_size) overflow
        t.lru.SR_list.q.entries.length t = some t' ∧ Sends c t t' ∧
      t'.lru.SR_list.occupied_byte ≤ t.lru.SR_list.cache_size ∧
      (t'.lru.SR_list.occupied_byte = t.lru.SR_list.occupied_byte ∨ t'.lru.SR_list.occupied_byte = t.lru.SR_list.cache_size) := by
  let I : Twin → Prop := fun u => Sends c t u ∧
    (u.lru.SR_list.occupied_byte = t.lru.SR_list.occupied_byte ∨ t.lru.SR_list.cache_size ≤ u.lru.SR_list.occupied_byte)
  have hbody : ∀ u, I u → decide (u.lru.SR_list.occupied_byte > u.lru.SR_list.cache_size) = true →
      ∃ u', overflow u = some u' ∧ I u' ∧ u'.lru.SR_list.q.entries.length < u.lru.SR_list.q.entries.length := by
    rintro u ⟨hu, -⟩ hfull
    have hfull := of_decide_eq_true hfull
    rw [hu.SR_size] at hfull
    obtain ⟨u', hoverflow, hu', hocc, hlen⟩ := overflow_spec hu.pair (by omega)
    exact ⟨u', hoverflow, ⟨hu.trans hu', .inr (by omega)⟩, hlen⟩
  obtain ⟨t', hloop, ⟨hs, hwhich⟩, hexit⟩ := whileLoop_total I (fun u => u.lru.SR_list.q.entries.length) hbody
    t.lru.SR_list.q.entries.length t ⟨.refl h, .inl rfl⟩ le_rfl
  have hroom : t'.lru.SR_list.occupied_byte ≤ t.lru.SR_list.cache_size := by
    by_contra hfull
    exact absurd ((decide_eq_true (by rw [hs.SR_size]; omega)).symm.trans hexit) (by decide)
  exact ⟨t', hloop, hs, hroom, by omega⟩

theorem Trims.holds (ht : Trims c s s') (x : ObjId) : s'.holds x ↔ s.holds x := by
  unfold SrLru.holds
  rw [ht.R_list, ht.SR_list]

theorem Trims.freqs (ht : Trims c s s') : Within s'.freqs s.freqs := by
  have hpre : s'.H_list.q.entries <+: s.H_list.q.entries := ht.entries ▸ take_prefix _ _
  intro x n hx
  obtain ⟨o, ho, rfl⟩ := map_eq_some_iff.1 hx
  exact map_eq_some_iff.2 ⟨o, lookup_of_kept hpre ho, rfl⟩

/-! ## What comes in -/

def SrLru.recalls (s : SrLru) (id : ObjId) : Bool := (s.H_list.q.lookup id).any (·.md.new_obj)

structure Enters (c : Int) (req : Request) (s s' : SrLru) : Prop where
  lists : Lists c s'
  H_list : s'.H_list = (s.H_list.LRU_remove req.obj_id).1
  C_new : s'.C_new = s.C_new
  occupied : SR_LRU_get_occupied_byte s' = SR_LRU_get_occupied_byte s + 1
  holds : ∀ x, s'.holds x ↔ x = req.obj_id ∨ s.holds x
  drift : s'.demoted_drift = s.demoted_drift
  SR_size : 0 ≤ s'.SR_list.cache_size ∧ s'.SR_list.cache_size ≤ c - 1
  grown : s.recalls req.obj_id = true → (1 ≤ s'.SR_list.cache_size ↔ 1 ≤ SR_LRU_get_occupied_byte s)
  kept : s.recalls req.obj_id = false → s'.SR_list.cache_size = s.SR_list.cache_size
  SR_fits : s.recalls req.obj_id = false → s.SR_list.occupied_byte ≤ s.SR_list.cache_size →
    if req.obj_id ∈ s.H_list.q then s'.SR_list.occupied_byte ≤ s'.SR_list.cache_size
    else s'.SR_list.occupied_byte = s.SR_list.occupied_byte + 1
  /-- it is in R, or at the head of SR, where there is room for it -/
  stays : req.obj_id ∈ s'.R_list.q ∨ 1 ≤ s'.SR_list.cache_size ∧ ∃ o l, s'.SR_list.q.entries = ⟨req.obj_id, o⟩ :: l

theorem SR_LRU_can_insert_iff (h : Lists c s) (hsize : req.obj_size = 1) : SR_LRU_can_insert s req = true ↔
    1 ≤ if req.obj_id ∈ s.H_list.q then s.R_list.cache_size else s.SR_list.cache_size := by
  unfold SR_LRU_can_insert
  rw [hsize, h.md]
  by_cases hmem : req.obj_id ∈ s.H_list.q <;> simp [AList.lookup_isSome, hmem]

theorem enter_spec (h : Lists c s) (hsize : req.obj_size = 1) (hout : ¬ s.holds req.obj_id)
    (hSR : 0 ≤ s.SR_list.cache_size ∧ s.SR_list.cache_size ≤ c - 1) (hfits : SR_LRU_get_occupied_byte s + 1 ≤ c)
    (hexact : s.recalls req.obj_id = true → Exact c) (hcan : SR_LRU_can_insert s req = true) :
    ∃ s', enter s req = some s' ∧ Enters c req s s' := by
  rw [SR_LRU_can_insert_iff h hsize] at hcan
  unfold enter
  rcases hlook : s.H_list.q.lookup req.obj_id with _ | o
  · have hmiss := AList.lookup_eq_none.1 hlook
    have hrecalls : s.recalls req.obj_id = false := by
      unfold SrLru.recalls
      rw [hlook]
      rfl
    have hmissSR : req.obj_id ∉ s.SR_list.q := fun hmem => hout (.inr hmem)
    have hocc := h.SR.occupied_insert hsize ({ new_obj := true } : Md)
    rw [if_neg hmiss] at hcan
    refine ⟨_, rfl, ?_⟩
    refine ⟨{ h with SR := h.SR.insert hmissSR hsize _, R_SR := ?_, H_out := ?_, R_size := h.R_size }, ?_, rfl,
      ?_, fun x => ?_, ?_, hSR,
      fun hnew => absurd (hrecalls.symm.trans hnew) (by decide), fun _ => rfl, fun _ _ => ?_, .inr ⟨hcan, ?_⟩⟩
    · intro x hx hx'
      rcases (mem_LRU_insert _).1 hx' with rfl | hx'
      · exact hout (.inl hx)
      · exact h.R_SR x hx hx'
    · rintro x hx (hx' | hx')
      · exact h.H_out x hx (.inl hx')
      · rcases (mem_LRU_insert _).1 hx' with rfl | hx'
        · exact hmiss hx
        · exact h.H_out x hx (.inr hx')
    · unfold Lru.LRU_remove Fifo.FIFO_remove
      rw [hlook]
    · unfold SR_LRU_get_occupied_byte
      dsimp only
      omega
    · unfold SrLru.holds
      rw [mem_LRU_insert]
      exact or_left_comm
    · have hcount := count_insert (p := (·.demoted)) req hmissSR { new_obj := true }
      unfold SrLru.demoted_drift
      rw [hcount]
      simp
    · rw [if_neg hmiss]
      exact hocc
    · exact ⟨_, _, AList.entries_insert_of_notMem hmissSR⟩
  · have hmem := mem_of_lookup hlook
    have hrecalls : s.recalls req.obj_id = o.md.new_obj := by
      unfold SrLru.recalls
      rw [hlook]
      rfl
    rw [hrecalls] at hexact
    obtain ⟨s', hreturn, hr⟩ := return_to_R_spec h hsize hlook hSR hfits hexact
    refine ⟨s', hreturn, { hr with grown := ?_, kept := ?_, SR_fits := ?_, stays := .inl hr.mem }⟩
    · rw [hrecalls]
      exact hr.grown
    · rw [hrecalls]
      exact fun hold => (hr.kept hold).1
    · rw [hrecalls, if_pos hmem]
      exact fun hold => (hr.kept hold).2

structure Inserts (c : Int) (req : Request) (t t' : Twin) : Prop where
  pair : Pair c t'
  occupied : SR_LRU_get_occupied_byte t'.lru ≤ SR_LRU_get_occupied_byte t.lru + 1
  mem : t'.lru.holds req.obj_id
  holds : ∀ x, t'.lru.holds x → x = req.obj_id ∨ t.lru.holds x
  H_room : t'.lru.H_list.occupied_byte < c
  SR_size : 0 ≤ t'.lru.SR_list.cache_size ∧ t'.lru.SR_list.cache_size ≤ c - 1
  SR_fits : t'.lru.SR_list.occupied_byte ≤ t'.lru.SR_list.cache_size
  grown : t.lru.recalls req.obj_id = true → (1 ≤ t'.lru.SR_list.cache_size ↔ 1 ≤ SR_LRU_get_occupied_byte t.lru)
  kept : t.lru.recalls req.obj_id = false → t'.lru.SR_list.cache_size = t.lru.SR_list.cache_size
  freq_of : Within t'.freq_of (update t.freq_of req.obj_id (some (loaded_freq t.lru req.obj_id)))
  drift : t'.lru.demoted_drift = t.lru.demoted_drift
  sent : ∃ sent, notes t'.lru.H_list = (sent ++ notes (t.lru.H_list.LRU_remove req.obj_id).1).take (c - 1).toNat ∧
    t'.lru.C_new = t.lru.C_new + marked sent ∧
    (t.lru.recalls req.obj_id = false → t.lru.SR_list.occupied_byte ≤ t.lru.SR_list.cache_size →
      sent.length = if req.obj_id ∉ t.lru.H_list.q ∧ t.lru.SR_list.occupied_byte = t.lru.SR_list.cache_size then 1 else 0)

theorem Enters.freq_of (he : Enters c req t.lru s)
    (hfreqs : (CR_LFU_insert t req).freqs = update t.lfu.freqs req.obj_id (some (loaded_freq t.lru req.obj_id))) :
    ({ lru := s, lfu := CR_LFU_insert t req } : Twin).freq_of =
      update t.freq_of req.obj_id (some (loaded_freq t.lru req.obj_id)) := by
  funext x
  unfold Twin.freq_of both SrLru.freqs
  rw [hfreqs, he.H_list, Lru.LRU_remove, Fifo.lookup_FIFO_remove]
  rcases eq_or_ne x req.obj_id with rfl | hne
  · rw [update_self, update_self]
    rfl
  · rw [update_of_ne hne, update_of_ne hne, if_neg hne]

theorem Sends.head_stays (hs : Sends c t t') {e : Sigma fun _ : ObjId => FifoObj Md} {l}
    (hhead : t.lru.SR_list.q.entries = e :: l) (hpos : 1 ≤ t'.lru.SR_list.occupied_byte) : e.1 ∈ t'.lru.SR_list.q := by
  have hocc := hs.pair.lists.SR.occupied
  have hkept := hs.SR_entries
  have hne : t'.lru.SR_list.q.entries ≠ [] := by
    intro hnil
    rw [hnil, length_nil] at hocc
    omega
  obtain ⟨e', l', hl'⟩ := exists_cons_of_ne_nil hne
  rw [hl', hhead, cons_prefix_cons] at hkept
  apply mem_of_lookup (lookup_of_mem_entries _)
  rw [hl', hkept.1]
  exact mem_cons_self ..

theorem SR_LRU_insert_spec (h : Pair c t) (hsize : req.obj_size = 1) (hout : ¬ t.lru.holds req.obj_id)
    (hSR : 0 ≤ t.lru.SR_list.cache_size ∧ t.lru.SR_list.cache_size ≤ c - 1) (hfits : SR_LRU_get_occupied_byte t.lru + 1 ≤ c)
    (hexact : t.lru.recalls req.obj_id = true → Exact c) (hcan : SR_LRU_can_insert t.lru req = true)
    (hloads : Loads t.lfu (loaded_freq t.lru req.obj_id)) :
    ∃ t', SR_LRU_insert { t with lfu := CR_LFU_insert t req } req = some t' ∧ Inserts c req t t' := by
  have hmiss : t.lfu.freqs req.obj_id = none := by
    rw [eq_none_iff_forall_ne_some]
    exact fun f hf => hout ((h.sync _).1 ⟨f, hf⟩)
  have hfreq : 1 ≤ loaded_freq t.lru req.obj_id := by
    unfold loaded_freq
    rcases hlook : t.lru.H_list.q.lookup req.obj_id with _ | o
    · exact le_rfl
    · have hpos := h.lists.H_freq _ o hlook
      dsimp only
      omega
  obtain ⟨hlfu, hfreqs⟩ := CR_LFU_insert_spec h.lfu hmiss hfreq hloads
  obtain ⟨s1, henter, he⟩ := enter_spec h.lists hsize hout hSR hfits hexact hcan
  have hsync : ∀ x, (∃ f, (CR_LFU_insert t req).freqs x = some f) ↔ s1.holds x := by
    intro x
    rw [he.holds, hfreqs]
    rcases eq_or_ne x req.obj_id with rfl | hne
    · rw [update_self]
      exact ⟨fun _ => .inl rfl, fun _ => ⟨_, rfl⟩⟩
    · rw [update_of_ne hne, h.sync x]
      exact ⟨.inr, fun hx => hx.resolve_left hne⟩
  have hc : 1 ≤ c := by omega
  obtain ⟨t2, hloop, hs, hroom, hwhich⟩ := overflow_loop (t := { lru := s1, lfu := CR_LFU_insert t req })
    ⟨he.lists, hlfu, hsync⟩ he.SR_size.1
  obtain ⟨s3, htrim, ht⟩ := trim_history_spec hs.pair.lists hc
  have hinsert : SR_LRU_insert { t with lfu := CR_LFU_insert t req } req = some { t2 with lru := s3 } := by
    unfold SR_LRU_insert
    rw [henter]
    dsimp only [bind_eq_bind, bind_some]
    rw [hloop, bind_some, htrim]
    rfl
  have hSR3 := ht.SR_list
  have hSRsize : s3.SR_list.cache_size = s1.SR_list.cache_size := by
    rw [hSR3]
    exact hs.SR_size
  obtain ⟨sent, hnotes, hnew, hlen⟩ := hs.sent
  refine ⟨_, hinsert, ⟨ht.lists, hs.pair.lfu, fun x => (hs.pair.sync x).trans (ht.holds x).symm⟩, ?_, ?_,
    fun x hx => (he.holds x).1 (hs.holds ((ht.holds x).1 hx)), ht.H_room, hSRsize ▸ he.SR_size, ?_, ?_, ?_, ?_, ?_, sent, ?_, ?_,
    fun hold hfull => ?_⟩
  · have hocc := he.occupied
    have hR2 : t2.lru.R_list = s1.R_list := hs.R_list
    unfold SR_LRU_get_occupied_byte at hocc ⊢
    dsimp only at hlen ⊢
    rw [ht.R_list, hSR3, hR2]
    omega
  · apply (ht.holds req.obj_id).2
    rcases he.stays with hmem | ⟨hpos, o, l, hhead⟩
    · exact .inl (hs.R_list ▸ hmem)
    · have hocc := he.lists.SR.occupied
      rw [hhead, length_cons] at hocc
      dsimp only at hwhich
      exact .inr (hs.head_stays hhead (by omega))
  · rw [hSRsize, hSR3]
    exact hroom
  · rw [hSRsize]
    exact he.grown
  · rw [hSRsize]
    exact he.kept
  · -- the trimming forgets frequencies only
    rw [← he.freq_of hfreqs, ← hs.freq_of]
    exact ht.freqs.both_right
  · have hdrift : t2.lru.demoted_drift = s1.demoted_drift := hs.drift
    exact ht.drift.trans (hdrift.trans he.drift)
  · rw [← he.H_list]
    have hmid : notes t2.lru.H_list = sent ++ notes s1.H_list := hnotes
    rw [← hmid]
    unfold notes
    rw [ht.entries, map_take]
  · exact ht.C_new.trans (hnew.trans (congrArg (· + _) he.C_new))
  · have hcs := he.kept hold
    have hwhere := he.SR_fits hold hfull
    dsimp only at hwhich hlen hroom
    by_cases hmem : req.obj_id ∈ t.lru.H_list.q
    · rw [if_pos hmem] at hwhere
      rw [if_neg (fun hboth => hboth.1 hmem)]
      omega
    · rw [if_neg hmem] at hwhere
      split_ifs with hboth
      · omega
      · have hne : t.lru.SR_list.occupied_byte ≠ t.lru.SR_list.cache_size := fun heq => hboth ⟨hmem, heq⟩
        omega

/-! ## What an eviction takes -/

structure Left (c : Int) (id : ObjId) (s s' : SrLru) : Prop where
  lists : Lists c s'
  holds : ∀ x, s'.holds x ↔ x ≠ id ∧ s.holds x
  occupied : SR_LRU_get_occupied_byte s' = SR_LRU_get_occupied_byte s - 1
  SR_size : s'.SR_list.cache_size = s.SR_list.cache_size
  SR_occupied : s'.SR_list.occupied_byte = s.SR_list.occupied_byte - if id ∈ s.SR_list.q then 1 else 0
  drift : s'.demoted_drift = s.demoted_drift
  freqs : ∀ x ≠ id, s'.freqs x = s.freqs x
  entry : ∃ o, s'.H_list.q.entries.head? = some ⟨id, o⟩
  noted : ∃ new, notes s'.H_list = (id, new) :: notes s.H_list ∧ s'.C_new = s.C_new + (if new then 1 else 0) ∧
    (id ∈ s.R_list.q → new = false)

theorem Lists.remember (h : Lists c s) (hsize : o.obj_size = 1) (hid : s.holds id) {md : Md} (hfreq : md.freq = 0)
    (hnew : md.new_obj = o.md.new_obj) :
    let s' := remember s (copy_cache_obj_to_request ⟨id, o⟩) o.md md
    s'.H_list.Ones ∧ (∀ x, x ∈ s'.H_list.q ↔ x = id ∨ x ∈ s.H_list.q) ∧
      (∀ x p, s'.H_list.q.lookup x = some p → 0 ≤ p.md.freq) ∧ 0 ≤ s'.new_drift ∧
      (∀ x ≠ id, s'.freqs x = s.freqs x) ∧ (∃ p, s'.H_list.q.entries.head? = some ⟨id, p⟩) ∧
      notes s'.H_list = (id, o.md.new_obj) :: notes s.H_list ∧ s'.C_new = s.C_new + if o.md.new_obj then 1 else 0 := by
  intro s'
  have hmiss : id ∉ s.H_list.q := fun hmem => h.H_out id hmem hid
  have hC_new : s'.C_new = s.C_new + if o.md.new_obj then 1 else 0 := by
    show (if o.md.new_obj then _ else _) = _
    split_ifs <;> omega
  have hnotes : notes s'.H_list = (id, o.md.new_obj) :: notes s.H_list := by
    rw [← hnew]
    exact notes_insert (copy_cache_obj_to_request ⟨id, o⟩) hmiss md
  refine ⟨h.H.insert hmiss hsize md, fun x => mem_LRU_insert _, fun x p hx => ?_, ?_, fun x hne => ?_, ?_, hnotes, hC_new⟩
  · rcases eq_or_ne x id with rfl | hne
    · cases (lookup_LRU_insert_self (copy_cache_obj_to_request ⟨x, o⟩) md).symm.trans hx
      exact hfreq.ge
    · exact h.H_freq x p ((lookup_LRU_insert_ne (copy_cache_obj_to_request ⟨id, o⟩) md hne).symm.trans hx)
  · have hdrift := h.H_new
    rw [new_drift_eq] at hdrift ⊢
    rw [hnotes, marked_cons, hC_new]
    dsimp only
    omega
  · exact (congrFun (freqs_insert s (copy_cache_obj_to_request ⟨id, o⟩) md) x).trans (update_of_ne hne _ _)
  · exact ⟨_, rfl⟩

theorem left_R (h : Lists c s) (ho : s.R_list.q.lookup id = some o) (md : Md) (hfreq : md.freq = 0)
    (hnew : md.new_obj = o.md.new_obj) :
    Left c id s { remember s (copy_cache_obj_to_request ⟨id, o⟩) o.md md with R_list := (s.R_list.LRU_remove id).1 } := by
  have hmem := mem_of_lookup ho
  have hmiss := h.R_SR id hmem
  obtain ⟨hones, hin, hfreqs, hdrift, hsame, hentry, hnotes, hC_new⟩ := h.remember (h.R.one id o ho) (.inl hmem) hfreq hnew
  obtain ⟨hdemoted, hold⟩ := h.R_md id o ho
  have hocc := h.R.occupied_remove hmem
  have hholds : ∀ x, x ∈ (s.R_list.LRU_remove id).1.q ∨ x ∈ s.SR_list.q ↔ x ≠ id ∧ s.holds x := by
    intro x
    rw [mem_LRU_remove]
    constructor
    · rintro (⟨hne, hx⟩ | hx)
      · exact ⟨hne, .inl hx⟩
      · exact ⟨fun heq => hmiss (heq ▸ hx), .inr hx⟩
    · rintro ⟨hne, hx | hx⟩
      · exact .inl ⟨hne, hx⟩
      · exact .inr hx
  refine ⟨⟨h.md, h.R.remove id, h.SR, hones, fun x hx => h.R_SR x (mem_LRU_remove.1 hx).2, fun x hx hx' => ?_, h.H_size, ?_, ?_,
    hfreqs, hdrift⟩, hholds, ?_, rfl, ?_, ?_, hsame, hentry, _, hnotes, hC_new, fun _ => hold⟩
  · obtain ⟨hne, hx'⟩ := (hholds x).1 hx'
    exact h.H_out x (((hin x).1 hx).resolve_left hne) hx'
  · exact (Fifo.FIFO_remove_cache_size id).trans h.R_size
  · intro x p hx
    rw [Lru.LRU_remove, Fifo.lookup_FIFO_remove] at hx
    split_ifs at hx
    exact h.R_md x p hx
  · unfold SR_LRU_get_occupied_byte
    show (s.R_list.LRU_remove id).1.occupied_byte + s.SR_list.occupied_byte = _
    omega
  · rw [if_neg hmiss]
    exact (Int.sub_zero _).symm
  · show (if o.md.demoted then s.C_demoted - 1 else s.C_demoted) - s.SR_list.count _ = _
    rw [hdemoted]
    rfl

theorem left_SR (h : Lists c s) (ho : s.SR_list.q.lookup id = some o) (md : Md) (hfreq : md.freq = 0)
    (hnew : md.new_obj = o.md.new_obj) :
    Left c id s { remember s (copy_cache_obj_to_request ⟨id, o⟩) o.md md with SR_list := (s.SR_list.LRU_remove id).1 } := by
  have hmem := mem_of_lookup ho
  have hmiss : id ∉ s.R_list.q := fun hR => h.R_SR id hR hmem
  obtain ⟨hones, hin, hfreqs, hdrift, hsame, hentry, hnotes, hC_new⟩ := h.remember (h.SR.one id o ho) (.inr hmem) hfreq hnew
  have hocc := h.SR.occupied_remove hmem
  have hholds : ∀ x, x ∈ s.R_list.q ∨ x ∈ (s.SR_list.LRU_remove id).1.q ↔ x ≠ id ∧ s.holds x := by
    intro x
    rw [mem_LRU_remove]
    constructor
    · rintro (hx | ⟨hne, hx⟩)
      · exact ⟨fun heq => hmiss (heq ▸ hx), .inl hx⟩
      · exact ⟨hne, .inr hx⟩
    · rintro ⟨hne, hx | hx⟩
      · exact .inl hx
      · exact .inr ⟨hne, hx⟩
  refine ⟨⟨h.md, h.R, h.SR.remove id, hones, fun x hx hx' => h.R_SR x hx (mem_LRU_remove.1 hx').2, fun x hx hx' => ?_, h.H_size,
    ?_, h.R_md, hfreqs, hdrift⟩, hholds, ?_, Fifo.FIFO_remove_cache_size id, ?_, ?_, hsame, hentry, _, hnotes, hC_new,
    fun hR => absurd hR hmiss⟩
  · obtain ⟨hne, hx'⟩ := (hholds x).1 hx'
    exact h.H_out x (((hin x).1 hx).resolve_left hne) hx'
  · rw [Lru.LRU_remove, Fifo.FIFO_remove_cache_size]
    exact h.R_size
  · unfold SR_LRU_get_occupied_byte
    show s.R_list.occupied_byte + (s.SR_list.LRU_remove id).1.occupied_byte = _
    omega
  · rw [if_pos hmem]
    exact hocc
  · have hcount := count_remove (p := (·.demoted)) ho
    show (if o.md.demoted then s.C_demoted - 1 else s.C_demoted) - (s.SR_list.LRU_remove id).1.count _ = _
    rw [hcount]
    unfold SrLru.demoted_drift
    split_ifs <;> omega

structure Leaves (c : Int) (id : ObjId) (s s' : SrLru) : Prop where
  lists : Lists c s'
  holds : ∀ x, s'.holds x ↔ x ≠ id ∧ s.holds x
  occupied : SR_LRU_get_occupied_byte s' = SR_LRU_get_occupied_byte s - 1
  SR_size : s'.SR_list.cache_size = s.SR_list.cache_size
  SR_occupied : s'.SR_list.occupied_byte = s.SR_list.occupied_byte - if id ∈ s.SR_list.q then 1 else 0
  H_room : s'.H_list.occupied_byte < c
  drift : s'.demoted_drift = s.demoted_drift
  freqs : ∀ x ≠ id, ∀ n, s'.freqs x = some n → s.freqs x = some n
  entry : ∃ o, s'.H_list.q.lookup id = some o
  noted : ∃ new, notes s'.H_list = ((id, new) :: notes s.H_list).take (c - 1).toNat ∧
    s'.C_new = s.C_new + (if new then 1 else 0) ∧ (id ∈ s.R_list.q → new = false)

theorem Left.trim (h : Left c id s s') (hc : 2 ≤ c) : ∃ s'', trim_history s' = some s'' ∧ Leaves c id s s'' := by
  obtain ⟨s'', htrim, ht⟩ := trim_history_spec h.lists (by omega)
  obtain ⟨o, ho⟩ := h.entry
  obtain ⟨new, hnotes, hC_new, hold⟩ := h.noted
  have hcons : ∃ l, s''.H_list.q.entries = ⟨id, o⟩ :: l := by
    obtain ⟨l, hl⟩ := head?_eq_some_iff.1 ho
    rw [ht.entries, hl, show (c - 1).toNat = (c - 2).toNat + 1 by omega, take_succ_cons]
    exact ⟨_, rfl⟩
  obtain ⟨l, hl⟩ := hcons
  refine ⟨s'', htrim, ht.lists, fun x => ?_, ?_, ?_, ?_, ht.H_room, ht.drift.trans h.drift, fun x hne n hx => ?_, ⟨o, ?_⟩, new, ?_, ?_,
    hold⟩
  · rw [← h.holds x, ht.holds]
  · rw [← h.occupied]
    unfold SR_LRU_get_occupied_byte
    rw [ht.R_list, ht.SR_list]
  · rw [ht.SR_list]
    exact h.SR_size
  · rw [ht.SR_list]
    exact h.SR_occupied
  · rw [← h.freqs x hne]
    exact ht.freqs x n hx
  · exact lookup_of_mem_entries (e := ⟨id, o⟩) (hl ▸ mem_cons_self ..)
  · rw [← hnotes]
    unfold notes
    rw [ht.entries, map_take]
  · exact ht.C_new.trans hC_new

theorem SR_LRU_evict_spec (h : Lists c s) (hc : 2 ≤ c) (hocc : 0 < SR_LRU_get_occupied_byte s) :
    ∃ e s', SR_LRU_to_evict s = some e ∧ SR_LRU_evict s = some s' ∧ s.holds e.1 ∧ Leaves c e.1 s s' := by
  have hnonneg := h.SR.nonneg
  unfold SR_LRU_get_occupied_byte at hocc
  by_cases hempty : s.SR_list.occupied_byte = 0
  · obtain ⟨e, l, -, hlast, hlook, hevict, -⟩ := h.R.evict (by omega)
    obtain ⟨s', htrim, hleaves⟩ := (left_R h hlook { new_obj := e.2.md.new_obj, demoted := e.2.md.demoted } rfl rfl).trim hc
    have hto : SR_LRU_to_evict s = some e := by
      unfold SR_LRU_to_evict
      rw [if_pos hempty]
      exact hlast
    refine ⟨e, s', hto, ?_, .inl (mem_of_lookup hlook), hleaves⟩
    have hbranch : ¬ (remember s (copy_cache_obj_to_request e) e.2.md
        { new_obj := e.2.md.new_obj, demoted := e.2.md.demoted }).SR_list.occupied_byte > 0 := hempty.not_gt
    unfold SR_LRU_evict
    rw [hto]
    simp only [bind_eq_bind, bind_some]
    rw [if_neg hbranch, show (remember s _ e.2.md _).R_list.LRU_evict = _ from hevict]
    exact htrim
  · obtain ⟨e, l, -, hlast, hlook, hevict, -⟩ := h.SR.evict (by omega)
    obtain ⟨s', htrim, hleaves⟩ := (left_SR h hlook { new_obj := e.2.md.new_obj, demoted := e.2.md.demoted } rfl rfl).trim hc
    have hto : SR_LRU_to_evict s = some e := by
      unfold SR_LRU_to_evict
      rw [if_neg hempty]
      exact hlast
    refine ⟨e, s', hto, ?_, .inr (mem_of_lookup hlook), hleaves⟩
    have hbranch : (remember s (copy_cache_obj_to_request e) e.2.md
        { new_obj := e.2.md.new_obj, demoted := e.2.md.demoted }).SR_list.occupied_byte > 0 := by
      show s.SR_list.occupied_byte > 0
      omega
    unfold SR_LRU_evict
    rw [hto]
    simp only [bind_eq_bind, bind_some]
    rw [if_pos hbranch, show (remember s _ e.2.md _).SR_list.LRU_evict = _ from hevict]
    exact htrim

theorem SR_LRU_remove_spec (h : Lists c s) (hc : 2 ≤ c) (hid : s.holds id) :
    ∃ s', SR_LRU_remove s id = some (s', true) ∧ Leaves c id s s' := by
  unfold SR_LRU_remove
  rcases hid with hid | hid
  · obtain ⟨o, ho⟩ := exists_lookup hid
    obtain ⟨s', htrim, hleaves⟩ := (left_R h ho { new_obj := o.md.new_obj } rfl rfl).trim hc
    rw [ho]
    exact ⟨s', congrArg (Option.map fun s => (s, true)) htrim, hleaves⟩
  · obtain ⟨o, ho⟩ := exists_lookup hid
    obtain ⟨s', htrim, hleaves⟩ := (left_SR h ho { new_obj := o.md.new_obj } rfl rfl).trim hc
    have hmiss : s.R_list.q.lookup id = none := AList.lookup_eq_none.2 fun hR => h.R_SR id hR hid
    rw [hmiss, ho]
    exact ⟨s', congrArg (Option.map fun s => (s, true)) htrim, hleaves⟩

end CacheSim.Cacheus
