import CacheSim.Cacheus.Evictions

/-!
# The gets of Cacheus

A hit goes to both experts. After a miss one eviction makes room, since every object has one byte.
-/

namespace CacheSim.Cacheus

open Lib

variable {W : Type} {E : Weights W} {c : Int} {s s' t : State W} {req : Request}

theorem SR_LRU_find_miss {l : SrLru} (hmiss : ¬ l.holds req.obj_id) : SR_LRU_find l req true = some (l, false) := by
  have hR := AList.lookup_eq_none.2 fun hmem => hmiss (.inl hmem)
  have hSR := AList.lookup_eq_none.2 fun hmem => hmiss (.inr hmem)
  unfold SR_LRU_find
  rw [Lru.LRU_find_miss hR, Lru.LRU_find_miss hSR]
  rfl

theorem Cacheus_find_miss (h : Inv c s) (hmiss : ¬ s.twin.lru.holds req.obj_id) :
    Cacheus_find E s req true = some (check_and_update_history E s req.obj_id, false) := by
  unfold Cacheus_find
  rw [SR_LRU_find_miss hmiss, CR_LFU_find_miss (h.pair.freqs_eq_none.2 hmiss)]
  rfl

theorem Cacheus_find_hit (h : Inv c s) (hheld : s.twin.lru.holds req.obj_id) :
    ∃ t, Cacheus_find E s req true = some (t, true) ∧ Inv c t ∧ Finds c req s.twin.lru t.twin.lru := by
  have hR := h.pair.lists.R_size
  have hsize := h.SR_size
  obtain ⟨lru, hit, hfind, hf, hhit⟩ := SR_LRU_find_spec h.pair.lists (by omega) req
  obtain ⟨f, hfreq⟩ := (h.pair.sync req.obj_id).2 hheld
  obtain ⟨lfu, hfind', hlfu, hfreqs⟩ := CR_LFU_find_spec h.pair.lfu hfreq
  have hsync : ∀ x, (∃ g, lfu.freqs x = some g) ↔ lru.holds x := by
    intro x
    rw [hf.holds, ← h.pair.sync x, hfreqs]
    rcases eq_or_ne x req.obj_id with rfl | hne
    · rw [Function.update_self]
      exact ⟨fun _ => ⟨f, hfreq⟩, fun _ => ⟨_, rfl⟩⟩
    · rw [Function.update_of_ne hne]
  have hkept : Cacheus_find E s req true = some ({ s with twin := { lru := lru, lfu := lfu }, num_hit := s.num_hit + 1 }, true) := by
    unfold Cacheus_find
    rw [hfind, hfind', hhit.2 hheld]
    rfl
  refine ⟨_, hkept, ⟨⟨hf.lists, hlfu, hsync⟩, h.cache_size, h.obj_md_size, h.not_drawn, ?_, ?_, ?_, fun hnone => ?_, h.ghosts, ?_⟩, hf⟩
  · exact hf.occupied.trans_le h.fits
  · rw [hf.H_list]
    exact h.H_room
  · rw [hf.SR_size]
    exact hsize
  · exact absurd ((hf.holds _).2 hheld) (hnone _)
  · exact fun x hx => h.ghosts_out x ((hf.holds x).1 hx)

/-! ## Room for an object -/

def missed (E : Weights W) (s : State W) (req : Request) : State W :=
  check_and_update_history E { s with n_req := s.n_req + 1 } req.obj_id

def Forgot (s : State W) (req : Request) : Prop := req.obj_id ∉ s.LRU_g.q ∧ req.obj_id ∉ s.LFU_g.q

theorem Inv.missed (h : Inv c s) (E : Weights W) (req : Request) : Inv c (missed E s req) ∧ Forgot (missed E s req) req := by
  have hout : ∀ {g : Lru Unit} {x : ObjId}, x ∉ g.q → x ∉ (g.LRU_remove req.obj_id).1.q :=
    fun hx hmem => hx (Lru.mem_LRU_remove.1 hmem).2
  refine ⟨{ h with not_drawn := ?_, ghosts := ?_, ghosts_out := ?_ }, ?_, ?_⟩
  · exact ⟨h.not_drawn.1, Int.add_nonneg h.not_drawn.2 Int.one_nonneg⟩
  · exact ⟨(Fifo.FIFO_remove_spec h.ghosts.1 _).1, (Fifo.FIFO_remove_spec h.ghosts.2 _).1⟩
  · exact fun x hx => ⟨hout (h.ghosts_out x hx).1, hout (h.ghosts_out x hx).2⟩
  · exact fun hmem => (Lru.mem_LRU_remove.1 hmem).1 rfl
  · exact fun hmem => (Lru.mem_LRU_remove.1 hmem).1 rfl

def Room (E : Weights W) (c : Int) (s s' : State W) : Prop :=
  if SR_LRU_get_occupied_byte s.twin.lru = c then ∃ id, victim E s = some id ∧ Loses c id s s' else s' = s

theorem recalls_iff {l : SrLru} {id : ObjId} : l.recalls id = true ↔ (id, true) ∈ notes l.H_list := by
  unfold SrLru.recalls notes
  rw [Option.any_eq_true, List.mem_map]
  constructor
  · rintro ⟨o, ho, hnew⟩
    exact ⟨⟨id, o⟩, Table.mem_entries_of_lookup ho, Prod.ext rfl hnew⟩
  · rintro ⟨⟨x, o⟩, hmem, heq⟩
    obtain ⟨rfl, hnew⟩ := Prod.mk.inj heq
    exact ⟨o, Table.lookup_of_mem_entries hmem, hnew⟩

theorem Room.spec (h : Room E c s s') (hs : Inv c s) : Inv c s' ∧ SR_LRU_get_occupied_byte s'.twin.lru + 1 ≤ c ∧
    SR_LRU_get_occupied_byte s'.twin.lru = min (SR_LRU_get_occupied_byte s.twin.lru) (c - 1) ∧
    s'.twin.lru.SR_list.cache_size = s.twin.lru.SR_list.cache_size ∧ s'.twin.lru.demoted_drift = s.twin.lru.demoted_drift ∧
    (∀ x, s'.twin.lru.holds x → s.twin.lru.holds x) ∧
    ∀ x, ¬ s.twin.lru.holds x → s'.twin.lru.recalls x = true → s.twin.lru.recalls x = true := by
  have hfits := hs.fits
  unfold Room at h
  split_ifs at h with hfull
  · obtain ⟨id, -, hl⟩ := h
    have hocc := hl.evicts.occupied
    refine ⟨hl.inv, by omega, by omega, hl.evicts.SR_size, hl.evicts.drift, fun x hx => ((hl.evicts.holds x).1 hx).2, fun x hx => ?_⟩
    obtain ⟨new, hnotes, -, -⟩ := hl.evicts.noted
    rw [recalls_iff, recalls_iff, hnotes]
    intro hmem
    rcases List.mem_cons.1 (List.mem_of_mem_take hmem) with heq | hmem
    · exact absurd hl.held ((Prod.mk.inj heq).1 ▸ hx)
    · exact hmem
  · subst h
    exact ⟨hs, by omega, by omega, rfl, rfl, fun _ hx => hx, fun _ _ hx => hx⟩

/-! ## The object comes in -/

def Admits (c : Int) (req : Request) (t t' : Twin) : Prop :=
  if SR_LRU_can_insert t.lru req then Inserts c req t t' else t' = t

theorem Cacheus_insert_spec (h : Inv c s) (hsize : req.obj_size = 1) (hmiss : ¬ s.twin.lru.holds req.obj_id) (hforgot : Forgot s req)
    (hroom : SR_LRU_get_occupied_byte s.twin.lru + 1 ≤ c) (hexact : s.twin.lru.recalls req.obj_id = true → Exact c) :
    ∃ t, Cacheus_insert s req = some t ∧ Inv c t ∧ Admits c req s.twin t.twin := by
  unfold Cacheus_insert Admits
  split_ifs with hcan
  · have hloads : Loads s.twin.lfu (loaded_freq s.twin.lru req.obj_id) := by
      intro hnone
      refine (h.vacant fun x => h.pair.freqs_eq_none.1 (hnone x)).imp_right fun hempty => .inl ?_
      unfold loaded_freq
      rw [AList.lookup_eq_none.2 (hempty req.obj_id)]
    obtain ⟨twin, hinsert, hi⟩ := SR_LRU_insert_spec h.pair hsize hmiss h.SR_size hroom hexact hcan hloads
    refine ⟨{ s with twin := twin }, ?_, ⟨hi.pair, h.cache_size, h.obj_md_size, h.not_drawn,
      hi.occupied.trans hroom, hi.H_room, hi.SR_size,
      fun hnone => absurd hi.mem (hnone _), h.ghosts, fun x hx => ?_⟩, hi⟩
    · rw [hinsert]
      rfl
    · rcases hi.holds x hx with rfl | hx
      · exact hforgot
      · exact h.ghosts_out x hx
  · exact ⟨s, rfl, h, rfl⟩

theorem Inv.update_lr (h : Inv c s) : Inv c (update_lr E s) :=
  { h with }

theorem Cacheus_get_of_base (hc : 1 ≤ c) {hit : Bool}
    (hbase : (ops E).cache_get_base (fun s => s.twin.lfu.hashtable.entries.length) s req = some (t, hit)) (ht : Inv c t) :
    ∃ u, Cacheus_get E s req = some (u, hit) ∧ Inv c u ∧ u.twin = t.twin := by
  have hcs := ht.cache_size
  unfold Cacheus_get
  rw [hbase]
  dsimp only [Option.bind_eq_bind, Option.bind_some]
  rw [if_neg (by omega)]
  split_ifs
  · exact ⟨_, rfl, ht.update_lr, rfl⟩
  · exact ⟨_, rfl, ht, rfl⟩

theorem Inv.count_req (h : Inv c s) : Inv c { s with n_req := s.n_req + 1 } :=
  { h with not_drawn := ⟨h.not_drawn.1, Int.add_nonneg h.not_drawn.2 Int.one_nonneg⟩ }

theorem Cacheus_get_hit (h : Inv c s) (hc : 1 ≤ c) (hheld : s.twin.lru.holds req.obj_id) :
    ∃ t, Cacheus_get E s req = some (t, true) ∧ Inv c t ∧ Finds c req s.twin.lru t.twin.lru := by
  obtain ⟨u, hfind, hu, hf⟩ := Cacheus_find_hit h.count_req hheld
  obtain ⟨t, hget, ht, heq⟩ := Cacheus_get_of_base hc (CacheOps.cache_get_base_hit hfind) hu
  exact ⟨t, hget, ht, heq ▸ hf⟩

theorem make_room (h : Inv c s) (hsize : req.obj_size = 1) (hfull : SR_LRU_get_occupied_byte s.twin.lru = c → 2 ≤ c) :
    ∃ s', whileLoop ((ops E).full_for req) ((ops E).evict · req) s.twin.lfu.hashtable.entries.length s = some s' ∧ Room E c s s' := by
  have hcond : ∀ u : State W, Inv c u → ((ops E).full_for req u = true ↔ c < SR_LRU_get_occupied_byte u.twin.lru + 1) := by
    intro u hu
    rw [CacheOps.full_for_iff]
    show u.cache_size < SR_LRU_get_occupied_byte u.twin.lru + req.obj_size + u.obj_md_size ↔ _
    rw [hu.cache_size, hsize, hu.obj_md_size, Int.add_zero]
  have hstop : ∀ (n : Nat) (u : State W), Inv c u → SR_LRU_get_occupied_byte u.twin.lru + 1 ≤ c →
      whileLoop ((ops E).full_for req) ((ops E).evict · req) n u = some u := by
    intro n u hu hroom
    refine whileLoop_stop _ _ n u (Bool.eq_false_iff.2 fun htrue => ?_)
    have hlt := (hcond u hu).1 htrue
    omega
  have hfits := h.fits
  unfold Room
  split_ifs with heq
  · have hc := hfull heq
    obtain ⟨id, s', hvictim, hevict, hl⟩ := Cacheus_evict_spec h hc (by omega)
    have hocc := hl.evicts.occupied
    -- the table of CR-LFU has an object, so the loop may go round
    obtain ⟨f, hf⟩ := (h.pair.sync id).2 hl.held
    obtain ⟨o, ho, -⟩ := CrLfu.freqs_eq_some.1 hf
    have hlen := List.length_pos_of_mem (Table.mem_entries_of_lookup ho)
    obtain ⟨n, hn⟩ := Nat.exists_eq_succ_of_ne_zero hlen.ne'
    refine ⟨s', ?_, id, hvictim, hl⟩
    rw [hn]
    show (if (ops E).full_for req s = true then (Cacheus_evict E s).bind _ else some s) = some s'
    rw [if_pos ((hcond s h).2 (by omega)), hevict, Option.bind_some]
    exact hstop n s' hl.inv (by omega)
  · exact ⟨s, hstop _ s h (by omega), rfl⟩

theorem Room.forgot (h : Room E c s s') (hforgot : Forgot s req) (hmiss : ¬ s.twin.lru.holds req.obj_id) : Forgot s' req := by
  unfold Room at h
  split_ifs at h
  · obtain ⟨id, -, hl⟩ := h
    have hout : ¬ (req.obj_id ∈ s'.LRU_g.q ∨ req.obj_id ∈ s'.LFU_g.q) := by
      intro hmem
      rcases hl.ghosts _ hmem with heq | hmem | hmem
      · exact hmiss (heq ▸ hl.held)
      · exact hforgot.1 hmem
      · exact hforgot.2 hmem
    exact not_or.1 hout
  · exact h ▸ hforgot

theorem Cacheus_get_miss (h : Inv c s) (hc : 1 ≤ c) (hsize : req.obj_size = 1) (hmiss : ¬ s.twin.lru.holds req.obj_id)
    (hfull : SR_LRU_get_occupied_byte s.twin.lru = c → 2 ≤ c) (hexact : s.twin.lru.recalls req.obj_id = true → Exact c) :
    ∃ s' t, Cacheus_get E s req = some (t, false) ∧ Inv c t ∧ Room E c (missed E s req) s' ∧ Admits c req s'.twin t.twin := by
  obtain ⟨hs1, hforgot⟩ := h.missed E req
  obtain ⟨s', hloop, hroom⟩ := make_room (E := E) hs1 hsize hfull
  obtain ⟨hs', hfits, -, -, -, hheld, hrecalls⟩ := hroom.spec hs1
  obtain ⟨u, hinsert, hu, hadmits⟩ := Cacheus_insert_spec hs' hsize (fun hx => hmiss (hheld _ hx)) (hroom.forgot hforgot hmiss) hfits
    fun hx => hexact (hrecalls _ hmiss hx)
  have hcan : (ops E).can_insert (missed E s req) req = some (missed E s req, true) := by
    have hcs := hs1.cache_size
    have hmd := hs1.obj_md_size
    show some (missed E s req, !decide (req.obj_size + (missed E s req).obj_md_size > (missed E s req).cache_size)) = _
    rw [decide_eq_false (by omega)]
    rfl
  have hfind := Cacheus_find_miss (E := E) h.count_req hmiss
  obtain ⟨t, hget, ht, heq⟩ := Cacheus_get_of_base hc (CacheOps.cache_get_base_insert hfind hcan hloop hinsert) hu
  exact ⟨s', t, hget, ht, hroom, heq ▸ hadmits⟩

theorem init_lists (c : Int) : Lists c (SR_LRU_init c false) where
  md := rfl
  R := .init _
  SR := .init _
  H := .init _
  R_SR _ h := nomatch h
  H_out _ h := nomatch h
  H_size := rfl
  R_size := rfl
  R_md _ _ h := nomatch h
  H_freq _ _ h := nomatch h
  H_new := le_rfl

theorem init_lfu (md : Bool) : (CR_LFU_init md).Inv where
  buckets := by
    have hnode : ∀ f, LeCaR.node (CR_LFU_init md).freq_map f = {} := by
      intro f
      show LeCaR.node (Function.update _ 1 _) f = {}
      rw [LeCaR.node_update]
      split_ifs <;> rfl
    refine ⟨fun f x => ?_, fun f => ?_, fun f => ?_⟩
    · rw [hnode]
      exact iff_of_false List.not_mem_nil nofun
    · rw [hnode]
      exact List.nodup_nil
    · rw [hnode]
      rfl
  range _ _ h := nomatch h
  least _ _ h := nomatch h

theorem init_inv (hc : 1 ≤ c) : Inv c (Cacheus_init E c false) := by
  have hnone : ∀ x, ¬ (Cacheus_init E c false).twin.lru.holds x := by
    rintro x (hx | hx)
    · cases hx
    · cases hx
  refine ⟨⟨init_lists c, init_lfu _, fun x => iff_of_false ?_ (hnone x)⟩, rfl, rfl, ⟨rfl, le_rfl⟩, ?_, ?_, ?_, fun _ => .inr ?_,
    ⟨Fifo.init_inv _ _, Fifo.init_inv _ _⟩, fun x hx => absurd hx (hnone x)⟩
  · rintro ⟨f, hf⟩
    cases hf
  · exact Int.le_trans Int.one_nonneg hc
  · exact Int.lt_of_lt_of_le Int.zero_lt_one hc
  · show 0 ≤ c / 2 ∧ c / 2 ≤ c - 1
    omega
  · exact fun x hx => nomatch hx

end CacheSim.Cacheus

/-!
## The partition of Cacheus

SR may not become empty, since an object that is not in the history comes into SR only if that has a size at all. It grows to
the bytes that R and SR hold together, less one, so an empty cache makes it empty.
-/

namespace CacheSim.Cacheus

open Lib

variable {W : Type} {E : Weights W} {c : Int} {s t : State W} {req : Request}

def Usable (c : Int) (s : State W) : Prop :=
  1 ≤ s.twin.lru.SR_list.cache_size ∧ s.twin.lru.SR_list.cache_size ≤ c - 1 ∧
    s.twin.lru.R_list.cache_size = c - s.twin.lru.SR_list.cache_size

instance : Decidable (Usable c s) := inferInstanceAs (Decidable (_ ∧ _ ∧ _))

def resident (s : State W) (id : ObjId) : Prop := s.twin.lru.holds id ∧ id ∈ s.twin.lfu.hashtable

instance {id : ObjId} : Decidable (resident s id) := inferInstanceAs (Decidable (_ ∧ _))

def NotRoundedUp (c : Int) : Prop := to_double (c - 1 : Int) ≤ (c - 1 : Int)

theorem NotRoundedUp.exact (h : NotRoundedUp c) : Exact c := by
  intro n hn hle
  obtain ⟨m, rfl⟩ := Int.eq_ofNat_of_zero_le hn
  obtain ⟨k, hk⟩ := Int.eq_ofNat_of_zero_le (hn.trans hle)
  unfold NotRoundedUp at h
  rw [hk] at hle h ⊢
  exact (to_double_mono (Int.ofNat_le.1 hle)).trans h

theorem Inv.resident_iff (h : Inv c s) {x : ObjId} : resident s x ↔ s.twin.lru.holds x := by
  refine ⟨fun hx => hx.1, fun hx => ⟨hx, ?_⟩⟩
  obtain ⟨f, hf⟩ := (h.pair.sync x).2 hx
  obtain ⟨o, ho, -⟩ := CrLfu.freqs_eq_some.1 hf
  exact Table.mem_of_lookup ho

theorem Inv.usable_iff (h : Inv c s) : Usable c s ↔ 1 ≤ s.twin.lru.SR_list.cache_size :=
  ⟨fun hu => hu.1, fun hpos => ⟨hpos, h.SR_size.2, h.pair.lists.R_size⟩⟩

theorem Admits.inserts {u u' : Twin} (h : Admits c req u u') (hl : Lists c u.lru) (hsize : req.obj_size = 1)
    (hSR : 1 ≤ u.lru.SR_list.cache_size) (hR : 1 ≤ u.lru.R_list.cache_size) : Inserts c req u u' := by
  unfold Admits at h
  rwa [if_pos] at h
  rw [SR_LRU_can_insert_iff hl hsize]
  split_ifs
  · exact hR
  · exact hSR

theorem Cacheus_get_usable (h : Inv c s) (hc : 4 ≤ c) (hu : Usable c s) (hsize : req.obj_size = 1)
    (hround : s.twin.lru.recalls req.obj_id = true → NotRoundedUp c) :
    ∃ t hit, Cacheus_get E s req = some (t, hit) ∧ Inv c t ∧ t.twin.lru.holds req.obj_id ∧
      (1 ≤ t.twin.lru.SR_list.cache_size ↔ (s.twin.lru.recalls req.obj_id = true → 0 < SR_LRU_get_occupied_byte s.twin.lru)) := by
  obtain ⟨hSR, hSR', -⟩ := hu
  by_cases hheld : s.twin.lru.holds req.obj_id
  · obtain ⟨t, hget, ht, hf⟩ := Cacheus_get_hit h (by omega) hheld
    refine ⟨t, true, hget, ht, (hf.holds _).2 hheld, iff_of_true (hf.SR_size ▸ hSR) fun _ => ?_⟩
    exact h.pair.lists.occupied_pos_iff.2 ⟨_, hheld⟩
  · obtain ⟨s', t, hget, ht, hroom, hadmits⟩ := Cacheus_get_miss h (by omega) hsize hheld (fun _ => by omega)
      fun hnew => (hround hnew).exact
    obtain ⟨hs', -, hocc, hsame, -, -, hrecalls⟩ := hroom.spec (h.missed E req).1
    have hR := hs'.pair.lists.R_size
    have hocc' : SR_LRU_get_occupied_byte s'.twin.lru = min (SR_LRU_get_occupied_byte s.twin.lru) (c - 1) := hocc
    have hsame' : s'.twin.lru.SR_list.cache_size = s.twin.lru.SR_list.cache_size := hsame
    have hi := hadmits.inserts hs'.pair.lists hsize (by omega) (by omega)
    refine ⟨t, false, hget, ht, hi.mem, ?_⟩
    rcases hnew : s'.twin.lru.recalls req.obj_id with _ | _
    · -- SR keeps its size, and the cache is not empty if the history had the object before the eviction
      rw [hi.kept hnew]
      refine iff_of_true (hsame'.symm ▸ hSR) fun hold => ?_
      by_contra hempty
      have hunchanged : s' = missed E s req := by
        unfold Room at hroom
        rwa [if_neg (by show SR_LRU_get_occupied_byte s.twin.lru ≠ c; omega)] at hroom
      rw [hunchanged] at hnew
      exact absurd (hnew.symm.trans hold) (by decide)
    · have hold := hrecalls _ hheld hnew
      rw [hi.grown hnew, hocc']
      refine ⟨fun hpos _ => by omega, fun hpos => ?_⟩
      have hpos := hpos hold
      omega

theorem occupied_of_evict (h : Inv c s) (ht : Cacheus_evict E s = some t) : 0 < SR_LRU_get_occupied_byte s.twin.lru := by
  have hR := h.pair.lists.R.nonneg
  have hSR := h.pair.lists.SR.nonneg
  by_contra hempty
  unfold SR_LRU_get_occupied_byte at hempty
  have hSR0 : s.twin.lru.SR_list.occupied_byte = 0 := by omega
  have hnone : SR_LRU_to_evict s.twin.lru = none := by
    have hlen := h.pair.lists.R.occupied
    unfold SR_LRU_to_evict
    rw [if_pos hSR0]
    exact List.getLast?_eq_none_iff.2 (List.eq_nil_of_length_eq_zero (by omega))
  unfold Cacheus_evict at ht
  rw [hnone] at ht
  cases ht

def unit : Call → Prop
  | .get req => req.obj_size = 1
  | .evict => True
  | .remove _ => False

instance : DecidablePred unit := fun
  | .get _ => inferInstanceAs (Decidable (_ = _))
  | .evict => isTrue trivial
  | .remove _ => isFalse id

/-- No object comes back to an empty cache as one that was new when it left, nor where the size of SR might be rounded up. -/
def refills (c : Int) (s : State W) : Call → Prop
  | .get req => s.twin.lru.recalls req.obj_id = true → 0 < SR_LRU_get_occupied_byte s.twin.lru ∧ NotRoundedUp c
  | .evict => True
  | .remove _ => True

instance (a : Call) : Decidable (refills c s a) :=
  match a with
  | .get _ => inferInstanceAs (Decidable (_ → _ ∧ (_ : ℚ) ≤ _))
  | .evict => isTrue trivial
  | .remove _ => isTrue trivial

/-- Objects of size 1 without metadata. -/
theorem Cacheus_stays_usable (hc : 4 ≤ c) (h : Reach (call E) (fun s a => unit a ∧ refills c s a) (Cacheus_init E c false) s) :
    Usable c s ∧ ∀ req : Request, req.obj_size = 1 → (s.twin.lru.recalls req.obj_id = true → NotRoundedUp c) →
      ∃ t hit, Cacheus_get E s req = some (t, hit) ∧ resident t req.obj_id ∧
        (Usable c t ↔ (s.twin.lru.recalls req.obj_id = true → 0 < SR_LRU_get_occupied_byte s.twin.lru)) := by
  have hreach : Inv c s ∧ Usable c s := by
    refine h.inv (fun s => Inv c s ∧ Usable c s) ?_ ?_
    · rintro s a t ⟨hs, hu⟩ ⟨hunit, hok⟩ ht
      cases a with
      | get req =>
        obtain ⟨t', hit, hget, ht', -, hiff⟩ := Cacheus_get_usable (E := E) hs hc hu hunit fun hnew => (hok hnew).2
        simp only [call, hget, Option.map_some, Option.some.injEq] at ht
        subst ht
        exact ⟨ht', ht'.usable_iff.2 (hiff.2 fun hnew => (hok hnew).1)⟩
      | evict =>
        obtain ⟨id, t', -, hevict, hl⟩ := Cacheus_evict_spec (E := E) hs (by omega) (occupied_of_evict hs ht)
        cases hevict.symm.trans ht
        exact ⟨hl.inv, hl.inv.usable_iff.2 (hl.evicts.SR_size ▸ hu.1)⟩
      | remove id => exact hunit.elim
    · have hinv : Inv c (Cacheus_init E c false) := init_inv (by omega)
      refine ⟨hinv, hinv.usable_iff.2 ?_⟩
      show 1 ≤ c / 2
      omega
  obtain ⟨hs, hu⟩ := hreach
  refine ⟨hu, fun req hsize hround => ?_⟩
  obtain ⟨t, hit, hget, ht, hmem, hiff⟩ := Cacheus_get_usable (E := E) hs hc hu hsize hround
  exact ⟨t, hit, hget, ht.resident_iff.2 hmem, ht.usable_iff.trans hiff⟩

def even_weights : Weights Unit where
  init _ := ()
  picks_lru r _ := r < 50
  update_weight _ _ w := w
  update_lr _ _ w := (w, false)
  next_rand n := 37 * n

theorem Cacheus_stays_usable_of_four : ∃ s, Reach (call even_weights) (fun s a => unit a ∧ refills 4 s a)
      (Cacheus_init even_weights 4 false) s ∧
    Usable 4 s ∧ ∀ req : Request, req.obj_size = 1 → (s.twin.lru.recalls req.obj_id = true → NotRoundedUp 4) →
      ∃ t hit, Cacheus_get even_weights s req = some (t, hit) ∧ resident t req.obj_id ∧
        (Usable 4 t ↔ (s.twin.lru.recalls req.obj_id = true → 0 < SR_LRU_get_occupied_byte s.twin.lru)) := by
  obtain ⟨s, hs⟩ : ∃ s, runs (fun s a => if unit a ∧ refills 4 s a then call even_weights s a else none)
    (Cacheus_init even_weights 4 false)
      [.get { obj_id := 1 }, .get { obj_id := 2 }, .get { obj_id := 3 }, .evict, .get { obj_id := 1 }] = some s :=
    Option.isSome_iff_exists.1 (by decide +kernel)
  have hreach := Reach.of_checked hs
  exact ⟨s, hreach, Cacheus_stays_usable (by decide) hreach⟩

/-- Object 1 comes back to an empty cache, so SR becomes empty, and object 2 does not come in. -/
theorem Cacheus_loses_SR : ∃ s t, runs (call even_weights) (Cacheus_init even_weights 4 false)
      [.get { obj_id := 1 }, .evict, .get { obj_id := 1 }] = some s ∧ ¬ Usable 4 s ∧
    Cacheus_get even_weights s { obj_id := 2 } = some (t, false) ∧ ¬ resident t 2 := by
  obtain ⟨s, hs, hunusable, ⟨t, _⟩, ht, rfl, hout⟩ : ∃ s, runs (call even_weights) (Cacheus_init even_weights 4 false)
      [.get { obj_id := 1 }, .evict, .get { obj_id := 1 }] = some s ∧ ¬ Usable 4 s ∧
        ∃ r, Cacheus_get even_weights s { obj_id := 2 } = some r ∧ r.2 = false ∧ ¬ resident r.1 2 := by decide +kernel
  exact ⟨s, t, hs, hunusable, ht, hout⟩

end CacheSim.Cacheus
