import CacheSim.Cacheus.Sizes

/-!
# The least frequency of CR-LFU

`CR_LFU_evict` notes by a `min_freq` of -1 that no object is left, and `CR_LFU_remove` does not.
-/

namespace CacheSim.Cacheus

open Lib LeCaR Option Function

variable {W : Type} {E : Weights W} {s s' : State W} {t t' : Twin} {l l' : CrLfu} {req : Request} {id x : ObjId}

/-- What CR-LFU holds is in R or in SR, so an object that they do not find is new to it. -/
structure Synced (t : Twin) : Prop where
  lfu : t.lfu.Inv
  kept : Kept t.lru
  sync : ∀ x f, t.lfu.freqs x = some f → t.lru.holds x

theorem Synced.freqs_eq_none (h : Synced t) (hx : ¬ t.lru.holds x) : t.lfu.freqs x = none := by
  rcases hf : t.lfu.freqs x with _ | f
  · rfl
  · exact absurd (h.sync x f hf) hx

/-! ## CR-LFU -/

variable {hit : Bool}

theorem CR_LFU_find_kept (h : l.Inv) (hfind : CR_LFU_find l req true = some (l', hit)) :
    l'.Inv ∧ ∀ x f, l'.freqs x = some f → ∃ g, l.freqs x = some g := by
  rcases hf : l.freqs req.obj_id with _ | f
  · cases (CR_LFU_find_miss hf).symm.trans hfind
    exact ⟨h, fun x f hx => ⟨f, hx⟩⟩
  · obtain ⟨l1, hfind1, hinv, hfreqs⟩ := CR_LFU_find_spec h hf
    cases hfind1.symm.trans hfind
    refine ⟨hinv, fun x g hx => ?_⟩
    rw [hfreqs] at hx
    rcases eq_or_ne x req.obj_id with rfl | hne
    · exact ⟨f, hf⟩
    · rw [update_of_ne hne] at hx
      exact ⟨g, hx⟩

structure Parts (id : ObjId) (t t' : Twin) : Prop where
  lfu : t'.lfu.Inv
  kept : Kept t'.lru
  freqs : t'.lfu.freqs = update t.lfu.freqs id none
  holds : ∀ x, t.lru.holds x → t'.lru.holds x
  SR_list : t'.lru.SR_list = t.lru.SR_list

theorem Kept.offloaded {s : SrLru} (h : Kept s) {o : FifoObj Md} (ho : s.H_list.q.lookup id = some o) {f : Int} (hf : 0 ≤ f) :
    Kept (offloaded s id o f) :=
  ⟨⟨h.sized.R, h.sized.SR⟩, h.noted.set_md ho hf⟩

variable {found : Bool}

theorem CR_LFU_remove_parts (h : CR_LFU_remove t id = some (t', found)) (hl : t.lfu.Inv) (hk : Kept t.lru) :
    Parts id t t' := by
  rcases hf : t.lfu.freqs id with _ | f
  · have hnone : CR_LFU_remove t id = some (t, false) := by
      unfold CR_LFU_remove
      rw [map_eq_none_iff.1 hf]
    cases hnone.symm.trans h
    exact ⟨hl, hk, by rw [← hf, update_eq_self], fun _ hx => hx, rfl⟩
  · -- the history has the object, or its frequency could not be written there
    have hnoted : ∃ o, t.lru.H_list.q.lookup id = some o := by
      obtain ⟨obj, hobj, -⟩ := CrLfu.freqs_eq_some.1 hf
      unfold CR_LFU_remove at h
      rw [hobj] at h
      obtain ⟨lru, hoffload, -⟩ := bind_eq_some_iff.1 h
      obtain ⟨o, ho, -⟩ := bind_eq_some_iff.1 hoffload
      exact ⟨o, ho⟩
    obtain ⟨o, ho⟩ := hnoted
    obtain ⟨l, hremove, hinv, hfreqs⟩ := CR_LFU_remove_spec hl hf ho
    cases hremove.symm.trans h
    have hone := (hl.range id f hf).1
    exact ⟨hinv, hk.offloaded ho (by omega), hfreqs, fun _ hx => hx, rfl⟩

theorem CR_LFU_to_evict_freq (hl : l.Inv) (hid : CR_LFU_to_evict l = some id) : l.freqs id = some l.min_freq := by
  obtain ⟨n, hn, hlast⟩ := bind_eq_some_iff.1 hid
  have hnode : node l.freq_map l.min_freq = n := by
    unfold node
    rw [hn]
    rfl
  rw [← hl.buckets.mem, hnode]
  exact List.mem_of_getLast? hlast

theorem CR_LFU_evict_parts (h : CR_LFU_evict t = some t') (hl : t.lfu.Inv) (hk : Kept t.lru) :
    ∃ id, CR_LFU_to_evict t.lfu = some id ∧ Parts id t t' ∧ ((∀ x, t'.lfu.freqs x = none) → t'.lfu.min_freq = -1) := by
  have hvictim : ∃ id o, CR_LFU_to_evict t.lfu = some id ∧ t.lru.H_list.q.lookup id = some o := by
    obtain ⟨n, hn, h⟩ := bind_eq_some_iff.1 h
    obtain ⟨id, hid, h⟩ := bind_eq_some_iff.1 h
    obtain ⟨obj, -, h⟩ := bind_eq_some_iff.1 h
    obtain ⟨lru, hoffload, -⟩ := bind_eq_some_iff.1 h
    obtain ⟨o, ho, -⟩ := bind_eq_some_iff.1 hoffload
    refine ⟨id, o, ?_, ho⟩
    unfold CR_LFU_to_evict
    rw [hn]
    exact hid
  obtain ⟨id, o, hid, ho⟩ := hvictim
  have hf := CR_LFU_to_evict_freq hl hid
  obtain ⟨l, hevict, hinv, hfreqs, hvacant⟩ := CR_LFU_evict_spec hl hid hf ho
  cases hevict.symm.trans h
  have hone := (hl.range id _ hf).1
  exact ⟨id, hid, ⟨hinv, hk.offloaded ho (by omega), hfreqs, fun _ hx => hx, rfl⟩, hvacant⟩

theorem Parts.freqs_some (h : Parts id t t') {f : Int} (hx : t'.lfu.freqs x = some f) : x ≠ id ∧ t.lfu.freqs x = some f := by
  rw [h.freqs] at hx
  rcases eq_or_ne x id with rfl | hne
  · rw [update_self] at hx
    cases hx
  · rw [update_of_ne hne] at hx
    exact ⟨hne, hx⟩

variable {lru : SrLru}

theorem Synced.lose (h : Synced t) (hd : Drops id t.lru lru) (hl : Parts id { t with lru := lru } t') : Synced t' := by
  refine { hl with sync := fun x f hx => ?_ }
  obtain ⟨hne, hx⟩ := hl.freqs_some hx
  exact hl.holds x (hd.holds x hne (h.sync x f hx))

theorem Synced.overflow (h : Synced t) (hover : overflow t = some t') : Synced t' := by
  obtain ⟨e, he, hover⟩ := bind_eq_some_iff.1 hover
  obtain ⟨⟨t1, found⟩, hremove, hover⟩ := bind_eq_some_iff.1 hover
  obtain ⟨obj, hobj, hover⟩ := bind_eq_some_iff.1 hover
  obtain ⟨SR_list, hevict, hover⟩ := bind_eq_some_iff.1 hover
  cases hover
  have hkept : Kept { t.lru with H_list := t.lru.H_list.LRU_insert (copy_cache_obj_to_request e) {} } :=
    ⟨⟨h.kept.sized.R, h.kept.sized.SR⟩, h.kept.noted.insert _ le_rfl⟩
  have hparts : Parts e.1 { t with lru := { t.lru with H_list := t.lru.H_list.LRU_insert (copy_cache_obj_to_request e) {} } } t1 :=
    CR_LFU_remove_parts hremove h.lfu hkept
  obtain ⟨e', he', -, rfl⟩ := LRU_evict_eq hevict
  rw [hparts.SR_list] at he'
  cases he.symm.trans he'
  have hfreq : 0 ≤ ({ obj.md with new_obj := e.2.md.new_obj } : Md).freq := hparts.kept.noted _ _ hobj
  refine ⟨hparts.lfu, ⟨⟨hparts.kept.sized.R, hparts.kept.sized.SR.remove _⟩, hparts.kept.noted.set_md hobj hfreq⟩, fun x f hx => ?_⟩
  obtain ⟨hne, hx⟩ := hparts.freqs_some hx
  exact (hparts.holds x (h.sync x f hx)).imp_right fun hx => Lru.mem_LRU_remove.2 ⟨hne, hx⟩

theorem Synced.trim (h : Synced t) (htrim : trim_history t.lru = some lru) : Synced { t with lru := lru } := by
  obtain ⟨hkept, hholds⟩ := trim_history_kept h.kept htrim
  exact ⟨h.lfu, hkept, fun x f hx => hholds x (h.sync x f hx)⟩

theorem loaded_freq_pos (h : Kept t.lru) (id : ObjId) : 1 ≤ loaded_freq t.lru id := by
  unfold loaded_freq
  rcases ho : t.lru.H_list.q.lookup id with _ | o
  · exact le_rfl
  · have hfreq := h.noted id o ho
    show 1 ≤ o.md.freq + 1
    omega

theorem Synced.insert (h : Synced t) (hsize : 0 ≤ req.obj_size) (hmiss : t.lfu.freqs req.obj_id = none)
    (hloads : Loads t.lfu (loaded_freq t.lru req.obj_id))
    (hinsert : SR_LRU_insert { t with lfu := CR_LFU_insert t req } req = some t') : Synced t' := by
  obtain ⟨hinv, hfreqs⟩ := CR_LFU_insert_spec h.lfu hmiss (loaded_freq_pos h.kept _) hloads
  obtain ⟨lru, henter, hinsert⟩ := bind_eq_some_iff.1 hinsert
  obtain ⟨u, hloop, hinsert⟩ := bind_eq_some_iff.1 hinsert
  obtain ⟨lru', htrim, hinsert⟩ := bind_eq_some_iff.1 hinsert
  cases hinsert
  obtain ⟨hkept, hself, hholds⟩ := enter_kept h.kept hsize henter
  have hentered : Synced { lru := lru, lfu := CR_LFU_insert t req } := by
    refine ⟨hinv, hkept, fun x f hx => ?_⟩
    rcases eq_or_ne x req.obj_id with rfl | hne
    · exact hself
    · exact hholds x (h.sync x f (by rwa [hfreqs, update_of_ne hne] at hx))
  exact (whileLoop_inv Synced (fun _ _ hu _ hover => hu.overflow hover) _ _ _ hentered hloop).1.trim htrim

/-! ## The calls -/

structure Even (s : State W) : Prop where
  twin : Synced s.twin
  not_drawn : s.to_evict_candidate_gen_vtime = -1 ∧ 0 ≤ s.n_req

theorem Even.find (h : Even s) (hfind : Cacheus_find E s req true = some (s', hit)) :
    Even s' ∧ (hit = false → ¬ s.twin.lru.holds req.obj_id ∧ s' = check_and_update_history E s req.obj_id) := by
  obtain ⟨⟨lru, hit_lru⟩, hlru, hfind⟩ := bind_eq_some_iff.1 hfind
  obtain ⟨⟨lfu, hit_lfu⟩, hlfu, hfind⟩ := bind_eq_some_iff.1 hfind
  obtain ⟨hshifts, hmiss⟩ := SR_LRU_find_shifts h.twin.kept.sized hlru
  obtain ⟨hinv, hold⟩ := CR_LFU_find_kept h.twin.lfu hlfu
  have htwin : Synced { lru := lru, lfu := lfu } := by
    refine ⟨hinv, ⟨hshifts.sized, hshifts.H_list ▸ h.twin.kept.noted⟩, fun x f hx => ?_⟩
    obtain ⟨g, hg⟩ := hold x f hx
    exact hshifts.holds x (h.twin.sync x g hg)
  cases hit_lru with
  | true =>
    cases hfind
    exact ⟨⟨htwin, h.not_drawn⟩, fun hhit => by cases hhit⟩
  | false =>
    cases hfind
    have hout := hmiss rfl
    cases (SR_LRU_find_miss hout).symm.trans hlru
    cases (CR_LFU_find_miss (h.twin.freqs_eq_none hout)).symm.trans hlfu
    exact ⟨⟨htwin, h.not_drawn⟩, fun _ => ⟨hout, rfl⟩⟩

theorem Synced.evict_from_experts {s : State W} (h : Synced s.twin) {lru_to_evict : Sigma fun _ : ObjId => FifoObj Md}
    {lfu_to_evict : ObjId} (hlru : SR_LRU_to_evict s.twin.lru = some lru_to_evict)
      (hlfu : CR_LFU_to_evict s.twin.lfu = some lfu_to_evict)
    {obj_to_evict : Candidate} (hobj : obj_to_evict = .lru lru_to_evict.1 ∨ obj_to_evict = .lfu lfu_to_evict)
    (hevict : evict_from_experts s lru_to_evict lfu_to_evict obj_to_evict = some s') :
    (Synced s'.twin ∧ s'.n_req = s.n_req) ∧ (∃ id, s'.twin.lfu.freqs = update s.twin.lfu.freqs id none) ∧
      ((∀ x, s'.twin.lfu.freqs x = none) → s'.twin.lfu.min_freq = -1) := by
  unfold Cacheus.evict_from_experts at hevict
  split_ifs at hevict with hsame hpicked
  · obtain ⟨lru, hevict_lru, hevict⟩ := bind_eq_some_iff.1 hevict
    obtain ⟨twin, hevict_lfu, hevict⟩ := bind_eq_some_iff.1 hevict
    cases hevict
    obtain ⟨e, he, hdrops⟩ := SR_LRU_evict_drops h.kept hevict_lru
    obtain ⟨id, hid, hparts, hvacant⟩ := CR_LFU_evict_parts hevict_lfu h.lfu hdrops.kept
    cases hlru.symm.trans he
    cases hlfu.symm.trans hid
    rw [hsame] at hdrops
    exact ⟨⟨h.lose hdrops hparts, rfl⟩, ⟨_, hparts.freqs⟩, hvacant⟩
  · obtain ⟨lru, hevict_lru, hevict⟩ := bind_eq_some_iff.1 hevict
    obtain ⟨⟨twin, found⟩, hremove, hevict⟩ := bind_eq_some_iff.1 hevict
    obtain ⟨⟨LRU_g, hit⟩, -, hevict⟩ := bind_eq_some_iff.1 hevict
    cases hevict
    obtain ⟨e, he, hdrops⟩ := SR_LRU_evict_drops h.kept hevict_lru
    cases hlru.symm.trans he
    have hparts := CR_LFU_remove_parts hremove h.lfu hdrops.kept
    refine ⟨⟨h.lose hdrops hparts, rfl⟩, ⟨_, hparts.freqs⟩, fun hvacant => ?_⟩
    -- the candidate of CR-LFU is another object, and stays
    have hstays : twin.lfu.freqs lfu_to_evict = some s.twin.lfu.min_freq := by
      rw [hparts.freqs, update_of_ne (Ne.symm hsame)]
      exact CR_LFU_to_evict_freq h.lfu hlfu
    cases (hvacant lfu_to_evict).symm.trans hstays
  · obtain ⟨obj, -, hevict⟩ := bind_eq_some_iff.1 hevict
    obtain ⟨⟨lru, found⟩, hremove, hevict⟩ := bind_eq_some_iff.1 hevict
    obtain ⟨twin, hevict_lfu, hevict⟩ := bind_eq_some_iff.1 hevict
    obtain ⟨⟨LFU_g, hit⟩, -, hevict⟩ := bind_eq_some_iff.1 hevict
    cases hevict
    obtain rfl := hobj.resolve_left hpicked
    have hdrops := SR_LRU_remove_drops h.kept hremove
    obtain ⟨id, hid, hparts, hvacant⟩ := CR_LFU_evict_parts hevict_lfu h.lfu hdrops.kept
    cases hlfu.symm.trans hid
    exact ⟨⟨h.lose hdrops hparts, rfl⟩, ⟨_, hparts.freqs⟩, hvacant⟩

theorem Even.remove (h : Even s) (hremove : Cacheus_remove s id = some (s', found)) : Even s' := by
  obtain ⟨⟨lru, lru_removed⟩, hlru, hremove⟩ := bind_eq_some_iff.1 hremove
  obtain ⟨⟨twin, lfu_removed⟩, htwin, hremove⟩ := bind_eq_some_iff.1 hremove
  cases hremove
  have hdrops := SR_LRU_remove_drops h.twin.kept hlru
  exact ⟨h.twin.lose hdrops (CR_LFU_remove_parts htwin h.twin.lfu hdrops.kept), h.not_drawn⟩

theorem Even.evict (h : Even s) (hevict : Cacheus_evict E s = some s') :
    Even s' ∧ (∃ id, s'.twin.lfu.freqs = update s.twin.lfu.freqs id none) ∧
      ((∀ x, s'.twin.lfu.freqs x = none) → s'.twin.lfu.min_freq = -1) := by
  have hstale : ¬ s.to_evict_candidate_gen_vtime = s.n_req := by
    have hdrawn := h.not_drawn
    omega
  obtain ⟨lru_to_evict, hlru, hevict⟩ := bind_eq_some_iff.1 hevict
  obtain ⟨lfu_to_evict, hlfu, hevict⟩ := bind_eq_some_iff.1 hevict
  rw [if_neg hstale] at hevict
  obtain ⟨obj_to_evict, hdrawn, hevict⟩ := bind_eq_some_iff.1 hevict
  obtain ⟨s1, hexperts, hevict⟩ := bind_eq_some_iff.1 hevict
  cases hevict
  have hobj : obj_to_evict = .lru lru_to_evict.1 ∨ obj_to_evict = .lfu lfu_to_evict := by
    unfold Cacheus_to_evict at hdrawn
    rw [hlru, hlfu] at hdrawn
    split_ifs at hdrawn
    · exact .inl (some.inj hdrawn).symm
    · exact .inr (some.inj hdrawn).symm
  obtain ⟨⟨htwin, hreq⟩, hfreqs, hvacant⟩ := Synced.evict_from_experts (s := Cacheus_to_evict E s) h.twin hlru hlfu hobj hexperts
  exact ⟨⟨htwin, rfl, hreq ▸ h.not_drawn.2⟩, hfreqs, hvacant⟩

def comes_in (s : State W) (req : Request) : Prop :=
  ¬ s.twin.lru.holds req.obj_id ∧ req.obj_size + s.obj_md_size ≤ s.cache_size ∧ SR_LRU_can_insert s.twin.lru req = true

/-- No object comes into an empty CR-LFU with a frequency above 1 and above the `min_freq` that the last removal left. -/
def loads_low (s : State W) : Call → Prop
  | .get req => 0 ≤ req.obj_size ∧ (comes_in s req → Loads s.twin.lfu (loaded_freq s.twin.lru req.obj_id))
  | .evict => True
  | .remove _ => True

theorem Even.insert (h : Even s) (hsize : 0 ≤ req.obj_size) (hmiss : s.twin.lfu.freqs req.obj_id = none)
    (hloads : SR_LRU_can_insert s.twin.lru req = true → Loads s.twin.lfu (loaded_freq s.twin.lru req.obj_id))
    (hinsert : Cacheus_insert s req = some s') : Even s' := by
  unfold Cacheus_insert at hinsert
  split_ifs at hinsert with hcan
  · obtain ⟨twin, htwin, hinsert⟩ := bind_eq_some_iff.1 hinsert
    cases hinsert
    exact ⟨h.twin.insert hsize hmiss (hloads hcan) htwin, h.not_drawn⟩
  · cases hinsert
    exact h

theorem Even.get (h : Even s) (hok : loads_low s (.get req)) (hget : Cacheus_get E s req = some (s', hit)) : Even s' := by
  obtain ⟨hsize, hloads⟩ := hok
  have hcount : Even { s with n_req := s.n_req + 1 } := ⟨h.twin, h.not_drawn.1, Int.add_nonneg h.not_drawn.2 Int.one_nonneg⟩
  have hbase : ∀ {u : State W}, (ops E).cache_get_base (fun s => s.twin.lfu.hashtable.entries.length) s req =
    some (u, hit) → Even u := by
    intro u hu
    cases hit with
    | true => exact (hcount.find (CacheOps.cache_get_base_found hu)).1
    | false =>
      obtain ⟨s1, s2, admitted, hfind, hcan, hrest⟩ := CacheOps.cache_get_base_missed hu
      obtain ⟨hs1, hfound⟩ := hcount.find hfind
      obtain ⟨hout, rfl⟩ := hfound rfl
      cases hcan
      split_ifs at hrest with hfits
      · obtain ⟨s3, hloop, hinsert⟩ := hrest
        let I : State W → Prop := fun v => Even v ∧ v.twin.lfu.freqs req.obj_id = none ∧
          ((∀ x, v.twin.lfu.freqs x = none) → v.twin.lfu.min_freq = -1 ∨ v.twin = s.twin)
        have hround : ∀ v v', I v → (ops E).full_for req v = true → Cacheus_evict E v = some v' → I v' := by
          rintro v v' ⟨hv, hmiss, -⟩ - hevict
          obtain ⟨hv', ⟨id, hfreqs⟩, hvacant⟩ := hv.evict hevict
          refine ⟨hv', ?_, fun hnone => .inl (hvacant hnone)⟩
          rw [hfreqs, update_apply]
          split_ifs
          · rfl
          · exact hmiss
        have hstart : I (check_and_update_history E { s with n_req := s.n_req + 1 } req.obj_id) :=
          ⟨hs1, h.twin.freqs_eq_none hout, fun _ => .inr rfl⟩
        obtain ⟨⟨hs3, hmiss, hvacant⟩, -⟩ := whileLoop_inv I hround _ _ _ hstart hloop
        refine hs3.insert hsize hmiss (fun hadmits hnone => ?_) hinsert
        rcases hvacant hnone with hmin | heq
        · exact .inl hmin
        · rw [heq] at hadmits hnone ⊢
          have hroom : req.obj_size + s.obj_md_size ≤ s.cache_size := by simpa [check_and_update_history] using hfits
          exact hloads ⟨hout, hroom, hadmits⟩ hnone
      · exact hrest ▸ hs1
  obtain ⟨⟨u, hit'⟩, hu, hget⟩ := bind_eq_some_iff.1 hget
  dsimp only at hget
  split_ifs at hget
  · cases hget
    exact ⟨(hbase hu).twin, (hbase hu).not_drawn⟩
  · cases hget
    exact hbase hu

theorem init_even (cache_size : Int) (md : Bool) : Even (Cacheus_init E cache_size md) :=
  ⟨⟨init_lfu _, ⟨⟨.init _ _, .init _ _⟩, fun _ _ ho => nomatch ho⟩, fun _ _ hx => nomatch hx⟩, rfl, le_rfl⟩

/-- `min_freq` is the least frequency, and its list has the victim. Each list has the objects of its frequency. -/
theorem Cacheus_min_freq {cache_size : Int} {md : Bool}
    (h : Reach (call E) loads_low (Cacheus_init E cache_size md) s) :
    Buckets s.twin.lfu.freqs s.twin.lfu.freq_map ∧ ((∃ x, x ∈ s.twin.lfu.hashtable) → Least s.twin.lfu.freqs s.twin.lfu.min_freq ∧
      ∃ id, CR_LFU_to_evict s.twin.lfu = some id ∧ s.twin.lfu.freqs id = some s.twin.lfu.min_freq) := by
  have heven : Even s := by
    refine h.inv Even ?_ (init_even _ _)
    intro s a s' hs hok hcall
    cases a with
    | get req =>
      obtain ⟨⟨s1, hit⟩, hget, rfl⟩ := map_eq_some_iff.1 hcall
      exact hs.get hok hget
    | evict => exact (hs.evict hcall).1
    | remove id =>
      obtain ⟨⟨s1, found⟩, hremove, rfl⟩ := map_eq_some_iff.1 hcall
      exact hs.remove hremove
  refine ⟨heven.twin.lfu.buckets, ?_⟩
  rintro ⟨x, hx⟩
  obtain ⟨o, ho⟩ := Table.exists_lookup hx
  have hfreq : s.twin.lfu.freqs x = some o.md := CrLfu.freqs_eq_some.2 ⟨o, ho, rfl⟩
  exact ⟨heven.twin.lfu.least x _ hfreq, CR_LFU_to_evict_some heven.twin.lfu hfreq⟩

instance {freq : Int} : Decidable (Loads l freq) :=
  decidable_of_iff (l.hashtable.entries = [] → l.min_freq = -1 ∨ freq = 1 ∨ freq ≤ l.min_freq) <| imp_congr_left <| by
    simp only [CrLfu.freqs_eq_none]
    refine ⟨fun hempty x hx => ?_, fun hnone => List.eq_nil_iff_forall_not_mem.2 fun e he => ?_⟩
    · obtain ⟨o, ho⟩ := Table.exists_lookup hx
      have hmem := Table.mem_entries_of_lookup ho
      rw [hempty] at hmem
      cases hmem
    · exact hnone e.1 (Table.mem_of_lookup (Table.lookup_of_mem_entries he))

instance (a : Call) : Decidable (loads_low s a) :=
  match a with
  | .get _ => inferInstanceAs (Decidable (_ ∧ (¬ _ ∧ _ ∧ _ → _)))
  | .evict => isTrue trivial
  | .remove _ => isTrue trivial

theorem Cacheus_min_freq_of_ten : ∃ s, Reach (call even_weights) loads_low (Cacheus_init even_weights 10 false) s ∧
    Buckets s.twin.lfu.freqs s.twin.lfu.freq_map ∧ ((∃ x, x ∈ s.twin.lfu.hashtable) → Least s.twin.lfu.freqs s.twin.lfu.min_freq ∧
      ∃ id, CR_LFU_to_evict s.twin.lfu = some id ∧ s.twin.lfu.freqs id = some s.twin.lfu.min_freq) := by
  obtain ⟨s, hs⟩ : ∃ s, runs (fun s a => if loads_low s a then call even_weights s a else none) (Cacheus_init even_weights 10 false)
      [.get { obj_id := 1 }, .remove 1, .get { obj_id := 2 }, .get { obj_id := 1 }] = some s :=
    isSome_iff_exists.1 (by decide +kernel)
  have hreach := Reach.of_checked hs
  exact ⟨s, hreach, Cacheus_min_freq hreach⟩

/-- Object 1 returns with frequency 2 to an empty cache, and CR-LFU finds no victim. -/
theorem Cacheus_loses_min_freq : ∃ s, runs (call even_weights) (Cacheus_init even_weights 10 false)
      [.get { obj_id := 1 }, .remove 1, .get { obj_id := 1 }] = some s ∧
    s.twin.lfu.freqs 1 = some 2 ∧ s.twin.lfu.min_freq = 1 ∧ CR_LFU_to_evict s.twin.lfu = none := by
  decide +kernel

end CacheSim.Cacheus
