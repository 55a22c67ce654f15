import CacheSim.LeCaR.Removal

/-!
# The size of the hash table of LeCaR

For objects of size 1. A ghost that both experts evicted is on no history, so nothing but a request
for it takes it out of the table.
-/

namespace CacheSim.LeCaR

open Lib Option AList

variable {W : Type} {E : Experts W} {s t u : State W} {id x : ObjId} {o : Obj} {req : Request}

def drops_ghost (E : Experts W) (s : State W) : Prop :=
  s.q.getLast? ≠ (get_min_freq_node s).bind (·.objs.head?) ∧
    (if (draw E s).1 then s.ghost_lru.occupied_byte else s.ghost_lfu.occupied_byte) = s.cache_size / 2

def HasRoom (E : Experts W) (s : State W) (req : Request) : Prop :=
  (s.hashtable.entries.length : Int) < 2 * s.cache_size ∨ req.obj_id ∈ s.hashtable ∨ s.cache_size < 1 ∨
    s.occupied_byte = s.cache_size ∧ drops_ghost E s

structure Units (s : State W) : Prop where
  core : Core s
  unit : ∀ x o, s.hashtable.lookup x = some o → o.obj_size = 1
  md_size : s.obj_md_size = 0
  fits : s.occupied_byte ≤ s.cache_size
  gen_vtime : s.to_evict_candidate_gen_vtime = -1
  n_req : 0 ≤ s.n_req

theorem trim_length {t t' : Table ObjId Obj} {limit : Int} {H H' : History}
    (hunit : ∀ x o, t.lookup x = some o → o.obj_size = 1) (hle : H.occupied_byte ≤ limit + 1)
    (htrim : trim limit 0 H t = some (H', t')) :
    (∀ x o, t'.lookup x = some o → t.lookup x = some o) ∧
      t.entries.length = t'.entries.length + if H.occupied_byte = limit + 1 then 1 else 0 := by
  unfold trim at htrim
  by_cases hfull : H.occupied_byte = limit + 1
  · have hcond : decide (H.occupied_byte > limit) = true := by simp only [decide_eq_true_eq]; omega
    rcases hlen : H.objs.length with _ | n
    · rw [hlen] at htrim
      simp [whileLoop, hcond] at htrim
    · rw [hlen, whileLoop, if_pos hcond] at htrim
      obtain ⟨⟨H1, t1⟩, hbody, htrim⟩ := bind_eq_some_iff.1 htrim
      simp only [bind_eq_bind, bind_eq_some_iff] at hbody
      obtain ⟨ghost_to_evict, -, obj, hobj, rfl, rfl⟩ := hbody
      have hsize := hunit _ _ hobj
      have hstop : decide (H.occupied_byte - (obj.obj_size + 0) > limit) = false := decide_eq_false (by omega)
      rw [whileLoop_stop (fun w : History × Table ObjId Obj => decide (w.1.occupied_byte > limit)) _ n _ hstop] at htrim
      cases htrim
      refine ⟨fun x o hx => ?_, ?_⟩
      · rcases eq_or_ne x ghost_to_evict with rfl | hne
        · rw [lookup_erase] at hx
          cases hx
        · rwa [lookup_erase_ne hne] at hx
      · rw [if_pos hfull, (Table.perm_erase hobj).length_eq]
        rfl
  · rw [whileLoop_stop _ _ _ _ (by simpa using (by omega : H.occupied_byte ≤ limit))] at htrim
    cases htrim
    exact ⟨fun _ _ h => h, by rw [if_neg hfull]; rfl⟩

/-! ## An eviction -/

theorem Units.write (h : Units s) {o' : Obj} (ho : s.hashtable.lookup x = some o) (hsize : o'.obj_size = o.obj_size) :
    ∀ y p, (s.hashtable.insert x o').lookup y = some p → p.obj_size = 1 := by
  intro y p hy
  rcases eq_or_ne y x with rfl | hne
  · rw [lookup_insert] at hy
    cases hy
    exact hsize.trans (h.unit y o ho)
  · rw [lookup_insert_ne hne] at hy
    exact h.unit y p hy

theorem length_write {t : Table ObjId Obj} (ho : t.lookup x = some o) (o' : Obj) : (t.insert x o').entries.length = t.entries.length :=
  (Table.perm_erase ho).length_eq.symm

section

variable (h : Units s)
include h

theorem remember_length {H H' : History} {o' : Obj} {u : State W} {t' : Table ObjId Obj}
    (hle : H.occupied_byte ≤ s.cache_size / 2) (ho : s.hashtable.lookup x = some o) (hsize : o'.obj_size = o.obj_size)
    (hrem : remember u H x o' = some (H', t')) (hcap : u.cache_size = s.cache_size) (hmd : u.obj_md_size = s.obj_md_size)
    (htable : u.hashtable = s.hashtable.insert x o') :
    (∀ y p, t'.lookup y = some p → p.obj_size = 1) ∧
      s.hashtable.entries.length = t'.entries.length + if H.occupied_byte = s.cache_size / 2 then 1 else 0 := by
  have hone := h.unit x o ho
  unfold remember at hrem
  rw [hcap, hmd, htable, h.md_size] at hrem
  obtain ⟨hsub, hlen⟩ := trim_length (h.write ho hsize) (by dsimp only; omega) hrem
  refine ⟨fun y p hy => h.write ho hsize y p (hsub y p hy), ?_⟩
  rw [← length_write ho o', hlen]
  dsimp only
  split_ifs <;> omega

def full_history (s : State W) (k : Int) : Prop :=
  k = 1 ∧ s.ghost_lru.occupied_byte = s.cache_size / 2 ∨ k = 2 ∧ s.ghost_lfu.occupied_byte = s.cache_size / 2

instance (s : State W) (k : Int) : Decidable (full_history s k) := inferInstanceAs (Decidable (_ ∨ _))

theorem retire_length {v : ObjId} {k : Int} (hv : v ∈ s.q) (hk : k = 1 ∨ k = 2 ∨ k = -1) (ht : retire s v k = some t) :
    (∀ y p, t.hashtable.lookup y = some p → p.obj_size = 1) ∧ t.occupied_byte = s.occupied_byte - 1 ∧
      t.to_evict_candidate_gen_vtime = s.to_evict_candidate_gen_vtime ∧ t.n_req = s.n_req ∧
      s.hashtable.entries.length = t.hashtable.entries.length + if full_history s k then 1 else 0 := by
  obtain ⟨o, ho, -⟩ := h.core.resident_of_mem hv
  have hone := h.unit v o ho
  set o' : Obj := { o with is_ghost := true, evict_expert := k, eviction_vtime := bit_field 40 s.n_req }
  obtain ⟨w, hw, hfields, -, -, -, -⟩ := remove_obj_from_freq_node_spec (s := { s with q := s.q.erase v })
    h.core.residents.levels h.core.residents.nodup hv ho (rfl : o'.freq = o.freq) h.core.min_node
  obtain ⟨m, f, rfl⟩ : ∃ m f, w = { s with q := s.q.erase v, freq_map := m, min_freq := f } := ⟨_, _, hfields⟩
  unfold retire at ht
  simp only [ho, bind_eq_bind, bind_some] at ht
  rw [hw] at ht
  simp only [bind_some] at ht
  have hmd := h.md_size
  have hocc : s.occupied_byte - (o.obj_size + s.obj_md_size) = s.occupied_byte - 1 := by
    rw [hone, hmd]
    rfl
  rcases hk with rfl | rfl | rfl
  · obtain ⟨⟨H, t'⟩, hrem, ht⟩ := bind_eq_some_iff.1 ht
    cases ht
    obtain ⟨hunit, hlen⟩ := remember_length h h.core.lru_le ho (rfl : o'.obj_size = o.obj_size) hrem rfl rfl rfl
    exact ⟨hunit, hocc, rfl, rfl, by simpa [full_history] using hlen⟩
  · obtain ⟨⟨H, t'⟩, hrem, ht⟩ := bind_eq_some_iff.1 ht
    cases ht
    obtain ⟨hunit, hlen⟩ := remember_length h h.core.lfu_le ho (rfl : o'.obj_size = o.obj_size) hrem rfl rfl rfl
    exact ⟨hunit, hocc, rfl, rfl, by simpa [full_history] using hlen⟩
  · cases ht
    refine ⟨h.write ho rfl, hocc, rfl, rfl, ?_⟩
    exact (length_write ho o').symm

theorem choose_full_history {v : ObjId} {k : Int} (hn : 0 < s.n_req) (hc : choose E s = some (u, v, k)) :
    (full_history s k ↔ drops_ghost E s) ∧ u.to_evict_candidate_gen_vtime = -1 := by
  obtain ⟨n, hnode⟩ := h.core.min_node
  have hgen : ¬ s.to_evict_candidate_gen_vtime = s.n_req := by
    rw [h.gen_vtime]
    omega
  unfold drops_ghost get_min_freq_node
  simp only [choose, get_min_freq_node, hnode, bind_eq_bind, bind_some, if_neg hgen] at hc ⊢
  by_cases hboth : s.q.getLast? = n.objs.head?
  · rw [if_pos hboth] at hc
    obtain ⟨id, -, hc⟩ := bind_eq_some_iff.1 hc
    cases hc
    exact ⟨by simp [full_history, hboth], h.gen_vtime⟩
  · rw [if_neg hboth] at hc
    have hdraw : (draw E { s with to_evict_candidate := s.q.getLast? }).1 = (draw E s).1 := rfl
    rw [hdraw] at hc
    cases hlru : (draw E s).1 with
    | true =>
      simp only [hlru] at hc ⊢
      obtain ⟨id, -, hc⟩ := map_eq_some_iff.1 hc
      cases hc
      exact ⟨by simp [full_history, hboth], h.gen_vtime⟩
    | false =>
      simp only [hlru, Bool.false_eq_true] at hc ⊢
      obtain ⟨id, -, hc⟩ := map_eq_some_iff.1 hc
      cases hc
      exact ⟨by simp [full_history, hboth], h.gen_vtime⟩

theorem LeCaR_evict_length (hn : 0 < s.n_req) (ht : LeCaR_evict E s = some t) :
    Units t ∧ t.occupied_byte = s.occupied_byte - 1 ∧ t.cache_size = s.cache_size ∧ t.n_req = s.n_req ∧
      (drops_ghost E s → s.hashtable.entries.length = t.hashtable.entries.length + 1) ∧
      (¬ drops_ghost E s → s.hashtable.entries.length = t.hashtable.entries.length) := by
  obtain ⟨hcore, hsheds⟩ := h.core.evict ht
  obtain ⟨⟨w, v, k⟩, hc, ht⟩ := bind_eq_some_iff.1 ht
  obtain ⟨hv, hk, hw⟩ := choose_spec h.core hc
  obtain ⟨hfull, hgen⟩ := choose_full_history h hn hc
  obtain ⟨c, g, r, rfl⟩ : ∃ c g r, w = { s with to_evict_candidate := c, to_evict_candidate_gen_vtime := g, n_rand := r } :=
    ⟨_, _, _, hw⟩
  have hunits : Units { s with to_evict_candidate := c, to_evict_candidate_gen_vtime := g, n_rand := r } :=
    { h with core := { h.core with }, gen_vtime := hgen }
  obtain ⟨hunit, hocc, hgen', hreq, hlen⟩ := retire_length hunits hv hk ht
  have hfits := h.fits
  refine ⟨⟨hcore, hunit, hsheds.md_size.trans h.md_size, ?_, hgen'.trans hgen, hreq.ge.trans' h.n_req⟩, hocc, hsheds.cache_size, hreq,
    ?_, ?_⟩
  · rw [hocc, hsheds.cache_size]
    dsimp only
    omega
  · intro hdrops
    exact hlen.trans (congrArg _ (if_pos (hfull.2 hdrops)))
  · intro hkeeps
    exact hlen.trans (congrArg _ (if_neg (mt hfull.1 hkeeps)))

/-! ## A get -/

theorem Units.count_req : Units ((ops E).count_req s) :=
  { h with core := h.core.count_req, n_req := Int.le_add_one h.n_req }

theorem Units.insert (hmiss : req.obj_id ∉ s.hashtable) (hsize : req.obj_size = 1)
    (hroom : s.occupied_byte + 1 ≤ s.cache_size) : Units (LeCaR_insert s req) ∧
      (LeCaR_insert s req).hashtable.entries.length = s.hashtable.entries.length + 1 := by
  refine ⟨{ h with core := (LeCaR_insert_spec h.core hmiss (by omega)).1, unit := ?_, fits := ?_ }, ?_⟩
  · intro y p hy
    rcases eq_or_ne y req.obj_id with rfl | hne
    · cases (lookup_insert _).symm.trans hy
      exact hsize
    · exact h.unit y p ((lookup_insert_ne hne).symm.trans hy)
  · show s.occupied_byte + (req.obj_size + s.obj_md_size) ≤ s.cache_size
    rw [h.md_size, hsize]
    exact hroom
  · show (s.hashtable.insert req.obj_id _).entries.length = _
    rw [entries_insert_of_notMem hmiss, List.length_cons]

theorem serve_length (hn : 0 < s.n_req) (hmiss : req.obj_id ∉ s.hashtable) (hsize : req.obj_size = 1)
    {n : Nat} (hw : whileLoop ((ops E).full_for req) ((ops E).evict · req) n s = some t) :
    Units (LeCaR_insert t req) ∧ t.cache_size = s.cache_size ∧
      (s.occupied_byte = s.cache_size ∧ drops_ghost E s →
        (LeCaR_insert t req).hashtable.entries.length = s.hashtable.entries.length) ∧
      (¬ (s.occupied_byte = s.cache_size ∧ drops_ghost E s) →
        (LeCaR_insert t req).hashtable.entries.length = s.hashtable.entries.length + 1) := by
  have hfull : ∀ u : State W, Units u → ((ops E).full_for req u = true ↔ u.occupied_byte = u.cache_size) := by
    intro u hu
    have hfits := hu.fits
    have hmd := hu.md_size
    rw [CacheOps.full_for_iff]
    simp only [ops]
    omega
  by_cases hocc : s.occupied_byte = s.cache_size
  · have hcond := (hfull s h).2 hocc
    cases n with
    | zero => simp [whileLoop, hcond] at hw
    | succ n =>
      rw [whileLoop, if_pos hcond] at hw
      obtain ⟨u, hu, hw⟩ := bind_eq_some_iff.1 hw
      obtain ⟨hunits, hocc', hcap', -, hdrops, hkeeps⟩ := LeCaR_evict_length h hn hu
      have hstop : (ops E).full_for req u = false := by
        rw [← Bool.not_eq_true, hfull u hunits]
        omega
      rw [whileLoop_stop _ _ _ _ hstop] at hw
      cases hw
      obtain ⟨hins, hlen⟩ := hunits.insert ((h.core.evict hu).2.absent _ hmiss) hsize (by omega)
      refine ⟨hins, hcap', fun hd => ?_, fun hd => ?_⟩
      · have := hdrops hd.2
        omega
      · have := hkeeps fun hd' => hd ⟨hocc, hd'⟩
        omega
  · have hfits := h.fits
    have hstop : (ops E).full_for req s = false := by
      rw [← Bool.not_eq_true, hfull s h]
      exact hocc
    rw [whileLoop_stop _ _ _ _ hstop] at hw
    cases hw
    obtain ⟨hins, hlen⟩ := h.insert hmiss hsize (by omega)
    exact ⟨hins, rfl, fun hd => absurd hd.1 hocc, fun _ => hlen⟩

end

theorem find_ghost_fields (ht : find_ghost E s x o = some t) : t.to_evict_candidate_gen_vtime = s.to_evict_candidate_gen_vtime ∧
    t.n_req = s.n_req ∧ t.occupied_byte = s.occupied_byte := by
  unfold find_ghost at ht
  split_ifs at ht <;> cases ht <;> exact ⟨rfl, rfl, rfl⟩

theorem find_resident_fields (ht : find_resident s x o = some t) :
    t.to_evict_candidate_gen_vtime = s.to_evict_candidate_gen_vtime ∧ t.n_req = s.n_req := by
  obtain ⟨u, hu, ht⟩ := bind_eq_some_iff.1 ht
  cases ht
  rw [raise_freq_eq]
  obtain ⟨n, -, hu⟩ := bind_eq_some_iff.1 hu
  cases hu
  split_ifs
  · rw [update_LFU_min_freq_eq]
    exact ⟨rfl, rfl⟩
  · exact ⟨rfl, rfl⟩

theorem find_length (h : Units s) (hq : req.obj_id ∉ s.q) {hit : Bool} (hf : (ops E).find ((ops E).count_req s) req = some (t, hit)) :
    hit = false ∧ Units t ∧ 0 < t.n_req ∧ t.cache_size = s.cache_size ∧ req.obj_id ∉ t.hashtable ∧
      (req.obj_id ∈ s.hashtable → s.hashtable.entries.length = t.hashtable.entries.length + 1) ∧
      (req.obj_id ∉ s.hashtable → t = (ops E).count_req s) := by
  have hcount := h.count_req (E := E)
  have hpos : 0 < ((ops E).count_req s).n_req := Int.lt_add_one_of_le h.n_req
  have hfound : LeCaR_find E ((ops E).count_req s) req = some (t, hit) := hf
  unfold LeCaR_find at hfound
  rcases ho : s.hashtable.lookup req.obj_id with _ | o
  · have ho' : ((ops E).count_req s).hashtable.lookup req.obj_id = none := ho
    rw [ho'] at hfound
    cases hfound
    have hmiss := lookup_eq_none.1 ho
    exact ⟨rfl, hcount, hpos, rfl, hmiss, fun hin => absurd hin hmiss, fun _ => rfl⟩
  · have ho' : ((ops E).count_req s).hashtable.lookup req.obj_id = some o := ho
    have hg : o.is_ghost = true := by
      by_contra hr
      exact hq ((h.core.residents.mem _).2 ⟨o, ho, by simpa using hr⟩)
    rw [ho'] at hfound
    dsimp only at hfound
    rw [if_pos hg] at hfound
    obtain ⟨u, hu, hpair⟩ := map_eq_some_iff.1 hfound
    cases hpair
    obtain ⟨v, hv, hcore, -, -, htable, hmd, hcap⟩ := find_ghost_spec (E := E) hcount.core ho' hg
    cases hv.symm.trans hu
    obtain ⟨hgen, hreq, hocc⟩ := find_ghost_fields hu
    refine ⟨rfl, ⟨hcore, ?_, hmd.trans h.md_size, ?_, hgen.trans h.gen_vtime, hreq.symm ▸ hcount.n_req⟩,
      hreq.symm ▸ hpos, hcap, ?_, ?_, ?_⟩
    · intro y p hy
      rw [htable] at hy
      rcases eq_or_ne y req.obj_id with rfl | hne
      · rw [lookup_erase] at hy
        cases hy
      · rw [lookup_erase_ne hne] at hy
        exact h.unit y p hy
    · rw [hocc, hcap]
      exact h.fits
    · rw [htable]
      exact fun hmem => (mem_erase.1 hmem).1 rfl
    · intro _
      rw [htable]
      exact (Table.perm_erase ho).length_eq
    · exact fun hmiss => absurd (Table.mem_of_lookup ho) hmiss

theorem LeCaR_get_length (h : Units s) (hsize : req.obj_size = 1) {hit : Bool} (ht : LeCaR_get E s req = some (t, hit)) :
    Units t ∧ t.cache_size = s.cache_size ∧ ((s.hashtable.entries.length : Int) ≤ 2 * s.cache_size →
      ((t.hashtable.entries.length : Int) ≤ 2 * t.cache_size ↔ HasRoom E s req)) := by
  by_cases hq : req.obj_id ∈ s.q
  · obtain ⟨o, ho, hr⟩ := h.core.resident_of_mem hq
    obtain ⟨u, hget, hcore, -, htable, hmd, hcap, hocc, -⟩ := LeCaR_get_hit h.core ho hr
    cases hget.symm.trans ht
    have hfields : t.to_evict_candidate_gen_vtime = s.to_evict_candidate_gen_vtime ∧ t.n_req = s.n_req + 1 := by
      have hfind : LeCaR_find E ((ops E).count_req s) req = some (t, true) := CacheOps.cache_get_base_found hget
      have ho' : ((ops E).count_req s).hashtable.lookup req.obj_id = some o := ho
      unfold LeCaR_find at hfind
      rw [ho'] at hfind
      dsimp only at hfind
      rw [hr, if_neg (by simp)] at hfind
      obtain ⟨u, hu, hpair⟩ := map_eq_some_iff.1 hfind
      cases hpair
      exact find_resident_fields hu
    have hlen : t.hashtable.entries.length = s.hashtable.entries.length := by
      rw [htable]
      exact length_write ho _
    refine ⟨⟨hcore, ?_, hmd.trans h.md_size, ?_, hfields.1.trans h.gen_vtime, ?_⟩, hcap, fun hle => ?_⟩
    · rw [htable]
      exact h.write ho rfl
    · rw [hocc, hcap]
      exact h.fits
    · have := h.n_req
      omega
    · rw [hlen, hcap]
      exact iff_of_true hle (.inr (.inl (Table.mem_of_lookup ho)))
  · obtain ⟨s1, hfind, -⟩ := find_miss h.core hq
    obtain rfl := CacheOps.cache_get_base_miss hfind ht
    obtain ⟨s1', s2, admitted, hfind', hcan, hrest⟩ := CacheOps.cache_get_base_missed ht
    cases hfind.symm.trans hfind'
    obtain ⟨-, h1, hn, hcap1, hmiss, hghost, habsent⟩ := find_length h hq hfind
    simp only [ops, some.injEq, Prod.mk.injEq] at hcan
    obtain ⟨rfl, hadm⟩ := hcan
    rw [hsize, h1.md_size, hcap1] at hadm
    have hlen1 : s1.hashtable.entries.length ≤ s.hashtable.entries.length := by
      by_cases hin : req.obj_id ∈ s.hashtable
      · have := hghost hin
        omega
      · rw [habsent hin]
        exact le_rfl
    cases admitted with
    | false =>
      have hsmall : s.cache_size < 1 := by simpa using hadm
      rw [show t = s1 by simpa using hrest]
      refine ⟨h1, hcap1, fun hle => ?_⟩
      exact iff_of_true (by omega) (.inr (.inr (.inl hsmall)))
    | true =>
      have hlarge : 1 ≤ s.cache_size := by simpa using hadm
      obtain ⟨s3, hw, hins⟩ := (by simpa using hrest : ∃ s3, _ ∧ _)
      cases hins
      obtain ⟨hunits, hcap3, hdrops, hkeeps⟩ := serve_length h1 hn hmiss hsize hw
      have hcap : s3.cache_size = s.cache_size := hcap3.trans hcap1
      refine ⟨hunits, hcap, fun hle => ?_⟩
      show _ ≤ 2 * s3.cache_size ↔ _
      by_cases hin : req.obj_id ∈ s.hashtable
      · have hone := hghost hin
        have hbound : (LeCaR_insert s3 req).hashtable.entries.length ≤ s1.hashtable.entries.length + 1 := by
          by_cases hd : s1.occupied_byte = s1.cache_size ∧ drops_ghost E s1
          · exact (hdrops hd).le.trans (Nat.le_succ _)
          · exact (hkeeps hd).le
        exact iff_of_true (by omega) (.inr (.inl hin))
      · obtain rfl := habsent hin
        by_cases hd : s.occupied_byte = s.cache_size ∧ drops_ghost E s
        · have hsame : (LeCaR_insert s3 req).hashtable.entries.length = s.hashtable.entries.length := hdrops hd
          exact iff_of_true (by omega) (.inr (.inr (.inr hd)))
        · have hmore : (LeCaR_insert s3 req).hashtable.entries.length = s.hashtable.entries.length + 1 := hkeeps hd
          constructor
          · intro hle'
            exact .inl (by omega)
          · rintro (hlt | hin' | hsmall | hd')
            · omega
            · exact absurd hin' hin
            · omega
            · exact absurd hd' hd

/-! ## Runs of gets -/

def Roomy (E : Experts W) (s : State W) (req : Request) : Prop := req.obj_size = 1 ∧ HasRoom E s req

theorem init_units (cache_size : Nat) : Units (LeCaR_init E cache_size false) :=
  ⟨init_core cache_size false, by simp [LeCaR_init], rfl, by simp [LeCaR_init], rfl, le_rfl⟩

/-- The table has at most `2 * cache_size` entries as long as each get finds room, and no longer. -/
theorem LeCaR_table_bound (E : Experts W) (cache_size : Nat) {s : State W}
    (h : Reach (step E) (Roomy E) (LeCaR_init E cache_size false) s) :
    s.hashtable.entries.length ≤ 2 * cache_size ∧ ∀ req t, req.obj_size = 1 → step E s req = some t →
      (t.hashtable.entries.length ≤ 2 * cache_size ↔ HasRoom E s req) := by
  have hinv : Units s ∧ s.cache_size = cache_size ∧ s.hashtable.entries.length ≤ 2 * cache_size := by
    refine h.inv (fun s => Units s ∧ s.cache_size = cache_size ∧ s.hashtable.entries.length ≤ 2 * cache_size) ?_ ?_
    · rintro u req v ⟨hu, hcap, hle⟩ ⟨hsize, hroom⟩ hv
      obtain ⟨⟨v', hit⟩, hget, rfl⟩ := map_eq_some_iff.1 hv
      obtain ⟨hv', hcap', hiff⟩ := LeCaR_get_length hu hsize hget
      have hbound := (hiff (by omega)).2 hroom
      exact ⟨hv', hcap'.trans hcap, by dsimp only; omega⟩
    · exact ⟨init_units cache_size, rfl, Nat.zero_le _⟩
  obtain ⟨hu, hcap, hle⟩ := hinv
  refine ⟨hle, fun req t hsize ht => ?_⟩
  obtain ⟨⟨t', hit⟩, hget, rfl⟩ := map_eq_some_iff.1 ht
  obtain ⟨-, hcap', hiff⟩ := LeCaR_get_length hu hsize hget
  rw [← hiff (by omega), hcap', hcap]
  dsimp only
  omega

instance (s : State W) : Decidable (drops_ghost E s) := inferInstanceAs (Decidable (_ ∧ _))

instance (s : State W) (req : Request) : Decidable (Roomy E s req) :=
  inferInstanceAs (Decidable (_ ∧ (_ ∨ _ ∨ _ ∨ _ ∧ _)))

/-- Eight gets fill the table with two objects and two ghosts. The experts disagree about the next victim,
whose history is full, so the ninth get lets an old ghost go. -/
theorem LeCaR_table_bound_of_nine_gets : ∃ s t, Reach (step even_weights) (Roomy even_weights) (LeCaR_init even_weights 2 false) s ∧
    s.n_req = 8 ∧ s.hashtable.entries.length = 4 ∧ s.ghost_lru.occupied_byte = 1 ∧ drops_ghost even_weights s ∧
    step even_weights s { obj_id := 5 } = some t ∧ t.hashtable.entries.length ≤ 2 * 2 := by
  obtain ⟨s, hs, hn, hlen, hghosts, hfull, hdrops, hnext⟩ : ∃ s,
      runs (fun s req => if Roomy even_weights s req then step even_weights s req else none) (LeCaR_init even_weights 2 false)
      ([1, 1, 1, 1, 2, 3, 3, 4].map fun id => { obj_id := id }) = some s ∧ s.n_req = 8 ∧ s.hashtable.entries.length = 4 ∧
        s.ghost_lru.occupied_byte = 1 ∧ s.occupied_byte = s.cache_size ∧ drops_ghost even_weights s ∧
        (step even_weights s { obj_id := 5 }).isSome := by decide +kernel
  obtain ⟨t, ht⟩ := Option.isSome_iff_exists.1 hnext
  have hreach := Reach.of_checked hs
  have hroom : HasRoom even_weights s { obj_id := 5 } := .inr (.inr (.inr ⟨hfull, hdrops⟩))
  exact ⟨s, t, hreach, hn, hlen, hghosts, hdrops, ht, ((LeCaR_table_bound even_weights 2 hreach).2 _ t rfl ht).2 hroom⟩

/-- Each object is the only one when it goes, so that both experts name it. -/
theorem both_experts_fill_table : ∃ s, runs (step even_weights) (LeCaR_init even_weights 1 false)
    [{ obj_id := 1 }, { obj_id := 2 }, { obj_id := 3 }] = some s ∧ ¬ s.hashtable.entries.length ≤ 2 * 1 := by
  have hrun : (runs (step even_weights) (LeCaR_init even_weights 1 false) [{ obj_id := 1 }, { obj_id := 2 }, { obj_id := 3 }]).map
    (fun s => s.hashtable.entries.length) = some 3 := by decide
  obtain ⟨s, hs, hlen⟩ := map_eq_some_iff.1 hrun
  exact ⟨s, hs, by omega⟩

end CacheSim.LeCaR
