import CacheSim.LeCaR.Ghosts

/-!
# The two experts keep in step
-/

namespace CacheSim.LeCaR

open Lib List Option AList Function CacheOps

variable {W : Type} {E : Experts W} {s : State W} {x : ObjId} {o : Obj}

structure Core (s : State W) : Prop where
  residents : Residents s.q s.hashtable s.freq_map s.obj_md_size s.n_obj s.occupied_byte
  min_node : ∃ n, s.freq_map s.min_freq = some n
  lru : Remembers s.hashtable s.obj_md_size 1 s.ghost_lru
  lfu : Remembers s.hashtable s.obj_md_size 2 s.ghost_lfu
  lru_le : s.ghost_lru.occupied_byte ≤ s.cache_size / 2
  lfu_le : s.ghost_lfu.occupied_byte ≤ s.cache_size / 2
  capacity : 0 ≤ s.cache_size
  md_size : 0 ≤ s.obj_md_size

structure Ordered (s : State W) : Prop where
  min_freq : IsMin s.q s.hashtable s.min_freq
  freq : ∀ x ∈ s.q, ∀ o, s.hashtable.lookup x = some o → 1 ≤ o.freq ∧ o.freq ≤ s.max_freq
  max_pos : 1 ≤ s.max_freq

theorem init_core (cache_size : Nat) (md : Bool) : Core (LeCaR_init E cache_size md) := by
  refine ⟨⟨nodup_nil, ?_, ⟨?_, ?_⟩, rfl, rfl, ?_⟩, ⟨{}, rfl⟩, ⟨nodup_nil, ?_, rfl⟩, ⟨nodup_nil, ?_, rfl⟩, ?_, ?_, ?_, ?_⟩
  · simp [LeCaR_init]
  · intro f
    simp only [LeCaR_init, node_update]
    split_ifs <;> rfl
  · intro f
    simp only [LeCaR_init, node_update]
    split_ifs <;> rfl
  · simp [LeCaR_init]
  · simp [LeCaR_init]
  · simp [LeCaR_init]
  · simp only [LeCaR_init]
    omega
  · simp only [LeCaR_init]
    omega
  · simp [LeCaR_init]
  · simp only [LeCaR_init]
    split_ifs <;> omega

theorem init_ordered (cache_size : Nat) (md : Bool) :
    Ordered (LeCaR_init E cache_size md) where
  min_freq := ⟨fun h => absurd rfl h, by simp [LeCaR_init]⟩
  freq := by simp [LeCaR_init]
  max_pos := le_rfl

theorem Core.resident_of_mem (h : Core s) (hx : x ∈ s.q) : ∃ o, s.hashtable.lookup x = some o ∧ o.is_ghost = false :=
  (h.residents.mem x).1 hx

variable {k : Int} {t u : State W} {q : List ObjId} {req : Request} {v : ObjId}

theorem not_ghost (hr : o.is_ghost = false) : ¬ Ghost k o := by
  rintro ⟨hg, -⟩
  simp [hr] at hg

theorem not_ghost_of_ne {j : Int} (hk : Ghost j o) (hne : j ≠ k) : ¬ Ghost k o := by
  rintro ⟨-, hj⟩
  exact hne (hk.2.symm.trans hj)

/-! ## Lookups -/

theorem Ordered.erase_ghost (hc : Core s) (h : Ordered s) (ho : s.hashtable.lookup x = some o) (hg : o.is_ghost = true)
    (hq : t.q = s.q) (ht : t.hashtable = s.hashtable.erase x) (hmin : t.min_freq = s.min_freq) (hmax : t.max_freq = s.max_freq) :
    Ordered t := by
  have hsame : ∀ y ∈ s.q, (s.hashtable.erase x).lookup y = s.hashtable.lookup y := by
    intro y hy
    apply lookup_erase_ne
    rintro rfl
    exact hc.residents.not_mem ho hg hy
  constructor
  · rw [hq, ht, hmin]
    exact h.min_freq.congr hsame
  · rw [hq, ht, hmax]
    intro y hy o' ho'
    exact h.freq y hy o' ((hsame y hy).symm.trans ho')
  · rw [hmax]
    exact h.max_pos

theorem find_ghost_spec (h : Core s) (ho : s.hashtable.lookup x = some o) (hg : o.is_ghost = true) :
    ∃ t, find_ghost E s x o = some t ∧ Core t ∧ (Ordered s → Ordered t) ∧ t.q = s.q ∧
      t.hashtable = s.hashtable.erase x ∧ t.obj_md_size = s.obj_md_size ∧ t.cache_size = s.cache_size := by
  have hres := h.residents.erase_ghost ho hg
  have hsize := (h.residents.legal x o ho).size
  have hmd := h.md_size
  have hlru := h.lru_le
  have hlfu := h.lfu_le
  have hord : ∀ {t : State W}, t.q = s.q → t.hashtable = s.hashtable.erase x → t.min_freq = s.min_freq →
      t.max_freq = s.max_freq → Ordered s → Ordered t :=
    fun hq ht hmin hmax hs => hs.erase_ghost h ho hg hq ht hmin hmax
  unfold find_ghost
  rcases (h.residents.legal x o ho).expert hg with hk | hk | hk
  · have hg1 : Ghost 1 o := ⟨hg, hk⟩
    rw [if_pos hk]
    refine ⟨_, rfl, ⟨hres, h.min_node, h.lru.remove ho hg1, h.lfu.erase_other ho (not_ghost_of_ne hg1 (by decide)), ?_, hlfu,
      h.capacity, hmd⟩, hord rfl rfl rfl rfl, rfl, rfl, rfl, rfl⟩
    simp only [History.remove]
    omega
  · have hg2 : Ghost 2 o := ⟨hg, hk⟩
    rw [if_neg (by simp [hk]), if_pos hk]
    refine ⟨_, rfl, ⟨hres, h.min_node, h.lru.erase_other ho (not_ghost_of_ne hg2 (by decide)), h.lfu.remove ho hg2, hlru, ?_,
      h.capacity, hmd⟩, hord rfl rfl rfl rfl, rfl, rfl, rfl, rfl⟩
    simp only [History.remove]
    omega
  · have hg3 : Ghost (-1) o := ⟨hg, hk⟩
    rw [if_neg (by simp [hk]), if_neg (by simp [hk]), if_pos hk]
    exact ⟨_, rfl, ⟨hres, h.min_node, h.lru.erase_other ho (not_ghost_of_ne hg3 (by decide)),
      h.lfu.erase_other ho (not_ghost_of_ne hg3 (by decide)), hlru, hlfu, h.capacity, hmd⟩, hord rfl rfl rfl rfl, rfl, rfl,
      rfl, rfl⟩

theorem bit_field_freq {n : Int} (h0 : 0 ≤ n) (h : n < 2 ^ 23) : bit_field 24 n = n := by
  unfold bit_field
  rw [Int.bmod_eq_of_le_mul_two]
  · omega
  · omega

theorem raise_freq_def (s : State W) (x : ObjId) (o : Obj) : raise_freq s x o =
    let v := insert_obj_info_freq_node { s with max_freq := max s.max_freq o.freq } x o
    let u := if s.n_obj = 1 then update_LFU_min_freq v else v
    if o.freq < u.min_freq then { u with min_freq := o.freq } else u := by
  have hmax : (if s.max_freq < o.freq then { s with max_freq := o.freq } else s) =
      { s with max_freq := max s.max_freq o.freq } := by
    split_ifs with hlt
    · rw [max_eq_right hlt.le]
    · rw [max_eq_left (not_lt.1 hlt)]
  unfold raise_freq
  rw [hmax]
  rfl

theorem raise_freq_eq (s : State W) (x : ObjId) (o : Obj) : raise_freq s x o =
    { s with
      max_freq := max s.max_freq o.freq
      freq_map := update s.freq_map o.freq
        (some { node s.freq_map o.freq with
          objs := (node s.freq_map o.freq).objs ++ [x], n_obj := (node s.freq_map o.freq).n_obj + 1 })
      hashtable := s.hashtable.insert x o
      min_freq := (raise_freq s x o).min_freq } := by
  rw [raise_freq_def]
  dsimp only
  split_ifs <;> first | rfl | (rw [update_LFU_min_freq_eq]; rfl)

theorem IsMin.cons {t t' : Table ObjId Obj} {f : Int} (h : IsMin q t f) (hne : q ≠ []) (hx : x ∉ q)
    (hf : Frame x t t') (ho : t'.lookup x = some o) : IsMin (x :: q) t' (if o.freq < f then o.freq else f) := by
  have hsame : ∀ y ∈ q, t'.lookup y = t.lookup y := fun y hy => hf y fun heq => hx (heq ▸ hy)
  have hold := h.congr hsame
  split_ifs with hlt
  · refine ⟨fun _ => ⟨x, by simp, has_freq_iff.2 ⟨o, ho, rfl⟩⟩, ?_⟩
    intro y hy o' ho'
    rcases mem_cons.1 hy with rfl | hy
    · exact (congrArg Obj.freq (some.inj (ho.symm.trans ho'))).le
    · exact hlt.le.trans (hold.le y hy o' ho')
  · refine ⟨fun _ => ?_, ?_⟩
    · obtain ⟨y, hy, hfy⟩ := hold.attained hne
      exact ⟨y, by simp [hy], hfy⟩
    · intro y hy o' ho'
      rcases mem_cons.1 hy with rfl | hy
      · rw [← some.inj (ho.symm.trans ho')]
        exact not_lt.1 hlt
      · exact hold.le y hy o' ho'

theorem raise_freq_isMin {t : Table ObjId Obj} (hx : x ∉ q) (hf : Frame x t (s.hashtable.insert x o))
    (hlevels : Levels (x :: q) (s.hashtable.insert x o) (raise_freq s x o).freq_map)
    (hone : s.n_obj = 1 → q = [] ∧ s.min_freq < o.freq) (hmany : s.n_obj ≠ 1 → IsMin q t s.min_freq ∧ q ≠ []) :
    IsMin (x :: q) (s.hashtable.insert x o) (raise_freq s x o).min_freq := by
  have ho : (s.hashtable.insert x o).lookup x = some o := lookup_insert _
  rw [raise_freq_eq] at hlevels
  set v : State W := insert_obj_info_freq_node { s with max_freq := max s.max_freq o.freq } x o
  rw [raise_freq_def]
  dsimp only
  have hv : v.min_freq = s.min_freq := rfl
  by_cases hn : s.n_obj = 1
  · -- the only object: the scan goes up to it
    obtain ⟨rfl, hlt⟩ := hone hn
    rw [if_pos hn]
    have hscan : IsMin [x] v.hashtable (update_LFU_min_freq v).min_freq := by
      apply isMin_update hlevels
      intro y hy
      rw [mem_singleton.1 hy]
      exact ⟨o, ho, hlt, le_max_right _ _⟩
    rw [if_neg (not_lt.2 (hscan.le x (by simp) o ho))]
    exact hscan
  · obtain ⟨hmin, hne⟩ := hmany hn
    rw [if_neg hn, hv]
    have hcons := hmin.cons hne hx hf ho
    split_ifs at hcons ⊢
    · exact hcons
    · exact hcons

theorem raise_freq_node (h : ∃ n, s.freq_map s.min_freq = some n) :
    ∃ n, (raise_freq s x o).freq_map (raise_freq s x o).min_freq = some n := by
  rw [raise_freq_def]
  dsimp only
  set v : State W := insert_obj_info_freq_node { s with max_freq := max s.max_freq o.freq } x o
  have hnode : ∀ f, (∃ n, s.freq_map f = some n) → ∃ n, v.freq_map f = some n := by
    rintro f ⟨n, hn⟩
    rcases eq_or_ne f o.freq with rfl | hne
    · exact ⟨_, update_self ..⟩
    · exact ⟨n, (update_of_ne hne _ _).trans hn⟩
  split_ifs
  · rw [update_LFU_min_freq_eq]
    exact ⟨_, update_self ..⟩
  · rw [update_LFU_min_freq_eq]
    exact update_LFU_min_freq_node (hnode _ h)
  · exact ⟨_, update_self ..⟩
  · exact hnode _ h

theorem find_resident_spec (h : Core s) (ho : s.hashtable.lookup x = some o) (hr : o.is_ghost = false) :
    ∃ t, find_resident s x o = some t ∧ Core t ∧ t.q = x :: s.q.erase x ∧
      t.hashtable = s.hashtable.insert x { o with freq := bit_field 24 (o.freq + 1) } ∧
      t.obj_md_size = s.obj_md_size ∧ t.cache_size = s.cache_size ∧ t.occupied_byte = s.occupied_byte ∧
      (Ordered s → o.freq < 2 ^ 23 - 1 → Ordered t) := by
  have hx : x ∈ s.q := (h.residents.mem x).2 ⟨o, ho, hr⟩
  obtain ⟨u, hu, hfields, hlevels, hnode, hsole, hmin⟩ := remove_obj_from_freq_node_spec (s := { s with q := x :: s.q.erase x })
    h.residents.levels h.residents.nodup hx ho rfl h.min_node
  set f := bit_field 24 (o.freq + 1)
  have hres := h.residents.hit ho hr hlevels f
  have hnobj : u.n_obj = s.n_obj := by rw [hfields]
  have htable : u.hashtable = s.hashtable := by rw [hfields]
  have hraise := raise_freq_eq u x { o with freq := f }
  rw [htable] at hraise
  refine ⟨raise_freq u x { o with freq := f }, by simp [find_resident, hu, f], ?_, ?_, ?_, ?_, ?_, ?_, ?_⟩
  · refine ⟨?_, ?_, ?_, ?_, ?_, ?_, ?_, ?_⟩
    · rw [hraise, hfields]
      exact hres
    · exact raise_freq_node hnode
    · rw [hraise, hfields]
      exact h.lru.write ho (not_ghost hr) (not_ghost hr)
    · rw [hraise, hfields]
      exact h.lfu.write ho (not_ghost hr) (not_ghost hr)
    · rw [hraise, hfields]
      exact h.lru_le
    · rw [hraise, hfields]
      exact h.lfu_le
    · rw [hraise, hfields]
      exact h.capacity
    · rw [hraise, hfields]
      exact h.md_size
  · rw [hraise, hfields]
  · rw [hraise]
  · rw [hraise, hfields]
  · rw [hraise, hfields]
  · rw [hraise, hfields]
  · intro hord hlt
    obtain ⟨hpos, -⟩ := hord.freq x hx o ho
    have hf : f = o.freq + 1 := bit_field_freq (by omega) (by omega)
    have hnot : x ∉ s.q.erase x := h.residents.nodup.not_mem_erase
    have hlen : s.n_obj = (s.q.erase x).length + 1 := by
      rw [h.residents.n_obj, (perm_cons_erase hx).length_eq, length_cons]
      rfl
    constructor
    · have hismin : IsMin (x :: s.q.erase x) (u.hashtable.insert x { o with freq := f })
          (raise_freq u x { o with freq := f }).min_freq := by
        apply raise_freq_isMin hnot
        · rw [htable]
          exact Frame.insert x _ _
        · rw [htable, hraise]
          exact hres.levels
        · intro hone
          have hnil : s.q.erase x = [] := eq_nil_of_length_eq_zero (by omega)
          refine ⟨hnil, ?_⟩
          have hlow := hord.min_freq.le x hx o ho
          rw [hsole hnil]
          dsimp only
          omega
        · intro hmany
          have hne : s.q.erase x ≠ [] := by
            intro hnil
            rw [hnil] at hlen
            exact hmany (by rw [hnobj, hlen]; rfl)
          refine ⟨hmin hne hord.min_freq ?_, hne⟩
          intro y hy
          obtain ⟨o', ho', -⟩ := h.resident_of_mem hy
          exact ⟨o', ho', (hord.freq y hy o' ho').2⟩
      rw [hraise, hfields]
      rw [hfields] at hismin
      exact hismin
    · rw [hraise, hfields]
      intro y hy o' ho'
      dsimp only at hy ho' ⊢
      rcases mem_cons.1 hy with rfl | hy
      · rw [lookup_insert] at ho'
        cases ho'
        dsimp only
        omega
      · have hne : y ≠ x := fun heq => hnot (heq ▸ hy)
        rw [lookup_insert_ne hne] at ho'
        have := hord.freq y (mem_of_mem_erase hy) o' ho'
        omega
    · rw [hraise, hfields]
      dsimp only
      omega

theorem LeCaR_insert_spec (h : Core s) (hmiss : req.obj_id ∉ s.hashtable) (hsize : 0 ≤ req.obj_size) :
    Core (LeCaR_insert s req) ∧ (Ordered s → Ordered (LeCaR_insert s req)) := by
  have hnone := lookup_eq_none.2 hmiss
  have hxq : req.obj_id ∉ s.q := by
    rw [h.residents.mem, hnone]
    simp
  have hnew : ({ obj_size := req.obj_size, freq := 1 } : Obj).is_ghost = false := rfl
  constructor
  · exact { h with residents := h.residents.insert hmiss hnew hsize, min_node :=
      ⟨_, update_self (1 : Int) _ s.freq_map⟩, lru := h.lru.fresh hmiss (not_ghost hnew), lfu := h.lfu.fresh hmiss (not_ghost hnew) }
  · intro hord
    have hlook : (s.hashtable.insert req.obj_id { obj_size := req.obj_size, freq := 1 }).lookup req.obj_id =
        some { obj_size := req.obj_size, freq := 1 } := lookup_insert _
    have hpos : ∀ y ∈ req.obj_id :: s.q, ∀ o,
        (s.hashtable.insert req.obj_id { obj_size := req.obj_size, freq := 1 }).lookup y = some o →
        1 ≤ o.freq ∧ o.freq ≤ s.max_freq := by
      intro y hy o ho
      rcases mem_cons.1 hy with rfl | hy
      · rw [← some.inj (hlook.symm.trans ho)]
        exact ⟨le_rfl, hord.max_pos⟩
      · have hne : y ≠ req.obj_id := fun heq => hxq (heq ▸ hy)
        rw [lookup_insert_ne hne] at ho
        exact hord.freq y hy o ho
    exact ⟨⟨fun _ => ⟨req.obj_id, by simp [LeCaR_insert, insert_obj_info_freq_node], has_freq_iff.2 ⟨_, hlook, rfl⟩⟩,
      fun y hy o ho => (hpos y hy o ho).1⟩, hpos, hord.max_pos⟩

/-! ## Eviction -/

structure Sheds (s t : State W) : Prop where
  sublist : t.q.Sublist s.q
  lookup : ∀ x ∈ t.q, t.hashtable.lookup x = s.hashtable.lookup x
  absent : ∀ x ∉ s.hashtable, x ∉ t.hashtable
  md_size : t.obj_md_size = s.obj_md_size
  cache_size : t.cache_size = s.cache_size

theorem Sheds.trans (h1 : Sheds s t) (h2 : Sheds t u) : Sheds s u where
  sublist := h2.sublist.trans h1.sublist
  lookup := fun x hx => (h2.lookup x hx).trans (h1.lookup x (h2.sublist.mem hx))
  absent := fun x hx => h2.absent x (h1.absent x hx)
  md_size := h2.md_size.trans h1.md_size
  cache_size := h2.cache_size.trans h1.cache_size

theorem choose_spec (h : Core s) (hc : choose E s = some (u, v, k)) :
    v ∈ s.q ∧ (k = 1 ∨ k = 2 ∨ k = -1) ∧
      u = { s with
        to_evict_candidate := u.to_evict_candidate
        to_evict_candidate_gen_vtime := u.to_evict_candidate_gen_vtime
        n_rand := u.n_rand } := by
  obtain ⟨n, hn⟩ := h.min_node
  have hlfu : ∀ y, n.objs.head? = some y → y ∈ s.q := by
    intro y hy
    have hobjs := h.residents.levels.objs s.min_freq
    simp only [node, hn, getD_some] at hobjs
    have hmem := mem_of_head? hy
    rw [hobjs] at hmem
    exact (mem_level.1 hmem).1
  have hlru : ∀ y, s.q.getLast? = some y → y ∈ s.q := fun y hy => mem_of_getLast? hy
  simp only [choose, get_min_freq_node, hn, bind_eq_bind, bind_some] at hc
  by_cases hgen : s.to_evict_candidate_gen_vtime = s.n_req
  · rw [if_pos hgen] at hc
    obtain ⟨id, hid, hc⟩ := bind_eq_some_iff.1 hc
    obtain ⟨rfl, rfl, rfl⟩ := hc
    refine ⟨hlru _ hid, ?_, rfl⟩
    split_ifs <;> simp
  · rw [if_neg hgen] at hc
    by_cases hboth : s.q.getLast? = n.objs.head?
    · rw [if_pos hboth] at hc
      obtain ⟨id, hid, hc⟩ := bind_eq_some_iff.1 hc
      obtain ⟨rfl, rfl, rfl⟩ := hc
      exact ⟨hlru _ hid, by simp, rfl⟩
    · split_ifs at hc
      · obtain ⟨id, hid, hc⟩ := map_eq_some_iff.1 hc
        obtain ⟨rfl, rfl, rfl⟩ := hc
        exact ⟨hlru _ hid, by simp, rfl⟩
      · obtain ⟨id, hid, hc⟩ := map_eq_some_iff.1 hc
        obtain ⟨rfl, rfl, rfl⟩ := hc
        exact ⟨hlfu _ hid, by simp, rfl⟩

theorem choose_total (h : Core s) (hord : Ordered s) (hne : s.q ≠ []) : ∃ c, choose E s = some c := by
  obtain ⟨n, hn⟩ := h.min_node
  obtain ⟨l, hl⟩ : ∃ l, s.q.getLast? = some l := ⟨_, getLast?_eq_some_getLast hne⟩
  obtain ⟨f, hf⟩ : ∃ f, n.objs.head? = some f := by
    obtain ⟨y, hy, hfreq⟩ := hord.min_freq.attained hne
    have hobjs := h.residents.levels.objs s.min_freq
    simp only [node, hn, getD_some] at hobjs
    have hmem : y ∈ n.objs := by
      rw [hobjs]
      exact mem_level.2 ⟨hy, has_freq_iff.1 hfreq⟩
    exact ⟨_, head?_eq_some_head (ne_nil_of_mem hmem)⟩
  simp only [choose, get_min_freq_node, hn, hl, hf, bind_eq_bind, bind_some]
  split_ifs <;> exact ⟨_, rfl⟩

theorem remember_spec {m : Int → Option FreqNode} {n_obj occupied j : Int} {H G : History} {o' : Obj}
    (hres : Residents q (s.hashtable.insert x o') m s.obj_md_size n_obj occupied)
    (hH : Remembers s.hashtable s.obj_md_size k H) (hG : Remembers s.hashtable s.obj_md_size j G) (hkj : k ≠ j)
    (ho : s.hashtable.lookup x = some o) (hr : o.is_ghost = false) (hg : Ghost k o') (hcap : 0 ≤ s.cache_size) :
    ∃ H' t, remember { s with hashtable := s.hashtable.insert x o' } H x o' = some (H', t) ∧
      Residents q t m s.obj_md_size n_obj occupied ∧ Remembers t s.obj_md_size k H' ∧ Remembers t s.obj_md_size j G ∧
      H'.occupied_byte ≤ s.cache_size / 2 ∧ (∀ y ∈ q, t.lookup y = (s.hashtable.insert x o').lookup y) ∧
      ∀ y ∉ s.hashtable.insert x o', y ∉ t := by
  set t0 := s.hashtable.insert x o'
  let J : Table ObjId Obj → Prop := fun t => Residents q t m s.obj_md_size n_obj occupied ∧ Remembers t s.obj_md_size j G ∧
    (∀ y ∈ q, t.lookup y = t0.lookup y) ∧ ∀ y ∉ t0, y ∉ t
  have hJ : ∀ t y o, J t → t.lookup y = some o → Ghost k o → J (t.erase y) := by
    rintro t y o ⟨hres, hG, hsame, habsent⟩ ho hg
    refine ⟨hres.erase_ghost ho hg.1, hG.erase_other ho (not_ghost_of_ne hg hkj), ?_, ?_⟩
    · intro z hz
      have hne : z ≠ y := by
        rintro rfl
        exact hres.not_mem ho hg.1 hz
      rw [lookup_erase_ne hne, hsame z hz]
    · intro z hz hmem
      exact habsent z hz (mem_erase.1 hmem).2
  have hstart : J t0 := ⟨hres, hG.write ho (not_ghost hr) (not_ghost_of_ne hg hkj), fun _ _ => rfl, fun _ h => h⟩
  have hlimit : 0 ≤ s.cache_size / 2 := by omega
  obtain ⟨H', t, htrim, hrem, hle, hres', hG', hsame, habsent⟩ := trim_spec J hJ (hH.add ho (not_ghost hr) hg) hstart hlimit
  exact ⟨H', t, htrim, hres', hrem, hG', hle, hsame, habsent⟩

theorem Ordered.evict (hmin : q ≠ [] → IsMin q s.hashtable t.min_freq) (hord : Ordered s)
    (hsub : q.Sublist s.q) (hq : t.q = q) (hsame : ∀ y ∈ q, t.hashtable.lookup y = s.hashtable.lookup y)
    (hmax : t.max_freq = s.max_freq) : Ordered t where
  min_freq := by
    rw [hq]
    rcases eq_or_ne q [] with rfl | hne
    · exact ⟨fun h => absurd rfl h, by simp⟩
    · exact (hmin hne).congr hsame
  freq := by
    rw [hq, hmax]
    intro y hy o ho
    exact hord.freq y (hsub.mem hy) o ((hsame y hy).symm.trans ho)
  max_pos := hmax ▸ hord.max_pos

theorem retire_spec (h : Core s) (hv : v ∈ s.q) (hk : k = 1 ∨ k = 2 ∨ k = -1) :
    ∃ t, retire s v k = some t ∧ Core t ∧ t.q = s.q.erase v ∧ Sheds s t ∧ (Ordered s → Ordered t) := by
  obtain ⟨o, ho, hr⟩ := h.resident_of_mem hv
  set o' : Obj := { o with is_ghost := true, evict_expert := k, eviction_vtime := bit_field 40 s.n_req }
  obtain ⟨w, hw, hfields, hlevels, hnode, -, hmin⟩ := remove_obj_from_freq_node_spec (s := { s with q := s.q.erase v })
    h.residents.levels h.residents.nodup hv ho (rfl : o'.freq = o.freq) h.min_node
  obtain ⟨m, f, rfl⟩ : ∃ m f, w = { s with q := s.q.erase v, freq_map := m, min_freq := f } := ⟨_, _, hfields⟩
  have hlegal : Legal o' := ⟨(h.residents.legal v o ho).size, fun _ => hk⟩
  have hres : Residents (s.q.erase v) (s.hashtable.insert v o') m s.obj_md_size (s.n_obj - 1)
      (s.occupied_byte - (o'.obj_size + s.obj_md_size)) := h.residents.evict ho hr hlevels rfl rfl hlegal
  have hnot : v ∉ s.q.erase v := h.residents.nodup.not_mem_erase
  have hsame : ∀ y ∈ s.q.erase v, (s.hashtable.insert v o').lookup y = s.hashtable.lookup y :=
    fun y hy => lookup_insert_ne fun heq => hnot (heq ▸ hy)
  have habsent : ∀ y ∉ s.hashtable, y ∉ s.hashtable.insert v o' := by
    intro y hy hmem
    rcases (mem_insert _).1 hmem with rfl | hmem
    · exact hy (Table.mem_of_lookup ho)
    · exact hy hmem
  have hmin' : Ordered s → s.q.erase v ≠ [] → IsMin (s.q.erase v) s.hashtable f := by
    intro hord hne
    apply hmin hne hord.min_freq
    intro y hy
    obtain ⟨o1, ho1, -⟩ := h.resident_of_mem hy
    exact ⟨o1, ho1, (hord.freq y hy o1 ho1).2⟩
  have hdone : ∀ t : State W, Core t → t.q = s.q.erase v →
      (∀ y ∈ s.q.erase v, t.hashtable.lookup y = (s.hashtable.insert v o').lookup y) →
      (∀ y ∉ s.hashtable.insert v o', y ∉ t.hashtable) → t.obj_md_size = s.obj_md_size → t.cache_size = s.cache_size →
      t.min_freq = f → t.max_freq = s.max_freq → Core t ∧ t.q = s.q.erase v ∧ Sheds s t ∧ (Ordered s → Ordered t) := by
    intro t hcore hq hlook hout hmd hcap hf hmax
    have hlook' : ∀ y ∈ s.q.erase v, t.hashtable.lookup y = s.hashtable.lookup y :=
      fun y hy => (hlook y hy).trans (hsame y hy)
    refine ⟨hcore, hq, ⟨hq ▸ erase_sublist, hq ▸ hlook', fun y hy => hout y (habsent y hy), hmd, hcap⟩, fun hord => ?_⟩
    exact Ordered.evict (hf ▸ hmin' hord) hord erase_sublist hq hlook' hmax
  unfold retire
  simp only [ho, bind_eq_bind, bind_some]
  rw [hw]
  simp only [bind_some]
  rcases hk with rfl | rfl | rfl
  · obtain ⟨H, t, hrem, hres', hlru, hlfu, hle, hq, hout⟩ :=
      remember_spec hres h.lru h.lfu (by decide) ho hr (⟨rfl, rfl⟩ : Ghost 1 o') h.capacity
    refine ⟨_, bind_eq_some_iff.2 ⟨(H, t), hrem, rfl⟩, hdone _ ?_ rfl hq hout rfl rfl rfl rfl⟩
    exact ⟨hres', hnode, hlru, hlfu, hle, h.lfu_le, h.capacity, h.md_size⟩
  · obtain ⟨H, t, hrem, hres', hlfu, hlru, hle, hq, hout⟩ :=
      remember_spec hres h.lfu h.lru (by decide) ho hr (⟨rfl, rfl⟩ : Ghost 2 o') h.capacity
    refine ⟨_, bind_eq_some_iff.2 ⟨(H, t), hrem, rfl⟩, hdone _ ?_ rfl hq hout rfl rfl rfl rfl⟩
    exact ⟨hres', hnode, hlru, hlfu, h.lru_le, hle, h.capacity, h.md_size⟩
  · have hg : Ghost (-1) o' := ⟨rfl, rfl⟩
    refine ⟨_, rfl, hdone _ ?_ rfl (fun _ _ => rfl) (fun _ h => h) rfl rfl rfl rfl⟩
    exact { h with residents := hres, min_node := hnode, lru := h.lru.write ho (not_ghost hr) (not_ghost_of_ne hg (by decide)), lfu := h.lfu.write ho (not_ghost hr) (not_ghost_of_ne hg (by decide)) }

theorem LeCaR_evict_of_choose (h : Core s) (hc : choose E s = some (u, v, k)) :
    ∃ t, LeCaR_evict E s = some t ∧ Core t ∧ t.q = s.q.erase v ∧ Sheds s t ∧ (Ordered s → Ordered t) := by
  obtain ⟨hv, hk, hu⟩ := choose_spec h hc
  obtain ⟨c, g, n, rfl⟩ : ∃ c g n, u = { s with to_evict_candidate := c, to_evict_candidate_gen_vtime := g, n_rand := n } :=
    ⟨_, _, _, hu⟩
  have hcore : Core { s with to_evict_candidate := c, to_evict_candidate_gen_vtime := g, n_rand := n } :=
    { h with }
  obtain ⟨t, ht, hcore', hq, hsheds, hord⟩ := retire_spec hcore hv hk
  refine ⟨t, by simp [LeCaR_evict, hc, ht], hcore', hq, ⟨hsheds.1, hsheds.2, hsheds.3, hsheds.4, hsheds.5⟩, ?_⟩
  exact fun hs => hord { hs with }

/-! ## A get -/

theorem Core.count_req (h : Core s) : Core ((ops E).count_req s) :=
  { h with }

theorem Ordered.count_req (h : Ordered s) : Ordered ((ops E).count_req s) := { h with }

theorem LeCaR_get_hit (h : Core s) (ho : s.hashtable.lookup req.obj_id = some o) (hr : o.is_ghost = false) :
    ∃ t, LeCaR_get E s req = some (t, true) ∧ Core t ∧ t.q = req.obj_id :: s.q.erase req.obj_id ∧
      t.hashtable = s.hashtable.insert req.obj_id { o with freq := bit_field 24 (o.freq + 1) } ∧
      t.obj_md_size = s.obj_md_size ∧ t.cache_size = s.cache_size ∧ t.occupied_byte = s.occupied_byte ∧
      (Ordered s → o.freq < 2 ^ 23 - 1 → Ordered t) := by
  obtain ⟨t, ht, hcore, hq, htable, hmd, hcap, hocc, hord⟩ := find_resident_spec (h.count_req (E := E)) ho hr
  have hfind : (ops E).find ((ops E).count_req s) req = some (t, true) := by
    have hlook : ((ops E).count_req s).hashtable.lookup req.obj_id = some o := ho
    simp only [ops] at hlook ht ⊢
    simp [LeCaR_find, ho, hr, ht]
  exact ⟨t, cache_get_base_hit hfind, hcore, hq, htable, hmd, hcap, hocc,
    fun hs hlt => hord hs.count_req hlt⟩

theorem LeCaR_get_room (hmiss : req.obj_id ∉ s.hashtable) (hocc : 0 ≤ s.occupied_byte)
    (hroom : s.occupied_byte + req.obj_size + s.obj_md_size ≤ s.cache_size) :
    LeCaR_get E s req = some (LeCaR_insert ((ops E).count_req s) req, false) := by
  have hfind : (ops E).find ((ops E).count_req s) req = some ((ops E).count_req s, false) := by
    simp [ops, LeCaR_find, lookup_eq_none.2 hmiss]
  have hcan : (ops E).can_insert ((ops E).count_req s) req = some ((ops E).count_req s, true) := by
    have hfit : ¬ req.obj_size + s.obj_md_size > s.cache_size := by omega
    simp [ops, hfit]
  refine cache_get_base_insert hfind hcan (whileLoop_stop _ _ _ _ ?_) rfl
  rw [full_for_false_iff]
  exact hroom

theorem find_miss (h : Core s) (hmiss : req.obj_id ∉ s.q) :
    ∃ t, (ops E).find ((ops E).count_req s) req = some (t, false) ∧ Core t ∧ (Ordered s → Ordered t) ∧ t.q = s.q ∧
      req.obj_id ∉ t.hashtable ∧ Sheds s t := by
  have hc := h.count_req (E := E)
  rcases ho : s.hashtable.lookup req.obj_id with _ | o
  · refine ⟨(ops E).count_req s, ?_, hc, Ordered.count_req, rfl, lookup_eq_none.1 ho,
      ⟨List.Sublist.refl _, fun _ _ => rfl, fun _ hx => hx, rfl, rfl⟩⟩
    simp [ops, LeCaR_find, ho]
  · have hg : o.is_ghost = true := by
      by_contra hr
      exact hmiss ((h.residents.mem _).2 ⟨o, ho, by simpa using hr⟩)
    obtain ⟨t, ht, hcore, hord, hq, htable, hmd, hcap⟩ := find_ghost_spec (E := E) hc ho hg
    refine ⟨t, ?_, hcore, fun hs => hord hs.count_req, hq, ?_, ⟨hq ▸ List.Sublist.refl _, ?_, ?_, hmd, hcap⟩⟩
    · simp only [ops] at ht ⊢
      simp [LeCaR_find, ho, hg, ht]
    · rw [htable]
      exact fun hmem => (mem_erase.1 hmem).1 rfl
    · intro x hx
      have hne : x ≠ req.obj_id := by
        rintro rfl
        exact hmiss (hq ▸ hx)
      rw [htable]
      exact lookup_erase_ne hne
    · intro x hx hmem
      rw [htable] at hmem
      exact hx (mem_erase.1 hmem).2

/-- What a get leaves: the requested object comes first, if it is there; the others keep their
order and their frequencies. -/
structure Served (s : State W) (req : Request) (t : State W) (hit : Bool) : Prop where
  hit_iff : hit = true ↔ req.obj_id ∈ s.q
  others : ∃ q, (t.q = q ∨ t.q = req.obj_id :: q) ∧ req.obj_id ∉ q ∧ q.Sublist s.q ∧
    ∀ x ∈ q, t.hashtable.lookup x = s.hashtable.lookup x
  freq : ∀ o', req.obj_id ∈ t.q → t.hashtable.lookup req.obj_id = some o' →
    if hit then ∃ o, s.hashtable.lookup req.obj_id = some o ∧ o'.freq = o.freq + 1 else o'.freq = 1

theorem Core.ne_nil_of_occupied (h : Core s) (hocc : 0 < s.occupied_byte) : s.q ≠ [] := by
  intro hnil
  have hzero : s.occupied_byte = 0 := by
    rw [h.residents.bytes]
    apply sum_eq_zero
    intro n hn
    obtain ⟨e, he, rfl⟩ := mem_map.1 hn
    have ho := Table.lookup_of_mem_entries he
    apply if_pos
    by_contra hr
    have hmem := (h.residents.mem e.1).2 ⟨e.2, ho, by simpa using hr⟩
    simp [hnil] at hmem
  omega

theorem Core.not_mem_q (h : Core s) (hx : x ∉ s.hashtable) : x ∉ s.q := by
  rw [h.residents.mem, lookup_eq_none.2 hx]
  simp

theorem Served.of_insert (hq : req.obj_id ∉ s.q) (hc : Core u)
    (hmiss : req.obj_id ∉ u.hashtable) (hsheds : Sheds s u) : Served s req (LeCaR_insert u req) false where
  hit_iff := by simp [hq]
  others := by
    refine ⟨u.q, .inr rfl, hc.not_mem_q hmiss, hsheds.sublist, ?_⟩
    intro x hx
    have hne : x ≠ req.obj_id := fun heq => hc.not_mem_q hmiss (heq ▸ hx)
    exact (lookup_insert_ne hne).trans (hsheds.lookup x hx)
  freq := by
    intro o' _ ho'
    have hlook : (LeCaR_insert u req).hashtable.lookup req.obj_id = some { obj_size := req.obj_size, freq := 1 } :=
      lookup_insert _
    rw [← some.inj (hlook.symm.trans ho')]
    rfl

theorem LeCaR_get_spec (h : Core s) (hord : Ordered s) (hsize : 0 ≤ req.obj_size)
    (hfreq : ∀ o, s.hashtable.lookup req.obj_id = some o → o.is_ghost = false → o.freq < 2 ^ 23 - 1) :
    ∃ t hit, LeCaR_get E s req = some (t, hit) ∧ Core t ∧ Ordered t ∧ Served s req t hit := by
  by_cases hq : req.obj_id ∈ s.q
  · obtain ⟨o, ho, hr⟩ := h.resident_of_mem hq
    obtain ⟨t, hget, hcore, htq, htable, -, -, -, hord'⟩ := LeCaR_get_hit (E := E) h ho hr
    have hpos := hord.freq _ hq o ho
    have hlt := hfreq o ho hr
    have hnot : req.obj_id ∉ s.q.erase req.obj_id := h.residents.nodup.not_mem_erase
    refine ⟨t, true, hget, hcore, hord' hord hlt, ⟨by simp [hq], ⟨_, .inr htq, hnot, erase_sublist, ?_⟩, ?_⟩⟩
    · intro x hx
      rw [htable]
      exact lookup_insert_ne fun heq => hnot (heq ▸ hx)
    · intro o' _ ho'
      rw [htable, lookup_insert] at ho'
      cases ho'
      exact ⟨o, ho, bit_field_freq (by omega) (by omega)⟩
  · obtain ⟨s1, hfind, hc1, hord1, hq1, hmiss1, hsheds1⟩ := find_miss (E := E) h hq
    let Ready : State W → Prop := fun u => (Core u ∧ Ordered u ∧ req.obj_id ∉ u.hashtable ∧ Sheds s u) ∧
      req.obj_size + u.obj_md_size ≤ u.cache_size
    let Done : State W → Prop := fun t => Core t ∧ Ordered t ∧ Served s req t false
    have hget : ∃ t hit, LeCaR_get E s req = some (t, hit) ∧ Done t := by
      refine cache_get_base_total (· = s) (· = s1) Ready Done (fun u => u.q.length) ?_ ?_ ?_ ?_ ?_ rfl
      · exact fun _ _ => le_rfl
      · rintro _ rfl
        exact ⟨s1, false, hfind, rfl⟩
      · rintro u rfl
        refine ⟨u, _, rfl, ?_⟩
        split_ifs with hadmit
        · exact ⟨⟨hc1, hord1 hord, hmiss1, hsheds1⟩, by simpa using hadmit⟩
        · exact ⟨hc1, hord1 hord, by simp [hq], ⟨u.q, .inl rfl, hq1 ▸ hq, hsheds1.sublist, hsheds1.lookup⟩,
            fun o' hmem => absurd (hq1 ▸ hmem) hq⟩
      · rintro u ⟨⟨hc, ho, hmiss, hsheds⟩, hfit⟩ hfull
        rw [full_for_iff] at hfull
        simp only [ops] at hfull
        have hne : u.q ≠ [] := hc.ne_nil_of_occupied (by omega)
        obtain ⟨⟨w, v, k⟩, hchoose⟩ := choose_total (E := E) hc ho hne
        obtain ⟨hv, -, -⟩ := choose_spec hc hchoose
        obtain ⟨t, ht, hct, htq, hst, hot⟩ := LeCaR_evict_of_choose hc hchoose
        refine ⟨t, ht, ⟨⟨hct, hot ho, hst.absent _ hmiss, hsheds.trans hst⟩, ?_⟩, ?_⟩
        · rw [hst.md_size, hst.cache_size]
          exact hfit
        · have hpos := length_pos_of_mem hv
          rw [htq, length_erase_of_mem hv]
          omega
      · rintro u ⟨⟨hc, ho, hmiss, hsheds⟩, -⟩ -
        obtain ⟨hct, hot⟩ := LeCaR_insert_spec hc hmiss hsize
        exact ⟨_, rfl, hct, hot ho, .of_insert hq hc hmiss hsheds⟩
    obtain ⟨t, hit, hget, hct, hot, hserved⟩ := hget
    obtain rfl := cache_get_base_miss hfind hget
    exact ⟨t, false, hget, hct, hot, hserved⟩

end CacheSim.LeCaR
