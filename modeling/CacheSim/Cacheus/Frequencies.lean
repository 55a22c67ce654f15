import CacheSim.Cacheus.Model
import CacheSim.LeCaR.Levels

/-!
# The frequencies of CR-LFU

The lists of the frequencies hold the objects of the table, and `min_freq` is the least of them.
-/

namespace CacheSim.Cacheus

open Lib LeCaR List Option Function

/-! ## The lists -/

structure Buckets (F : ObjId → Option Int) (m : Int → Option FreqNode) : Prop where
  mem : ∀ f x, x ∈ (node m f).objs ↔ F x = some f
  nodup : ∀ f, (node m f).objs.Nodup
  n_obj : ∀ f, (node m f).n_obj = (node m f).objs.length

variable {F : ObjId → Option Int} {m : Int → Option FreqNode} {x : ObjId} {f : Int}

section

variable (h : Buckets F m)
include h

theorem Buckets.exists_node (hx : F x = some f) : ∃ n, m f = some n ∧ node m f = n := by
  have hmem := (h.mem f x).2 hx
  unfold node at hmem ⊢
  rcases hm : m f with _ | n
  · rw [hm] at hmem
    cases hmem
  · exact ⟨n, rfl, rfl⟩

theorem Buckets.detach (hx : F x = some f) {n : FreqNode} (hn : node m f = n) :
    Buckets (update F x none) (update m f (some { n with objs := n.objs.erase x, n_obj := n.n_obj - 1 })) := by
  subst hn
  have hmem := (h.mem f x).2 hx
  refine ⟨fun g y => ?_, fun g => ?_, fun g => ?_⟩
  · rw [node_update]
    rcases eq_or_ne y x with rfl | hne
    · rw [update_self]
      refine ⟨fun hy => ?_, fun hy => by cases hy⟩
      split_ifs at hy with hg
      · exact absurd rfl ((h.nodup f).mem_erase_iff.1 hy).1
      · exact absurd (some.inj (((h.mem g y).1 hy).symm.trans hx)) hg
    · rw [update_of_ne hne]
      split_ifs with hg
      · rw [hg, ← h.mem f y]
        exact mem_erase_of_ne hne
      · exact h.mem g y
  · rw [node_update]
    split_ifs with hg
    · exact (h.nodup f).erase x
    · exact h.nodup g
  · rw [node_update]
    split_ifs with hg
    · have hpos := length_pos_of_mem hmem
      have hcount := h.n_obj f
      have hlen := length_erase_of_mem hmem
      dsimp only
      omega
    · exact h.n_obj g

theorem Buckets.attach (hx : F x = none) (f : Int) :
    Buckets (update F x (some f)) (update m f
      (some { node m f with objs := (node m f).objs ++ [x], n_obj := (node m f).n_obj + 1 })) := by
  have hout : ∀ g, x ∉ (node m g).objs := by
    intro g hmem
    cases ((h.mem g x).1 hmem).symm.trans hx
  refine ⟨fun g y => ?_, fun g => ?_, fun g => ?_⟩
  · rw [node_update]
    rcases eq_or_ne y x with rfl | hne
    · rw [update_self]
      split_ifs with hg
      · simp [hg]
      · refine ⟨fun hy => absurd hy (hout g), fun hy => absurd (some.inj hy).symm hg⟩
    · rw [update_of_ne hne]
      split_ifs with hg
      · rw [hg, ← h.mem f y]
        simp [hne]
      · exact h.mem g y
  · rw [node_update]
    split_ifs with hg
    · exact nodup_append'.2 ⟨h.nodup f, nodup_singleton x, disjoint_singleton.2 (hout f)⟩
    · exact h.nodup g
  · rw [node_update]
    split_ifs with hg
    · simp [h.n_obj f]
    · exact h.n_obj g

theorem Buckets.n_obj_pos : 0 < (node m f).n_obj ↔ ∃ x, F x = some f := by
  rw [h.n_obj f]
  constructor
  · intro hpos
    obtain ⟨x, hx⟩ := exists_mem_of_length_pos (by omega : 0 < (node m f).objs.length)
    exact ⟨x, (h.mem f x).1 hx⟩
  · rintro ⟨x, hx⟩
    have hpos := length_pos_of_mem ((h.mem f x).2 hx)
    omega

/-! ## The least frequency -/

structure Least (F : ObjId → Option Int) (f : Int) : Prop where
  attained : ∃ x, F x = some f
  le : ∀ x g, F x = some g → f ≤ g

theorem Buckets.has_objs_iff : ((m f).any fun node => node.n_obj > 0) = true ↔ ∃ y, F y = some f := by
  rw [← h.n_obj_pos]
  unfold node
  cases m f <;> simp

end

variable {lo hi : Int}

theorem Buckets.find_least (h : Buckets F m) (hx : F x = some f)
    (hrange : ∀ y g, F y = some g → lo < g ∧ g ≤ hi) :
    ∃ g, (((List.range (hi - lo).toNat).map fun k : Nat => lo + 1 + k).find? fun freq =>
      (m freq).any fun node => node.n_obj > 0) = some g ∧ Least F g := by
  obtain ⟨hlo, hhi⟩ := hrange x f hx
  obtain ⟨g, hfind, hg, hle⟩ := find_above (p := fun g => (m g).any fun node => node.n_obj > 0) hlo hhi
    (h.has_objs_iff.2 ⟨x, hx⟩)
  refine ⟨g, hfind, h.has_objs_iff.1 hg, fun y g' hy => ?_⟩
  obtain ⟨hlo', hhi'⟩ := hrange y g' hy
  exact hle g' hlo' hhi' (h.has_objs_iff.2 ⟨y, hy⟩)

theorem Buckets.settled (h : Buckets F m) (hx : F x = some f)
    (hrange : ∀ y g, F y = some g → lo ≤ g ∧ g ≤ hi) (d : Int) :
    Least F (if (node m lo).n_obj = 0 then (((List.range (hi - lo).toNat).map fun k : Nat => lo + 1 + k).find? fun freq =>
      (m freq).any fun node => node.n_obj > 0).getD d else lo) := by
  split_ifs with hempty
  · have hne : ∀ y g, F y = some g → lo < g ∧ g ≤ hi := by
      intro y g hy
      obtain ⟨hle, hmax⟩ := hrange y g hy
      refine ⟨lt_of_le_of_ne hle ?_, hmax⟩
      rintro rfl
      have hpos := h.n_obj_pos.2 ⟨y, hy⟩
      omega
    obtain ⟨g, hg, hleast⟩ := h.find_least hx hne
    rw [hg]
    exact hleast
  · refine ⟨h.n_obj_pos.1 ?_, fun y g hy => (hrange y g hy).1⟩
    have hcount := h.n_obj lo
    omega

def CrLfu.freqs (l : CrLfu) (x : ObjId) : Option Int := (l.hashtable.lookup x).map (·.md)

structure CrLfu.Inv (l : CrLfu) : Prop where
  buckets : Buckets l.freqs l.freq_map
  range : ∀ x f, l.freqs x = some f → 1 ≤ f ∧ f ≤ l.max_freq
  least : ∀ x f, l.freqs x = some f → Least l.freqs l.min_freq

variable {l : CrLfu}

theorem CrLfu.freqs_eq_none : l.freqs x = none ↔ x ∉ l.hashtable :=
  map_eq_none_iff.trans AList.lookup_eq_none

theorem CrLfu.freqs_eq_some : l.freqs x = some f ↔ ∃ o, l.hashtable.lookup x = some o ∧ o.md = f := map_eq_some_iff

theorem next_freq_eq_none (h : Buckets F l.freq_map) (hnone : ∀ x, F x = none) : next_freq l = none := by
  unfold next_freq
  rw [find?_eq_none]
  intro g _ hg
  obtain ⟨n, hn, hpos⟩ := (any_eq_true _ _).1 hg
  have hnode : node l.freq_map g = n := by
    unfold node
    rw [hn]
    rfl
  obtain ⟨x, hx⟩ := h.n_obj_pos.1 (by rw [hnode]; exact of_decide_eq_true hpos)
  cases (hnone x).symm.trans hx

theorem least_settled (h : Buckets l.freqs l.freq_map) (hx : l.freqs x = some f)
    (hrange : ∀ y g, l.freqs y = some g → l.min_freq ≤ g ∧ g ≤ l.max_freq) (d : Int) :
    Least l.freqs (if (node l.freq_map l.min_freq).n_obj = 0 then (next_freq l).getD d else l.min_freq) :=
  h.settled hx hrange d

theorem append_freqs (l : CrLfu) (id : ObjId) (obj : FifoObj Int) :
    (append l id obj).freqs = update l.freqs id (some obj.md) := by
  funext y
  unfold CrLfu.freqs append
  rcases eq_or_ne y id with rfl | hne
  · rw [update_self, AList.lookup_insert]
    rfl
  · rw [update_of_ne hne, AList.lookup_insert_ne hne]

theorem cache_remove_obj_base_freqs (l : CrLfu) (id : ObjId) (obj : FifoObj Int) :
    (l.cache_remove_obj_base id obj).freqs = update l.freqs id none := by
  funext y
  unfold CrLfu.freqs CrLfu.cache_remove_obj_base
  rcases eq_or_ne y id with rfl | hne
  · rw [update_self, AList.lookup_erase]
    rfl
  · rw [update_of_ne hne, AList.lookup_erase_ne hne]

/-! ## A lookup -/

theorem CR_LFU_find_miss {req : Request} (hmiss : l.freqs req.obj_id = none) : CR_LFU_find l req true = some (l, false) := by
  unfold CR_LFU_find
  rw [map_eq_none_iff.1 hmiss]

theorem CR_LFU_find_spec (h : l.Inv) {req : Request} (hhit : l.freqs req.obj_id = some f) :
    ∃ l', CR_LFU_find l req true = some (l', true) ∧ l'.Inv ∧ l'.freqs = update l.freqs req.obj_id (some (f + 1)) := by
  obtain ⟨obj, ho, rfl⟩ := CrLfu.freqs_eq_some.1 hhit
  obtain ⟨n, hn, hnode⟩ := h.buckets.exists_node hhit
  obtain ⟨hone, -⟩ := h.range _ _ hhit
  have hmin := h.least _ _ hhit
  let old : FreqNode := { n with objs := n.objs.erase req.obj_id, n_obj := n.n_obj - 1 }
  let raised : Int := if l.max_freq < obj.md + 1 then obj.md + 1 else l.max_freq
  let l1 : CrLfu := append { l with max_freq := raised, freq_map := update l.freq_map obj.md (some old) } req.obj_id
    { obj with md := obj.md + 1 }
  have hfind : CR_LFU_find l req true = some
      (if l1.min_freq = obj.md ∧ old.n_obj = 0 then { l1 with min_freq := (next_freq l1).getD l1.min_freq } else l1, true) := by
    have hraised : (if l.max_freq < obj.md + 1 then { l with max_freq := obj.md + 1 } else l) = { l with max_freq := raised } := by
      dsimp only [raised]
      split_ifs <;> rfl
    have hunlink : unlink { l with max_freq := raised } obj.md req.obj_id =
        some ({ l with max_freq := raised, freq_map := update l.freq_map obj.md (some old) }, old) := by
      unfold unlink
      rw [hn]
      rfl
    unfold CR_LFU_find
    rw [ho]
    dsimp only
    rw [if_pos rfl, hraised, hunlink]
    rfl
  have hbuckets : Buckets l1.freqs l1.freq_map := by
    have hdetached := h.buckets.detach hhit hnode
    have hattached := hdetached.attach (update_self ..) (obj.md + 1)
    rw [update_idem] at hattached
    rw [append_freqs]
    exact hattached
  have hfreqs : l1.freqs = update l.freqs req.obj_id (some (obj.md + 1)) := append_freqs ..
  have hself : l1.freqs req.obj_id = some (obj.md + 1) := by rw [hfreqs, update_self]
  have hle : obj.md + 1 ≤ raised ∧ l.max_freq ≤ raised := by
    dsimp only [raised]
    split_ifs <;> omega
  have hrange : ∀ y g, l1.freqs y = some g → (1 ≤ g ∧ l1.min_freq ≤ g) ∧ g ≤ l1.max_freq := by
    intro y g hy
    rw [hfreqs] at hy
    rcases eq_or_ne y req.obj_id with rfl | hne
    · rw [update_self] at hy
      cases hy
      have hlow := hmin.le _ _ hhit
      exact ⟨⟨by omega, by show l.min_freq ≤ _; omega⟩, hle.1⟩
    · rw [update_of_ne hne] at hy
      obtain ⟨hg, hg'⟩ := h.range y g hy
      exact ⟨⟨hg, hmin.le y g hy⟩, hg'.trans hle.2⟩
  -- the list of `min_freq` is empty only if it was that of the object
  have hcond : (l1.min_freq = obj.md ∧ old.n_obj = 0) ↔ (node l1.freq_map l1.min_freq).n_obj = 0 := by
    have hmap : node l1.freq_map obj.md = old := by
      show node (update _ (obj.md + 1) _) obj.md = old
      rw [node_update, if_neg (by omega), node_update, if_pos rfl]
    constructor
    · rintro ⟨heq, hzero⟩
      rw [heq, hmap, hzero]
    · intro hzero
      by_cases heq : l1.min_freq = obj.md
      · rw [heq, hmap] at hzero
        exact ⟨heq, hzero⟩
      · obtain ⟨y, hy⟩ := hmin.attained
        have hne : y ≠ req.obj_id := by
          rintro rfl
          exact heq (some.inj (hy.symm.trans hhit))
        have hpos := hbuckets.n_obj_pos.2 ⟨y, by rw [hfreqs, update_of_ne hne]; exact hy⟩
        have hzero' : (node l1.freq_map l.min_freq).n_obj = 0 := hzero
        omega
  have hleast := least_settled hbuckets hself (fun y g hy => ⟨(hrange y g hy).1.2, (hrange y g hy).2⟩) l1.min_freq
  refine ⟨_, hfind, ?_, ?_⟩
  · split_ifs with hc
    · rw [if_pos (hcond.1 hc)] at hleast
      exact ⟨hbuckets, fun y g hy => ⟨(hrange y g hy).1.1, (hrange y g hy).2⟩, fun y g hy => hleast⟩
    · rw [if_neg (mt hcond.2 hc)] at hleast
      exact ⟨hbuckets, fun y g hy => ⟨(hrange y g hy).1.1, (hrange y g hy).2⟩, fun y g hy => hleast⟩
  · split_ifs
    · exact hfreqs
    · exact hfreqs

variable {t : Twin} {req : Request}

def Loads (l : CrLfu) (freq : Int) : Prop := (∀ x, l.freqs x = none) → l.min_freq = -1 ∨ freq = 1 ∨ freq ≤ l.min_freq

theorem CR_LFU_insert_eq (t : Twin) (req : Request) :
    (CR_LFU_insert t req).freqs = update t.lfu.freqs req.obj_id (some (loaded_freq t.lru req.obj_id)) ∧
    (CR_LFU_insert t req).freq_map = update t.lfu.freq_map (loaded_freq t.lru req.obj_id)
      (some { node t.lfu.freq_map (loaded_freq t.lru req.obj_id) with
        objs := (node t.lfu.freq_map (loaded_freq t.lru req.obj_id)).objs ++ [req.obj_id]
        n_obj := (node t.lfu.freq_map (loaded_freq t.lru req.obj_id)).n_obj + 1 }) ∧
    (CR_LFU_insert t req).max_freq = max t.lfu.max_freq (loaded_freq t.lru req.obj_id) ∧
    (CR_LFU_insert t req).min_freq =
      if (if loaded_freq t.lru req.obj_id = 1 then 1 else t.lfu.min_freq) > loaded_freq t.lru req.obj_id ∨
        (if loaded_freq t.lru req.obj_id = 1 then 1 else t.lfu.min_freq) = -1 then loaded_freq t.lru req.obj_id
      else if loaded_freq t.lru req.obj_id = 1 then 1 else t.lfu.min_freq := by
  have hfreqs := append_freqs { t.lfu with
    occupied_byte := t.lfu.occupied_byte + (req.obj_size + t.lfu.obj_md_size)
    n_obj := t.lfu.n_obj + 1 } req.obj_id { obj_size := req.obj_size, md := loaded_freq t.lru req.obj_id }
  have hmax : max t.lfu.max_freq (loaded_freq t.lru req.obj_id) =
      if t.lfu.max_freq < loaded_freq t.lru req.obj_id then loaded_freq t.lru req.obj_id else t.lfu.max_freq := by
    split_ifs <;> omega
  refine ⟨?_, ?_, ?_, ?_⟩
  · refine Eq.trans ?_ hfreqs
    unfold CR_LFU_insert append
    dsimp only
    split_ifs <;> rfl
  · unfold CR_LFU_insert append
    dsimp only
    split_ifs <;> rfl
  · rw [hmax]
    unfold CR_LFU_insert append
    dsimp only
    split_ifs <;> rfl
  · unfold CR_LFU_insert append
    dsimp only
    split_ifs <;> rfl

theorem CR_LFU_insert_spec (h : t.lfu.Inv) (hmiss : t.lfu.freqs req.obj_id = none) (hfreq : 1 ≤ loaded_freq t.lru req.obj_id)
    (hloads : Loads t.lfu (loaded_freq t.lru req.obj_id)) :
    (CR_LFU_insert t req).Inv ∧
      (CR_LFU_insert t req).freqs = update t.lfu.freqs req.obj_id (some (loaded_freq t.lru req.obj_id)) := by
  obtain ⟨hfreqs, hmap, hmax, hm⟩ := CR_LFU_insert_eq t req
  set f := loaded_freq t.lru req.obj_id
  have hself : (CR_LFU_insert t req).freqs req.obj_id = some f := by rw [hfreqs, update_self]
  have hbuckets : Buckets (CR_LFU_insert t req).freqs (CR_LFU_insert t req).freq_map := by
    rw [hfreqs, hmap]
    exact h.buckets.attach hmiss f
  have hold : ∀ y g, (CR_LFU_insert t req).freqs y = some g → y = req.obj_id ∧ g = f ∨ t.lfu.freqs y = some g := by
    intro y g hy
    rw [hfreqs] at hy
    rcases eq_or_ne y req.obj_id with rfl | hne
    · rw [update_self] at hy
      cases hy
      exact .inl ⟨rfl, rfl⟩
    · rw [update_of_ne hne] at hy
      exact .inr hy
  have hmin : Least (CR_LFU_insert t req).freqs (CR_LFU_insert t req).min_freq := by
    by_cases hvacant : ∀ x, t.lfu.freqs x = none
    · -- the new object is the only one
      have hf : (CR_LFU_insert t req).min_freq = f := by
        have hcases := hloads hvacant
        rw [hm]
        split_ifs <;> omega
      rw [hf]
      refine ⟨⟨_, hself⟩, fun y g hy => ?_⟩
      rcases hold y g hy with ⟨-, rfl⟩ | hy
      · exact le_rfl
      · cases (hvacant y).symm.trans hy
    · obtain ⟨x, hx⟩ := not_forall.1 hvacant
      obtain ⟨g0, hg0⟩ := ne_none_iff_exists'.1 hx
      have hleast := h.least x g0 hg0
      obtain ⟨y0, hy0⟩ := hleast.attained
      have hpos := (h.range _ _ hy0).1
      by_cases hlow : t.lfu.min_freq ≤ f ∧ f ≠ 1
      · have hm' : (CR_LFU_insert t req).min_freq = t.lfu.min_freq := by
          rw [hm]
          split_ifs <;> omega
        have hne : y0 ≠ req.obj_id := by
          rintro rfl
          cases hmiss.symm.trans hy0
        rw [hm']
        refine ⟨⟨y0, by rw [hfreqs, update_of_ne hne]; exact hy0⟩, fun y g hy => ?_⟩
        rcases hold y g hy with ⟨-, rfl⟩ | hy
        · exact hlow.1
        · exact hleast.le y g hy
      · have hm' : (CR_LFU_insert t req).min_freq = f := by
          rw [hm]
          split_ifs <;> omega
        rw [hm']
        refine ⟨⟨_, hself⟩, fun y g hy => ?_⟩
        rcases hold y g hy with ⟨-, rfl⟩ | hy
        · exact le_rfl
        · have hle := hleast.le y g hy
          omega
  refine ⟨⟨hbuckets, fun y g hy => ?_, fun _ _ _ => hmin⟩, hfreqs⟩
  rw [hmax]
  rcases hold y g hy with ⟨-, rfl⟩ | hy
  · exact ⟨hfreq, le_max_right _ _⟩
  · obtain ⟨hone, hle⟩ := h.range y g hy
    exact ⟨hone, hle.trans (le_max_left _ _)⟩

/-! ## An object leaves -/

def offloaded (s : SrLru) (id : ObjId) (o : FifoObj Md) (freq : Int) : SrLru :=
  { s with H_list := s.H_list.set_md id o { o.md with freq := freq } }

variable {id : ObjId} {o : FifoObj Md}

theorem offload_eq {s : SrLru} (ho : s.H_list.q.lookup id = some o) (freq : Int) :
    offload s id freq = some (offloaded s id o freq) := by
  unfold offload
  rw [ho]
  rfl

theorem CrLfu.Inv.lose (h : l.Inv) (hf : l.freqs id = some f) {l' : CrLfu} (d : Int)
    (hfreqs : l'.freqs = update l.freqs id none) (hbuckets : Buckets l'.freqs l'.freq_map)
    (hmin : l'.min_freq = if (node l'.freq_map l.min_freq).n_obj = 0 then (next_freq { l' with min_freq := l.min_freq }).getD d
      else l.min_freq) (hmax : l'.max_freq = l.max_freq) : l'.Inv := by
  have hold : ∀ y g, l'.freqs y = some g → l.freqs y = some g := by
    intro y g hy
    rw [hfreqs] at hy
    rcases eq_or_ne y id with rfl | hne
    · rw [update_self] at hy
      cases hy
    · rwa [update_of_ne hne] at hy
  have hleast := h.least id f hf
  refine ⟨hbuckets, fun y g hy => ?_, fun y g hy => ?_⟩
  · rw [hmax]
    exact h.range y g (hold y g hy)
  · rw [hmin]
    exact least_settled (l := { l' with min_freq := l.min_freq }) hbuckets hy
      (fun y g hy => ⟨hleast.le y g (hold y g hy), hmax ▸ (h.range y g (hold y g hy)).2⟩) d

theorem CR_LFU_remove_spec (h : t.lfu.Inv) (hf : t.lfu.freqs id = some f)
    (ho : t.lru.H_list.q.lookup id = some o) :
    ∃ l, CR_LFU_remove t id = some ({ lru := offloaded t.lru id o f, lfu := l }, true) ∧ l.Inv ∧
      l.freqs = update t.lfu.freqs id none := by
  obtain ⟨obj, hobj, rfl⟩ := CrLfu.freqs_eq_some.1 hf
  obtain ⟨n, hn, hnode⟩ := h.buckets.exists_node hf
  have hdetached := h.buckets.detach hf hnode
  set m := update t.lfu.freq_map obj.md (some { n with objs := n.objs.erase id, n_obj := n.n_obj - 1 })
  let l1 : CrLfu := CrLfu.cache_remove_obj_base { t.lfu with freq_map := m } id obj
  have hfreqs : l1.freqs = update t.lfu.freqs id none := cache_remove_obj_base_freqs { t.lfu with freq_map := m } _ _
  have hbuckets : Buckets l1.freqs l1.freq_map := by
    rw [hfreqs]
    exact hdetached
  -- the list of `min_freq` exists, since an object was there
  obtain ⟨y, hy⟩ := (h.least _ _ hf).attained
  obtain ⟨n0, hn0, -⟩ := h.buckets.exists_node hy
  have hmin : ∃ k, l1.freq_map t.lfu.min_freq = some k := by
    rcases eq_or_ne t.lfu.min_freq obj.md with heq | hne
    · rw [heq]
      exact ⟨_, update_self ..⟩
    · exact ⟨n0, (update_of_ne hne _ _).trans hn0⟩
  obtain ⟨k, hk⟩ := hmin
  have hnodek : node l1.freq_map t.lfu.min_freq = k := by
    unfold node
    rw [hk]
    rfl
  have hremove : CR_LFU_remove t id = some ({
      lru := offloaded t.lru id o obj.md
      lfu := if k.n_obj = 0 then { l1 with min_freq := (next_freq l1).getD t.lfu.min_freq } else l1 }, true) := by
    have hsame : k.n_obj = 0 → update l1.freq_map t.lfu.min_freq (some { k with objs := [] }) = l1.freq_map := by
      intro hzero
      have hcount := hbuckets.n_obj t.lfu.min_freq
      rw [hnodek, hzero] at hcount
      have hnil : k.objs = [] := eq_nil_of_length_eq_zero (by omega)
      have hself : ({ k with objs := [] } : FreqNode) = k := by rw [← hnil]
      rw [hself, ← hk, update_eq_self]
    unfold CR_LFU_remove
    rw [hobj]
    dsimp only
    rw [offload_eq ho]
    unfold unlink
    rw [hn]
    dsimp only [bind_eq_bind, bind_some, pure]
    rw [show (CrLfu.cache_remove_obj_base { t.lfu with freq_map := m } id obj).freq_map
      (CrLfu.cache_remove_obj_base { t.lfu with freq_map := m } id obj).min_freq = some k from hk]
    dsimp only [bind_some]
    split_ifs with hzero
    · have hsame := hsame hzero
      rw [show update (CrLfu.cache_remove_obj_base { t.lfu with freq_map := m } id obj).freq_map
        (CrLfu.cache_remove_obj_base { t.lfu with freq_map := m } id obj).min_freq (some { k with objs := [] }) = _ from hsame]
      rfl
    · rfl
  refine ⟨_, hremove, ?_, ?_⟩
  · refine h.lose hf t.lfu.min_freq ?_ ?_ ?_ ?_
    · split_ifs
      · exact hfreqs
      · exact hfreqs
    · split_ifs
      · exact hbuckets
      · exact hbuckets
    · split_ifs with hzero hz hz
      · rfl
      · exact absurd (by rw [← hzero, ← hnodek]) hz
      · exact absurd (by rw [← hz, ← hnodek]) hzero
      · rfl
    · split_ifs <;> rfl
  · split_ifs
    · exact hfreqs
    · exact hfreqs

theorem CR_LFU_to_evict_some (h : l.Inv) (hx : l.freqs x = some f) :
    ∃ id, CR_LFU_to_evict l = some id ∧ l.freqs id = some l.min_freq := by
  obtain ⟨y, hy⟩ := (h.least x f hx).attained
  obtain ⟨n, hn, hnode⟩ := h.buckets.exists_node hy
  have hne : n.objs ≠ [] := by
    rw [← hnode]
    exact ne_nil_of_mem ((h.buckets.mem _ y).2 hy)
  refine ⟨n.objs.getLast hne, ?_, ?_⟩
  · unfold CR_LFU_to_evict
    rw [hn]
    exact getLast?_eq_some_getLast hne
  · rw [← h.buckets.mem, hnode]
    exact getLast_mem hne

theorem CR_LFU_evict_spec (h : t.lfu.Inv) (hid : CR_LFU_to_evict t.lfu = some id)
    (hf : t.lfu.freqs id = some t.lfu.min_freq) (ho : t.lru.H_list.q.lookup id = some o) :
    ∃ l, CR_LFU_evict t = some { lru := offloaded t.lru id o t.lfu.min_freq, lfu := l } ∧ l.Inv ∧
      l.freqs = update t.lfu.freqs id none ∧ ((∀ x, l.freqs x = none) → l.min_freq = -1) := by
  obtain ⟨obj, hobj, hmd⟩ := CrLfu.freqs_eq_some.1 hf
  obtain ⟨n, hn, hnode⟩ := h.buckets.exists_node hf
  have hlast : n.objs.getLast? = some id := by
    unfold CR_LFU_to_evict at hid
    rwa [hn] at hid
  have herase : n.objs.erase id = n.objs.dropLast := by
    obtain ⟨init, hinit⟩ := getLast?_eq_some_iff.1 hlast
    have hnodup := h.buckets.nodup t.lfu.min_freq
    rw [hnode, hinit] at hnodup
    have hout : id ∉ init := fun hmem => (disjoint_of_nodup_append hnodup) hmem (mem_singleton.2 rfl)
    rw [hinit, erase_append_right _ hout]
    simp
  have hdetached := h.buckets.detach hf hnode
  rw [herase] at hdetached
  set m := update t.lfu.freq_map t.lfu.min_freq (some { n with objs := n.objs.dropLast, n_obj := n.n_obj - 1 })
  let l0 : CrLfu := { t.lfu with freq_map := m }
  let d : Int := (next_freq l0).getD (-1)
  have hevict : CR_LFU_evict t = some {
      lru := offloaded t.lru id o t.lfu.min_freq
      lfu := CrLfu.cache_remove_obj_base (if n.objs.dropLast = [] then { l0 with min_freq := d } else l0) id obj } := by
    unfold CR_LFU_evict
    rw [hn]
    dsimp only [bind_eq_bind, bind_some, pure]
    rw [hlast]
    dsimp only [bind_some]
    rw [hobj]
    dsimp only [bind_some]
    rw [hmd, offload_eq ho]
    rfl
  have hfreqs : (CrLfu.cache_remove_obj_base (if n.objs.dropLast = [] then { l0 with min_freq := d } else l0) id obj).freqs =
      update t.lfu.freqs id none := by
    rw [cache_remove_obj_base_freqs]
    split_ifs <;> rfl
  have hmap : (CrLfu.cache_remove_obj_base (if n.objs.dropLast = [] then { l0 with min_freq := d } else l0) id obj).freq_map = m := by
    split_ifs <;> rfl
  have hbuckets := hdetached
  rw [← hfreqs, ← hmap] at hbuckets
  have hcount : n.n_obj - 1 = n.objs.dropLast.length := by
    have hlen := hdetached.n_obj t.lfu.min_freq
    rw [node_update, if_pos rfl] at hlen
    exact hlen
  refine ⟨_, hevict, ?_, hfreqs, fun hnone => ?_⟩
  · refine h.lose hf (-1) hfreqs hbuckets ?_ ?_
    · rw [hmap, node_update, if_pos rfl]
      by_cases hnil : n.objs.dropLast = []
      · have hzero : n.n_obj - 1 = 0 := by rw [hcount, hnil]; rfl
        simp only [hnil]
        rw [if_pos hzero]
        rfl
      · have hzero : ¬ n.n_obj - 1 = 0 := by
          have hpos := length_pos_iff.2 hnil
          omega
        simp only [hnil, if_false]
        rw [if_neg hzero]
        rfl
    · split_ifs <;> rfl
  · have hnil : n.objs.dropLast = [] := by
      apply eq_nil_iff_forall_not_mem.2
      intro y hy
      have hmem := (hbuckets.mem t.lfu.min_freq y).1 (by rw [hmap, node_update, if_pos rfl]; exact hy)
      cases (hnone y).symm.trans hmem
    have hnone' : next_freq l0 = none := next_freq_eq_none hdetached (hfreqs ▸ hnone)
    simp only [hnil]
    dsimp only [d]
    rw [hnone']
    rfl

end CacheSim.Cacheus
