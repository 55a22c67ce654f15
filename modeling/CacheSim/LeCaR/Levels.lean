import CacheSim.LeCaR.Model

/-!
# The frequency lists

The list of a frequency is what the LRU list holds of it, read from the tail: every hit moves an
object to the head of the one and to the end of the other.
-/

namespace CacheSim.LeCaR

open Lib List Function

def has_freq (t : Table ObjId Obj) (f : Int) (x : ObjId) : Bool := (t.lookup x).any fun o => o.freq == f

theorem has_freq_iff {t : Table ObjId Obj} {f : Int} {x : ObjId} :
    has_freq t f x = true ↔ ∃ o, t.lookup x = some o ∧ o.freq = f := by
  simp [has_freq, Option.any_eq_true]

def level (q : List ObjId) (t : Table ObjId Obj) (f : Int) : List ObjId := q.reverse.filter (has_freq t f)

theorem mem_level {q : List ObjId} {t : Table ObjId Obj} {f : Int} {x : ObjId} :
    x ∈ level q t f ↔ x ∈ q ∧ ∃ o, t.lookup x = some o ∧ o.freq = f := by
  simp [level, has_freq_iff]

variable {q : List ObjId} {t t' : Table ObjId Obj} {m : Int → Option FreqNode} {x : ObjId} {o : Obj}

def Frame (x : ObjId) (t t' : Table ObjId Obj) : Prop := ∀ y ≠ x, t'.lookup y = t.lookup y

theorem Frame.insert (x : ObjId) (o : Obj) (t : Table ObjId Obj) : Frame x t (t.insert x o) :=
  fun _ hy => AList.lookup_insert_ne hy

theorem Frame.erase (x : ObjId) (t : Table ObjId Obj) : Frame x t (t.erase x) :=
  fun _ hy => AList.lookup_erase_ne hy

theorem level_congr (hx : x ∉ q) (h : Frame x t t') (f : Int) : level q t' f = level q t f := by
  apply filter_congr
  intro y hy
  have hne : y ≠ x := by
    rintro rfl
    exact hx (by simpa using hy)
  simp [has_freq, h y hne]

theorem level_erase (hq : q.Nodup) (f : Int) : level (q.erase x) t f = (level q t f).erase x := by
  have hrev : (q.erase x).reverse = q.reverse.erase x := by
    rw [hq.erase_eq_filter, (nodup_reverse.2 hq).erase_eq_filter, filter_reverse]
  have hlevel : (level q t f).Nodup := (nodup_reverse.2 hq).filter _
  rw [hlevel.erase_eq_filter]
  unfold level
  rw [hrev, (nodup_reverse.2 hq).erase_eq_filter, filter_comm]

theorem level_cons (hx : x ∉ q) (h : Frame x t t') (hlook : t'.lookup x = some o) (f : Int) :
    level (x :: q) t' f = level q t f ++ if f = o.freq then [x] else [] := by
  have hold : q.reverse.filter (has_freq t' f) = level q t f := level_congr hx h f
  unfold level
  rw [reverse_cons, filter_append, hold]
  congr 1
  split_ifs with hf
  · simp [has_freq, hlook, hf]
  · simp [has_freq, hlook, Ne.symm hf]

/-! ## The nodes -/

def node (m : Int → Option FreqNode) (f : Int) : FreqNode := (m f).getD {}

structure Levels (q : List ObjId) (t : Table ObjId Obj) (m : Int → Option FreqNode) : Prop where
  objs : ∀ f, (node m f).objs = level q t f
  n_obj : ∀ f, (node m f).n_obj = (level q t f).length

theorem Levels.congr (h : Levels q t m) (hx : x ∉ q) (hf : Frame x t t') : Levels q t' m := by
  constructor
  · intro f
    rw [level_congr hx hf, h.objs]
  · intro f
    rw [level_congr hx hf, h.n_obj]

theorem node_update (f g : Int) (n : FreqNode) : node (update m f (some n)) g = if g = f then n else node m g := by
  unfold node
  split_ifs with h
  · simp [h]
  · simp [h]

theorem Levels.exists_node (h : Levels q t m) (hx : x ∈ q) (ho : t.lookup x = some o) : ∃ n, m o.freq = some n := by
  have hmem : x ∈ (node m o.freq).objs := by
    rw [h.objs]
    exact mem_level.2 ⟨hx, o, ho, rfl⟩
  unfold node at hmem
  rcases hm : m o.freq with _ | n
  · simp [hm] at hmem
  · exact ⟨n, rfl⟩

theorem Levels.detach (h : Levels q t m) (hq : q.Nodup) (hx : x ∈ q) (ho : t.lookup x = some o) {n : FreqNode}
    (hn : m o.freq = some n) :
    Levels (q.erase x) t (update m o.freq (some { n with objs := n.objs.erase x, n_obj := n.n_obj - 1 })) := by
  have hnode : node m o.freq = n := by simp [node, hn]
  have hlevel : ∀ f, level (q.erase x) t f = (level q t f).erase x := level_erase hq
  have hout : ∀ f ≠ o.freq, (level q t f).erase x = level q t f := by
    intro f hne
    apply erase_of_not_mem
    rw [mem_level]
    rintro ⟨-, o', ho', rfl⟩
    rw [ho] at ho'
    exact hne (congrArg Obj.freq (Option.some.inj ho').symm)
  constructor
  · intro f
    rw [node_update, hlevel]
    split_ifs with hfreq
    · rw [hfreq, ← h.objs, hnode]
    · rw [hout f hfreq, h.objs]
  · intro f
    rw [node_update, hlevel]
    split_ifs with hfreq
    · have hmem : x ∈ level q t f := mem_level.2 ⟨hx, o, ho, hfreq.symm⟩
      have hpos := length_pos_of_mem hmem
      rw [length_erase_of_mem hmem]
      show n.n_obj - 1 = _
      rw [← hnode, h.n_obj, ← hfreq]
      omega
    · rw [hout f hfreq, h.n_obj]

theorem Levels.attach (h : Levels q t m) (hx : x ∉ q) (hf : Frame x t t') (ho : t'.lookup x = some o) :
    Levels (x :: q) t' (update m o.freq
      (some { node m o.freq with objs := (node m o.freq).objs ++ [x], n_obj := (node m o.freq).n_obj + 1 })) := by
  constructor
  · intro f
    rw [node_update, level_cons hx hf ho]
    split_ifs with hfreq
    · rw [hfreq, h.objs]
    · rw [h.objs, append_nil]
  · intro f
    rw [node_update, level_cons hx hf ho]
    split_ifs with hfreq
    · rw [hfreq, length_append]
      simp [h.n_obj]
    · rw [h.n_obj, append_nil]

/-! ## The least frequency -/

structure IsMin (q : List ObjId) (t : Table ObjId Obj) (f : Int) : Prop where
  attained : q ≠ [] → ∃ x ∈ q, has_freq t f x = true
  le : ∀ x ∈ q, ∀ o, t.lookup x = some o → f ≤ o.freq

variable {W : Type} {s : State W}

theorem update_LFU_min_freq_eq (s : State W) : update_LFU_min_freq s =
    { s with min_freq := (update_LFU_min_freq s).min_freq } := by
  unfold update_LFU_min_freq
  split <;> rfl

theorem has_objs_iff (h : Levels q s.hashtable s.freq_map) (f : Int) : has_objs s f = true ↔ level q s.hashtable f ≠ [] := by
  have hlen := h.n_obj f
  unfold node at hlen
  rw [← length_pos_iff]
  unfold has_objs
  rcases hm : s.freq_map f with _ | n
  · rw [hm] at hlen
    simpa using hlen.symm
  · rw [hm, Option.getD_some] at hlen
    simp [hlen]

theorem find_above {p : Int → Bool} {lo hi f : Int} (hlo : lo < f) (hhi : f ≤ hi) (hf : p f = true) :
    ∃ g, ((List.range (hi - lo).toNat).map fun k : Nat => lo + 1 + k).find? p = some g ∧ p g = true ∧
      ∀ f, lo < f → f ≤ hi → p f = true → g ≤ f := by
  have hmem : ∀ f, lo < f → f ≤ hi → f ∈ (List.range (hi - lo).toNat).map fun k : Nat => lo + 1 + k := by
    intro f hlo hhi
    simp only [mem_map, mem_range]
    exact ⟨(f - lo - 1).toNat, by omega, by omega⟩
  have hsorted : ((List.range (hi - lo).toNat).map fun k : Nat => lo + 1 + k).Pairwise (· < ·) := by
    rw [pairwise_map]
    exact pairwise_lt_range.imp fun hlt => by omega
  rcases hfind : ((List.range (hi - lo).toNat).map fun k : Nat => lo + 1 + k).find? p with _ | g
  · exact absurd hf (find?_eq_none.1 hfind f (hmem f hlo hhi))
  · obtain ⟨hg, as, bs, hsplit, hbefore⟩ := find?_eq_some_iff_append.1 hfind
    refine ⟨g, rfl, hg, fun f hlo hhi hf => ?_⟩
    have hin := hmem f hlo hhi
    rw [hsplit, mem_append, mem_cons] at hin
    rcases hin with hin | heq | hin
    · have hnot := hbefore f hin
      simp [hf] at hnot
    · exact heq.symm.le
    · rw [hsplit, pairwise_append, pairwise_cons] at hsorted
      exact (hsorted.2.1.1 _ hin).le

theorem isMin_update (h : Levels q s.hashtable s.freq_map)
    (hin : ∀ x ∈ q, ∃ o, s.hashtable.lookup x = some o ∧ s.min_freq < o.freq ∧ o.freq ≤ s.max_freq) :
    IsMin q s.hashtable (update_LFU_min_freq s).min_freq := by
  have hfull := has_objs_iff h
  have hhas : ∀ x ∈ q, ∀ o, s.hashtable.lookup x = some o → has_objs s o.freq = true := by
    intro x hx o ho
    rw [hfull]
    exact ne_nil_of_mem (mem_level.2 ⟨hx, o, ho, rfl⟩)
  rcases q.eq_nil_or_concat with hnil | ⟨l, x, hq⟩
  · exact ⟨fun hne => absurd hnil hne, fun x hx => by simp [hnil] at hx⟩
  · have hx : x ∈ q := by simp [hq]
    obtain ⟨o, ho, hlo, hhi⟩ := hin x hx
    obtain ⟨f, hfind, hf, hle⟩ := find_above hlo hhi (hhas x hx o ho)
    have hmin : (update_LFU_min_freq s).min_freq = f := by
      unfold update_LFU_min_freq scan
      rw [hfind]
    rw [hmin]
    constructor
    · intro _
      obtain ⟨y, hy⟩ := exists_mem_of_ne_nil _ ((hfull f).1 hf)
      obtain ⟨hyq, oy, hoy, hfo⟩ := mem_level.1 hy
      exact ⟨y, hyq, has_freq_iff.2 ⟨oy, hoy, hfo⟩⟩
    · intro y hy oy hoy
      obtain ⟨o', ho', hlo', hhi'⟩ := hin y hy
      cases hoy.symm.trans ho'
      exact hle oy.freq hlo' hhi' (hhas y hy oy hoy)

theorem update_LFU_min_freq_nil (h : Levels [] s.hashtable s.freq_map) : update_LFU_min_freq s = s := by
  unfold update_LFU_min_freq
  have hnone : (scan s).find? (has_objs s) = none := by
    rw [find?_eq_none]
    intro f _
    rw [has_objs_iff h]
    simp [level]
  rw [hnone]

theorem update_LFU_min_freq_node (h : ∃ n, s.freq_map s.min_freq = some n) :
    ∃ n, s.freq_map (update_LFU_min_freq s).min_freq = some n := by
  unfold update_LFU_min_freq
  split
  next f hf =>
    have hobjs : has_objs s f = true := find?_some hf
    obtain ⟨n, hn, -⟩ := (Option.any_eq_true _ _).1 hobjs
    exact ⟨n, hn⟩
  next => exact h

theorem IsMin.congr {f : Int} (h : IsMin q t f) (hsame : ∀ x ∈ q, t'.lookup x = t.lookup x) : IsMin q t' f := by
  constructor
  · intro hne
    obtain ⟨x, hx, hf⟩ := h.attained hne
    exact ⟨x, hx, by simpa [has_freq, hsame x hx] using hf⟩
  · intro x hx o ho
    exact h.le x hx o ((hsame x hx).symm.trans ho)

theorem remove_obj_from_freq_node_spec {obj : Obj} (h : Levels q s.hashtable s.freq_map) (hq : q.Nodup) (hx : x ∈ q)
    (ho : s.hashtable.lookup x = some o) (hobj : obj.freq = o.freq) (hmin : ∃ n, s.freq_map s.min_freq = some n) :
    ∃ s', remove_obj_from_freq_node s x obj = some s' ∧
      s' = { s with freq_map := s'.freq_map, min_freq := s'.min_freq } ∧
      Levels (q.erase x) s.hashtable s'.freq_map ∧ (∃ n, s'.freq_map s'.min_freq = some n) ∧
      (q.erase x = [] → s'.min_freq = s.min_freq) ∧
      (q.erase x ≠ [] → IsMin q s.hashtable s.min_freq → (∀ y ∈ q, ∃ o, s.hashtable.lookup y = some o ∧ o.freq ≤ s.max_freq) →
        IsMin (q.erase x) s.hashtable s'.min_freq) := by
  obtain ⟨n, hn⟩ := h.exists_node hx ho
  have hdetach := h.detach hq hx ho hn
  set m' := update s.freq_map o.freq (some { n with objs := n.objs.erase x, n_obj := n.n_obj - 1 })
  set u : State W := { s with freq_map := m' }
  have hstep : remove_obj_from_freq_node s x obj =
      some (if o.freq = u.min_freq ∧ n.n_obj - 1 = 0 then update_LFU_min_freq u else u) := by
    simp [remove_obj_from_freq_node, hobj, hn, u, m']
  have hnode' : ∀ f, (∃ n, s.freq_map f = some n) → ∃ n, m' f = some n := by
    rintro f ⟨k, hk⟩
    rcases eq_or_ne f o.freq with rfl | hne
    · exact ⟨_, update_self ..⟩
    · exact ⟨k, by rw [← hk]; exact update_of_ne hne _ _⟩
  have hcount : n.n_obj - 1 = (level (q.erase x) s.hashtable o.freq).length := by
    have hlen := hdetach.n_obj o.freq
    rw [node_update, if_pos rfl] at hlen
    exact hlen
  refine ⟨_, hstep, ?_, ?_, ?_, ?_, ?_⟩
  · split_ifs
    · rw [update_LFU_min_freq_eq]
    · rfl
  · split_ifs
    · rw [update_LFU_min_freq_eq]
      exact hdetach
    · exact hdetach
  · split_ifs
    · rw [update_LFU_min_freq_eq]
      exact update_LFU_min_freq_node (s := u) (hnode' _ hmin)
    · exact hnode' _ hmin
  · intro hnil
    split_ifs
    · rw [update_LFU_min_freq_nil (hnil ▸ hdetach)]
    · rfl
  · intro hne hismin hmax
    have hlow : ∀ y ∈ q.erase x, ∀ o', s.hashtable.lookup y = some o' → s.min_freq ≤ o'.freq :=
      fun y hy o' ho' => hismin.le y (mem_of_mem_erase hy) o' ho'
    split_ifs with hlast
    · apply isMin_update (s := u) hdetach
      intro y hy
      obtain ⟨o', ho', hle⟩ := hmax y (mem_of_mem_erase hy)
      refine ⟨o', ho', lt_of_le_of_ne (hlow y hy o' ho') ?_, hle⟩
      -- the list of the old `min_freq` is empty
      intro heq
      have hmem : y ∈ level (q.erase x) s.hashtable o.freq := mem_level.2 ⟨hy, o', ho', heq.symm.trans hlast.1.symm⟩
      have hpos := length_pos_of_mem hmem
      omega
    · refine ⟨fun _ => ?_, hlow⟩
      rcases eq_or_ne o.freq s.min_freq with hfreq | hfreq
      · have hne' : level (q.erase x) s.hashtable o.freq ≠ [] := by
          intro hnil
          rw [hnil] at hcount
          exact hlast ⟨hfreq, by simpa using hcount⟩
        obtain ⟨y, hy⟩ := exists_mem_of_ne_nil _ hne'
        obtain ⟨hyq, o', ho', heq⟩ := mem_level.1 hy
        exact ⟨y, hyq, has_freq_iff.2 ⟨o', ho', heq.trans hfreq⟩⟩
      · obtain ⟨y, hy, hf⟩ := hismin.attained (ne_nil_of_mem hx)
        refine ⟨y, hq.mem_erase_iff.2 ⟨?_, hy⟩, hf⟩
        rintro rfl
        obtain ⟨o', ho', heq⟩ := has_freq_iff.1 hf
        exact hfreq ((congrArg Obj.freq (Option.some.inj (ho.symm.trans ho'))).trans heq)

end CacheSim.LeCaR
