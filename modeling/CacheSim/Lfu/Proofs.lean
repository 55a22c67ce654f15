import CacheSim.Cacheus.Frequencies
import CacheSim.Lfu.Model

/-!
# LFU evicts the object counted least
-/

namespace CacheSim.Lfu

open Lib LeCaR Cacheus List Option AList Function Table

/-! ## The lists -/

def count (R : ObjId → Option Entry) (x : ObjId) : Option Int := (R x).map (·.count)

def reached (R : ObjId → Option Entry) (x : ObjId) : Nat := ((R x).map (·.reached)).getD 0

/-- Each list holds the residents of one count, in the order in which they reached it. -/
structure Lists (R : ObjId → Option Entry) (m : Int → Option FreqNode) : Prop where
  buckets : Buckets (count R) m
  order : ∀ f, (node m f).objs.Pairwise fun x y => reached R x < reached R y

variable {R : ObjId → Option Entry} {m : Int → Option FreqNode} {x : ObjId} {f : Int} {e : Entry}

theorem count_eq_some : count R x = some f ↔ ∃ e, R x = some e ∧ e.count = f := map_eq_some_iff

theorem count_of (h : R x = some e) : count R x = some e.count := count_eq_some.2 ⟨e, h, rfl⟩

theorem count_update (R : ObjId → Option Entry) (x : ObjId) (v : Option Entry) :
    count (update R x v) = update (count R) x (v.map (·.count)) := by
  funext y
  rcases eq_or_ne y x with rfl | hne
  · simp [count]
  · simp [count, hne]

theorem reached_update_ne {y : ObjId} (v : Option Entry) (h : y ≠ x) : reached (update R x v) y = reached R y := by
  simp [reached, h]

theorem reached_update_self (R : ObjId → Option Entry) (x : ObjId) (e : Entry) :
    reached (update R x (some e)) x = e.reached := by
  simp [reached]

theorem Lists.detach (h : Lists R m) (hx : count R x = some f) {n : FreqNode} (hn : node m f = n) :
    Lists (update R x none) (update m f (some { n with objs := n.objs.erase x, n_obj := n.n_obj - 1 })) := by
  have hb := h.buckets.detach hx hn
  refine ⟨by rw [count_update]; exact hb, fun g => ?_⟩
  have hsub : (node (update m f (some { n with objs := n.objs.erase x, n_obj := n.n_obj - 1 })) g).objs.Sublist
      (node m g).objs := by
    rw [node_update]
    split_ifs with hg
    · rw [hg, hn]
      exact erase_sublist
    · exact List.Sublist.refl _
  refine ((h.order g).sublist hsub).imp_of_mem ?_
  intro y z hy hz hlt
  have hne : ∀ w ∈ (node (update m f (some { n with objs := n.objs.erase x, n_obj := n.n_obj - 1 })) g).objs, w ≠ x := by
    rintro w hw rfl
    have hnone := (hb.mem g w).1 hw
    simp at hnone
  rwa [reached_update_ne none (hne y hy), reached_update_ne none (hne z hz)]

theorem Lists.attach (h : Lists R m) (hx : R x = none) (hlast : ∀ y e', R y = some e' → e'.reached < e.reached) :
    Lists (update R x (some e)) (update m e.count
      (some { node m e.count with objs := (node m e.count).objs ++ [x], n_obj := (node m e.count).n_obj + 1 })) := by
  have hnone : count R x = none := by simp [count, hx]
  refine ⟨by rw [count_update]; exact h.buckets.attach hnone e.count, fun g => ?_⟩
  have hne : ∀ y ∈ (node m g).objs, y ≠ x := by
    rintro y hy rfl
    cases hnone.symm.trans ((h.buckets.mem g y).1 hy)
  have hold : (node m g).objs.Pairwise fun y z =>
      reached (update R x (some e)) y < reached (update R x (some e)) z := by
    apply (h.order g).imp_of_mem
    intro y z hy hz hlt
    rwa [reached_update_ne _ (hne y hy), reached_update_ne _ (hne z hz)]
  rw [node_update]
  split_ifs with hg
  · rw [hg] at hne hold
    refine pairwise_append.2 ⟨hold, pairwise_singleton _ _, ?_⟩
    intro y hy z hz
    rw [mem_singleton] at hz
    obtain ⟨e', he', -⟩ := count_eq_some.1 ((h.buckets.mem _ y).1 hy)
    rw [hz, reached_update_self, reached_update_ne _ (hne y hy)]
    simpa [reached, he'] using hlast y e' he'
  · exact hold

theorem Lists.first {a : Counted} (h : Lists (fun x => a.residents.lookup x) m)
    (hleast : Least (count fun x => a.residents.lookup x) f) :
    ∃ id e, (node m f).objs.head? = some id ∧ e.count = f ∧ a.IsVictim id e := by
  obtain ⟨y, hy⟩ := hleast.attained
  have hmem := (h.buckets.mem f y).2 hy
  have horder := h.order f
  rcases hobjs : (node m f).objs with _ | ⟨id, rest⟩
  · rw [hobjs] at hmem
    cases hmem
  · obtain ⟨e, he, hf⟩ := count_eq_some.1 ((h.buckets.mem f id).1 (by simp [hobjs]))
    refine ⟨id, e, rfl, hf, he, fun x e' hx hne => ?_⟩
    rw [hobjs, pairwise_cons] at horder
    rcases lt_or_eq_of_le (hleast.le x e'.count (count_of hx)) with hlt | heq
    · exact .inl (hf ▸ hlt)
    · have hin : x ∈ rest := by
        have hall := (h.buckets.mem f x).2 (by rw [heq]; exact count_of hx)
        rw [hobjs, mem_cons] at hall
        exact hall.resolve_left hne
      have hlt := horder.1 x hin
      simp only [reached, he, hx, map_some] at hlt
      exact .inr ⟨hf.trans heq, hlt⟩

/-! ## The state -/

def Entry.obj (e : Entry) : FifoObj Int := { obj_size := e.obj_size, md := e.count }

def Counted.entry (a : Counted) (x : ObjId) : Option Entry := a.residents.lookup x

def Settled (R : ObjId → Option Entry) (min_freq : Int) : Prop := min_freq = 0 ∨ ∀ x e, R x = some e → Least (count R) min_freq

def Ranged (R : ObjId → Option Entry) (max_freq : Int) : Prop := ∀ x e, R x = some e → 1 ≤ e.count ∧ e.count ≤ max_freq

/-- LFU keeps the residents, their lists, and the bounds of their counts. -/
structure Refines (s : State) (a : Counted) : Prop where
  cache_size : s.cache_size = a.cache_size
  obj_md_size : s.obj_md_size = a.obj_md_size
  objs : ∀ x, s.hashtable.lookup x = (a.entry x).map Entry.obj
  length : s.hashtable.entries.length = a.residents.entries.length
  occupied : s.occupied_byte = a.occupied_byte
  n_obj : s.n_obj = a.residents.entries.length
  lists : Lists a.entry s.freq_map
  max_freq : 1 ≤ s.max_freq
  range : Ranged a.entry s.max_freq
  past : ∀ x e, a.entry x = some e → e.reached < a.clock
  settled : Settled a.entry s.min_freq

variable {s : State} {a : Counted} {id : ObjId}

theorem Ranged.count (h : Ranged R f) {g : Int} (hx : count R x = some g) : 1 ≤ g ∧ g ≤ f := by
  obtain ⟨e, he, rfl⟩ := count_eq_some.1 hx
  exact h x e he

theorem entry_reach (a : Counted) (id : ObjId) (obj_size count : Int) : (a.reach id obj_size count).entry =
    update a.entry id (some { obj_size := obj_size, count := count, reached := a.clock }) :=
  lookup_insert_eq_update ..

theorem entry_forget (a : Counted) (id : ObjId) : (a.forget id).entry = update a.entry id none :=
  lookup_erase_eq_update ..

theorem least_update (h : Lists R s.freq_map) (hx : R x = some e)
    (hrange : ∀ y e', R y = some e' → s.min_freq < e'.count ∧ e'.count ≤ s.max_freq) :
    Least (count R) (update_min_freq s).min_freq := by
  have hcounts : ∀ y g, count R y = some g → s.min_freq < g ∧ g ≤ s.max_freq := by
    intro y g hy
    obtain ⟨e', he', rfl⟩ := count_eq_some.1 hy
    exact hrange y e' he'
  obtain ⟨g, hg, hleast⟩ := h.buckets.find_least (count_of hx) hcounts
  unfold update_min_freq next_freq
  rw [hg]
  exact hleast

theorem node_none (h : Lists R m) (hzero : (node m f).n_obj = 0) : node (update m f none) = node m := by
  have hlen := h.buckets.n_obj f
  have hnil : (node m f).objs = [] := eq_nil_of_length_eq_zero (by omega)
  funext g
  unfold node at *
  rcases eq_or_ne g f with rfl | hne
  · rw [update_self]
    rcases hm : m g with _ | ⟨objs, n_obj⟩
    · rfl
    · simp only [hm, getD_some] at hnil hzero
      simp [hnil, hzero]
  · rw [update_of_ne hne]

variable {m' : Int → Option FreqNode}

theorem Lists.congr (h : Lists R m) (hnode : node m' = node m) : Lists R m' :=
  ⟨⟨fun g y => by rw [hnode]; exact h.buckets.mem g y, fun g => by rw [hnode]; exact h.buckets.nodup g,
    fun g => by rw [hnode]; exact h.buckets.n_obj g⟩, fun g => by rw [hnode]; exact h.order g⟩

theorem settle_spec (h : Lists R s.freq_map) (hx : R x = some e) (hrange : Ranged R s.max_freq) (hf : 1 ≤ f)
    (hlow : s.min_freq = 0 ∨ (∀ y e', R y = some e' → s.min_freq ≤ e'.count) ∧ (s.min_freq = f ∨ ∃ y, count R y = some s.min_freq)) :
    ∃ m' min', settle s f (node s.freq_map f) = { s with freq_map := m', min_freq := min' } ∧ Lists R m' ∧ Settled R min' := by
  have hkept : s.min_freq ≠ f ∨ (node s.freq_map f).n_obj ≠ 0 → Settled R s.min_freq := by
    intro hout
    rcases hlow with hzero | ⟨hle, hat⟩
    · exact .inl hzero
    · refine .inr fun _ _ _ => ⟨?_, fun y g hy => ?_⟩
      · rcases hat with heq | hat
        · have hcount := h.buckets.n_obj f
          rw [heq]
          exact h.buckets.n_obj_pos.1 (by omega)
        · exact hat
      · obtain ⟨e', he', rfl⟩ := count_eq_some.1 hy
        exact hle y e' he'
  have hmoved : s.min_freq = f → (node s.freq_map f).n_obj = 0 → Settled R (update_min_freq s).min_freq := by
    intro hmin hzero
    refine .inr fun _ _ _ => least_update h hx fun y e' hy => ?_
    have hbound := hrange y e' hy
    rcases hlow with h0 | ⟨hle, -⟩
    · omega
    · refine ⟨lt_of_le_of_ne (hle y e' hy) ?_, hbound.2⟩
      intro heq
      have hpos := h.buckets.n_obj_pos.2 ⟨y, (count_of hy).trans (by rw [← heq, hmin])⟩
      omega
  unfold settle
  split_ifs with hzero hmin hone
  · exact ⟨_, _, rfl, h.congr (node_none h hzero), hmoved hmin hzero⟩
  · exact ⟨_, _, rfl, h, hmoved hmin hzero⟩
  · exact ⟨_, _, rfl, h.congr (node_none h hzero), hkept (.inl hmin)⟩
  · exact ⟨_, _, rfl, h, hkept (.inl hmin)⟩
  · exact ⟨_, _, rfl, h, hkept (.inr hzero)⟩

theorem unlink_eq (h : Lists R s.freq_map) (hx : count R x = some f) : unlink s f x =
    some ({ s with freq_map := update s.freq_map f (some { node s.freq_map f with
        objs := (node s.freq_map f).objs.erase x, n_obj := (node s.freq_map f).n_obj - 1 }) },
      { node s.freq_map f with objs := (node s.freq_map f).objs.erase x, n_obj := (node s.freq_map f).n_obj - 1 }) := by
  obtain ⟨n, hn, rfl⟩ := h.buckets.exists_node hx
  unfold unlink
  rw [hn]
  rfl

/-! ## The calls -/

theorem Refines.lookup (h : Refines s a) (he : a.entry id = some e) : s.hashtable.lookup id = some e.obj := by
  rw [h.objs, he]
  rfl

theorem Refines.lookup_none (h : Refines s a) (he : a.entry id = none) : s.hashtable.lookup id = none := by
  rw [h.objs, he]
  rfl

theorem Refines.objs_insert (h : Refines s a) (id : ObjId) (obj_size count : Int) (x : ObjId) :
    (s.hashtable.insert id { obj_size := obj_size, md := count }).lookup x =
      ((a.reach id obj_size count).entry x).map Entry.obj := by
  rw [entry_reach]
  rcases eq_or_ne x id with rfl | hne
  · rw [lookup_insert, update_self]
    rfl
  · rw [lookup_insert_ne hne, update_of_ne hne, h.objs]

theorem Ranged.reach (h : Ranged a.entry f) (id : ObjId) {obj_size count g : Int} (hone : 1 ≤ count) (hle : count ≤ g) (hf : f ≤ g) :
    Ranged (a.reach id obj_size count).entry g := by
  intro x e hx
  rw [entry_reach] at hx
  rcases eq_or_ne x id with rfl | hne
  · rw [update_self] at hx
    cases hx
    exact ⟨hone, hle⟩
  · rw [update_of_ne hne] at hx
    exact ⟨(h x e hx).1, (h x e hx).2.trans hf⟩

theorem past_reach (h : ∀ x e, a.entry x = some e → e.reached < a.clock) (id : ObjId) (obj_size count : Int) :
    ∀ x e, (a.reach id obj_size count).entry x = some e → e.reached < (a.reach id obj_size count).clock := by
  intro x e hx
  rw [entry_reach] at hx
  rcases eq_or_ne x id with rfl | hne
  · rw [update_self] at hx
    cases hx
    exact Nat.lt_succ_self _
  · rw [update_of_ne hne] at hx
    exact (h x e hx).trans (Nat.lt_succ_self _)

theorem Refines.renew (h : Refines s a) (he : a.entry id = some e) {g max' min' : Int}
    (hlists : Lists (a.reach id e.obj_size g).entry m') (hone : 1 ≤ g) (hle : g ≤ max') (hmax : s.max_freq ≤ max')
    (hsettled : Settled (a.reach id e.obj_size g).entry min') :
    Refines { s with
      hashtable := s.hashtable.insert id { obj_size := e.obj_size, md := g }
      freq_map := m'
      max_freq := max'
      min_freq := min' } (a.reach id e.obj_size g) := by
  have hlen := (perm_erase (h.lookup he)).length_eq
  have hlen' := (perm_erase he).length_eq
  rw [length_cons] at hlen hlen'
  exact {
    cache_size := h.cache_size
    obj_md_size := h.obj_md_size
    objs := h.objs_insert _ _ _
    length := by
      show ((s.hashtable.erase id).entries.length + 1) = ((a.residents.erase id).entries.length + 1)
      rw [← hlen, ← hlen']
      exact h.length
    occupied := by
      show s.occupied_byte = Table.weigh _ (a.residents.insert id _)
      rw [weigh_update _ he, h.occupied]
      exact (Int.sub_add_cancel _ _).symm
    n_obj := by
      show s.n_obj = (((a.residents.erase id).entries.length + 1 : Nat) : Int)
      rw [← hlen']
      exact h.n_obj
    lists := hlists
    max_freq := h.max_freq.trans hmax
    range := h.range.reach id hone hle hmax
    past := past_reach h.past _ _ _
    settled := hsettled }

theorem Refines.admit (h : Refines s a) (he : a.entry id = none) {obj_size g max' min' : Int}
    (hlists : Lists (a.reach id obj_size g).entry m') (hone : 1 ≤ g) (hle : g ≤ max') (hmax : s.max_freq ≤ max')
    (hsettled : Settled (a.reach id obj_size g).entry min') :
    Refines { s with
      hashtable := s.hashtable.insert id { obj_size := obj_size, md := g }
      occupied_byte := s.occupied_byte + (obj_size + s.obj_md_size)
      n_obj := s.n_obj + 1
      freq_map := m'
      max_freq := max'
      min_freq := min' } (a.reach id obj_size g) := by
  have hmiss := lookup_eq_none.1 (h.lookup_none he)
  have hmiss' : id ∉ a.residents := lookup_eq_none.1 he
  exact {
    cache_size := h.cache_size
    obj_md_size := h.obj_md_size
    objs := h.objs_insert _ _ _
    length := by
      show (s.hashtable.insert id _).entries.length = (a.residents.insert id _).entries.length
      rw [entries_insert_of_notMem hmiss, entries_insert_of_notMem hmiss', length_cons, length_cons, h.length]
    occupied := by
      show s.occupied_byte + (obj_size + s.obj_md_size) = Table.weigh _ (a.residents.insert id _)
      rw [weigh_insert_of_notMem _ _ hmiss', h.occupied, h.obj_md_size]
      exact Int.add_comm _ _
    n_obj := by
      show s.n_obj + 1 = ((a.residents.insert id _).entries.length : Int)
      rw [entries_insert_of_notMem hmiss', h.n_obj]
      simp
    lists := hlists
    max_freq := h.max_freq.trans hmax
    range := h.range.reach id hone hle hmax
    past := past_reach h.past _ _ _
    settled := hsettled }

variable {req : Request}

theorem Refines.hit (h : Refines s a) (he : a.entry req.obj_id = some e) :
    ∃ s', LFU_find s req true = some (s', true) ∧ Refines s' (a.reach req.obj_id e.obj_size (e.count + 1)) := by
  obtain ⟨hone, -⟩ := h.range _ _ he
  let raised : Int := if s.max_freq < e.count + 1 then e.count + 1 else s.max_freq
  have hraised : (if s.max_freq < e.count + 1 then { s with max_freq := e.count + 1 } else s) = { s with max_freq := raised } := by
    dsimp only [raised]
    split_ifs <;> rfl
  have hle : e.count + 1 ≤ raised ∧ s.max_freq ≤ raised := by
    dsimp only [raised]
    split_ifs <;> omega
  let old : FreqNode := { node s.freq_map e.count with
    objs := (node s.freq_map e.count).objs.erase req.obj_id, n_obj := (node s.freq_map e.count).n_obj - 1 }
  let s1 : State := append { s with max_freq := raised, freq_map := update s.freq_map e.count (some old) } req.obj_id
    { obj_size := e.obj_size, md := e.count + 1 }
  have hfind : LFU_find s req true = some (settle s1 e.count old, true) := by
    have hunlink := unlink_eq (s := { s with max_freq := raised }) h.lists (count_of he)
    unfold LFU_find
    rw [h.lookup he]
    dsimp only [Entry.obj]
    rw [if_pos rfl, hraised, show e.count + 1 - 1 = e.count by omega, hunlink]
    rfl
  have hdetached := h.lists.detach (count_of he) rfl
  have hattached := hdetached.attach (x := req.obj_id) (e := { obj_size := e.obj_size, count := e.count + 1, reached := a.clock })
    (update_self ..) (by
      intro y e' hy
      rcases eq_or_ne y req.obj_id with rfl | hne
      · rw [update_self] at hy
        cases hy
      · rw [update_of_ne hne] at hy
        exact h.past y e' hy)
  rw [update_idem, ← entry_reach] at hattached
  have hold : node s1.freq_map e.count = old := by
    show node (update _ (e.count + 1) _) e.count = old
    rw [node_update, if_neg (by omega), node_update, if_pos rfl]
  have hself : (a.reach req.obj_id e.obj_size (e.count + 1)).entry req.obj_id =
      some { obj_size := e.obj_size, count := e.count + 1, reached := a.clock } := by
    rw [entry_reach, update_self]
  obtain ⟨m', min', hsettle, hlists, hsettled⟩ := settle_spec (s := s1) hattached hself
    (h.range.reach req.obj_id (by omega) hle.1 hle.2) hone (by
      refine h.settled.imp id fun hleast => ?_
      have hleast := hleast _ _ he
      refine ⟨fun y e' hy => ?_, ?_⟩
      · rw [entry_reach] at hy
        rcases eq_or_ne y req.obj_id with rfl | hne
        · rw [update_self] at hy
          cases hy
          exact (hleast.le _ _ (count_of he)).trans (Int.le_add_one le_rfl)
        · rw [update_of_ne hne] at hy
          exact hleast.le _ _ (count_of hy)
      · obtain ⟨y, hy⟩ := hleast.attained
        rcases eq_or_ne y req.obj_id with rfl | hne
        · exact .inl (some.inj (hy.symm.trans (count_of he)))
        · refine .inr ⟨y, ?_⟩
          rw [entry_reach, count_update, update_of_ne hne]
          exact hy)
  rw [hold] at hsettle
  refine ⟨_, hfind, ?_⟩
  rw [hsettle]
  exact h.renew he hlists (by omega) hle.1 hle.2 hsettled

theorem Refines.insert (h : Refines s a) (he : a.entry req.obj_id = none) :
    Refines (LFU_insert s req) (a.reach req.obj_id req.obj_size 1) := by
  have hattached := h.lists.attach (e := { obj_size := req.obj_size, count := 1, reached := a.clock }) he h.past
  rw [← entry_reach] at hattached
  have hself : (a.reach req.obj_id req.obj_size 1).entry req.obj_id =
      some { obj_size := req.obj_size, count := 1, reached := a.clock } := by
    rw [entry_reach, update_self]
  have hrange : Ranged (a.reach req.obj_id req.obj_size 1).entry s.max_freq := h.range.reach _ le_rfl h.max_freq le_rfl
  exact h.admit he hattached le_rfl h.max_freq le_rfl (.inr fun _ _ _ => ⟨⟨_, count_of hself⟩, fun y g hy => (hrange.count hy).1⟩)

variable {e' : Entry}

theorem entry_of_forget (h : (a.forget id).entry x = some e') : x ≠ id ∧ a.entry x = some e' := by
  rw [entry_forget] at h
  rcases eq_or_ne x id with rfl | hne
  · rw [update_self] at h
    cases h
  · rw [update_of_ne hne] at h
    exact ⟨hne, h⟩

theorem Refines.forget (h : Refines s a) (he : a.entry id = some e) {min' : Int}
    (hlists : Lists (a.forget id).entry m') (hsettled : Settled (a.forget id).entry min') :
    Refines { cache_remove_obj_base s id e.obj with freq_map := m', min_freq := min' } (a.forget id) := by
  have hlen := (perm_erase (h.lookup he)).length_eq
  have hlen' := (perm_erase he).length_eq
  rw [length_cons] at hlen hlen'
  exact {
    cache_size := h.cache_size
    obj_md_size := h.obj_md_size
    objs := by
      intro x
      rw [entry_forget]
      rcases eq_or_ne x id with rfl | hne
      · rw [update_self]
        exact lookup_erase ..
      · rw [update_of_ne hne, ← h.objs]
        exact lookup_erase_ne hne
    length := by
      show (s.hashtable.erase id).entries.length = (a.residents.erase id).entries.length
      have := h.length
      omega
    occupied := by
      show s.occupied_byte - (e.obj_size + s.obj_md_size) = Table.weigh _ (a.residents.erase id)
      rw [weigh_erase _ he, h.occupied, h.obj_md_size]
      rfl
    n_obj := by
      show s.n_obj - 1 = ((a.residents.erase id).entries.length : Int)
      have := h.n_obj
      omega
    lists := hlists
    max_freq := h.max_freq
    range := fun x e' hx => h.range x e' (entry_of_forget hx).2
    past := fun x e' hx => h.past x e' (entry_of_forget hx).2
    settled := hsettled }

theorem get_min_freq_node_spec (h : Refines s a) (he : a.entry id = some e) :
    ∃ min', get_min_freq_node s = some ({ s with min_freq := min' }, node s.freq_map min') ∧ Least (count a.entry) min' := by
  let min' := if s.min_freq = 0 then (update_min_freq s).min_freq else s.min_freq
  have hstate : (if s.min_freq = 0 then update_min_freq s else s) = { s with min_freq := min' } := by
    dsimp only [min']
    split_ifs <;> rfl
  have hleast : Least (count a.entry) min' := by
    dsimp only [min']
    split_ifs with hzero
    · apply least_update h.lists he
      intro y e' hy
      have hbound := h.range y e' hy
      omega
    · exact h.settled.resolve_left hzero _ _ he
  obtain ⟨y, hy⟩ := hleast.attained
  obtain ⟨n, hn, hnode⟩ := h.lists.buckets.exists_node hy
  refine ⟨min', ?_, hleast⟩
  unfold get_min_freq_node
  rw [hstate]
  dsimp only
  rw [hn, hnode]
  rfl

theorem Refines.evict (h : Refines s a) (he : a.entry x = some e) :
    ∃ id min' s', a.victim = some id ∧ (∃ e, a.IsVictim id e) ∧ LFU_to_evict s = some ({ s with min_freq := min' }, some id) ∧
      LFU_evict s = some s' ∧ Refines s' (a.forget id) := by
  obtain ⟨min', hnode, hleast⟩ := get_min_freq_node_spec h he
  obtain ⟨id, e, hhead, hcount, hvictim⟩ := h.lists.first hleast
  have hid : a.entry id = some e := hvictim.resident
  have hunlink := unlink_eq (s := { s with min_freq := min' }) h.lists ((count_of hid).trans (by rw [hcount]))
  set left : FreqNode := { node s.freq_map min' with
    objs := (node s.freq_map min').objs.erase id, n_obj := (node s.freq_map min').n_obj - 1 } with hleft
  have hdetached := h.lists.detach ((count_of hid).trans (by rw [hcount])) (rfl : node s.freq_map min' = _)
  rw [← entry_forget, ← hleft] at hdetached
  have hevict : LFU_evict s = some { cache_remove_obj_base s id e.obj with
      freq_map := update s.freq_map min' (some left), min_freq := if left.n_obj = 0 then 0 else min' } := by
    unfold LFU_evict
    rw [hnode]
    dsimp only [bind_eq_bind, bind_some]
    rw [hhead]
    dsimp only [bind_some]
    rw [h.lookup hid]
    rw [hunlink]
    dsimp only [bind_some]
    split_ifs <;> rfl
  have hto : LFU_to_evict s = some ({ s with min_freq := min' }, some id) := by
    unfold LFU_to_evict
    rw [hnode]
    dsimp only [bind_eq_bind, bind_some, pure]
    rw [hhead]
  refine ⟨id, min', _, hvictim.victim, ⟨e, hvictim⟩, hto, hevict, h.forget hid hdetached ?_⟩
  split_ifs with hzero
  · exact .inl rfl
  · -- the list of `min_freq` has another object
    refine .inr fun _ _ _ => ⟨hdetached.buckets.n_obj_pos.1 ?_, fun y g hy => ?_⟩
    · have hlen := hdetached.buckets.n_obj min'
      rw [node_update, if_pos rfl] at hlen ⊢
      omega
    · rw [entry_forget, count_update] at hy
      rcases eq_or_ne y id with rfl | hne
      · rw [update_self] at hy
        cases hy
      · rw [update_of_ne hne] at hy
        exact hleast.le y g hy

theorem entries_of_none (h : ∀ x, a.entry x = none) : a.residents.entries = [] := by
  apply eq_nil_iff_forall_not_mem.2
  rintro ⟨x, e⟩ hx
  cases (h x).symm.trans (lookup_of_mem_entries hx)

theorem Refines.evict_none (h : Refines s a) (hnone : ∀ x, a.entry x = none) : a.victim = none ∧ LFU_evict s = none := by
  constructor
  · simp [Counted.victim, entries_of_none hnone]
  · have hempty : ∀ f n, s.freq_map f = some n → n.objs.head? = none := by
      intro f n hn
      rw [head?_eq_none_iff]
      apply eq_nil_iff_forall_not_mem.2
      intro y hy
      have hmem : y ∈ (node s.freq_map f).objs := by
        unfold node
        rw [hn]
        exact hy
      obtain ⟨e, he, -⟩ := count_eq_some.1 ((h.lists.buckets.mem f y).1 hmem)
      cases (hnone y).symm.trans he
    unfold LFU_evict get_min_freq_node
    have hmap : (if s.min_freq = 0 then update_min_freq s else s).freq_map = s.freq_map := by
      split_ifs <;> rfl
    rcases hn : s.freq_map (if s.min_freq = 0 then update_min_freq s else s).min_freq with _ | n
    · simp [hmap, hn]
    · simp [hmap, hn, hempty _ n hn]

/-- A resident goes from the list of its count: if this was the list of `min_freq` and is empty now, `min_freq` moves on. -/
theorem least_detach {t : State} (h : Lists a.entry m) (he : a.entry id = some e) (hleast : Least (count a.entry) t.min_freq)
    (hmax : ∀ y e', a.entry y = some e' → e'.count ≤ max t.max_freq t.min_freq) {left : FreqNode}
    (hleft : left = { node m e.count with objs := (node m e.count).objs.erase id, n_obj := (node m e.count).n_obj - 1 })
    (hmap : t.freq_map = update m e.count (some left)) (hx : (a.forget id).entry x = some e') :
    Least (count (a.forget id).entry)
      (if e.count = t.min_freq ∧ left.n_obj = 0 then (update_min_freq t).min_freq else t.min_freq) := by
  have hdetached := h.detach (count_of he) rfl
  rw [← entry_forget, ← hleft] at hdetached
  have hbounds : ∀ y g, count (a.forget id).entry y = some g → t.min_freq ≤ g ∧ g ≤ max t.max_freq t.min_freq := by
    intro y g hy
    obtain ⟨e'', he'', rfl⟩ := count_eq_some.1 hy
    exact ⟨hleast.le y _ (count_of (entry_of_forget he'').2), hmax y e'' (entry_of_forget he'').2⟩
  have hsettled := hdetached.buckets.settled (count_of hx) hbounds t.min_freq
  -- the list of `min_freq` is empty only if it was that of the object
  have hcond : (node (update m e.count (some left)) t.min_freq).n_obj = 0 ↔ e.count = t.min_freq ∧ left.n_obj = 0 := by
    rw [node_update]
    split_ifs with heq
    · exact ⟨fun hzero => ⟨heq.symm, hzero⟩, fun hzero => hzero.2⟩
    · have hpos := h.buckets.n_obj_pos.2 hleast.attained
      exact ⟨fun hzero => by omega, fun hzero => absurd hzero.1.symm heq⟩
  rw [show (max t.max_freq t.min_freq - t.min_freq).toNat = (t.max_freq - t.min_freq).toNat by omega] at hsettled
  simp only [hcond] at hsettled
  unfold update_min_freq next_freq
  rw [hmap]
  exact hsettled

section

variable (h : Refines s a)
include h

theorem Refines.remove (he : a.entry id = some e) : ∃ s', LFU_remove s id = some (s', true) ∧ Refines s' (a.forget id) := by
  have hunlink := unlink_eq h.lists (count_of he)
  set left : FreqNode := { node s.freq_map e.count with
    objs := (node s.freq_map e.count).objs.erase id, n_obj := (node s.freq_map e.count).n_obj - 1 } with hleft
  have hdetached := h.lists.detach (count_of he) rfl
  rw [← entry_forget, ← hleft] at hdetached
  let s1 : State := { cache_remove_obj_base s id e.obj with freq_map := update s.freq_map e.count (some left) }
  have hremove : LFU_remove s id = some ({ cache_remove_obj_base s id e.obj with
      freq_map := update s.freq_map e.count (some left)
      min_freq := if e.count = s.min_freq ∧ left.n_obj = 0 then (update_min_freq s1).min_freq else s.min_freq }, true) := by
    unfold LFU_remove LFU_remove_obj
    rw [h.lookup he]
    dsimp only [Entry.obj]
    rw [hunlink]
    dsimp only [bind_eq_bind, bind_some, pure]
    unfold cache_remove_obj_base
    split_ifs <;> rfl
  refine ⟨_, hremove, h.forget he hdetached ?_⟩
  rcases h.settled with hzero | hleast
  · left
    have hone := (h.range _ _ he).1
    rw [if_neg (by omega)]
    exact hzero
  · right
    intro y e' hy
    exact least_detach (t := s1) h.lists he (hleast _ _ he) (fun z e'' hz => le_max_of_le_left (h.range z e'' hz).2) hleft rfl hy

theorem find_refines (req : Request) :
    Option.Rel (fun p q => (if p.2 then Refines p.1 q.1 else Refines p.1 q.1 ∧ q.1.entry req.obj_id = none) ∧ p.2 = q.2)
      (LFU_find s req true) (some (a.access req)) := by
  unfold Counted.access
  rcases he : a.residents.lookup req.obj_id with _ | e
  · have hfind : LFU_find s req true = some (s, false) := by
      unfold LFU_find
      rw [h.lookup_none he]
    rw [hfind]
    exact .some ⟨by simpa using ⟨h, he⟩, rfl⟩
  · obtain ⟨s', hfind, hs'⟩ := h.hit he
    rw [hfind]
    exact .some ⟨by simpa using hs', rfl⟩

theorem evict_refines :
    Option.Rel (fun s' a' => Refines s' a' ∧ ∀ x, a.entry x = none → a'.entry x = none) (LFU_evict s) (a.victim.map a.forget) := by
  by_cases hnone : ∀ x, a.entry x = none
  · obtain ⟨hv, hevict⟩ := h.evict_none hnone
    rw [hv, hevict]
    exact .none
  · obtain ⟨x, hx⟩ := not_forall.1 hnone
    obtain ⟨e, he⟩ := ne_none_iff_exists'.1 hx
    obtain ⟨id, _, s', hv, -, -, hevict, hs'⟩ := h.evict he
    rw [hv, hevict]
    refine .some ⟨hs', fun y hy => ?_⟩
    rw [entry_forget, update_apply, hy, ite_self]

theorem remove_refines (id : ObjId) :
    Option.Rel (fun p q => Refines p.1 q.1 ∧ p.2 = q.2) (LFU_remove s id) (some (a.remove id)) := by
  unfold Counted.remove
  rcases he : a.residents.lookup id with _ | e
  · have hremove : LFU_remove s id = some (s, false) := by
      unfold LFU_remove
      rw [h.lookup_none he]
    rw [hremove]
    exact .some ⟨h, rfl⟩
  · obtain ⟨s', hremove, hs'⟩ := h.remove he
    rw [hremove]
    exact .some ⟨hs', rfl⟩

theorem Refines.count_req : Refines { s with n_req := s.n_req + 1 } a :=
  { h with }

theorem get_refines (req : Request) : Option.Rel (fun p q => Refines p.1 q.1 ∧ p.2 = q.2) (LFU_get s req) (a.get req) := by
  -- from the lookup on, the object of a miss is no resident
  apply CacheOps.cache_get_base_rel Refines (fun s a => Refines s a ∧ a.entry req.obj_id = none) ?_ ?_ ?_ ?_ ?_ ?_ h
  · intro s a h
    exact find_refines (s := { s with n_req := s.n_req + 1 }) h.count_req req
  · rintro s a ⟨h, hnone⟩
    show Option.Rel _ (some (s, !(req.obj_size + s.obj_md_size > s.cache_size)))
      (some (a, !(req.obj_size + a.obj_md_size > a.cache_size)))
    rw [h.obj_md_size, h.cache_size]
    refine .some ⟨?_, rfl⟩
    split_ifs
    · exact ⟨h, hnone⟩
    · exact h
  · rintro s a ⟨h, -⟩
    show decide (s.occupied_byte + req.obj_size + s.obj_md_size > s.cache_size) =
      decide (a.occupied_byte + req.obj_size + a.obj_md_size > a.cache_size)
    rw [h.occupied, h.obj_md_size, h.cache_size]
  · rintro s a ⟨h, -⟩
    exact h.length
  · rintro s a ⟨h, hnone⟩
    exact rel_imp (evict_refines h) fun _ _ h' => ⟨h'.1, h'.2 _ hnone⟩
  · rintro s a ⟨h, hnone⟩
    exact .some (h.insert hnone)

theorem call_refines (c : Call) : Option.Rel Refines (call s c) (a.call c) := by
  cases c with
  | get req => exact map_rel (get_refines h req) fun _ _ h => h.1
  | evict => exact rel_imp (evict_refines h) fun _ _ h => h.1
  | remove id => exact map_rel (remove_refines h id) fun _ _ h => h.1

end

theorem init_refines (cache_size : Int) (md : Bool) :
    Refines (LFU_init cache_size md) (Counted.init cache_size md) := by
  have hnode : ∀ f, node (LFU_init cache_size md).freq_map f = {} := by
    intro f
    show node (update _ 1 _) f = {}
    rw [node_update]
    split_ifs <;> rfl
  exact {
    cache_size := rfl
    obj_md_size := rfl
    objs := fun _ => rfl
    length := rfl
    occupied := rfl
    n_obj := rfl
    lists := ⟨⟨fun f x => by simp [hnode, count, Counted.entry, Counted.init], fun f => by simp [hnode], fun f => by simp [hnode]⟩,
      fun f => by simp [hnode]⟩
    max_freq := le_rfl
    range := fun x e hx => by cases hx
    past := fun x e hx => by cases hx
    settled := .inr fun x e hx => by cases hx }

/-! ## Every run -/

theorem Refines.list (h : Refines s a) (f : Int) :
    (∀ x, x ∈ (node s.freq_map f).objs ↔ ∃ e, a.residents.lookup x = some e ∧ e.count = f) ∧
      (node s.freq_map f).objs.Pairwise (fun x y => ∀ e e', a.residents.lookup x = some e →
        a.residents.lookup y = some e' → e.reached < e'.reached) ∧
      (node s.freq_map f).n_obj = (node s.freq_map f).objs.length := by
  refine ⟨fun x => (h.lists.buckets.mem f x).trans count_eq_some, (h.lists.order f).imp ?_, h.lists.buckets.n_obj f⟩
  intro x y hlt e e' he he'
  have hx : a.entry x = some e := he
  have hy : a.entry y = some e' := he'
  simpa [reached, hx, hy] using hlt

theorem Refines.evict_eq_none_iff (h : Refines s a) : LFU_evict s = none ↔ ∀ x, a.residents.lookup x = none := by
  refine ⟨fun hnone x => ?_, fun hnone => (h.evict_none hnone).2⟩
  by_contra hx
  obtain ⟨e, he⟩ := ne_none_iff_exists'.1 hx
  obtain ⟨id, _, s', -, -, -, hevict, -⟩ := h.evict he
  cases hnone.symm.trans hevict

theorem Refines.evict_victim (h : Refines s a) {s' : State} (hs' : LFU_evict s = some s') :
    ∃ id e, a.IsVictim id e ∧ ∀ x, s'.hashtable.lookup x = if x = id then none else s.hashtable.lookup x := by
  have hsome : ¬ ∀ x, a.entry x = none := by
    intro hnone
    cases (h.evict_none hnone).2.symm.trans hs'
  obtain ⟨x, hx⟩ := not_forall.1 hsome
  obtain ⟨e, he⟩ := ne_none_iff_exists'.1 hx
  obtain ⟨id, _, s1, -, ⟨e, hvictim⟩, -, hevict, hs1⟩ := h.evict he
  cases hs'.symm.trans hevict
  refine ⟨id, e, hvictim, fun x => ?_⟩
  rw [hs1.objs, h.objs, entry_forget, update_apply]
  split_ifs <;> rfl

/-- Every sequence of calls, next to the same calls of a cache that keeps the counts. -/
theorem LFU_refines (cache_size : Int) (md : Bool) (calls : List Call) :
    (runs call (LFU_init cache_size md) calls = none ↔
      runs Counted.call (Counted.init cache_size md) calls = none) ∧
    ∀ s, runs call (LFU_init cache_size md) calls = some s →
      ∃ a, runs Counted.call (Counted.init cache_size md) calls = some a ∧
        (∀ x, s.hashtable.lookup x = (a.residents.lookup x).map Entry.obj) ∧
        (∀ f, (∀ x, x ∈ (node s.freq_map f).objs ↔ ∃ e, a.residents.lookup x = some e ∧ e.count = f) ∧
          (node s.freq_map f).objs.Pairwise (fun x y => ∀ e e', a.residents.lookup x = some e →
            a.residents.lookup y = some e' → e.reached < e'.reached) ∧
          (node s.freq_map f).n_obj = (node s.freq_map f).objs.length) ∧
        (∀ x e, a.residents.lookup x = some e → e.count ≤ s.max_freq ∧ (s.min_freq = 0 ∨ s.min_freq ≤ e.count ∧
          ∃ y e', a.residents.lookup y = some e' ∧ e'.count = s.min_freq)) ∧
        (LFU_evict s = none ↔ ∀ x, a.residents.lookup x = none) ∧
        ∀ s', LFU_evict s = some s' → ∃ id e, a.IsVictim id e ∧
          ∀ x, s'.hashtable.lookup x = if x = id then none else s.hashtable.lookup x := by
  have hruns := runs_rel (fun s a c h => call_refines h c) calls (init_refines cache_size md)
  refine ⟨rel_none_iff hruns, fun s hs => ?_⟩
  rw [hs] at hruns
  obtain ⟨a, ha, h⟩ := rel_some hruns
  refine ⟨a, ha, h.objs, h.list, fun x e he => ⟨(h.range x e he).2, ?_⟩, h.evict_eq_none_iff, fun s' hs' => h.evict_victim hs'⟩
  refine h.settled.imp id fun hleast => ?_
  have hleast := hleast x e he
  obtain ⟨y, hy⟩ := hleast.attained
  exact ⟨hleast.le x _ (count_of he), y, count_eq_some.1 hy⟩

theorem LFU_refines_tie : ∃ s a s' id e,
    runs call (LFU_init 2 false) [.get { obj_id := 1 }, .get { obj_id := 2 }, .get { obj_id := 2 }, .get { obj_id := 1 }] = some s ∧
    runs Counted.call (Counted.init 2 false) [.get { obj_id := 1 }, .get { obj_id := 2 }, .get { obj_id := 2 },
      .get { obj_id := 1 }] = some a ∧
    LFU_evict s = some s' ∧ a.IsVictim id e ∧ id = 2 := by
  have hbefore : (runs call (LFU_init 2 false) [.get { obj_id := 1 }, .get { obj_id := 2 }, .get { obj_id := 2 },
    .get { obj_id := 1 }]).map (fun s => s.hashtable.lookup 2) = some (some { obj_size := 1, md := 2 }) := by decide
  have hafter : ((runs call (LFU_init 2 false) [.get { obj_id := 1 }, .get { obj_id := 2 }, .get { obj_id := 2 },
    .get { obj_id := 1 }]).bind LFU_evict).map (fun s => s.hashtable.lookup 2) = some none := by decide
  obtain ⟨s, hs, htwo⟩ := map_eq_some_iff.1 hbefore
  rw [hs, bind_some] at hafter
  obtain ⟨s', hs', hgone⟩ := map_eq_some_iff.1 hafter
  obtain ⟨a, ha, -, -, -, -, hvictim⟩ := (LFU_refines 2 false _).2 s hs
  obtain ⟨id, e, hid, hothers⟩ := hvictim s' hs'
  refine ⟨s, a, s', id, e, hs, ha, hs', hid, ?_⟩
  by_contra hne
  have hstays := hothers 2
  rw [if_neg (Ne.symm hne), hgone, htwo] at hstays
  cases hstays

/-- In a fresh cache `min_freq` is 1, and a removal that finds nothing leaves it so. -/
theorem min_freq_of_none : ∃ s, runs call (LFU_init 10 false) [.remove 7] = some s ∧
    ¬ (s.min_freq = 0 ∨ ∃ x o, s.hashtable.lookup x = some o ∧ o.md = s.min_freq ∧
      ∀ y o', s.hashtable.lookup y = some o' → s.min_freq ≤ o'.md) := by
  refine ⟨LFU_init 10 false, rfl, ?_⟩
  rintro (hzero | ⟨x, o, hx, -⟩)
  · cases hzero
  · cases hx

end CacheSim.Lfu
