import CacheSim.Lfu.Proofs

/-!
# LFU with dynamic aging (`LFUDA.c`)

The lists are those of LFU. A key grows by `min_freq` with each hit and starts one above it, so that
objects that are not asked for fall behind.
-/

namespace CacheSim.Lfu.Lfuda

open Lib LeCaR Cacheus Option Function

def LFUDA_init (cache_size : Int) (consider_obj_metadata : Bool) : State :=
  { LFU_init cache_size consider_obj_metadata with min_freq := 0, max_freq := 0 }

variable (s : State)

def get_min_freq_node : Option (Int × FreqNode) := do
  let freq := if s.min_freq = 0 ∨ s.min_freq = 1 then 1 else s.min_freq
  let min_freq_node ← s.freq_map freq
  return (freq, min_freq_node)

def LFUDA_find (req : Request) (update_cache : Bool) : Option (State × Bool) :=
  match s.hashtable.lookup req.obj_id with
  | none => some (s, false)
  | some cache_obj =>
    if update_cache then do
      let freq := cache_obj.md + s.min_freq
      let old_freq := freq - s.min_freq
      let s := if s.max_freq < freq then { s with max_freq := freq } else s
      let (s, old_node) ← unlink s old_freq req.obj_id
      -- the object is on no list when `min_freq` moves on
      let s := if old_freq = s.min_freq ∧ old_node.n_obj = 0 then update_min_freq s else s
      return (append s req.obj_id { cache_obj with md := freq }, true)
    else some (s, true)

def LFUDA_insert (req : Request) : State :=
  let freq := s.min_freq + 1
  append { s with
    max_freq := if (s.freq_map freq).isNone ∧ s.max_freq < freq then freq else s.max_freq
    occupied_byte := s.occupied_byte + (req.obj_size + s.obj_md_size)
    n_obj := s.n_obj + 1 } req.obj_id { obj_size := req.obj_size, md := freq }

def LFUDA_evict : Option State := do
  let (freq, min_freq_node) ← get_min_freq_node s
  let id ← min_freq_node.objs.head?
  let obj_to_evict ← s.hashtable.lookup id
  let (s, min_freq_node) ← unlink { s with min_freq := freq } freq id
  let s := cache_remove_obj_base s id obj_to_evict
  return if min_freq_node.n_obj = 0 then update_min_freq s else s

def LFUDA_remove (id : ObjId) : Option (State × Bool) := LFU_remove s id

def ops : CacheOps State where
  count_req s := { s with n_req := s.n_req + 1 }
  find s req := LFUDA_find s req true
  can_insert s req := some (s, !(req.obj_size + s.obj_md_size > s.cache_size))
  get_occupied_byte s := s.occupied_byte
  obj_md_size s := s.obj_md_size
  cache_size s := s.cache_size
  evict s _ := LFUDA_evict s
  insert s req := some (LFUDA_insert s req)

def LFUDA_get (req : Request) : Option (State × Bool) :=
  ops.cache_get_base (fun s => s.hashtable.entries.length) s req

def call : Call → Option State
  | .get req => (LFUDA_get s req).map (·.1)
  | .evict => LFUDA_evict s
  | .remove id => (LFUDA_remove s id).map (·.1)

def noted (t : State × List Call) (c : Call) : Option (State × List Call) := (call t.1 c).map fun s => (s, t.2 ++ [c])

def last_get (past : List Call) (x : ObjId) : Nat :=
  past.length - past.reverse.findIdx fun
    | .get req => req.obj_id = x
    | _ => false

def Earlier (past : List Call) (x : ObjId) (o : FifoObj Int) (y : ObjId) (p : FifoObj Int) : Prop :=
  o.md < p.md ∨ o.md = p.md ∧ last_get past x < last_get past y

/-- A hit on an object of key `min_freq` leaves another one with a key up to that of the object then. An object comes into an
empty cache only before the first eviction: else the last object to be evicted leaves room for it. -/
def Careful (t : State × List Call) : Call → Prop
  | .get req =>
    match t.1.hashtable.lookup req.obj_id with
    | some o => o.md = t.1.min_freq →
        ∃ y p, y ≠ req.obj_id ∧ t.1.hashtable.lookup y = some p ∧ p.md ≤ o.md + t.1.min_freq
    | none => t.1.cache_size < req.obj_size + t.1.obj_md_size ∨
        (t.1.min_freq = 0 ∧ ∀ x, t.1.hashtable.lookup x = none) ∨
        ∃ z o, t.1.hashtable.lookup z = some o ∧
          (∀ y p, t.1.hashtable.lookup y = some p → y ≠ z → Earlier t.2 y p z o) ∧
          o.obj_size + req.obj_size + 2 * t.1.obj_md_size ≤ t.1.cache_size
  | .evict => ∃ x o, t.1.hashtable.lookup x = some o
  | .remove _ => True

variable {s : State} {a : Counted} {T : ObjId → Nat} {id x : ObjId} {e : Entry} {req : Request} {past : List Call} {g lo : Int}

theorem last_get_get (past : List Call) (req : Request) :
    last_get (past ++ [.get req]) = update (last_get past) req.obj_id (past.length + 1) := by
  funext x
  unfold last_get
  rcases eq_or_ne x req.obj_id with rfl | hne
  · simp [List.findIdx_cons]
  · simp [List.findIdx_cons, hne, hne.symm]

/-! ## What holds between two calls -/

/-- LFU's record of the residents, with the list of key 1 counted, and each of them last asked for at `T`. -/
structure Inv (s : State) (T : ObjId → Nat) (a : Counted) : Prop where
  refines : Refines { s with max_freq := max s.max_freq 1 } a
  asked : ∀ x e, a.entry x = some e → e.reached = T x
  min_freq : 0 ≤ s.min_freq
  ones : s.min_freq = 0 → ∀ x e, a.entry x = some e → e.count = 1
  made : ∀ f, 2 ≤ f → s.freq_map f ≠ none → f ≤ s.max_freq

def Kept (s : State) (past : List Call) : Prop := ∃ a, Inv s (last_get past) a ∧ a.clock = past.length + 1

theorem Inv.wait (h : Inv s T a) {T' : ObjId → Nat} (hT : ∀ x e, a.entry x = some e → T' x = T x) {n : Nat} (hn : a.clock ≤ n) :
    Inv s T' { a with clock := n } := by
  refine { h with refines := ?_, asked := fun x e hx => (h.asked x e hx).trans (hT x e hx).symm }
  have hr := h.refines
  exact { hr with past := fun x e hx => (hr.past x e hx).trans_le hn }

theorem Inv.min_freq_node (h : Inv s T a) (hx : a.entry x = some e) : ∃ lo, s.min_freq ≤ lo ∧ 1 ≤ lo ∧
    Least (count a.entry) lo ∧ get_min_freq_node s = some (lo, node s.freq_map lo) := by
  have hpos := h.min_freq
  let lo : Int := if s.min_freq = 0 ∨ s.min_freq = 1 then 1 else s.min_freq
  have hlow : s.min_freq ≤ lo ∧ 1 ≤ lo := by
    dsimp only [lo]
    split_ifs <;> omega
  have hleast : Least (count a.entry) lo := by
    rcases h.refines.settled with hzero | hleast
    · have hlo : lo = 1 := if_pos (.inl hzero)
      rw [hlo]
      exact ⟨⟨x, (count_of hx).trans (by rw [h.ones hzero x e hx])⟩, fun y g hy => (h.refines.range.count hy).1⟩
    · have hleast : Least (count a.entry) s.min_freq := hleast x e hx
      obtain ⟨y, hy⟩ := hleast.attained
      have hone := (h.refines.range.count hy).1
      rwa [show lo = s.min_freq by dsimp only [lo]; split_ifs <;> omega]
  obtain ⟨y, hy⟩ := hleast.attained
  obtain ⟨n, hn, hnode⟩ := h.refines.lists.buckets.exists_node hy
  refine ⟨lo, hlow.1, hlow.2, hleast, ?_⟩
  unfold get_min_freq_node
  dsimp only
  rw [hn]
  exact congrArg (fun n => some (lo, n)) hnode.symm

theorem le_update_min_freq (s : State) : s.min_freq ≤ (update_min_freq s).min_freq := by
  unfold update_min_freq
  cases hfind : next_freq s with
  | none => exact le_rfl
  | some f =>
    obtain ⟨k, -, rfl⟩ := List.mem_map.1 (List.mem_of_find?_eq_some hfind)
    show s.min_freq ≤ s.min_freq + 1 + (k : Int)
    omega

theorem Inv.exists_made (h : Inv s T a) (hx : a.entry x = some e) {f : Int} (hf : 2 ≤ f) {n : FreqNode}
    (hmap : update s.freq_map e.count (some n) f ≠ none) : f ≤ s.max_freq := by
  rcases eq_or_ne f e.count with rfl | hne
  · obtain ⟨n', hn, -⟩ := h.refines.lists.buckets.exists_node (count_of hx)
    have hn : s.freq_map e.count = some n' := hn
    exact h.made _ hf (by simp [hn])
  · rw [update_of_ne hne] at hmap
    exact h.made f hf hmap

theorem Inv.leave (h : Inv s T a) (he : a.entry id = some e) (hlo : s.min_freq ≤ lo)
    (hleast : lo = 0 ∨ 1 ≤ lo ∧ Least (count a.entry) lo) {left : FreqNode}
    (hleft : left = { node s.freq_map e.count with
      objs := (node s.freq_map e.count).objs.erase id, n_obj := (node s.freq_map e.count).n_obj - 1 }) {t : State}
    (ht : t = { cache_remove_obj_base s id e.obj with min_freq := lo, freq_map := update s.freq_map e.count (some left) }) :
    lo ≤ (if e.count = lo ∧ left.n_obj = 0 then (update_min_freq t).min_freq else lo) ∧
      Inv { t with min_freq := if e.count = lo ∧ left.n_obj = 0 then (update_min_freq t).min_freq else lo } T (a.forget id) := by
  have hdetached := h.refines.lists.detach (count_of he) rfl
  rw [← entry_forget] at hdetached
  have hlists : Lists (a.forget id).entry (update s.freq_map e.count (some left)) := hleft ▸ hdetached
  have hcount := (h.refines.range id e he).1
  have hmin : lo ≤ (if e.count = lo ∧ left.n_obj = 0 then (update_min_freq t).min_freq else lo) := by
    split_ifs
    · have hle := le_update_min_freq t
      rw [ht] at hle ⊢
      exact hle
    · exact le_rfl
  have hsettled : Settled (a.forget id).entry (if e.count = lo ∧ left.n_obj = 0 then (update_min_freq t).min_freq else lo) := by
    rcases hleast with hzero | ⟨hone, hleast⟩
    · exact .inl (by rw [if_neg (by omega)]; exact hzero)
    · refine .inr fun y e' hy => ?_
      have htlo : t.min_freq = lo := by rw [ht]
      have hd := least_detach h.refines.lists he (htlo ▸ hleast) (fun z e'' hz => by
        have hle : e''.count ≤ max s.max_freq 1 := (h.refines.range z e'' hz).2
        rw [ht]
        exact hle.trans (max_le_max_left _ hone)) hleft (by rw [ht]) hy
      rwa [htlo] at hd
  have hr := h.refines.forget he hlists hsettled
  refine ⟨hmin, ?_, fun x e' hx => h.asked x e' (entry_of_forget hx).2, (h.min_freq.trans hlo).trans hmin, ?_, ?_⟩
  · rw [ht] at hr ⊢
    exact hr
  · intro hzero x e' hx
    exact h.ones (le_antisymm (hlo.trans (hmin.trans hzero.le)) h.min_freq) x e' (entry_of_forget hx).2
  · rw [ht]
    exact fun f hf hmap => h.exists_made he hf hmap

/-! ## The calls -/

theorem least_reach (h : Least (count (a.forget id).entry) lo) {obj_size : Int} (hle : lo ≤ g) :
    Least (count (a.reach id obj_size g).entry) lo := by
  rw [entry_forget, count_update] at h
  rw [entry_reach, count_update]
  obtain ⟨y, hy⟩ := h.attained
  refine ⟨⟨y, ?_⟩, fun z f hz => ?_⟩
  · rcases eq_or_ne y id with rfl | hne
    · rw [update_self] at hy
      cases hy
    · rwa [update_of_ne hne] at hy ⊢
  · rcases eq_or_ne z id with rfl | hne
    · rw [update_self] at hz
      cases hz
      exact hle
    · rw [update_of_ne hne] at hz
      exact h.le z f (by rwa [update_of_ne hne])

section

variable (h : Inv s T a)
include h

theorem Inv.asked_reach (id : ObjId) (obj_size g : Int) :
    ∀ x e, (a.reach id obj_size g).entry x = some e → e.reached = update T id a.clock x := by
  intro x e hx
  rw [entry_reach] at hx
  rcases eq_or_ne x id with rfl | hne
  · rw [update_self] at hx ⊢
    cases hx
    rfl
  · rw [update_of_ne hne] at hx ⊢
    exact h.asked x e hx

theorem Inv.hit (he : a.entry req.obj_id = some e) (hcareful : e.count = s.min_freq →
      ∃ y e', y ≠ req.obj_id ∧ a.entry y = some e' ∧ e'.count ≤ e.count + s.min_freq) :
    ∃ s', LFUDA_find s req true = some (s', true) ∧ s.min_freq ≤ s'.min_freq ∧
      Inv s' (update T req.obj_id a.clock) (a.reach req.obj_id e.obj_size (e.count + s.min_freq)) := by
  obtain ⟨hone, -⟩ := h.refines.range _ _ he
  have hpos := h.min_freq
  let g := e.count + s.min_freq
  let raised := if s.max_freq < g then g else s.max_freq
  let left : FreqNode := { node s.freq_map e.count with
    objs := (node s.freq_map e.count).objs.erase req.obj_id, n_obj := (node s.freq_map e.count).n_obj - 1 }
  let s1 : State := { s with max_freq := raised, freq_map := update s.freq_map e.count (some left) }
  let min' := if e.count = s.min_freq ∧ left.n_obj = 0 then (update_min_freq s1).min_freq else s.min_freq
  have hraised : (if s.max_freq < g then { s with max_freq := g } else s) = { s with max_freq := raised } := by
    dsimp only [raised]
    split_ifs <;> rfl
  have hle : g ≤ raised ∧ s.max_freq ≤ raised := by
    dsimp only [raised]
    split_ifs <;> omega
  have hfind : LFUDA_find s req true =
      some (append { s1 with min_freq := min' } req.obj_id { obj_size := e.obj_size, md := g }, true) := by
    have hlookup : s.hashtable.lookup req.obj_id = some e.obj := h.refines.lookup he
    have hunlink := unlink_eq (s := { s with max_freq := raised }) h.refines.lists (count_of he)
    unfold LFUDA_find
    rw [hlookup]
    dsimp only [Entry.obj]
    rw [if_pos rfl, hraised, show e.count + s.min_freq - s.min_freq = e.count by omega, hunlink]
    dsimp only [bind_eq_bind, bind_some, min']
    split_ifs <;> rfl
  have hmin : s.min_freq ≤ min' := by
    dsimp only [min']
    split_ifs
    · exact le_update_min_freq s1
    · exact le_rfl
  have hdetached := h.refines.lists.detach (count_of he) rfl
  have hattached := hdetached.attach (e := { obj_size := e.obj_size, count := g, reached := a.clock }) (update_self ..) (by
    intro y e' hy
    rw [← entry_forget] at hy
    exact h.refines.past y e' (entry_of_forget hy).2)
  rw [update_idem, ← entry_reach] at hattached
  have hzero : s.min_freq = 0 → min' = 0 := fun hzero => (if_neg (by omega)).trans hzero
  have hsettled : Settled (a.reach req.obj_id e.obj_size g).entry min' := by
    rcases h.refines.settled with hzero' | hleast
    · exact .inl (hzero hzero')
    · have hleast : Least (count a.entry) s.min_freq := hleast _ _ he
      -- an object that stays has a key up to that of the object
      obtain ⟨y, e', hne, hy, hlow⟩ : ∃ y e', y ≠ req.obj_id ∧ a.entry y = some e' ∧ (min' = s.min_freq ∨ e'.count ≤ g) := by
        by_cases hat : e.count = s.min_freq
        · obtain ⟨y, e', hne, hy, hlow⟩ := hcareful hat
          exact ⟨y, e', hne, hy, .inr hlow⟩
        · obtain ⟨y, hy⟩ := hleast.attained
          obtain ⟨e', he', hcount⟩ := count_eq_some.1 hy
          refine ⟨y, e', ?_, he', .inl (if_neg fun hc => hat hc.1)⟩
          rintro rfl
          cases he.symm.trans he'
          exact hat hcount
      have hstays : (a.forget req.obj_id).entry y = some e' := by
        rw [entry_forget, update_of_ne hne]
        exact hy
      have hd : Least (count (a.forget req.obj_id).entry) min' := least_detach (t := s1) h.refines.lists he hleast (fun z e'' hz => by
        have hz' : e''.count ≤ max s.max_freq 1 := (h.refines.range z e'' hz).2
        show e''.count ≤ max raised s.min_freq
        omega) rfl rfl hstays
      refine .inr fun _ _ _ => least_reach hd ?_
      rcases hlow with heq | hlow
      · omega
      · exact (hd.le y _ (count_of hstays)).trans hlow
  refine ⟨_, hfind, hmin, ?_, h.asked_reach _ _ _, hpos.trans hmin, ?_, ?_⟩
  · exact h.refines.renew he hattached (by omega) (le_max_of_le_left hle.1)
      (max_le_max_right _ hle.2) hsettled
  · intro hmin0 x e' hx
    have hmin0 : min' = 0 := hmin0
    have hs0 : s.min_freq = 0 := by omega
    rw [entry_reach] at hx
    rcases eq_or_ne x req.obj_id with rfl | hne
    · rw [update_self] at hx
      cases hx
      have := h.ones hs0 _ _ he
      show e.count + s.min_freq = 1
      omega
    · rw [update_of_ne hne] at hx
      exact h.ones hs0 x e' hx
  · intro f hf hmap
    have hmap : update (update s.freq_map e.count (some left)) g _ f ≠ none := hmap
    rcases eq_or_ne f g with rfl | hne
    · exact hle.1
    · rw [update_of_ne hne] at hmap
      exact (h.exists_made he hf hmap).trans hle.2

theorem Inv.insert (he : a.entry req.obj_id = none) (hstart : s.min_freq = 0 ∨ ∃ y e', a.entry y = some e') :
    Inv (LFUDA_insert s req) (update T req.obj_id a.clock) (a.reach req.obj_id req.obj_size (s.min_freq + 1)) := by
  have hpos := h.min_freq
  let raised := if (s.freq_map (s.min_freq + 1)).isNone ∧ s.max_freq < s.min_freq + 1 then s.min_freq + 1 else s.max_freq
  have hmax : s.max_freq ≤ raised := by
    dsimp only [raised]
    split_ifs <;> omega
  have hle : s.min_freq + 1 ≤ max raised 1 := by
    rcases hpos.eq_or_lt with hzero | hpos
    · exact le_max_of_le_right (by omega)
    · apply le_max_of_le_left
      dsimp only [raised]
      split_ifs with hnew
      · exact le_rfl
      · cases hmap : s.freq_map (s.min_freq + 1) with
        | none =>
          rw [hmap] at hnew
          simp only [isNone_none, true_and] at hnew
          omega
        | some n => exact h.made _ (by omega) (by simp [hmap])
  have hattached := h.refines.lists.attach (e := { obj_size := req.obj_size, count := s.min_freq + 1, reached := a.clock }) he
    h.refines.past
  rw [← entry_reach] at hattached
  have hsettled : Settled (a.reach req.obj_id req.obj_size (s.min_freq + 1)).entry s.min_freq := by
    rcases h.refines.settled with hzero | hleast
    · exact .inl hzero
    · rcases hstart with hzero | ⟨y, e', hy⟩
      · exact .inl hzero
      · have hleast : Least (count a.entry) s.min_freq := hleast y e' hy
        have hforget : (a.forget req.obj_id).entry = a.entry := by
          rw [entry_forget, ← he, update_eq_self]
        exact .inr fun _ _ _ => least_reach (hforget ▸ hleast) (by omega)
  refine ⟨?_, h.asked_reach _ _ _, hpos, ?_, ?_⟩
  · exact h.refines.admit he hattached (by omega) hle (max_le_max_right _ hmax) hsettled
  · intro hzero x e' hx
    have hzero : s.min_freq = 0 := hzero
    rw [entry_reach] at hx
    rcases eq_or_ne x req.obj_id with rfl | hne
    · rw [update_self] at hx
      cases hx
      show s.min_freq + 1 = 1
      omega
    · rw [update_of_ne hne] at hx
      exact h.ones hzero x e' hx
  · intro f hf hmap
    have hmap : update s.freq_map (s.min_freq + 1) _ f ≠ none := hmap
    show f ≤ raised
    rcases eq_or_ne f (s.min_freq + 1) with rfl | hne
    · omega
    · rw [update_of_ne hne] at hmap
      exact (h.made f hf hmap).trans hmax

theorem Inv.evict (hx : a.entry x = some e) :
    ∃ id e s', a.IsVictim id e ∧ get_min_freq_node s = some (e.count, node s.freq_map e.count) ∧
      (node s.freq_map e.count).objs.head? = some id ∧ LFUDA_evict s = some s' ∧ s.min_freq ≤ s'.min_freq ∧
      Inv s' T (a.forget id) := by
  obtain ⟨lo, hlo, hone, hleast, hnode⟩ := h.min_freq_node hx
  obtain ⟨id, e, hhead, rfl, hvictim⟩ := h.refines.lists.first hleast
  have hid : a.entry id = some e := hvictim.resident
  have hlookup : s.hashtable.lookup id = some e.obj := h.refines.lookup hid
  have hunlink := unlink_eq (s := { s with min_freq := e.count }) h.refines.lists (count_of hid)
  obtain ⟨hmin, hinv⟩ := h.leave hid hlo (.inr ⟨hone, hleast⟩) rfl rfl
  refine ⟨id, e, _, hvictim, hnode, hhead, ?_, hlo.trans hmin, hinv⟩
  unfold LFUDA_evict
  rw [hnode]
  dsimp only [bind_eq_bind, bind_some]
  rw [hhead]
  dsimp only [bind_some]
  rw [hlookup]
  rw [hunlink]
  dsimp only [bind_some, pure]
  simp only [true_and]
  split_ifs <;> rfl

theorem Inv.remove (he : a.entry id = some e) :
    ∃ s', LFUDA_remove s id = some (s', true) ∧ s.min_freq ≤ s'.min_freq ∧ Inv s' T (a.forget id) := by
  have hlookup : s.hashtable.lookup id = some e.obj := h.refines.lookup he
  have hunlink := unlink_eq (s := s) h.refines.lists (count_of he)
  have hpos := h.min_freq
  have hleast : s.min_freq = 0 ∨ 1 ≤ s.min_freq ∧ Least (count a.entry) s.min_freq := by
    rcases h.refines.settled with hzero | hleast
    · exact .inl hzero
    · by_cases hzero : s.min_freq = 0
      · exact .inl hzero
      · exact .inr ⟨by omega, hleast id e he⟩
  obtain ⟨hmin, hinv⟩ := h.leave he le_rfl hleast rfl rfl
  refine ⟨_, ?_, hmin, hinv⟩
  unfold LFUDA_remove LFU_remove LFU_remove_obj
  rw [hlookup]
  dsimp only [Entry.obj]
  rw [hunlink]
  dsimp only [bind_eq_bind, bind_some, map_some]
  unfold cache_remove_obj_base
  split_ifs <;> rfl

/-! ## A get -/

theorem Inv.resident {o : FifoObj Int} : s.hashtable.lookup x = some o ↔ ∃ e, a.entry x = some e ∧ e.obj = o := by
  have hobjs : s.hashtable.lookup x = (a.entry x).map Entry.obj := h.refines.objs x
  rw [hobjs, map_eq_some_iff]

end

theorem Inv.earlier (h : Inv s (last_get past) a) {y : ObjId} {e' : Entry} (hx : a.entry x = some e) (hy : a.entry y = some e') :
    Earlier past x e.obj y e'.obj ↔ e.Before e' := by
  unfold Entry.Before
  rw [h.asked x e hx, h.asked y e' hy]
  exact Iff.rfl

def Room (s : State) (a : Counted) (req : Request) : Prop :=
  (s.min_freq = 0 ∧ ∀ x, a.entry x = none) ∨
    ∃ z e, a.entry z = some e ∧ (∀ y e', a.entry y = some e' → y ≠ z → e'.Before e) ∧
      e.obj_size + req.obj_size + 2 * a.obj_md_size ≤ a.cache_size

theorem occupied_of_none (h : ∀ x, a.entry x = none) : a.occupied_byte = 0 := by
  simp [Counted.occupied_byte, Table.weigh, entries_of_none h]

theorem Room.evict (h : Inv s T a) (hroom : Room s a req) (hfits : req.obj_size + s.obj_md_size ≤ s.cache_size)
    (hfull : s.cache_size < s.occupied_byte + req.obj_size + s.obj_md_size) :
    ∃ id s', LFUDA_evict s = some s' ∧ Inv s' T (a.forget id) ∧ s.min_freq ≤ s'.min_freq ∧ Room s' (a.forget id) req ∧
      s'.hashtable.entries.length < s.hashtable.entries.length := by
  have hocc : s.occupied_byte = a.occupied_byte := h.refines.occupied
  have hsize : s.cache_size = a.cache_size := h.refines.cache_size
  have hmd : s.obj_md_size = a.obj_md_size := h.refines.obj_md_size
  rcases hroom with ⟨-, hnone⟩ | ⟨z, e, hz, hlast, hroom⟩
  · have := occupied_of_none hnone
    omega
  · obtain ⟨id, v, s', hvictim, -, -, hevict, hmono, hinv⟩ := h.evict hz
    have hid : a.entry id = some v := hvictim.resident
    have hne : z ≠ id := by
      rintro rfl
      cases hz.symm.trans hid
      have halone : ∀ y, (a.forget z).entry y = none := by
        intro y
        by_contra hy
        obtain ⟨e', he'⟩ := ne_none_iff_exists'.1 hy
        obtain ⟨hne, he'⟩ := entry_of_forget he'
        have hbefore := hlast y e' he' hne
        have hafter := hvictim.first y e' he' hne
        unfold Entry.Before at hbefore
        omega
      have hweigh : (a.forget z).occupied_byte = a.occupied_byte - (e.obj_size + a.obj_md_size) :=
        Table.weigh_erase (s := a.residents) (fun _ e => e.obj_size + a.obj_md_size) hz
      rw [occupied_of_none halone] at hweigh
      omega
    refine ⟨id, s', hevict, hinv, hmono, .inr ⟨z, e, ?_, fun y e' hy => ?_, hroom⟩, ?_⟩
    · rw [entry_forget, update_of_ne hne]
      exact hz
    · exact hlast y e' (entry_of_forget hy).2
    · have hlen := (Table.perm_erase hid).length_eq
      have h1 : s.hashtable.entries.length = a.residents.entries.length := h.refines.length
      have h2 : s'.hashtable.entries.length = (a.residents.erase id).entries.length := hinv.refines.length
      rw [List.length_cons] at hlen
      omega

theorem get_spec (h : Kept s past) (hcareful : Careful (s, past) (.get req)) :
    ∃ s' hit, LFUDA_get s req = some (s', hit) ∧ Kept s' (past ++ [.get req]) ∧ s.min_freq ≤ s'.min_freq := by
  obtain ⟨a, h, hclock⟩ := h
  let Missed : State → Counted → Prop := fun d a =>
    Inv d (last_get past) a ∧ a.clock = past.length + 1 ∧ a.entry req.obj_id = none ∧ s.min_freq ≤ d.min_freq
  have hdone : ∀ d a, Inv d (update (last_get past) req.obj_id (past.length + 1)) a → a.clock = past.length + 2 →
      Kept d (past ++ [.get req]) := by
    intro d a hd hn
    exact ⟨a, by rwa [last_get_get], by simpa using hn⟩
  apply CacheOps.cache_get_base_total (fun d => d = s)
    (fun d => ∃ a, Missed d a ∧ (d.cache_size < req.obj_size + d.obj_md_size ∨ Room d a req))
    (fun d => ∃ a, Missed d a ∧ Room d a req ∧ req.obj_size + d.obj_md_size ≤ d.cache_size)
    (fun d => Kept d (past ++ [Call.get req]) ∧ s.min_freq ≤ d.min_freq) (fun d => d.hashtable.entries.length)
    (fun _ _ => le_rfl) ?_ ?_ ?_ ?_ rfl
  · rintro d rfl
    have hcount : Inv { d with n_req := d.n_req + 1 } (last_get past) a :=
      { h with refines := h.refines.count_req }
    unfold Careful at hcareful
    dsimp only at hcareful
    cases he : a.entry req.obj_id with
    | none =>
      have hlookup : d.hashtable.lookup req.obj_id = none := h.refines.lookup_none he
      rw [hlookup] at hcareful
      refine ⟨_, false, by simp only [ops, LFUDA_find, hlookup], a, ⟨hcount, hclock, he, le_rfl⟩, hcareful.imp id ?_⟩
      rintro (⟨hzero, hempty⟩ | ⟨z, o, hz, hlast, hroom⟩)
      · refine .inl ⟨hzero, fun x => ?_⟩
        by_contra hx
        obtain ⟨e, hx⟩ := ne_none_iff_exists'.1 hx
        cases (hempty x).symm.trans (h.resident.2 ⟨e, hx, rfl⟩)
      · obtain ⟨e, hez, rfl⟩ := h.resident.1 hz
        refine .inr ⟨z, e, hez, fun y e' hy hne => ?_, ?_⟩
        · exact (h.earlier hy hez).1 (hlast y _ (h.resident.2 ⟨e', hy, rfl⟩) hne)
        · have hsize : d.cache_size = a.cache_size := h.refines.cache_size
          have hmd : d.obj_md_size = a.obj_md_size := h.refines.obj_md_size
          rw [← hsize, ← hmd]
          exact hroom
    | some e =>
      have hlookup : d.hashtable.lookup req.obj_id = some e.obj := h.refines.lookup he
      rw [hlookup] at hcareful
      obtain ⟨d', hfind, hmono, hinv⟩ := hcount.hit he (by
        intro hat
        obtain ⟨y, p, hne, hy, hlow⟩ := hcareful hat
        obtain ⟨e', hey, rfl⟩ := h.resident.1 hy
        exact ⟨y, e', hne, hey, hlow⟩)
      refine ⟨d', true, hfind, hdone _ _ (hclock ▸ hinv) ?_, hmono⟩
      show a.clock + 1 = _
      omega
  · rintro d ⟨a, hd, hroom⟩
    refine ⟨_, _, rfl, ?_⟩
    split_ifs with hadm
    · have hfits : req.obj_size + d.obj_md_size ≤ d.cache_size := by simpa using hadm
      exact ⟨a, hd, hroom.resolve_left (by omega), hfits⟩
    · obtain ⟨hinv, hn, hnone, hmono⟩ := hd
      have hT : ∀ x e, a.entry x = some e → update (last_get past) req.obj_id (past.length + 1) x = last_get past x := by
        intro x e hx
        apply update_of_ne
        rintro rfl
        cases hnone.symm.trans hx
      exact ⟨hdone _ _ (hinv.wait hT (n := past.length + 2) (by omega)) rfl, hmono⟩
  · rintro d ⟨a, ⟨hinv, hn, hnone, hmono⟩, hroom, hfits⟩ hfull
    rw [CacheOps.full_for_iff] at hfull
    obtain ⟨id, d', hevict, hinv', hmono', hroom', hlt⟩ := hroom.evict hinv hfits hfull
    have hnone' : (a.forget id).entry req.obj_id = none := by
      rw [entry_forget, update_apply, hnone, ite_self]
    refine ⟨d', hevict, ⟨_, ⟨hinv', hn, hnone', hmono.trans hmono'⟩, hroom', ?_⟩, hlt⟩
    have h1 := hinv.refines.cache_size.trans hinv'.refines.cache_size.symm
    have h2 := hinv.refines.obj_md_size.trans hinv'.refines.obj_md_size.symm
    dsimp only at h1 h2
    omega
  · rintro d ⟨a, ⟨hinv, hn, hnone, hmono⟩, hroom, hfits⟩ -
    have hstart : d.min_freq = 0 ∨ ∃ y e', a.entry y = some e' := by
      rcases hroom with ⟨hzero, -⟩ | ⟨z, e, hz, -⟩
      · exact .inl hzero
      · exact .inr ⟨z, e, hz⟩
    refine ⟨_, rfl, hdone _ _ (hn ▸ hinv.insert hnone hstart) ?_, hmono⟩
    show a.clock + 1 = _
    omega

/-! ## Runs -/

theorem call_spec (h : Kept s past) {c : Call} (hcareful : Careful (s, past) c) :
    ∃ s', call s c = some s' ∧ Kept s' (past ++ [c]) ∧ s.min_freq ≤ s'.min_freq := by
  cases c with
  | get req =>
    obtain ⟨s', hit, hget, hkept, hmono⟩ := get_spec h hcareful
    exact ⟨s', by simp [call, hget], hkept, hmono⟩
  | evict =>
    obtain ⟨a, hinv, hclock⟩ := h
    obtain ⟨x, o, hx⟩ := hcareful
    obtain ⟨e, hx, -⟩ := hinv.resident.1 hx
    obtain ⟨id, v, s', -, -, -, hevict, hmono, hinv'⟩ := hinv.evict hx
    have hpast : last_get (past ++ [.evict]) = last_get past := by
      funext y
      simp [last_get, List.findIdx_cons]
    refine ⟨s', hevict, ⟨_, hinv'.wait (n := past.length + 2) (fun y _ _ => congrFun hpast y) ?_, by simp⟩, hmono⟩
    show a.clock ≤ _
    omega
  | remove id =>
    obtain ⟨a, hinv, hclock⟩ := h
    have hpast : last_get (past ++ [.remove id]) = last_get past := by
      funext y
      simp [last_get, List.findIdx_cons]
    cases he : a.entry id with
    | none =>
      have hlookup : s.hashtable.lookup id = none := hinv.refines.lookup_none he
      refine ⟨s, by simp [call, LFUDA_remove, LFU_remove, hlookup], ⟨_, hinv.wait (n := past.length + 2)
        (fun y _ _ => congrFun hpast y) (by omega), by simp⟩, le_rfl⟩
    | some e =>
      obtain ⟨s', hremove, hmono, hinv'⟩ := hinv.remove he
      refine ⟨s', by simp [call, hremove], ⟨_, hinv'.wait (n := past.length + 2) (fun y _ _ => congrFun hpast y) ?_, by simp⟩, hmono⟩
      show a.clock ≤ _
      omega

theorem init_kept (cache_size : Int) (md : Bool) : Kept (LFUDA_init cache_size md) [] := by
  have h := init_refines cache_size md
  have hinv : Inv (LFUDA_init cache_size md) (last_get []) (Counted.init cache_size md) := by
    refine ⟨{ h with settled := .inl rfl },
      (fun x e hx => by cases hx), le_rfl, (fun _ x e hx => by cases hx), fun f hf hmap => ?_⟩
    have hmap : update (fun _ => none) 1 (some ({} : FreqNode)) f ≠ none := hmap
    rw [update_of_ne (by omega)] at hmap
    exact absurd rfl hmap
  exact ⟨_, hinv.wait (fun _ _ _ => rfl) (Nat.zero_le 1), rfl⟩

/-- The lists hold the residents by their keys. The first object of the list of `min_freq` is the victim, and a call that is careful
goes on. `max_freq` is a bound of the keys unless it is 0 still. -/
structure KeyOrder (s : State) (past : List Call) : Prop where
  list : ∀ f, (∀ x, x ∈ (node s.freq_map f).objs ↔ ∃ o, s.hashtable.lookup x = some o ∧ o.md = f) ∧
    (node s.freq_map f).objs.Nodup ∧ (node s.freq_map f).n_obj = (node s.freq_map f).objs.length
  bounded : ∀ x o, s.hashtable.lookup x = some o →
    ((∀ y p, s.hashtable.lookup y = some p → p.md ≤ s.max_freq) ↔ 0 < s.max_freq)
  victim : ∀ x o, s.hashtable.lookup x = some o → ∃ f n id v s', get_min_freq_node s = some (f, n) ∧ n.objs.head? = some id ∧
    s.hashtable.lookup id = some v ∧ (∀ y p, s.hashtable.lookup y = some p → y ≠ id → Earlier past id v y p) ∧
    LFUDA_evict s = some s' ∧ ∀ y, s'.hashtable.lookup y = if y = id then none else s.hashtable.lookup y
  onward : ∀ c, Careful (s, past) c → ∃ s', call s c = some s' ∧ s.min_freq ≤ s'.min_freq

theorem Kept.key_order (h : Kept s past) : KeyOrder s past := by
  obtain ⟨a, hinv, hclock⟩ := h
  refine ⟨fun f => ⟨fun x => ?_, hinv.refines.lists.buckets.nodup f, hinv.refines.lists.buckets.n_obj f⟩, fun x o hx => ?_,
    fun x o hx => ?_, fun c hc => ?_⟩
  · have hmem : x ∈ (node s.freq_map f).objs ↔ count a.entry x = some f := hinv.refines.lists.buckets.mem f x
    rw [hmem, count_eq_some]
    constructor
    · rintro ⟨e, he, rfl⟩
      exact ⟨e.obj, hinv.resident.2 ⟨e, he, rfl⟩, rfl⟩
    · rintro ⟨o, ho, rfl⟩
      obtain ⟨e, he, rfl⟩ := hinv.resident.1 ho
      exact ⟨e, he, rfl⟩
  · obtain ⟨e, he, rfl⟩ := hinv.resident.1 hx
    constructor
    · intro hall
      have hone : 1 ≤ e.count := (hinv.refines.range x e he).1
      have hle : e.count ≤ s.max_freq := hall x _ hx
      omega
    · intro hpos y p hy
      obtain ⟨e', he', rfl⟩ := hinv.resident.1 hy
      have hle : e'.count ≤ max s.max_freq 1 := (hinv.refines.range y e' he').2
      show e'.count ≤ s.max_freq
      omega
  · obtain ⟨e, he, -⟩ := hinv.resident.1 hx
    obtain ⟨id, v, s', hvictim, hnode, hhead, hevict, -, hinv'⟩ := hinv.evict he
    refine ⟨_, _, id, v.obj, s', hnode, hhead, hinv.resident.2 ⟨v, hvictim.resident, rfl⟩, fun y p hy hne => ?_, hevict, fun y => ?_⟩
    · obtain ⟨e', he', rfl⟩ := hinv.resident.1 hy
      exact (hinv.earlier hvictim.resident he').2 (hvictim.first y e' he' hne)
    · have hobjs : s.hashtable.lookup y = (a.entry y).map Entry.obj := hinv.refines.objs y
      have hobjs' : s'.hashtable.lookup y = ((a.forget id).entry y).map Entry.obj := hinv'.refines.objs y
      rw [hobjs', hobjs, entry_forget, update_apply]
      split_ifs <;> rfl
  · obtain ⟨s', hcall, -, hmono⟩ := call_spec ⟨a, hinv, hclock⟩ hc
    exact ⟨s', hcall, hmono⟩

theorem LFUDA_key_order {cache_size : Int} {md : Bool} {s : State} {past : List Call}
    (h : Reach noted Careful (LFUDA_init cache_size md, []) (s, past)) : KeyOrder s past := by
  have hkept : Kept (s, past).1 (s, past).2 := by
    apply Reach.inv (fun t => Kept t.1 t.2) ?_ (init_kept cache_size md) h
    rintro ⟨t, before⟩ c _ hkept hcareful hstep
    obtain ⟨t', hcall, hkept', -⟩ := call_spec hkept hcareful
    simp only [noted, hcall, map_some, some.injEq] at hstep
    exact hstep ▸ hkept'
  exact hkept.key_order

instance (past : List Call) (x : ObjId) (o : FifoObj Int) (y : ObjId) (p : FifoObj Int) : Decidable (Earlier past x o y p) :=
  inferInstanceAs (Decidable (_ ∨ _ ∧ _))

instance (t : State × List Call) (c : Call) : Decidable (Careful t c) :=
  match c with
  | .get req =>
    match h : t.1.hashtable.lookup req.obj_id with
    | some o => decidable_of_iff
        (o.md = t.1.min_freq → ∃ e ∈ t.1.hashtable.entries, e.1 ≠ req.obj_id ∧ e.2.md ≤ o.md + t.1.min_freq)
        (by simp [Careful, h, AList.mem_lookup_iff.symm, and_left_comm])
    | none => decidable_of_iff
        (t.1.cache_size < req.obj_size + t.1.obj_md_size ∨ (t.1.min_freq = 0 ∧ t.1.hashtable.entries = []) ∨
          ∃ e ∈ t.1.hashtable.entries, (∀ d ∈ t.1.hashtable.entries, d.1 ≠ e.1 → Earlier t.2 d.1 d.2 e.1 e.2) ∧
            e.2.obj_size + req.obj_size + 2 * t.1.obj_md_size ≤ t.1.cache_size) (by
        have hempty : t.1.hashtable.entries = [] ↔ ∀ x, t.1.hashtable.lookup x = none := by
          simp [List.eq_nil_iff_forall_not_mem, AList.mem_lookup_iff.symm, Sigma.forall, Option.eq_none_iff_forall_ne_some]
        simp [Careful, h, hempty, AList.mem_lookup_iff.symm, Sigma.forall])
  | .evict => decidable_of_iff (∃ e ∈ t.1.hashtable.entries, True) (by simp [Careful, AList.mem_lookup_iff.symm])
  | .remove _ => inferInstanceAs (Decidable True)

def keys (s : State) : List (Option Int) := [1, 2, 3, 4].map fun id => (s.hashtable.lookup id).map (·.md)

/-- Objects 2, 3 and 4 have the keys 2, 1 and 2 when 3 is evicted. Of the two that are left 4 was asked for
earlier, and goes next. -/
theorem LFUDA_key_order_of_seven_calls :
    let past : List Call := [.get { obj_id := 1 }, .get { obj_id := 2 }, .get { obj_id := 1 }, .get { obj_id := 3 },
      .get { obj_id := 4 }, .get { obj_id := 2 }, .evict]
    ∃ s s', Reach noted Careful (LFUDA_init 3 false, []) (s, past) ∧ KeyOrder s past ∧ s.min_freq = 2 ∧
      keys s = [none, some 2, none, some 2] ∧ LFUDA_evict s = some s' ∧ keys s' = [none, some 2, none, none] := by
  intro past
  obtain ⟨⟨s, _⟩, hs, rfl, hmin, hkeys, s', hs', hkeys'⟩ : ∃ t,
      runs (fun t c => if Careful t c then noted t c else none) (LFUDA_init 3 false, []) past = some t ∧
      t.2 = past ∧ t.1.min_freq = 2 ∧ keys t.1 = [none, some 2, none, some 2] ∧
      ∃ s', LFUDA_evict t.1 = some s' ∧ keys s' = [none, some 2, none, none] := by decide +kernel
  have hreach := Reach.of_checked hs
  exact ⟨s, s', hreach, LFUDA_key_order hreach, hmin, hkeys, hs', hkeys'⟩

theorem refilled_not_evicted : ∃ s o, runs call (LFUDA_init 1 false) [.get { obj_id := 1 }, .get { obj_id := 2 }] = some s ∧
    s.hashtable.lookup 2 = some o ∧ LFUDA_evict s = none := by
  simp only [exists_and_left]
  decide

end CacheSim.Lfu.Lfuda
