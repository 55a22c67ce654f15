import CacheSim.Lru

/-!
# 2Q (`TwoQ.c`)

Objects enter the FIFO queue `Ain`. The ids that leave it stand in `Aout` for a while, and an object
that comes back from there enters the LRU queue `Am`.
-/

namespace CacheSim.TwoQ

open Lib

/-- `cache_t` with `TwoQ_params_t`. The policy keeps no metadata of its own in an object. -/
structure State where
  cache_size : Int
  n_req : Int := 0
  Ain : Fifo Unit
  Aout : Fifo Unit
  Am : Lru Unit
  hit_on_ghost : Bool := false
  Ain_cache_size : Int

/-- The two sizes are the products of the ratios with the capacity, as `int64_t`. `LRU_init` charges
two pointers for an object if metadata count, `FIFO_init` nothing. -/
def TwoQ_init (cache_size Ain_cache_size Aout_cache_size : Int) (consider_obj_metadata : Bool) : State where
  cache_size := cache_size
  Ain := { cache_size := Ain_cache_size }
  Aout := { cache_size := Aout_cache_size }
  Am := { cache_size := cache_size - Ain_cache_size, obj_md_size := if consider_obj_metadata then 8 * 2 else 0 }
  Ain_cache_size := Ain_cache_size

namespace State

variable (s : State)

def TwoQ_get_occupied_byte : Int := s.Ain.occupied_byte + s.Am.occupied_byte

end State

variable (s : State)

def TwoQ_probe (id : ObjId) : Option (FifoObj Unit) := (s.Ain.q.lookup id).or (s.Am.q.lookup id)

def TwoQ_find (req : Request) : State × Bool :=
  let s := { s with hit_on_ghost := false }
  match s.Ain.q.lookup req.obj_id with
  | some _ => (s, true)
  | none =>
    let (Aout, removed) := s.Aout.FIFO_remove req.obj_id
    let s := { s with Aout := Aout, hit_on_ghost := removed }
    let (Am, obj) := s.Am.LRU_find req true
    ({ s with Am := Am }, obj.isSome)

def TwoQ_insert (req : Request) : Option State :=
  if s.hit_on_ghost then do
    let (Am, _) ← s.Am.LRU_get req
    return { s with hit_on_ghost := false, Am := Am }
  else
    some { s with Ain := s.Ain.FIFO_insert req () }

/-- The assertion is that `Ain` has an object to give up. -/
def TwoQ_evict : Option State :=
  if s.Am.occupied_byte > 0 ∧ s.Ain.occupied_byte ≤ s.Ain_cache_size then do
    let Am ← s.Am.LRU_evict
    return { s with Am := Am }
  else do
    let obj ← s.Ain.FIFO_to_evict
    let (Aout, _) ← s.Aout.FIFO_get (copy_cache_obj_to_request obj)
    let Ain ← s.Ain.FIFO_evict
    return { s with Aout := Aout, Ain := Ain }

def TwoQ_remove (id : ObjId) : State × Bool :=
  let (Ain, removed) := s.Ain.FIFO_remove id
  if removed then ({ s with Ain := Ain }, true)
  else
    let (Aout, removed) := s.Aout.FIFO_remove id
    if removed then ({ s with Aout := Aout }, true)
    else
      let (Am, removed) := s.Am.LRU_remove id
      ({ s with Am := Am }, removed)

def TwoQ_can_insert (allows : Int → Request → Bool) (s : State) (req : Request) : Bool :=
  req.obj_size ≤ s.Ain.cache_size && (allows s.n_req req && !(req.obj_size > s.cache_size))

def ops (allows : Int → Request → Bool) : CacheOps State where
  count_req s := { s with n_req := s.n_req + 1 }
  find s req := some (TwoQ_find s req)
  can_insert s req := some (s, TwoQ_can_insert allows s req)
  get_occupied_byte s := s.TwoQ_get_occupied_byte
  obj_md_size _ := 0
  cache_size s := s.cache_size
  evict s _ := TwoQ_evict s
  insert s req := TwoQ_insert s req

def TwoQ_get (allows : Int → Request → Bool) (s : State) (req : Request) : Option (State × Bool) :=
  (ops allows).cache_get_base (fun s => s.Ain.q.entries.length + s.Am.q.entries.length) s req

/-!
## The three queues of 2Q

No id is in two queues. `Am` charges metadata that neither the parent nor `Ain` counts, so a get that
hits `Aout` can take the cache over its size; the others cannot.
-/

open Option AList Fifo CacheOps

structure Inv (s : State) : Prop where
  ain : s.Ain.Inv
  aout : s.Aout.Inv
  am : s.Am.Inv
  ain_md : s.Ain.obj_md_size = 0
  ain_size : 0 ≤ s.Ain_cache_size
  apart : ∀ x, s.Ain.q.lookup x = none ∨ s.Am.q.lookup x = none
  forgotten : ∀ x ∈ s.Aout.q, s.Ain.q.lookup x = none ∧ s.Am.q.lookup x = none

structure Unknown (s : State) (x : ObjId) : Prop where
  ain : s.Ain.q.lookup x = none
  am : s.Am.q.lookup x = none
  aout : x ∉ s.Aout.q

def Sized : Prop := ∀ x o, TwoQ_probe s x = some o → 1 ≤ o.obj_size

def params : Int × Int × Int × Int × Int :=
  (s.cache_size, s.Ain_cache_size, s.Ain.cache_size, s.Am.cache_size, s.Am.obj_md_size)

variable {s t u : State} {req : Request}

theorem params_eq_iff : params t = params s ↔ t.cache_size = s.cache_size ∧
    t.Ain_cache_size = s.Ain_cache_size ∧ t.Ain.cache_size = s.Ain.cache_size ∧ t.Am.cache_size = s.Am.cache_size ∧
    t.Am.obj_md_size = s.Am.obj_md_size := by
  simp only [params, Prod.mk.injEq]

structure Evicts (s s' : State) : Prop where
  inv : Inv s'
  resident : ∀ x o, TwoQ_probe s' x = some o → TwoQ_probe s x = some o
  unknown : ∀ x, Unknown s x → Unknown s' x
  params : params s' = params s
  hit_on_ghost : s'.hit_on_ghost = s.hit_on_ghost

theorem Evicts.refl (h : Inv s) : Evicts s s := ⟨h, fun _ _ ho => ho, fun _ hx => hx, rfl, rfl⟩

theorem Evicts.trans (h1 : Evicts s t) (h2 : Evicts t u) : Evicts s u :=
  ⟨h2.inv, fun x o ho => h1.resident x o (h2.resident x o ho), fun x hx => h2.unknown x (h1.unknown x hx),
    h2.params.trans h1.params, h2.hit_on_ghost.trans h1.hit_on_ghost⟩

theorem Evicts.sized {s' : State} (h : Evicts s s') (hs : Sized s) : Sized s' :=
  fun x o ho => hs x o (h.resident x o ho)

def State.count (s : State) : Nat := s.Ain.q.entries.length + s.Am.q.entries.length

/-! ## Eviction -/

theorem lookup_remove_base {μ : Type} (c : Fifo μ) (id x : ObjId) (o : FifoObj μ) :
    (c.cache_remove_obj_base id o).q.lookup x = if x = id then none else c.q.lookup x := by
  split_ifs with hx
  · subst hx
    exact lookup_erase x c.q
  · exact lookup_erase_ne hx

theorem TwoQ_evict_spec (h : Inv s) (hocc : 0 < s.TwoQ_get_occupied_byte) :
    ∃ s', TwoQ_evict s = some s' ∧ Evicts s s' ∧ s'.count < s.count ∧
      ((s.Ain.occupied_byte ≤ s.Ain_cache_size ∧ s'.Ain = s.Ain) ∨
        (s'.Am = s.Am ∧ ∃ a, s.Ain.charges = a :: s'.Ain.charges)) := by
  unfold State.TwoQ_get_occupied_byte at hocc
  have hsize := h.ain_size
  unfold TwoQ_evict
  split_ifs with hcond
  · obtain ⟨e, l, -, hlook, -, hev, -⟩ := FIFO_evict_charges (entries_ne_nil_of_occupied h.am hcond.1)
    have hgone := fun x => lookup_remove_base s.Am e.1 x e.2
    have hlen := (Table.perm_erase hlook).length_eq
    refine ⟨{ s with Am := s.Am.cache_remove_obj_base e.1 e.2 }, ?_, ?_, ?_, .inl ⟨hcond.2, rfl⟩⟩
    · unfold Lru.LRU_evict
      rw [hev]
      rfl
    · refine ⟨{ h with am := h.am.remove hlook, apart := ?_, forgotten := ?_ }, ?_, ?_, rfl, rfl⟩
      · grind [h.apart]
      · grind [h.forgotten]
      · grind [TwoQ_probe]
      · rintro x ⟨h1, h2, h3⟩
        exact ⟨h1, by rw [hgone, h2, ite_self], h3⟩
    · rw [List.length_cons] at hlen
      show s.Ain.q.entries.length + (s.Am.q.erase e.1).entries.length < s.Ain.q.entries.length + s.Am.q.entries.length
      omega
  · obtain ⟨e, l, hlast, hlook, -, hev, hch⟩ :=
      FIFO_evict_charges (entries_ne_nil_of_occupied h.ain (by omega))
    obtain ⟨Aout, hit, hget, hinv, hnew⟩ := FIFO_get_spec h.aout (copy_cache_obj_to_request e)
    have hgone := fun x => lookup_remove_base s.Ain e.1 x e.2
    have hlen := (Table.perm_erase hlook).length_eq
    refine ⟨{ s with Aout := Aout, Ain := s.Ain.cache_remove_obj_base e.1 e.2 }, ?_, ?_, ?_, .inr ⟨rfl, _, hch⟩⟩
    · simp [hlast, hget, hev]
    · have ham : s.Am.q.lookup e.1 = none := (h.apart e.1).resolve_left (by simp [hlook])
      refine ⟨⟨h.ain.remove hlook, hinv, h.am, h.ain_md, h.ain_size, ?_, ?_⟩, ?_, ?_, rfl, rfl⟩
      · grind [h.apart]
      · intro x hx
        rcases hnew x hx with rfl | hx
        · exact ⟨by rw [hgone]; exact if_pos rfl, ham⟩
        · grind [h.forgotten x hx]
      · grind [TwoQ_probe]
      · rintro x ⟨h1, h2, h3⟩
        refine ⟨by rw [hgone, h1, ite_self], h2, fun hx => ?_⟩
        rcases hnew x hx with rfl | hx
        · exact absurd (h1.symm.trans hlook) (by simp)
        · exact h3 hx
    · rw [List.length_cons] at hlen
      show (s.Ain.q.erase e.1).entries.length + s.Am.q.entries.length < s.Ain.q.entries.length + s.Am.q.entries.length
      omega

def ain_left (s : State) (req : Request) : Int :=
  (Fifo.kept (s.cache_size - s.Am.occupied_byte - req.obj_size) s.Ain.charges).sum

theorem charges_nonneg (h : Inv s) (hs : Sized s) : ∀ a ∈ s.Ain.charges, 0 ≤ a := by
  intro a ha
  simp only [Fifo.charges, List.mem_reverse, List.mem_map] at ha
  obtain ⟨e, he, rfl⟩ := ha
  have hsize := hs e.1 e.2 (by simp [TwoQ_probe, Table.lookup_of_mem_entries he])
  have hmd := h.ain_md
  unfold Fifo.charge
  omega

theorem ain_left_le (h : Inv s) (hs : Sized s) (req : Request) : ain_left s req ≤ s.Ain.occupied_byte := by
  rw [← h.ain.charges_sum]
  exact kept_sum_le (charges_nonneg h hs)

theorem make_room_spec (allows : Int → Request → Bool) (h : Inv s)
    (hsize : req.obj_size ≤ s.cache_size) :
    ∃ t, whileLoop ((ops allows).full_for req) ((ops allows).evict · req) s.count s = some t ∧ Evicts s t ∧
      t.TwoQ_get_occupied_byte + req.obj_size ≤ s.cache_size ∧
      (Sized s → (t.Am = s.Am ∧ t.Ain.occupied_byte = ain_left s req) ∨
        (ain_left s req ≤ s.Ain_cache_size ∧ t.Ain.occupied_byte ≤ s.Ain_cache_size)) := by
  let I : State → Prop := fun t => Evicts s t ∧
    (Sized s → (t.Am = s.Am ∧ ain_left t req = ain_left s req) ∨
      (ain_left s req ≤ s.Ain_cache_size ∧ t.Ain.occupied_byte ≤ s.Ain_cache_size))
  have hbody : ∀ t, I t → (ops allows).full_for req t = true →
      ∃ t', (ops allows).evict t req = some t' ∧ I t' ∧ t'.count < t.count := by
    rintro t ⟨hev, hleft⟩ hfull
    have hp := params_eq_iff.1 hev.params
    rw [full_for_iff] at hfull
    simp only [ops] at hfull
    obtain ⟨t', ht', hev', hcount, hwhich⟩ := TwoQ_evict_spec hev.inv (by omega)
    refine ⟨t', ht', ⟨hev.trans hev', fun hs => ?_⟩, hcount⟩
    have hle := ain_left_le hev.inv (hev.sized hs) req
    rcases hwhich with ⟨hshare, hain⟩ | ⟨ham, a, hch⟩
    · -- `Am` gives an object up: from here on `Ain` is within its share
      right
      rw [hain]
      rcases hleft hs with ⟨-, heq⟩ | hleft
      · omega
      · exact hleft
    · have hsum := hev.inv.ain.charges_sum
      rw [hch, List.sum_cons, hev'.inv.ain.charges_sum] at hsum
      rcases hleft hs with ⟨hsame, heq⟩ | ⟨hleft, hshare⟩
      · left
        refine ⟨ham.trans hsame, ?_⟩
        have hp' := params_eq_iff.1 hev'.params
        unfold State.TwoQ_get_occupied_byte at hfull
        rw [← heq]
        unfold ain_left
        rw [ham, hp'.1, hch, Fifo.kept, if_neg]
        rw [List.sum_cons, hev'.inv.ain.charges_sum]
        omega
      · right
        have ha := charges_nonneg hev.inv (hev.sized hs) a (by simp [hch])
        omega
  obtain ⟨t, hloop, ⟨hev, hleft⟩, hexit⟩ :=
    whileLoop_total I State.count hbody _ s ⟨.refl h, fun _ => .inl ⟨rfl, rfl⟩⟩ le_rfl
  have hp := params_eq_iff.1 hev.params
  rw [full_for_false_iff] at hexit
  simp only [ops] at hexit
  refine ⟨t, hloop, hev, by omega, fun hs => (hleft hs).imp_left fun ⟨hsame, heq⟩ => ⟨hsame, ?_⟩⟩
  unfold State.TwoQ_get_occupied_byte at hexit
  have hsum := hev.inv.ain.charges_sum
  rw [← heq]
  unfold ain_left
  rw [kept_of_le (by omega), hsum]

theorem TwoQ_find_hit (h : Inv s) (hit : (TwoQ_probe s req.obj_id).isSome) :
    ∃ s', TwoQ_find s req = (s', true) ∧ Inv s' ∧ (∀ x, TwoQ_probe s' x = TwoQ_probe s x) ∧
      s'.TwoQ_get_occupied_byte = s.TwoQ_get_occupied_byte ∧ params s' = params s ∧ req.obj_id ∉ s.Aout.q := by
  have hold : req.obj_id ∉ s.Aout.q := by
    intro hx
    simp [TwoQ_probe, h.forgotten _ hx] at hit
  unfold TwoQ_find
  dsimp only
  rcases hain : s.Ain.q.lookup req.obj_id with _ | o
  · obtain ⟨o, ham⟩ : ∃ o, s.Am.q.lookup req.obj_id = some o := by
      simpa [TwoQ_probe, hain, isSome_iff_exists] using hit
    have hsame : s.Aout.FIFO_remove req.obj_id = (s.Aout, false) := by
      simp [Fifo.FIFO_remove, lookup_eq_none.2 hold]
    have hmove := Lru.lookup_move_to_head ham
    rw [hsame]
    rw [Lru.LRU_find_hit ham]
    refine ⟨_, rfl, ?_, ?_, rfl, rfl, hold⟩
    · refine { h with am := Lru.Inv.move_to_head h.am ham, apart := ?_, forgotten := ?_ }
      · intro x
        rw [hmove]
        exact h.apart x
      · intro x hx
        rw [hmove]
        exact h.forgotten x hx
    · simp [TwoQ_probe, hmove]
  · exact ⟨_, rfl, { h with }, fun _ => rfl, rfl, rfl, hold⟩

theorem TwoQ_find_miss (hmiss : TwoQ_probe s req.obj_id = none) :
    TwoQ_find s req = ({ s with
      Aout := (s.Aout.FIFO_remove req.obj_id).1, hit_on_ghost := (s.Aout.q.lookup req.obj_id).isSome }, false) := by
  simp only [TwoQ_probe, or_eq_none_iff] at hmiss
  unfold TwoQ_find
  simp [hmiss.1, Lru.LRU_find_miss hmiss.2, FIFO_remove_snd]

/-- The state in which a lookup that misses leaves the cache; the flag says whether `Aout` had the id. -/
def missed (s : State) (id : ObjId) : State :=
  { s with
    n_req := s.n_req + 1
    Aout := (s.Aout.FIFO_remove id).1
    hit_on_ghost := (s.Aout.q.lookup id).isSome }

theorem missed_spec (h : Inv s) {id : ObjId} (hmiss : TwoQ_probe s id = none) :
    Inv (missed s id) ∧ Unknown (missed s id) id := by
  simp only [TwoQ_probe, or_eq_none_iff] at hmiss
  obtain ⟨hinv, hleft⟩ := FIFO_remove_spec h.aout id
  constructor
  · exact { h with aout := hinv, forgotten := fun x hx => h.forgotten x ((hleft x).1 hx).2 }
  · exact ⟨hmiss.1, hmiss.2, fun hx => ((hleft id).1 hx).1 rfl⟩

/-! ## Insertion -/

theorem TwoQ_insert_plain (h : Inv s) (hnew : Unknown s req.obj_id)
    (hflag : s.hit_on_ghost = false) :
    ∃ s', TwoQ_insert s req = some s' ∧ Inv s' ∧
      (∀ x o, TwoQ_probe s' x = some o → x = req.obj_id ∧ o.obj_size = req.obj_size ∨ TwoQ_probe s x = some o) ∧
      s'.TwoQ_get_occupied_byte = s.TwoQ_get_occupied_byte + req.obj_size ∧ params s' = params s := by
  have hput := lookup_FIFO_insert (c := s.Ain) req ()
  obtain ⟨hain, ham, haout⟩ := hnew
  refine ⟨{ s with Ain := s.Ain.FIFO_insert req () }, by simp [TwoQ_insert, hflag], ?_, ?_, ?_, rfl⟩
  · refine ⟨h.ain.insert () (lookup_eq_none.1 hain), h.aout, h.am, h.ain_md, h.ain_size, ?_, ?_⟩
    · grind [h.apart]
    · grind [h.forgotten]
  · grind [TwoQ_probe]
  · have hmd := h.ain_md
    unfold State.TwoQ_get_occupied_byte Fifo.FIFO_insert
    dsimp only
    omega

theorem TwoQ_insert_ghost (h : Inv s) (hnew : Unknown s req.obj_id)
    (hflag : s.hit_on_ghost = true) :
    ∃ s', TwoQ_insert s req = some s' ∧ Inv s' ∧
      (∀ x o, TwoQ_probe s' x = some o → x = req.obj_id ∧ o.obj_size = req.obj_size ∨ TwoQ_probe s x = some o) ∧
      s'.Ain = s.Ain ∧ params s' = params s ∧
      (req.obj_id ∈ s'.Am.q ↔ req.obj_size + s.Am.obj_md_size ≤ s.Am.cache_size) ∧
      (req.obj_size + s.Am.obj_md_size ≤ s.Am.cache_size → s'.Am.occupied_byte =
        (Fifo.kept (s.Am.cache_size - (req.obj_size + s.Am.obj_md_size)) s.Am.charges).sum +
          (req.obj_size + s.Am.obj_md_size)) := by
  obtain ⟨hain, ham, haout⟩ := hnew
  rcases lt_or_ge s.Am.cache_size (req.obj_size + s.Am.obj_md_size) with hlarge | hroom
  · refine ⟨{ s with hit_on_ghost := false, Am := { s.Am with n_req := s.Am.n_req + 1 } }, ?_, ?_, ?_, rfl, rfl, ?_, ?_⟩
    · simp [TwoQ_insert, hflag, Lru.LRU_get_reject ham hlarge]
    · exact { h with am := ⟨h.am.occupied, h.am.n_obj⟩ }
    · exact fun x o ho => .inr ho
    · exact iff_of_false (lookup_eq_none.1 ham) (by omega)
    · omega
  · obtain ⟨Am, hget, hinv, hcs, hmd, hlook, hsub, hocc⟩ := Lru.LRU_get_insert h.am ham hroom
    have hnone : ∀ x ≠ req.obj_id, s.Am.q.lookup x = none → Am.q.lookup x = none := by
      intro x hx hold
      rcases ho : Am.q.lookup x with _ | o
      · rfl
      · exact absurd (hsub x o hx ho) (by simp [hold])
    refine ⟨{ s with hit_on_ghost := false, Am := Am }, ?_, ?_, ?_, rfl, ?_, ?_, fun _ => hocc⟩
    · simp [TwoQ_insert, hflag, hget]
    · refine { h with am := hinv, apart := ?_, forgotten := ?_ }
      · grind [h.apart]
      · grind [h.forgotten]
    · intro x o ho
      simp only [TwoQ_probe, or_eq_some_iff] at ho ⊢
      rcases eq_or_ne x req.obj_id with rfl | hx
      · left
        rw [hain, hlook] at ho
        simp at ho
        simp [← ho]
      · exact .inr (ho.imp_right fun ho => ⟨ho.1, hsub x o hx ho.2⟩)
    · simp [params, hcs, hmd]
    · exact iff_of_true (Table.mem_of_lookup hlook) hroom

/-! ## Gets -/

theorem TwoQ_get_hit (allows : Int → Request → Bool) (h : Inv s)
    (hit : (TwoQ_probe s req.obj_id).isSome) :
    ∃ s', TwoQ_get allows s req = some (s', true) ∧ Inv s' ∧ (∀ x, TwoQ_probe s' x = TwoQ_probe s x) ∧
      s'.TwoQ_get_occupied_byte = s.TwoQ_get_occupied_byte ∧ params s' = params s ∧ req.obj_id ∉ s.Aout.q := by
  have hcount : Inv { s with n_req := s.n_req + 1 } :=
    { h with }
  obtain ⟨s', hfind, hs'⟩ := TwoQ_find_hit hcount hit
  exact ⟨s', cache_get_base_hit (congrArg some hfind), hs'⟩

theorem TwoQ_get_reject (allows : Int → Request → Bool)
    (hmiss : TwoQ_probe s req.obj_id = none) (hcan : TwoQ_can_insert allows (missed s req.obj_id) req = false) :
    TwoQ_get allows s req = some (missed s req.obj_id, false) := by
  have hfind : TwoQ_find { s with n_req := s.n_req + 1 } req = (missed s req.obj_id, false) := TwoQ_find_miss hmiss
  exact cache_get_base_reject (congrArg some hfind) (congrArg (fun b => some (missed s req.obj_id, b)) hcan)

theorem TwoQ_get_insert (allows : Int → Request → Bool)
    (hmiss : TwoQ_probe s req.obj_id = none) (hcan : TwoQ_can_insert allows (missed s req.obj_id) req = true)
    (hloop : whileLoop ((ops allows).full_for req) ((ops allows).evict · req) (missed s req.obj_id).count
      (missed s req.obj_id) = some t)
    (hinsert : TwoQ_insert t req = some u) : TwoQ_get allows s req = some (u, false) := by
  have hfind : TwoQ_find { s with n_req := s.n_req + 1 } req = (missed s req.obj_id, false) := TwoQ_find_miss hmiss
  exact cache_get_base_insert (congrArg some hfind)
    (congrArg (fun b => some (missed s req.obj_id, b)) hcan) hloop hinsert

theorem size_le_of_can_insert {allows : Int → Request → Bool}
    (hcan : TwoQ_can_insert allows s req = true) : req.obj_size ≤ s.cache_size := by
  simp only [TwoQ_can_insert, Bool.and_eq_true, Bool.not_eq_eq_eq_not, Bool.not_true, decide_eq_false_iff_not] at hcan
  omega

theorem TwoQ_get_inv (allows : Int → Request → Bool) (h : Inv s) (req : Request) :
    ∃ s' hit, TwoQ_get allows s req = some (s', hit) ∧ Inv s' := by
  rcases hprobe : TwoQ_probe s req.obj_id with _ | o
  · obtain ⟨hinv, hnew⟩ := missed_spec h hprobe
    cases hcan : TwoQ_can_insert allows (missed s req.obj_id) req with
    | false => exact ⟨_, _, TwoQ_get_reject allows hprobe hcan, hinv⟩
    | true =>
      obtain ⟨t, hloop, hev, -⟩ := make_room_spec allows hinv (size_le_of_can_insert hcan)
      cases hflag : t.hit_on_ghost with
      | true =>
        obtain ⟨u, hu, hu', -⟩ := TwoQ_insert_ghost hev.inv (hev.unknown _ hnew) hflag
        exact ⟨u, false, TwoQ_get_insert allows hprobe hcan hloop hu, hu'⟩
      | false =>
        obtain ⟨u, hu, hu', -⟩ := TwoQ_insert_plain hev.inv (hev.unknown _ hnew) hflag
        exact ⟨u, false, TwoQ_get_insert allows hprobe hcan hloop hu, hu'⟩
  · obtain ⟨s', hget, hs', -⟩ := TwoQ_get_hit allows h (by rw [hprobe]; rfl)
    exact ⟨s', true, hget, hs'⟩

theorem TwoQ_remove_spec (h : Inv s) (id : ObjId) :
    TwoQ_remove s id = ({ s with
      Ain := (s.Ain.FIFO_remove id).1, Aout := (s.Aout.FIFO_remove id).1, Am := (s.Am.FIFO_remove id).1 },
      (TwoQ_probe s id).isSome || (s.Aout.q.lookup id).isSome) := by
  have hskip : ∀ {c : Fifo Unit}, c.q.lookup id = none → c.FIFO_remove id = (c, false) := by
    intro c hc
    simp [Fifo.FIFO_remove, hc]
  unfold TwoQ_remove Lru.LRU_remove
  dsimp only
  rw [FIFO_remove_snd, FIFO_remove_snd, FIFO_remove_snd]
  rcases hain : s.Ain.q.lookup id with _ | o
  · rw [hskip hain]
    rcases haout : s.Aout.q.lookup id with _ | o
    · rw [hskip haout]
      simp [TwoQ_probe, hain]
    · rw [hskip (h.forgotten id (Table.mem_of_lookup haout)).2]
      simp
  · have ham : s.Am.q.lookup id = none := (h.apart id).resolve_left (by simp [hain])
    have haout : s.Aout.q.lookup id = none := by
      rw [lookup_eq_none]
      intro hx
      simp [(h.forgotten id hx).1] at hain
    rw [hskip ham, hskip haout]
    simp [TwoQ_probe, hain]

theorem TwoQ_remove_inv (h : Inv s) (id : ObjId) : Inv (TwoQ_remove s id).1 := by
  rw [TwoQ_remove_spec h]
  have hgone := fun x => lookup_FIFO_remove (c := s.Ain) id x
  have hgone' := fun x => lookup_FIFO_remove (c := s.Am) id x
  obtain ⟨hinv, hleft⟩ := FIFO_remove_spec h.aout id
  refine ⟨(FIFO_remove_spec h.ain id).1, hinv, (FIFO_remove_spec h.am id).1, ?_, h.ain_size, ?_, ?_⟩
  · simp [h.ain_md]
  · grind [h.apart]
  · intro x hx
    grind [h.forgotten x ((hleft x).1 hx).2]

/-! ## When a get keeps the cache within its size -/

def Disjoint (s : State) : Prop :=
  (∀ x, ¬ (x ∈ s.Ain.q ∧ x ∈ s.Am.q)) ∧ ∀ x ∈ s.Aout.q, x ∉ s.Ain.q ∧ x ∉ s.Am.q

theorem Inv.disjoint (h : Inv s) : Disjoint s := by
  constructor
  · intro x
    have hx := h.apart x
    simp only [lookup_eq_none] at hx
    tauto
  · intro x hx
    simpa only [lookup_eq_none] using h.forgotten x hx

/-- What a get is to do: the queues stay apart, a hit on `Aout` brings the object into `Am`, and the
cache stays within its size. -/
structure Served (s s' : State) (req : Request) : Prop where
  disjoint : Disjoint s'
  promoted : req.obj_id ∈ s.Aout.q → req.obj_id ∈ s'.Am.q
  fits : s'.TwoQ_get_occupied_byte ≤ s'.cache_size

def am_left (s : State) (req : Request) : Int :=
  (Fifo.kept (s.Am.cache_size - (req.obj_size + s.Am.obj_md_size)) s.Am.charges).sum

/-- The request is a miss of `Aout`, or the object may be inserted, fits into `Am` with its metadata,
and has room there: if `Ain` alone made room and is still over its share, then the bytes that are
left of both queues have room for the object and its metadata. -/
def Meets (allows : Int → Request → Bool) (s : State) (req : Request) : Prop :=
  req.obj_id ∈ s.Aout.q →
    TwoQ_can_insert allows { s with n_req := s.n_req + 1 } req = true ∧
    req.obj_size + s.Am.obj_md_size ≤ s.Am.cache_size ∧
    (ain_left s req ≤ s.Ain_cache_size ∨
      ain_left s req + am_left s req + (req.obj_size + s.Am.obj_md_size) ≤ s.cache_size)

instance (allows : Int → Request → Bool) (s : State) (req : Request) : Decidable (Meets allows s req) :=
  inferInstanceAs (Decidable (_ → _))

structure Fits (s : State) : Prop where
  inv : Inv s
  sized : Sized s
  fits : s.TwoQ_get_occupied_byte ≤ s.cache_size
  shares : s.Ain_cache_size + s.Am.cache_size = s.cache_size

theorem fits_iff_of_ghost (hshares : s.Ain_cache_size + s.Am.cache_size = s.cache_size)
    (hroom : req.obj_size + s.Am.obj_md_size ≤ s.Am.cache_size) (hain : u.Ain = t.Ain)
    (hocc : u.Am.occupied_byte = (Fifo.kept (s.Am.cache_size - (req.obj_size + s.Am.obj_md_size)) t.Am.charges).sum +
      (req.obj_size + s.Am.obj_md_size))
    (hleft : (t.Am = s.Am ∧ t.Ain.occupied_byte = ain_left s req) ∨
      (ain_left s req ≤ s.Ain_cache_size ∧ t.Ain.occupied_byte ≤ s.Ain_cache_size)) :
    u.TwoQ_get_occupied_byte ≤ s.cache_size ↔ ain_left s req ≤ s.Ain_cache_size ∨
      ain_left s req + am_left s req + (req.obj_size + s.Am.obj_md_size) ≤ s.cache_size := by
  have hlimit : 0 ≤ s.Am.cache_size - (req.obj_size + s.Am.obj_md_size) := by omega
  have hkept := kept_sum_le_limit hlimit t.Am.charges
  unfold State.TwoQ_get_occupied_byte am_left
  rw [hain, hocc]
  rcases hleft with ⟨ham, hleft⟩ | ⟨hleft, hshare⟩
  · rw [ham] at hkept ⊢
    omega
  · omega

theorem Sized.insert {s' : State} (h : Sized s) (hsize : 1 ≤ req.obj_size)
    (hres : ∀ x o, TwoQ_probe s' x = some o → x = req.obj_id ∧ o.obj_size = req.obj_size ∨ TwoQ_probe s x = some o) :
    Sized s' := by
  intro x o ho
  rcases hres x o ho with ⟨-, hnew⟩ | hold
  · rw [hnew]
    exact hsize
  · exact h x o hold

theorem TwoQ_get_served (allows : Int → Request → Bool) (h : Fits s) (hsize : 1 ≤ req.obj_size) :
    ∃ s' hit, TwoQ_get allows s req = some (s', hit) ∧ Inv s' ∧ Sized s' ∧ params s' = params s ∧
      (Served s s' req ↔ Meets allows s req) := by
  have hp : ∀ {u : State}, params u = params s → u.cache_size = s.cache_size := fun hu => congrArg Prod.fst hu
  rcases hprobe : TwoQ_probe s req.obj_id with _ | o
  · obtain ⟨hinv, hnew⟩ := missed_spec h.inv hprobe
    cases hcan : TwoQ_can_insert allows (missed s req.obj_id) req with
    | false =>
      refine ⟨_, false, TwoQ_get_reject allows hprobe hcan, hinv, h.sized, rfl, ?_⟩
      constructor
      · intro hserved hx
        exact absurd (hserved.promoted hx) (lookup_eq_none.1 hnew.am)
      · intro hmeets
        refine ⟨hinv.disjoint, fun hx => ?_, h.fits⟩
        exact absurd ((hmeets hx).1.symm.trans hcan) (by simp)
    | true =>
      obtain ⟨t, hloop, hev, hroom, hleft⟩ := make_room_spec allows hinv (size_le_of_can_insert hcan)
      have hpt : params t = params s := hev.params
      cases hflag : t.hit_on_ghost with
      | true =>
        have hx : req.obj_id ∈ s.Aout.q := by
          rw [hev.hit_on_ghost] at hflag
          exact lookup_isSome.1 hflag
        obtain ⟨u, hu, hinvu, hres, hain, hpu, hmem, hocc⟩ := TwoQ_insert_ghost hev.inv (hev.unknown _ hnew) hflag
        refine ⟨u, false, TwoQ_get_insert allows hprobe hcan hloop hu, hinvu,
          Sized.insert (hev.sized h.sized) hsize hres, hpu.trans hpt, ?_⟩
        obtain ⟨-, -, -, hcs, hmd⟩ := params_eq_iff.1 hpt
        rw [hcs, hmd] at hmem hocc
        have hfits := fun hr => fits_iff_of_ghost h.shares hr hain (hocc hr) (hleft h.sized)
        constructor
        · intro hserved _
          have hr := hmem.1 (hserved.promoted hx)
          exact ⟨hcan, hr, (hfits hr).1 (hp (hpu.trans hpt) ▸ hserved.fits)⟩
        · intro hmeets
          obtain ⟨-, hr, hleft⟩ := hmeets hx
          refine ⟨hinvu.disjoint, fun _ => hmem.2 hr, ?_⟩
          rw [hp (hpu.trans hpt)]
          exact (hfits hr).2 hleft
      | false =>
        have hx : req.obj_id ∉ s.Aout.q := by
          rw [hev.hit_on_ghost] at hflag
          intro hx
          rw [show (missed s req.obj_id).hit_on_ghost = (s.Aout.q.lookup req.obj_id).isSome from rfl,
            lookup_isSome.2 hx] at hflag
          exact absurd hflag (by simp)
        obtain ⟨u, hu, hinvu, hres, hocc, hpu⟩ := TwoQ_insert_plain hev.inv (hev.unknown _ hnew) hflag
        refine ⟨u, false, TwoQ_get_insert allows hprobe hcan hloop hu, hinvu,
          Sized.insert (hev.sized h.sized) hsize hres, hpu.trans hpt, ?_⟩
        refine iff_of_true ⟨hinvu.disjoint, fun h' => absurd h' hx, ?_⟩ fun h' => absurd h' hx
        rw [hocc, hp (hpu.trans hpt)]
        exact hroom
  · obtain ⟨s', hget, hinv, hsame, hocc, hpar, hx⟩ := TwoQ_get_hit allows h.inv (by rw [hprobe]; rfl)
    refine ⟨s', true, hget, hinv, fun x o ho => h.sized x o (hsame x ▸ ho), hpar, ?_⟩
    refine iff_of_true ⟨hinv.disjoint, fun h' => absurd h' hx, ?_⟩ fun h' => absurd h' hx
    rw [hocc, hp hpar]
    exact h.fits

/-! ## Runs -/

def get (allows : Int → Request → Bool) (s : State) (req : Request) : Option State := (TwoQ_get allows s req).map (·.1)

theorem TwoQ_init_fits (cache_size Ain_cache_size : Nat) (Aout_cache_size : Int) (md : Bool) :
    Fits (TwoQ_init cache_size Ain_cache_size Aout_cache_size md) := by
  refine ⟨⟨init_inv _ _, init_inv _ _, init_inv _ _, rfl, ?_, fun x => .inl rfl, fun x _ => ⟨rfl, rfl⟩⟩,
    ?_, ?_, ?_⟩
  · exact Int.natCast_nonneg _
  · intro x o ho
    simp [TwoQ_probe, TwoQ_init] at ho
  · exact Int.natCast_nonneg _
  · simp [TwoQ_init]

/-- In every state that is reached by gets which meet the condition, the queues are disjoint and fit
into the cache. There every get returns, and it does what it is to do if and only if it meets it too. -/
theorem gets_served (cache_size Ain_cache_size : Nat) (Aout_cache_size : Int) (md : Bool)
    (allows : Int → Request → Bool) {s : State}
    (hr : Reach (get allows) (fun s req => 1 ≤ req.obj_size ∧ Meets allows s req)
      (TwoQ_init cache_size Ain_cache_size Aout_cache_size md) s) :
    Disjoint s ∧ s.TwoQ_get_occupied_byte ≤ cache_size ∧
    ∀ req, 1 ≤ req.obj_size → ∃ s' hit, TwoQ_get allows s req = some (s', hit) ∧
      (Served s s' req ↔ Meets allows s req) := by
  have hfits : Fits s ∧ s.cache_size = cache_size := by
    apply Reach.inv (fun s => Fits s ∧ s.cache_size = cache_size) _ ⟨TwoQ_init_fits _ _ _ _, rfl⟩ hr
    rintro s req s' ⟨h, hcs⟩ ⟨hsize, hmeets⟩ hget
    obtain ⟨t, hit, ht, hinv, hsized, hpar, hserved⟩ := TwoQ_get_served allows h hsize
    obtain rfl : t = s' := by simpa [get, ht] using hget
    have hshares := h.shares
    rw [params_eq_iff] at hpar
    refine ⟨⟨hinv, hsized, (hserved.2 hmeets).fits, by omega⟩, by omega⟩
  refine ⟨hfits.1.inv.disjoint, hfits.2 ▸ hfits.1.fits, fun req hsize => ?_⟩
  obtain ⟨s', hit, hget, -, -, -, hserved⟩ := TwoQ_get_served allows hfits.1 hsize
  exact ⟨s', hit, hget, hserved⟩

def exampleTrace : List Request :=
  [1, 2, 3, 4, 5, 1].map fun id => { obj_id := id, obj_size := 10 }

/-- With the default ratios, a cache of 40 bytes holds 56 once the first object is in `Am`. -/
theorem not_gets_served : ¬ ∀ s, Reach (get fun _ _ => true) (fun _ req => 1 ≤ req.obj_size) (TwoQ_init 40 10 20 true) s →
    s.TwoQ_get_occupied_byte ≤ 40 := by
  intro h
  have hrun : (runs (get fun _ _ => true) (TwoQ_init 40 10 20 true) exampleTrace).map (·.TwoQ_get_occupied_byte) = some 56 := by
    decide +kernel
  obtain ⟨s, hs, hocc⟩ := map_eq_some_iff.1 hrun
  have hsized : ∀ req ∈ exampleTrace, 1 ≤ req.obj_size := by decide
  have hle := h s (.of_runs (fun req hreq _ => hsized req hreq) hs)
  omega

theorem gets_served_without_metadata : ∃ s,
    Reach (get fun _ _ => true) (fun s req => 1 ≤ req.obj_size ∧ Meets (fun _ _ => true) s req) (TwoQ_init 40 10 20 false) s ∧
    s.TwoQ_get_occupied_byte = 40 ∧ Disjoint s := by
  have hrun : ((runs (fun s req => if 1 ≤ req.obj_size ∧ Meets (fun _ _ => true) s req then get (fun _ _ => true) s req else none)
      (TwoQ_init 40 10 20 false) exampleTrace).map (·.TwoQ_get_occupied_byte)) = some 40 := by decide +kernel
  obtain ⟨s, hs, hocc⟩ := map_eq_some_iff.1 hrun
  have hr := Reach.of_checked hs
  exact ⟨s, hr, hocc, (gets_served 40 10 20 false (fun _ _ => true) hr).1⟩

end CacheSim.TwoQ
