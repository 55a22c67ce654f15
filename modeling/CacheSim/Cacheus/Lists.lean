import CacheSim.Cacheus.Model
import CacheSim.Cacheus.Ones

/-!
# The lists of SR-LRU

With objects of one byte. An object is on one of the three lists, and R and SR share the capacity. A demotion moves the last
object of R to SR, marks it, and counts it.
-/

namespace CacheSim.Cacheus

open Lib Option Lru SrLru

def SrLru.holds (s : SrLru) (x : ObjId) : Prop := x ∈ s.R_list.q ∨ x ∈ s.SR_list.q

instance {s : SrLru} {x : ObjId} : Decidable (s.holds x) := inferInstanceAs (Decidable (_ ∨ _))

def SrLru.demoted_drift (s : SrLru) : Int := s.C_demoted - s.SR_list.count (·.demoted)

def SrLru.new_drift (s : SrLru) : Int := s.C_new - s.H_list.count (·.new_obj)

structure Lists (c : Int) (s : SrLru) : Prop where
  md : s.obj_md_size = 0
  R : s.R_list.Ones
  SR : s.SR_list.Ones
  H : s.H_list.Ones
  R_SR : ∀ x ∈ s.R_list.q, x ∉ s.SR_list.q
  H_out : ∀ x ∈ s.H_list.q, ¬ s.holds x
  H_size : s.H_list.cache_size = c
  R_size : s.R_list.cache_size = c - s.SR_list.cache_size
  /-- the marks are cleared on the way to R -/
  R_md : ∀ x o, s.R_list.q.lookup x = some o → o.md.demoted = false ∧ o.md.new_obj = false
  H_freq : ∀ x o, s.H_list.q.lookup x = some o → 0 ≤ o.md.freq
  H_new : 0 ≤ s.new_drift

variable {c : Int} {s s' t : SrLru} {req : Request} {o : FifoObj Md} {id : ObjId}

theorem Lists.C_new_pos (h : Lists c s) (ho : s.H_list.q.lookup id = some o) (hnew : o.md.new_obj = true) : 0 < s.C_new := by
  have hcount := count_pos (p := (·.new_obj)) ho hnew
  have hdrift := h.H_new
  unfold SrLru.new_drift at hdrift
  omega

/-! ## Demotions -/

structure Demotes (c : Int) (s s' : SrLru) : Prop where
  lists : Lists c s'
  H_list : s'.H_list = s.H_list
  C_new : s'.C_new = s.C_new
  SR_size : s'.SR_list.cache_size = s.SR_list.cache_size
  occupied : SR_LRU_get_occupied_byte s' = SR_LRU_get_occupied_byte s
  holds : ∀ x, s'.holds x ↔ s.holds x
  drift : s'.demoted_drift = s.demoted_drift
  entries : s'.R_list.q.entries <+: s.R_list.q.entries

theorem Demotes.refl (h : Lists c s) : Demotes c s s := ⟨h, rfl, rfl, rfl, rfl, fun _ => .rfl, rfl, List.prefix_rfl⟩

theorem Demotes.trans (h1 : Demotes c s s') (h2 : Demotes c s' t) : Demotes c s t :=
  ⟨h2.lists, h2.H_list.trans h1.H_list, h2.C_new.trans h1.C_new, h2.SR_size.trans h1.SR_size, h2.occupied.trans h1.occupied,
    fun x => (h2.holds x).trans (h1.holds x), h2.drift.trans h1.drift, h2.entries.trans h1.entries⟩

theorem Demotes.R_size (h : Demotes c s s') (hs : Lists c s) : s'.R_list.cache_size = s.R_list.cache_size := by
  rw [h.lists.R_size, hs.R_size, h.SR_size]

theorem demote_spec (h : Lists c s) (hocc : 0 < s.R_list.occupied_byte) :
    ∃ s', demote s = some s' ∧ Demotes c s s' ∧ s'.R_list.occupied_byte = s.R_list.occupied_byte - 1 ∧
      s'.R_list.q.entries.length < s.R_list.q.entries.length := by
  obtain ⟨e, l, hl, hlast, hlook, hevict, hleft⟩ := h.R.evict hocc
  have hmem := Table.mem_of_lookup hlook
  have hmd := (h.R_md e.1 e.2 hlook).1
  have hmiss : e.1 ∉ s.SR_list.q := h.R_SR e.1 hmem
  have hsize : (copy_cache_obj_to_request e).obj_size = 1 := h.R.one e.1 e.2 hlook
  have hR := h.R.occupied_remove hmem
  have hSR := h.SR.occupied_insert hsize { demoted := true }
  have hdemote : demote s = some { s with
      R_list := (s.R_list.LRU_remove e.1).1
      SR_list := s.SR_list.LRU_insert (copy_cache_obj_to_request e) { demoted := true }
      C_demoted := s.C_demoted + 1 } := by
    unfold demote
    rw [hlast, hevict]
    simp [hmd]
  have hholds : ∀ x, (x ∈ (s.R_list.LRU_remove e.1).1.q ∨
      x ∈ (s.SR_list.LRU_insert (copy_cache_obj_to_request e) { demoted := true }).q) ↔ s.holds x := by
    intro x
    rw [mem_LRU_remove, mem_LRU_insert]
    unfold SrLru.holds
    rcases eq_or_ne x e.1 with rfl | hne
    · simp [copy_cache_obj_to_request, hmem]
    · simp [copy_cache_obj_to_request, hne]
  refine ⟨_, hdemote, ⟨⟨h.md, h.R.remove e.1, h.SR.insert hmiss hsize _, h.H, ?_, ?_, h.H_size, ?_, ?_, h.H_freq, h.H_new⟩, rfl, rfl,
    rfl, ?_, hholds, ?_, ?_⟩, hR, ?_⟩
  · intro x hx hx'
    obtain ⟨hne, hx⟩ := mem_LRU_remove.1 hx
    rcases (mem_LRU_insert _).1 hx' with rfl | hx'
    · exact hne rfl
    · exact h.R_SR x hx hx'
  · intro x hx hx'
    exact h.H_out x hx ((hholds x).1 hx')
  · exact (Fifo.FIFO_remove_cache_size e.1).trans h.R_size
  · intro x o ho
    rw [Lru.LRU_remove, Fifo.lookup_FIFO_remove] at ho
    split_ifs at ho
    exact h.R_md x o ho
  · unfold SR_LRU_get_occupied_byte
    dsimp only
    omega
  · have hcount := count_insert (p := (·.demoted)) (copy_cache_obj_to_request e) hmiss { demoted := true }
    rw [if_pos rfl] at hcount
    unfold SrLru.demoted_drift
    dsimp only
    omega
  · rw [hleft, hl]
    exact List.prefix_append l [e]
  · rw [hleft, hl, List.length_append]
    exact Nat.lt_succ_self _

theorem demote_loop (h : Lists c s) (cond : SrLru → Bool) {k : Int}
    (hcond : ∀ t, Lists c t → (cond t = true ↔ t.R_list.cache_size < t.R_list.occupied_byte + k)) (hk : k ≤ s.R_list.cache_size) :
    ∃ s', whileLoop cond demote s.R_list.q.entries.length s = some s' ∧ Demotes c s s' ∧
      s'.R_list.occupied_byte + k ≤ s.R_list.cache_size ∧
      (s'.R_list.occupied_byte = s.R_list.occupied_byte ∨ s'.R_list.occupied_byte + k = s.R_list.cache_size) := by
  let I : SrLru → Prop := fun t => Demotes c s t ∧
    (t.R_list.occupied_byte = s.R_list.occupied_byte ∨ s.R_list.cache_size ≤ t.R_list.occupied_byte + k)
  have hbody : ∀ t, I t → cond t = true → ∃ t', demote t = some t' ∧ I t' ∧
      t'.R_list.q.entries.length < t.R_list.q.entries.length := by
    rintro t ⟨hd, -⟩ hfull
    rw [hcond t hd.lists, hd.R_size h] at hfull
    obtain ⟨t', hdemote, hd', hocc, hlen⟩ := demote_spec hd.lists (by omega)
    exact ⟨t', hdemote, ⟨hd.trans hd', .inr (by omega)⟩, hlen⟩
  obtain ⟨s', hloop, ⟨hd, hwhich⟩, hexit⟩ := whileLoop_total I (fun t => t.R_list.q.entries.length) hbody
    s.R_list.q.entries.length s ⟨.refl h, .inl rfl⟩ le_rfl
  have hroom : s'.R_list.occupied_byte + k ≤ s.R_list.cache_size := by
    by_contra hfull
    have htrue := (hcond s' hd.lists).2 (by rw [hd.R_size h]; omega)
    exact absurd (htrue.symm.trans hexit) (by decide)
  exact ⟨s', hloop, hd, hroom, by omega⟩

/-! ## Lookups -/

structure Finds (c : Int) (req : Request) (s s' : SrLru) : Prop where
  lists : Lists c s'
  H_list : s'.H_list = s.H_list
  C_new : s'.C_new = s.C_new
  SR_size : s'.SR_list.cache_size = s.SR_list.cache_size
  occupied : SR_LRU_get_occupied_byte s' = SR_LRU_get_occupied_byte s
  holds : ∀ x, s'.holds x ↔ s.holds x
  drift : s'.demoted_drift = s.demoted_drift +
    if (s.SR_list.q.lookup req.obj_id).any (·.md.demoted) then 1 else 0
  SR_fits : SR_LRU_get_occupied_byte s ≤ c → s.SR_list.occupied_byte ≤ s.SR_list.cache_size →
    s'.SR_list.occupied_byte ≤ s'.SR_list.cache_size

theorem SrLru.holds_iff : s.holds req.obj_id ↔
    (s.R_list.q.lookup req.obj_id).isSome = true ∨ (s.SR_list.q.lookup req.obj_id).isSome = true := by
  rw [AList.lookup_isSome, AList.lookup_isSome]
  exact Iff.rfl

section

variable (h : Lists c s)
include h

theorem Lists.of_moved {R_list SR_list : Lru Md} (hR : Lru.Moved s.R_list R_list)
    (hSR : Lru.Moved s.SR_list SR_list) : Lists c { s with R_list := R_list, SR_list := SR_list } where
  __ := h
  R := h.R.of_moved hR
  SR := h.SR.of_moved hSR
  R_SR x hx hx' := h.R_SR x (hR.mem.1 hx) (hSR.mem.1 hx')
  H_out x hx hx' := h.H_out x hx (hx'.imp hR.mem.1 hSR.mem.1)
  R_size := by
    rw [hR.cache_size, hSR.cache_size]
    exact h.R_size
  R_md x o ho := h.R_md x o ((hR.lookup x).symm.trans ho)

theorem Lists.lift (ho : s.SR_list.q.lookup id = some o) :
    Lists c { s with
      R_list := s.R_list.LRU_insert (copy_cache_obj_to_request ⟨id, o⟩) {}
      SR_list := (s.SR_list.LRU_remove id).1 } ∧
    ∀ x, (x ∈ (s.R_list.LRU_insert (copy_cache_obj_to_request ⟨id, o⟩) {}).q ∨ x ∈ (s.SR_list.LRU_remove id).1.q) ↔ s.holds x := by
  have hmem := Table.mem_of_lookup ho
  have hmiss : id ∉ s.R_list.q := fun hR => h.R_SR id hR hmem
  have hholds : ∀ x, (x ∈ (s.R_list.LRU_insert (copy_cache_obj_to_request ⟨id, o⟩) {}).q ∨
      x ∈ (s.SR_list.LRU_remove id).1.q) ↔ s.holds x := by
    intro x
    rw [mem_LRU_remove, mem_LRU_insert]
    unfold SrLru.holds
    rcases eq_or_ne x id with rfl | hne
    · simp [copy_cache_obj_to_request, hmem]
    · simp [copy_cache_obj_to_request, hne]
  refine ⟨⟨h.md, h.R.insert hmiss (h.SR.one id o ho) _, h.SR.remove id, h.H, ?_, fun x hx hx' => h.H_out x hx ((hholds x).1 hx'),
    h.H_size, ?_, ?_, h.H_freq, h.H_new⟩, hholds⟩
  · intro x hx hx'
    obtain ⟨hne, hx'⟩ := mem_LRU_remove.1 hx'
    rcases (mem_LRU_insert _).1 hx with rfl | hx
    · exact hne rfl
    · exact h.R_SR x hx hx'
  · rw [Lru.LRU_remove, Fifo.FIFO_remove_cache_size]
    exact h.R_size
  · intro x p hx
    rcases eq_or_ne x id with rfl | hne
    · cases (lookup_LRU_insert_self _ _).symm.trans hx
      exact ⟨rfl, rfl⟩
    · exact h.R_md x p ((lookup_LRU_insert_ne _ _ hne).symm.trans hx)

theorem move_to_R_spec (hsize : 1 ≤ s.R_list.cache_size)
    (ho : s.SR_list.q.lookup req.obj_id = some o) :
    ∃ s', move_to_R s req o = some s' ∧ Finds c req s s' ∧ ∃ o', s'.R_list.q.lookup req.obj_id = some o' := by
  have hmem := Table.mem_of_lookup ho
  have hmiss : req.obj_id ∉ s.R_list.q := fun hR => h.R_SR _ hR hmem
  obtain ⟨hlists, hholds⟩ := h.lift ho
  set R := s.R_list.LRU_insert (copy_cache_obj_to_request ⟨req.obj_id, o⟩) {}
  set SR := (s.SR_list.LRU_remove req.obj_id).1
  have hSRsize : SR.cache_size = s.SR_list.cache_size := Fifo.FIFO_remove_cache_size _
  have hR : R.occupied_byte = s.R_list.occupied_byte + 1 := h.R.occupied_insert (h.SR.one _ o ho) _
  have hSR : SR.occupied_byte = s.SR_list.occupied_byte - 1 := h.SR.occupied_remove hmem
  obtain ⟨s', hloop, hd, -, hwhich⟩ := demote_loop (k := 0) hlists
    (fun s => s.R_list.occupied_byte > s.R_list.cache_size) (fun t _ => by simp) (by show (0 : Int) ≤ s.R_list.cache_size; omega)
  have htotal : s'.R_list.occupied_byte + s'.SR_list.occupied_byte = R.occupied_byte + SR.occupied_byte := hd.occupied
  have hnonneg := h.R.nonneg
  have hwhich' : s'.R_list.occupied_byte = R.occupied_byte ∨ s'.R_list.occupied_byte + 0 = s.R_list.cache_size := hwhich
  have hlen := h.R_size
  refine ⟨s', hloop, ⟨hd.lists, hd.H_list, hd.C_new, hd.SR_size.trans hSRsize, ?_, fun x => (hd.holds x).trans (hholds x), ?_, ?_⟩, ?_⟩
  · unfold SR_LRU_get_occupied_byte
    omega
  · have hcount := count_remove (p := (·.demoted)) ho
    have hdrift : s'.demoted_drift = s.C_demoted - SR.count (·.demoted) := hd.drift
    rw [hdrift, hcount, ho]
    unfold SrLru.demoted_drift
    rw [any_some]
    omega
  · intro hc hfits
    rw [hd.SR_size]
    show s'.SR_list.occupied_byte ≤ SR.cache_size
    unfold SR_LRU_get_occupied_byte at hc
    omega
  · -- the list keeps its head
    have hentries : s'.R_list.q.entries <+: R.q.entries := hd.entries
    have hhead : R.q.entries = ⟨req.obj_id, { obj_size := o.obj_size, md := {} }⟩ :: s.R_list.q.entries :=
      AList.entries_insert_of_notMem hmiss
    have hpos : s'.R_list.q.entries ≠ [] := by
      have hocc := hd.lists.R.occupied
      rintro hnil
      rw [hnil, List.length_nil] at hocc
      omega
    obtain ⟨e, l, hl⟩ := List.exists_cons_of_ne_nil hpos
    rw [hl, hhead, List.cons_prefix_cons] at hentries
    refine ⟨{ obj_size := o.obj_size, md := {} }, Table.lookup_of_mem_entries (e := ⟨req.obj_id, _⟩) ?_⟩
    rw [hl, hentries.1]
    exact List.mem_cons_self ..

theorem SR_LRU_find_spec (hsize : 1 ≤ s.R_list.cache_size) (req : Request) :
    ∃ s' hit, SR_LRU_find s req true = some (s', hit) ∧ Finds c req s s' ∧ (hit = true ↔ s.holds req.obj_id) := by
  obtain ⟨hR, hobjR⟩ := LRU_find_moved s.R_list req
  obtain ⟨hSR, hobjSR⟩ := LRU_find_moved s.SR_list req
  have hlists := h.of_moved hR hSR
  set R := (s.R_list.LRU_find req true).1
  set SR := (s.SR_list.LRU_find req true).1
  have hcount : SR.count (·.demoted) = s.SR_list.count (·.demoted) := count_moved s.SR_list req
  have hlookSR : SR.q.lookup req.obj_id = s.SR_list.q.lookup req.obj_id := hSR.lookup _
  -- both lists were looked up, and nothing else happened so far
  have hmoved : (s.SR_list.q.lookup req.obj_id).any (·.md.demoted) = false →
      Finds c req s { s with R_list := R, SR_list := SR } := by
    intro hmark
    refine ⟨hlists, rfl, rfl, hSR.cache_size, ?_, fun x => or_congr hR.mem hSR.mem, ?_, fun _ hfits => ?_⟩
    · unfold SR_LRU_get_occupied_byte
      rw [hR.occupied_byte, hSR.occupied_byte]
    · rw [hmark]
      unfold SrLru.demoted_drift
      rw [hcount, if_neg (by decide), Int.add_zero]
    · rw [hSR.occupied_byte, hSR.cache_size]
      exact hfits
  unfold SR_LRU_find
  dsimp only
  rw [hobjR, hobjSR]
  rcases hlook : s.R_list.q.lookup req.obj_id with _ | oR
  · rcases hlook' : s.SR_list.q.lookup req.obj_id with _ | oSR
    · refine ⟨_, _, rfl, hmoved (by rw [hlook']; rfl), ?_⟩
      rw [holds_iff, hlook, hlook']
      simp
    · obtain ⟨s', hmove, hfinds, o', ho'⟩ := move_to_R_spec (s := { s with R_list := R, SR_list := SR }) hlists
        (by rw [hR.cache_size]; exact hsize) (hlookSR.trans hlook')
      have hgrow : grow_R s' req.obj_id = some s' := by
        unfold grow_R
        rw [ho']
        simp [(hfinds.lists.R_md _ o' ho').1]
      refine ⟨s', true, ?_, ⟨hfinds.lists, hfinds.H_list, hfinds.C_new, hfinds.SR_size.trans hSR.cache_size, ?_, ?_, ?_, ?_⟩, ?_⟩
      · show ((move_to_R { s with R_list := R, SR_list := SR } req oSR).bind fun s =>
          (grow_R s req.obj_id).bind fun s => some (s, true)) = some (s', true)
        rw [hmove, bind_some, hgrow, bind_some]
      · refine hfinds.occupied.trans ?_
        unfold SR_LRU_get_occupied_byte
        rw [hR.occupied_byte, hSR.occupied_byte]
      · exact fun x => (hfinds.holds x).trans (or_congr hR.mem hSR.mem)
      · have hdrift := hfinds.drift
        unfold SrLru.demoted_drift at hdrift ⊢
        rw [hlookSR, hcount] at hdrift
        exact hdrift
      · intro hc hfits
        apply hfinds.SR_fits
        · unfold SR_LRU_get_occupied_byte at hc ⊢
          rw [hR.occupied_byte, hSR.occupied_byte]
          exact hc
        · rw [hSR.occupied_byte, hSR.cache_size]
          exact hfits
      · rw [holds_iff, hlook']
        simp
  · have hmiss : s.SR_list.q.lookup req.obj_id = none := AList.lookup_eq_none.2 (h.R_SR _ (Table.mem_of_lookup hlook))
    rw [hmiss]
    refine ⟨_, true, rfl, hmoved (by rw [hmiss]; rfl), ?_⟩
    rw [holds_iff, hlook]
    simp

end

/-! ## A hit in the history -/

theorem delta_spec (n : Int) {d : Int} (hd : 0 < d) : ∃ q, delta n d = some q ∧ 1 ≤ q := by
  unfold delta
  rw [if_neg hd.ne']
  refine ⟨_, rfl, ?_⟩
  split_ifs with hone
  · exact le_rfl
  · exact not_lt.1 hone

def Exact (c : Int) : Prop := ∀ n : Int, 0 ≤ n → n ≤ c - 1 → to_double n ≤ (c - 1 : Int)

theorem to_double_nonneg {n : Int} (h : 0 ≤ n) : 0 ≤ to_double n := by
  obtain ⟨m, rfl⟩ := Int.eq_ofNat_of_zero_le h
  rw [Int.cast_natCast, to_double_natCast]
  exact Nat.cast_nonneg _

theorem to_double_zero : to_double (0 : Int) = 0 := by
  have hzero := to_double_natCast 0
  exact_mod_cast hzero

section

variable (h : Lists c s)
include h

theorem grow_SR_spec (hsize : req.obj_size = 1) (md : Md) (hmd : md.new_obj = true) (hnew : 0 < s.C_new)
    (hSR : 0 ≤ s.SR_list.cache_size) (hfits : SR_LRU_get_occupied_byte s + 1 ≤ c) (hexact : Exact c) :
    ∃ k, grow_SR { s with R_list := s.R_list.LRU_insert req md } req.obj_id = some { s with
        SR_list := { s.SR_list with cache_size := k }
        R_list := { s.R_list.LRU_insert req { md with new_obj := false } with cache_size := c - k } } ∧
      0 ≤ k ∧ k ≤ c - 1 ∧ (1 ≤ k ↔ 1 ≤ SR_LRU_get_occupied_byte s) := by
  obtain ⟨q, hq, hone⟩ := delta_spec s.C_demoted hnew
  have hocc : (s.R_list.LRU_insert req md).occupied_byte + s.SR_list.occupied_byte - 1 = SR_LRU_get_occupied_byte s := by
    rw [h.R.occupied_insert hsize]
    unfold SR_LRU_get_occupied_byte
    omega
  have hnonneg : 0 ≤ SR_LRU_get_occupied_byte s := Int.add_nonneg h.R.nonneg h.SR.nonneg
  set size := to_double (to_double s.SR_list.cache_size + q)
  have hlow : 1 ≤ size := by
    apply one_le_to_double
    have hpos := to_double_nonneg hSR
    linarith
  have hfloor : 1 ≤ ⌊size⌋ := Int.le_floor.2 (by exact_mod_cast hlow)
  refine ⟨if size > to_double (SR_LRU_get_occupied_byte s) then SR_LRU_get_occupied_byte s else ⌊size⌋, ?_, ?_⟩
  · unfold grow_SR
    rw [lookup_LRU_insert_self]
    simp only [bind_eq_bind, bind_some, hmd, hq, LRU_insert_set_md, h.H_size]
    unfold SR_LRU_get_occupied_byte at hocc ⊢
    rw [hocc]
    rfl
  · split_ifs with hclamp
    · exact ⟨hnonneg, by omega, Iff.rfl⟩
    · refine ⟨by omega, ?_, fun _ => ?_, fun _ => hfloor⟩
      · have hbound := hexact _ hnonneg (by omega)
        have hle : ((⌊size⌋ : Int) : ℚ) ≤ (c - 1 : Int) := (Int.floor_le _).trans ((not_lt.1 hclamp).trans hbound)
        exact_mod_cast hle
      · by_contra hzero
        have hempty : SR_LRU_get_occupied_byte s = 0 := by omega
        rw [hempty, to_double_zero] at hclamp
        exact hclamp (zero_lt_one.trans_le hlow)

structure Returns (c : Int) (req : Request) (was_new : Bool) (s s' : SrLru) : Prop where
  lists : Lists c s'
  H_list : s'.H_list = (s.H_list.LRU_remove req.obj_id).1
  C_new : s'.C_new = s.C_new
  occupied : SR_LRU_get_occupied_byte s' = SR_LRU_get_occupied_byte s + 1
  mem : req.obj_id ∈ s'.R_list.q
  holds : ∀ x, s'.holds x ↔ x = req.obj_id ∨ s.holds x
  drift : s'.demoted_drift = s.demoted_drift
  SR_size : 0 ≤ s'.SR_list.cache_size ∧ s'.SR_list.cache_size ≤ c - 1
  grown : was_new = true → (1 ≤ s'.SR_list.cache_size ↔ 1 ≤ SR_LRU_get_occupied_byte s)
  kept : was_new = false → s'.SR_list.cache_size = s.SR_list.cache_size ∧
    (s.SR_list.occupied_byte ≤ s.SR_list.cache_size → s'.SR_list.occupied_byte ≤ s'.SR_list.cache_size)

theorem Lists.forget (ho : s.H_list.q.lookup id = some o) :
    Lists c { s with H_list := (s.H_list.LRU_remove id).1 } ∧ ¬ s.holds id ∧ id ∉ (s.H_list.LRU_remove id).1.q := by
  refine ⟨{ h with H := h.H.remove id, H_out := ?_, H_size := ?_, H_freq := ?_, H_new := ?_ }, h.H_out id (Table.mem_of_lookup ho),
    fun hmem => (mem_LRU_remove.1 hmem).1 rfl⟩
  · exact fun x hx => h.H_out x (mem_LRU_remove.1 hx).2
  · exact (Fifo.FIFO_remove_cache_size id).trans h.H_size
  · intro x p hx
    rw [Lru.LRU_remove, Fifo.lookup_FIFO_remove] at hx
    split_ifs at hx
    exact h.H_freq x p hx
  · have hcount := count_remove (p := (·.new_obj)) ho
    have hdrift := h.H_new
    unfold SrLru.new_drift at hdrift ⊢
    dsimp only
    rw [hcount]
    split_ifs <;> omega

theorem Lists.insert_R (hsize : req.obj_size = 1) (hR : req.obj_id ∉ s.R_list.q) (hSR : req.obj_id ∉ s.SR_list.q)
    (hH : req.obj_id ∉ s.H_list.q) (k : Int) : Lists c { s with
      SR_list := { s.SR_list with cache_size := k }
      R_list := { s.R_list.LRU_insert req {} with cache_size := c - k } } := by
  have hones := h.R.insert hR hsize {}
  refine { h with R := hones.resize _, SR := h.SR.resize k, R_SR := ?_, H_out := ?_, R_size := rfl, R_md := ?_ }
  · intro x hx
    rcases (mem_LRU_insert _).1 hx with rfl | hx
    · exact hSR
    · exact h.R_SR x hx
  · rintro x hx (hx' | hx')
    · rcases (mem_LRU_insert _).1 hx' with rfl | hx'
      · exact hH hx
      · exact h.H_out x hx (.inl hx')
    · exact h.H_out x hx (.inr hx')
  · intro x p hx
    rcases eq_or_ne x req.obj_id with rfl | hne
    · cases (lookup_LRU_insert_self _ _).symm.trans hx
      exact ⟨rfl, rfl⟩
    · exact h.R_md x p ((lookup_LRU_insert_ne _ _ hne).symm.trans hx)

theorem return_to_R_spec (hsize : req.obj_size = 1) (ho : s.H_list.q.lookup req.obj_id = some o)
    (hSR : 0 ≤ s.SR_list.cache_size ∧ s.SR_list.cache_size ≤ c - 1) (hfits : SR_LRU_get_occupied_byte s + 1 ≤ c)
    (hexact : o.md.new_obj = true → Exact c) :
    ∃ s', return_to_R s req o.md.new_obj = some s' ∧ Returns c req o.md.new_obj s s' := by
  obtain ⟨hlists, hout, hforgot⟩ := h.forget ho
  have hRsize := h.R_size
  obtain ⟨s1, hloop, hd, -, hwhich⟩ := demote_loop (k := 1) hlists
    (fun s => s.R_list.occupied_byte + req.obj_size + s.obj_md_size > s.R_list.cache_size)
    (fun t ht => by simp [hsize, ht.md]) (by show (1 : Int) ≤ s.R_list.cache_size; omega)
  have hholds : ∀ x, s1.holds x ↔ s.holds x := hd.holds
  have hmiss : req.obj_id ∉ s1.R_list.q := fun hmem => hout ((hholds _).1 (.inl hmem))
  have hmiss' : req.obj_id ∉ s1.SR_list.q := fun hmem => hout ((hholds _).1 (.inr hmem))
  have hocc1 : SR_LRU_get_occupied_byte s1 = SR_LRU_get_occupied_byte s := hd.occupied
  have hSR1 : s1.SR_list.cache_size = s.SR_list.cache_size := hd.SR_size
  have hC_new : s1.C_new = s.C_new := hd.C_new
  have hmissH : req.obj_id ∉ s1.H_list.q := by
    rw [hd.H_list]
    exact hforgot
  have hreturns : ∀ k, 0 ≤ k ∧ k ≤ c - 1 → (o.md.new_obj = true → (1 ≤ k ↔ 1 ≤ SR_LRU_get_occupied_byte s)) →
      (o.md.new_obj = false → k = s.SR_list.cache_size) → Returns c req o.md.new_obj s { s1 with
        SR_list := { s1.SR_list with cache_size := k }
        R_list := { s1.R_list.LRU_insert req {} with cache_size := c - k } } := by
    intro k hk hgrown hkept
    have hR := hd.lists.R.occupied_insert hsize ({} : Md)
    refine ⟨hd.lists.insert_R hsize hmiss hmiss' hmissH k, hd.H_list, hC_new, ?_, (mem_LRU_insert _).2 (.inl rfl),
      fun x => ?_, hd.drift, hk, hgrown,
      fun hnew => ⟨hkept hnew, fun hle => ?_⟩⟩
    · unfold SR_LRU_get_occupied_byte at hocc1 ⊢
      dsimp only
      omega
    · rw [← hholds x]
      unfold SrLru.holds
      rw [mem_LRU_insert]
      exact or_assoc
    · have hR1 : s1.R_list.occupied_byte = s.R_list.occupied_byte ∨ s1.R_list.occupied_byte + 1 = s.R_list.cache_size := hwhich
      rw [hkept hnew]
      unfold SR_LRU_get_occupied_byte at hocc1 hfits
      dsimp only
      omega
  unfold return_to_R
  dsimp only
  rw [hloop, bind_eq_bind, bind_some]
  rcases hnew : o.md.new_obj with _ | _
  · -- SR keeps its size
    have hgrow : grow_SR { s1 with R_list := s1.R_list.LRU_insert req {} } req.obj_id =
        some { s1 with R_list := s1.R_list.LRU_insert req {} } := by
      unfold grow_SR
      rw [lookup_LRU_insert_self]
      rfl
    have hsame : ({ s1 with
        SR_list := { s1.SR_list with cache_size := s.SR_list.cache_size }
        R_list := { s1.R_list.LRU_insert req {} with cache_size := c - s.SR_list.cache_size } } : SrLru) =
        { s1 with R_list := s1.R_list.LRU_insert req {} } := by
      have hR1 : c - s.SR_list.cache_size = (s1.R_list.LRU_insert req {}).cache_size := by
        show _ = s1.R_list.cache_size
        rw [hd.lists.R_size, hSR1]
      rw [hR1, ← hSR1]
    have hkept := hreturns _ hSR (fun hn => absurd (hnew.symm.trans hn) (by decide)) fun _ => rfl
    rw [hnew, hsame] at hkept
    exact ⟨_, hgrow, hkept⟩
  · have hpos : 0 < s1.C_new := hC_new ▸ h.C_new_pos ho hnew
    obtain ⟨k, hgrow, hlow, hhigh, hiff⟩ := grow_SR_spec hd.lists hsize { new_obj := true } rfl hpos
      (hSR1 ▸ hSR.1) (hocc1 ▸ hfits) (hexact hnew)
    have hgrown := hreturns k ⟨hlow, hhigh⟩ (fun _ => hocc1 ▸ hiff) fun hn => absurd (hnew.symm.trans hn) (by decide)
    rw [hnew] at hgrown
    exact ⟨_, hgrow, hgrown⟩

end

end CacheSim.Cacheus
