import CacheSim.Session.Model

/-!
# What the claim counts count

`record` and `drop_session` change the counts one block at a time.
-/

namespace CacheSim.Session

open Lib List Function Finset

variable {π : Type} {H : Hooks π}

def pathOf (ss : Sessions) (t : SessionId) : List ObjId := ((ss.lookup t).map (·.path)).getD []

def live (s : State π) : Finset SessionId := keySet s.sessions

def occurrences (ss : Sessions) : ObjId → Nat := refs (keySet ss) (pathOf ss)

def resident (s : State π) : Finset ObjId := keySet s.hashtable

/-- The counts in the table are `f`, and only claimed blocks have an entry. -/
def Counts (blocks : ObjId → Option BlockInfo) (f : ObjId → Nat) : Prop :=
  ∀ id, match blocks id with
    | none => f id = 0
    | some b => b.claims = f id ∧ 0 < f id

variable {f : ObjId → Nat} {id : ObjId} {b : BlockInfo} {s : State π} {blocks : ObjId → Option BlockInfo}

section

variable (h : Counts blocks f)
include h

theorem Counts.absent (hb : blocks id = none) : f id = 0 := by
  have := h id
  rwa [hb] at this

theorem Counts.entry (hb : blocks id = some b) : b.claims = f id ∧ 0 < f id := by
  have := h id
  rwa [hb] at this

theorem Counts.update_some
    (id : ObjId) {n : Nat} (hb : b.claims = n) (hn : 0 < n) :
    Counts (update blocks id (some b)) (update f id n) := by
  intro x
  rcases eq_or_ne x id with rfl | hx
  · simp [hb, hn]
  · simpa [update_of_ne hx] using h x

theorem Counts.update_none (id : ObjId) : Counts (update blocks id none) (update f id 0) := by
  intro x
  rcases eq_or_ne x id with rfl | hx
  · simp
  · simpa [update_of_ne hx] using h x

end

structure UnitSizes (s : State π) : Prop where
  sizes : ∀ id size, s.hashtable.lookup id = some size → size = 1
  occupied : s.occupied_byte = (resident s).card

structure SameSessions (s s' : State π) : Prop where
  cache_size : s'.cache_size = s.cache_size
  sessions : s'.sessions = s.sessions
  now : s'.now = s.now
  cur_session : s'.cur_session = s.cur_session
  cur_next_access : s'.cur_next_access = s.cur_next_access
  policy : s'.policy = s.policy

variable {t u : State π}

theorem SameSessions.trans (h : SameSessions s t) (h' : SameSessions t u) : SameSessions s u :=
  ⟨h'.cache_size.trans h.cache_size, h'.sessions.trans h.sessions, h'.now.trans h.now,
    h'.cur_session.trans h.cur_session, h'.cur_next_access.trans h.cur_next_access,
    h'.policy.trans h.policy⟩

def Reported (s s' : State π) : Prop :=
  ∃ vs, s'.victims = s.victims ++ vs ∧ vs.Nodup ∧ vs.toFinset = resident s \ resident s'

variable {s' : State π}

theorem Reported.refl (hv : s'.victims = s.victims) (hr : resident s' = resident s) :
    Reported s s' := ⟨[], by simpa using hv, nodup_nil, by simp [hr]⟩

theorem Reported.trans (h : Reported s t) (h' : Reported t u)
    (hst : resident t ⊆ resident s) (htu : resident u ⊆ resident t) : Reported s u := by
  obtain ⟨vs, hv, hn, hs⟩ := h
  obtain ⟨ws, hw, hm, hs'⟩ := h'
  refine ⟨vs ++ ws, by rw [hw, hv, append_assoc], ?_, ?_⟩
  · rw [nodup_append]
    refine ⟨hn, hm, ?_⟩
    rintro a ha b hb rfl
    rw [← mem_toFinset, hs, mem_sdiff] at ha
    rw [← mem_toFinset, hs', mem_sdiff] at hb
    exact ha.2 hb.1
  · rw [toFinset_append, hs, hs']
    ext a
    simp only [mem_union, mem_sdiff]
    tauto

theorem Reported.length (h : Reported s s') :
    (s'.victims.length : Int) - s.victims.length = (resident s \ resident s').card := by
  obtain ⟨vs, hv, hn, hs⟩ := h
  rw [hv, ← hs, toFinset_card_of_nodup hn, length_append]
  omega

/-! ## Taking claims back -/

def take_back (s : State π) (id : ObjId) : State π :=
  match s.blocks id with
  | none => s
  | some b => unclaim s id b

theorem foldl_release (xs : List ObjId) (w : State π × SessionMeta) : (xs.foldl release w).1 = xs.foldl take_back w.1 := by
  induction xs generalizing w with
  | nil => rfl
  | cons id xs ih =>
    rw [foldl_cons, foldl_cons, ih]
    unfold release take_back
    rcases w.1.blocks id with _ | b <;> rfl

theorem free_block_victims (s : State π) (id : ObjId) :
    ((free_block s id).victims.length : Int) =
      s.victims.length + if (s.hashtable.lookup id).isSome then 1 else 0 := by
  unfold free_block
  split <;> simp_all

theorem foldl_drop_block (xs : List ObjId) (w : State π × Int) :
    (xs.foldl drop_block w).1 = xs.foldl take_back w.1 ∧
      (xs.foldl drop_block w).2 = w.2 + ((xs.foldl take_back w.1).victims.length - w.1.victims.length) := by
  induction xs generalizing w with
  | nil => simp
  | cons id xs ih =>
    have hstep : (drop_block w id).1 = take_back w.1 id ∧
        (drop_block w id).2 = w.2 + ((take_back w.1 id).victims.length - w.1.victims.length) := by
      unfold drop_block take_back
      rcases w.1.blocks id with _ | b
      · simp
      · refine ⟨rfl, ?_⟩
        unfold unclaim
        rcases em (b.claims - 1 ≤ 0) with hlast | hlast
        · have hvictims := free_block_victims w.1 id
          simp only [hlast, if_true, true_and, hvictims]
          split_ifs <;> omega
        · simp [hlast]
    obtain ⟨h1, h2⟩ := ih (drop_block w id)
    rw [foldl_cons, foldl_cons, h1, h2, hstep.1, hstep.2]
    exact ⟨rfl, by omega⟩

theorem free_block_spec (hs : UnitSizes s) (id : ObjId) :
    UnitSizes (free_block s id) ∧ SameSessions s (free_block s id) ∧ Reported s (free_block s id) ∧
      resident (free_block s id) = (resident s).erase id ∧ (free_block s id).blocks = s.blocks := by
  unfold free_block
  split
  · rename_i size hlook
    have hone : size = 1 := hs.sizes id size hlook
    have hmem : id ∈ resident s := mem_keySet_lookup.2 ⟨size, hlook⟩
    have hres : keySet (s.hashtable.erase id) = (resident s).erase id := keySet_erase _ _
    refine ⟨⟨?_, ?_⟩, ⟨rfl, rfl, rfl, rfl, rfl, rfl⟩, ⟨[id], rfl, by simp, ?_⟩, hres, rfl⟩
    · intro x size' hx
      rcases eq_or_ne x id with rfl | hne
      · rw [AList.lookup_erase] at hx
        cases hx
      · rw [AList.lookup_erase_ne hne] at hx
        exact hs.sizes x size' hx
    · show s.occupied_byte - size = ((keySet (s.hashtable.erase id)).card : Int)
      rw [hres, hs.occupied, card_erase_of_mem hmem, hone]
      have := card_pos.2 ⟨id, hmem⟩
      omega
    · show _ = resident s \ keySet (s.hashtable.erase id)
      rw [hres]
      ext x
      simp only [toFinset_cons, toFinset_nil, insert_empty_eq, Finset.mem_singleton,
        mem_sdiff, mem_erase]
      constructor
      · rintro rfl
        exact ⟨hmem, by simp⟩
      · tauto
  · rename_i hlook
    have hmem : id ∉ resident s := by
      unfold resident
      rw [mem_keySet_lookup]
      simp [hlook]
    exact ⟨hs, ⟨rfl, rfl, rfl, rfl, rfl, rfl⟩, .refl rfl rfl, (erase_eq_of_notMem hmem).symm, rfl⟩

/-- From `s`, claims were taken back until `f'` were left, and the objects without a claim went. -/
structure TakenBack (f' : ObjId → Nat) (s s' : State π) : Prop where
  counts : Counts s'.blocks f'
  units : UnitSizes s'
  same : SameSessions s s'
  reported : Reported s s'
  resident : resident s' = (resident s).filter (0 < f' ·)

theorem unclaim_spec (hf : Counts s.blocks f) (hs : UnitSizes s)
    (hheld : ∀ id ∈ resident s, 0 < f id) (hb : s.blocks id = some b) :
    TakenBack (update f id (f id - 1)) s (unclaim s id b) := by
  obtain ⟨hclaims, -⟩ := hf.entry hb
  unfold unclaim
  split_ifs with hlast
  · have hone : f id - 1 = 0 := by omega
    obtain ⟨hu, hsame, hrep, hres, hblocks⟩ := free_block_spec hs id
    refine ⟨?_, ⟨hu.sizes, hu.occupied⟩, ?_, hrep, ?_⟩
    · rw [hone]
      show Counts (update (free_block s id).blocks id none) _
      rw [hblocks]
      exact hf.update_none id
    · exact { hsame with }
    · show resident (free_block s id) = _
      rw [hres]
      ext x
      simp only [mem_erase, Finset.mem_filter, update_apply, hone]
      split_ifs <;> tauto
  · refine ⟨hf.update_some id ?_ (by omega), ⟨hs.sizes, hs.occupied⟩, ⟨rfl, rfl, rfl, rfl, rfl, rfl⟩,
      .refl rfl rfl, ?_⟩
    · show b.claims - 1 = _
      omega
    · show resident s = _
      rw [filter_true_of_mem]
      intro x hx
      rw [update_apply]
      split_ifs
      · omega
      · exact hheld x hx

theorem take_back_all (xs : List ObjId) : ∀ (s : State π) (f : ObjId → Nat), Counts s.blocks f →
    UnitSizes s → (∀ id ∈ resident s, 0 < f id) → (∀ id, xs.count id ≤ f id) →
    TakenBack (fun id => f id - xs.count id) s (xs.foldl take_back s) := by
  induction xs with
  | nil =>
    intro s f hf hs hheld _
    refine ⟨by simpa using hf, hs, ⟨rfl, rfl, rfl, rfl, rfl, rfl⟩, .refl rfl rfl, ?_⟩
    exact (filter_true_of_mem (by simpa using hheld)).symm
  | cons id xs ih =>
    intro s f hf hs hheld hle
    have hpos : 0 < f id := by
      have := hle id
      rw [count_cons_self] at this
      omega
    obtain ⟨b, hb⟩ : ∃ b, s.blocks id = some b := by
      rcases hblk : s.blocks id with _ | b
      · have := hf.absent hblk
        omega
      · exact ⟨b, rfl⟩
    have h1 := unclaim_spec hf hs hheld hb
    set g := update f id (f id - 1) with hg
    have hfold : (id :: xs).foldl take_back s = xs.foldl take_back (unclaim s id b) := by
      rw [foldl_cons]
      unfold take_back
      rw [hb]
    have hcount : ∀ x, g x - xs.count x = f x - (id :: xs).count x := by
      intro x
      rw [hg, update_apply, count_cons]
      rcases eq_or_ne x id with rfl | hx
      · simp
        omega
      · simp [hx, Ne.symm hx]
    have h2 := ih (unclaim s id b) g h1.counts h1.units
      (by
        intro x hx
        rw [h1.resident, Finset.mem_filter] at hx
        exact hx.2)
      (by
        intro x
        have := hle x
        rw [hg, update_apply]
        split_ifs with h
        · subst h
          simp at this
          omega
        · simp [Ne.symm h] at this
          exact this)
    simp only [hcount] at h2
    rw [hfold]
    refine ⟨h2.counts, h2.units, h1.same.trans h2.same, h1.reported.trans h2.reported ?_ ?_, ?_⟩
    · rw [h1.resident]
      exact filter_subset _ _
    · rw [h2.resident]
      exact filter_subset _ _
    · rw [h2.resident, h1.resident, Finset.filter_filter]
      apply Finset.filter_congr
      intro x _
      have := hcount x
      constructor
      · exact fun h => h.2
      · intro h
        exact ⟨by omega, h⟩

theorem claim_all (ids : List ObjId) : ∀ (w : State π × SessionMeta) (f : ObjId → Nat),
    Counts w.1.blocks f → ∃ blocks, (ids.foldl claim w).1 = { w.1 with blocks := blocks } ∧
      Counts blocks fun id => f id + ids.count id := by
  induction ids with
  | nil =>
    intro w f hf
    exact ⟨w.1.blocks, rfl, by simpa using hf⟩
  | cons id ids ih =>
    intro w f hf
    have hstep : Counts (claim w id).1.blocks (update f id (f id + 1)) := by
      apply hf.update_some id _ (Nat.succ_pos _)
      rcases hb : w.1.blocks id with _ | b
      · simp [hf.absent hb]
      · simp [(hf.entry hb).1]
    obtain ⟨blocks, hw, hcounts⟩ := ih (claim w id) _ hstep
    refine ⟨blocks, by rw [foldl_cons, hw]; rfl, ?_⟩
    convert hcounts using 2 with x
    rcases eq_or_ne x id with rfl | hx
    · simp
      omega
    · simp [hx, Ne.symm hx]

end CacheSim.Session
