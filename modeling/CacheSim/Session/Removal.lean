import CacheSim.Session.Turns

/-!
# Removed blocks (`SessionCache_remove`)

A removed block loses its record of claims and stays on the paths of the sessions.
-/

namespace CacheSim.Session

open Lib Prefixsim List Option Finset Function

variable {π : Type} {H : Hooks π}

def SessionCache_remove (s : State π) (id : ObjId) : State π × Bool :=
  match s.hashtable.lookup id with
  | none => (s, false)
  | some size => ({ s with
      blocks := update s.blocks id none
      hashtable := s.hashtable.erase id
      occupied_byte := s.occupied_byte - size
      n_obj := s.n_obj - 1 }, true)

/-- What the calls of the cache are made of, so that a removal may come anywhere between. -/
inductive Act
  | set_request_ctx (ctx : RequestCtx)
  | record_request (ids : List ObjId)
  | count_req
  | insert (req : Request)
  /-- `select_victim` and `drop_session` -/
  | round
  | remove (id : ObjId)
  /-- the victims so far have been reported -/
  | report

def act (H : Hooks π) (s : State π) : Act → Option (State π)
  | .set_request_ctx ctx => some (set_ctx s ctx)
  | .record_request ids => some (record H s ids)
  | .count_req => some { s with n_req := s.n_req + 1 }
  | .insert req => some (SessionCache_insert s req)
  | .round => (evict_victim H { s := s }).map (·.s)
  | .remove id => some (SessionCache_remove s id).1
  | .report => some { s with victims := [] }

/-- A call of the simulator's, or a removal between two of them. -/
inductive Event
  | call (c : Call)
  | remove (id : ObjId)

def event (H : Hooks π) (config : SimulatorConfig) (s : Simulator (State π)) : Event → Option (Simulator (State π))
  | .call c => call H config s c
  | .remove id => some { s with cache := (SessionCache_remove s.cache id).1 }

/-! ### Calls are made of acts -/

def Acts (H : Hooks π) : State π → State π → Prop := Reach (act H) fun _ _ => True

variable {s s₀ s' : State π} {freed : Int} {v : SessionId} {id : ObjId}

theorem Acts.tail {t u : State π} (h : Acts H s t) (a : Act) (ha : act H t a = some u) : Acts H s u :=
  .step a h trivial ha

theorem evict_n_acts {n : Int} (hs : Acts H s₀ s) (h : evict_n H s n = some (s', freed)) : Acts H s₀ s' := by
  simp only [evict_n, bind, bind_eq_some_iff] at h
  obtain ⟨e, hloop, rfl, -⟩ := h
  refine (whileLoop_inv (fun e => Acts H s₀ e.s) ?_ _ _ _ hs hloop).1
  intro e e' he _ hround
  refine he.tail .round ?_
  -- how many were freed before makes no difference to the round
  simp only [evict_victim, bind, bind_eq_some_iff, Prod.exists] at hround
  obtain ⟨p, ss, v, hsel, hround⟩ := hround
  simp only [act, evict_victim, hsel, bind_eq_bind]
  rcases v with _ | v
  · cases hround
    rfl
  · simp only [bind_eq_some_iff, Prod.exists, pure, some.injEq] at hround
    obtain ⟨t, m, hdrop, rfl⟩ := hround
    simp [hdrop]

theorem evict_acts (hs : Acts H s₀ s) (h : SessionCache_evict H s = some s') : Acts H s₀ s' := by
  simp only [SessionCache_evict, bind, bind_eq_some_iff, Prod.exists, pure, some.injEq] at h
  obtain ⟨t, freed, hev, -, -, rfl⟩ := h
  exact evict_n_acts hs hev

theorem get_acts {req : Request} (hs : Acts H s₀ s) (h : SessionCache_get H s req = some s') : Acts H s₀ s' := by
  simp only [SessionCache_get, map_eq_some_iff, Prod.exists] at h
  obtain ⟨t, hit, hget, rfl⟩ := h
  refine CacheOps.cache_get_base_inv (Acts H s₀) (Acts H s₀) (Acts H s₀) ?_ ?_ ?_ ?_ hs hget
  · intro c c' hit hc hf
    cases hf
    have hcount : Acts H s₀ ((ops H).count_req c) := hc.tail .count_req rfl
    simpa using hcount
  · intro c c' admitted hc hf
    cases hf
    simpa using hc
  · exact fun c c' hc _ hev => evict_acts hc hev
  · intro c c' hc _ hins
    cases hins
    exact hc.tail (.insert req) rfl

theorem reporting_acts {f : State π → Option (State π)}
    (hf : ∀ s s', Acts H s₀ s → f s = some s' → Acts H s₀ s') {vs : List ObjId} (hs : Acts H s₀ s)
    (h : reporting f s = some (s', vs)) : Acts H s₀ s' := by
  simp only [reporting, bind, bind_eq_some_iff] at h
  obtain ⟨t, ht, rfl, -⟩ := h
  exact (hf _ t (hs.tail .report rfl) ht).tail .report rfl

theorem op_acts {o : Op} (hs : Acts H s₀ s) (h : op (SessionCache H) s o = some s') : Acts H s₀ s' := by
  cases o with
  | set_request_ctx ctx => exact hs.tail (.set_request_ctx ctx) h
  | record_request ids =>
    cases h
    exact (hs.tail (.record_request ids) rfl).tail .report rfl
  | get req =>
    simp only [op, map_eq_some_iff, Prod.exists] at h
    obtain ⟨t, vs, hget, rfl⟩ := h
    exact reporting_acts (fun _ _ hc hg => get_acts hc hg) hs hget
  | evict pin req =>
    simp only [op, map_eq_some_iff, Prod.exists] at h
    obtain ⟨t, vs, hev, rfl⟩ := h
    exact reporting_acts (fun _ _ hc hg => evict_acts hc hg) hs hev
  | evict_n pin req n =>
    simp only [op, SessionCache, bind_some, map_eq_some_iff, Prod.exists] at h
    obtain ⟨t, vs, hev, rfl⟩ := h
    refine reporting_acts (fun c c' hc hg => ?_) hs hev
    obtain ⟨⟨c1, freed⟩, hn, rfl⟩ := map_eq_some_iff.1 hg
    exact evict_n_acts hc hn

variable {config : SimulatorConfig}

theorem event_acts {s s' : Simulator (State π)} {e : Event}
    (hs : Acts H s₀ s.cache) (h : event H config s e = some s') : Acts H s₀ s'.cache := by
  cases e with
  | remove id =>
    cases h
    exact hs.tail (.remove id) rfl
  | call c =>
    cases c with
    | serve request =>
      simp only [event, call, serve_ok] at h
      split at h
      · rename_i hserve
        cases h
        exact serve_keeps (J := Acts H s₀) (fun _ o _ hc ho => op_acts hc ho) hs hserve
      · cases h
    | set_request_ctx ctx =>
      cases h
      exact hs.tail (.set_request_ctx ctx) rfl
    | evict_n n =>
      simp only [event, call, bind, bind_eq_some_iff, Prod.exists, pure, some.injEq] at h
      obtain ⟨t, freed, hev, rfl⟩ := h
      exact evict_n_acts hs hev

theorem events_acts {s s' : Simulator (State π)} {es : List Event}
    (h : runs (event H config) s es = some s') : Acts H s.cache s'.cache :=
  runs_inv (fun t : Simulator (State π) => Acts H s.cache t.cache) (fun _ => True)
    (fun _ _ _ ht _ he => event_acts ht he) es s s' (fun _ _ => trivial) .refl h

/-! ## One block's claims -/

def Positive (s : State π) : Prop := ∀ id b, s.blocks id = some b → 0 < b.claims

theorem Positive.count_nonneg (h : Positive s) (id : ObjId) : 0 ≤ claimCount s id := by
  unfold claimCount
  rcases hb : s.blocks id with _ | b
  · exact le_refl _
  · exact (h id b hb).le

def RunsOut (claims given : Int) : Prop := 0 < claims ∧ claims ≤ given

theorem mem_resident_free_block (s : State π) (x id : ObjId) :
    id ∈ resident (free_block s x) ↔ id ∈ resident s ∧ id ≠ x := by
  unfold free_block
  rcases hx : s.hashtable.lookup x with _ | size
  · refine ⟨fun hin => ⟨hin, ?_⟩, And.left⟩
    rintro rfl
    obtain ⟨size, hsize⟩ := mem_keySet_lookup.1 hin
    rw [hx] at hsize
    cases hsize
  · show id ∈ keySet (s.hashtable.erase x) ↔ id ∈ keySet s.hashtable ∧ id ≠ x
    rw [keySet_erase, mem_erase, and_comm]

theorem free_block_blocks (s : State π) (x : ObjId) : (free_block s x).blocks = s.blocks := by
  unfold free_block
  rcases s.hashtable.lookup x with _ | size <;> rfl

theorem claimCount_update (s : State π) (x id : ObjId) (o : Option BlockInfo) (t : State π)
    (ht : t.blocks = update s.blocks x o) :
    claimCount t id = if id = x then (o.map (·.claims)).getD 0 else claimCount s id := by
  unfold claimCount
  rw [ht, update_apply]
  split_ifs <;> rfl

theorem Positive.update (h : Positive s) {x : ObjId} {o : Option BlockInfo} (ho : ∀ b, o = some b → 0 < b.claims)
    {t : State π} (ht : t.blocks = update s.blocks x o) : Positive t := by
  intro id b hb
  rw [ht, update_apply] at hb
  split_ifs at hb
  · exact ho b hb
  · exact h id b hb

theorem take_back_at (h : Positive s) (x id : ObjId) : Positive (take_back s x) ∧
    claimCount (take_back s x) id = max 0 (claimCount s id - ([x].count id : Nat)) ∧
    (id ∈ resident (take_back s x) ↔ id ∈ resident s ∧ ¬ RunsOut (claimCount s id) ([x].count id : Nat)) := by
  have hnonneg := h.count_nonneg id
  have hcount : (([x].count id : Nat) : Int) = if id = x then 1 else 0 := by
    rcases eq_or_ne id x with rfl | hne
    · simp
    · simp [hne, hne.symm]
  rw [hcount]
  unfold take_back RunsOut
  rcases hb : s.blocks x with _ | b
  · -- there is nothing to give up
    have hzero : claimCount s x = 0 := by
      unfold claimCount
      simp [hb]
    dsimp only
    refine ⟨h, ?_, ?_⟩
    · split_ifs with heq
      · subst heq
        omega
      · omega
    · split_ifs with heq
      · subst heq
        simp [hzero]
      · simp
  · have hclaims : claimCount s x = b.claims := by
      unfold claimCount
      simp [hb]
    have hpos := h x b hb
    have hgone : ({ free_block s x with blocks := update (free_block s x).blocks x none } : State π).blocks =
        update s.blocks x none := by
      rw [free_block_blocks]
    unfold unclaim
    dsimp only
    split_ifs with hlast heq heq
    · subst heq
      refine ⟨h.update (by simp) hgone, ?_, ?_⟩
      · rw [claimCount_update s id id none _ hgone, if_pos rfl, hclaims]
        simp
        omega
      · show id ∈ resident (free_block s id) ↔ _
        rw [mem_resident_free_block, hclaims]
        simp
        omega
    · refine ⟨h.update (by simp) hgone, ?_, ?_⟩
      · rw [claimCount_update s x id none _ hgone, if_neg heq]
        omega
      · show id ∈ resident (free_block s x) ↔ _
        rw [mem_resident_free_block]
        simp [heq]
    · subst heq
      refine ⟨h.update (o := some { b with claims := b.claims - 1 }) ?_ rfl, ?_, ?_⟩
      · rintro _ ⟨rfl⟩
        show 0 < b.claims - 1
        omega
      · rw [claimCount_update s id id (some { b with claims := b.claims - 1 }) _ rfl, if_pos rfl, hclaims]
        show b.claims - 1 = _
        omega
      · constructor
        · exact fun hin => ⟨hin, by omega⟩
        · exact And.left
    · refine ⟨h.update (o := some { b with claims := b.claims - 1 }) ?_ rfl, ?_, ?_⟩
      · rintro _ ⟨rfl⟩
        show 0 < b.claims - 1
        omega
      · rw [claimCount_update s x id (some { b with claims := b.claims - 1 }) _ rfl, if_neg heq]
        omega
      · constructor
        · exact fun hin => ⟨hin, by omega⟩
        · exact And.left

theorem take_back_all_at (xs : List ObjId) (id : ObjId) : ∀ s : State π, Positive s →
    Positive (xs.foldl take_back s) ∧
    claimCount (xs.foldl take_back s) id = max 0 (claimCount s id - (xs.count id : Nat)) ∧
    (id ∈ resident (xs.foldl take_back s) ↔ id ∈ resident s ∧ ¬ RunsOut (claimCount s id) (xs.count id : Nat)) := by
  induction xs with
  | nil =>
    intro s h
    have := h.count_nonneg id
    refine ⟨h, by simpa using this, ?_⟩
    unfold RunsOut
    simp
  | cons x xs ih =>
    intro s h
    obtain ⟨h1, hc, hr⟩ := take_back_at h x id
    obtain ⟨h2, hc', hr'⟩ := ih _ h1
    have hcount : ((x :: xs).count id : Int) = [x].count id + xs.count id := by
      rw [← singleton_append, count_append]
      rfl
    rw [foldl_cons]
    refine ⟨h2, ?_, ?_⟩
    · omega
    · rw [hr', hr, hc, hcount]
      unfold RunsOut
      constructor
      · rintro ⟨⟨hin, h1⟩, h2⟩
        exact ⟨hin, by omega⟩
      · rintro ⟨hin, h1⟩
        exact ⟨⟨hin, by omega⟩, by omega⟩

theorem claim_all_at (ids : List ObjId) (id : ObjId) : ∀ w : State π × SessionMeta, Positive w.1 →
    Positive (ids.foldl claim w).1 ∧
    claimCount (ids.foldl claim w).1 id = claimCount w.1 id + (ids.count id : Nat) ∧
    (ids.foldl claim w).1.hashtable = w.1.hashtable := by
  induction ids with
  | nil => exact fun w h => ⟨h, by simp, rfl⟩
  | cons x ids ih =>
    intro w h
    have hbefore : (((w.1.blocks x).getD {}).claims : Int) = claimCount w.1 x := by
      unfold claimCount
      rcases w.1.blocks x with _ | b <;> rfl
    have hpos : Positive (claim w x).1 := by
      refine h.update (o := some { (w.1.blocks x).getD {} with claims := ((w.1.blocks x).getD {}).claims + 1 }) ?_ rfl
      rintro _ ⟨rfl⟩
      have := h.count_nonneg x
      show 0 < ((w.1.blocks x).getD {}).claims + 1
      omega
    have hone : claimCount (claim w x).1 id = claimCount w.1 id + if id = x then 1 else 0 := by
      rw [claimCount_update w.1 x id
        (some { (w.1.blocks x).getD {} with claims := ((w.1.blocks x).getD {}).claims + 1 }) _ rfl]
      split_ifs with heq
      · subst heq
        rw [← hbefore]
        rfl
      · rw [add_zero]
    obtain ⟨h1, h2, h3⟩ := ih _ hpos
    rw [foldl_cons]
    refine ⟨h1, ?_, h3⟩
    rw [h2, hone, count_cons]
    rcases eq_or_ne id x with rfl | hne
    · simp
      omega
    · simp [hne, hne.symm]

theorem record_at (h : Positive s) (ids : List ObjId) (id : ObjId) : Positive (record H s ids) ∧
    claimCount (record H s ids) id =
      max 0 (claimCount s id + (ids.count id : Nat) - ((pathOf s.sessions s.cur_session).count id : Nat)) ∧
    (id ∈ resident (record H s ids) ↔ id ∈ resident s ∧
      ¬ RunsOut (claimCount s id + (ids.count id : Nat)) ((pathOf s.sessions s.cur_session).count id : Nat)) := by
  set m := (s.sessions.lookup s.cur_session).getD {} with hm
  have hpath : m.path = pathOf s.sessions s.cur_session := by
    unfold pathOf
    rw [hm]
    rcases s.sessions.lookup s.cur_session with _ | m <;> rfl
  obtain ⟨h1, hc1, ht1⟩ := claim_all_at ids id (({ s with now := s.now + 1 } : State π), m) h
  have hres : resident (ids.foldl claim (({ s with now := s.now + 1 } : State π), m)).1 = resident s := by
    unfold resident
    rw [ht1]
  obtain ⟨h2, hc2, hr2⟩ := take_back_all_at m.path id _ h1
  rw [← foldl_release] at h2 hc2 hr2
  rw [hc1] at hc2 hr2
  rw [hres] at hr2
  rw [← hpath]
  exact ⟨h2, hc2, hr2⟩

theorem record_paths (s : State π) (ids : List ObjId) : live (record H s ids) = insert s.cur_session (live s) ∧
    ∀ t, pathOf (record H s ids).sessions t = if t = s.cur_session then ids else pathOf s.sessions t := by
  obtain ⟨m, hm, hpath⟩ : ∃ m, (record H s ids).sessions = s.sessions.insert s.cur_session m ∧ m.path = ids :=
    ⟨_, rfl, rfl⟩
  rw [hm]
  refine ⟨keySet_insert _ _ _, fun t => ?_⟩
  unfold pathOf
  split_ifs with heq
  · rw [heq, AList.lookup_insert, ← hpath]
    rfl
  · rw [AList.lookup_insert_ne heq]

/-! ### Dropped sessions -/

structure Left (s : State π) (v : SessionId) (s' : State π) : Prop where
  positive : Positive s'
  claims : ∀ id, claimCount s' id = max 0 (claimCount s id - ((pathOf s.sessions v).count id : Nat))
  resident : ∀ id, id ∈ resident s' ↔
    id ∈ resident s ∧ ¬ RunsOut (claimCount s id) ((pathOf s.sessions v).count id : Nat)
  live : live s' = (live s).erase v
  paths : ∀ t ≠ v, pathOf s'.sessions t = pathOf s.sessions t
  occurrences : ∀ id, occurrences s'.sessions id = occurrences s.sessions id - (pathOf s.sessions v).count id

theorem drop_left (h : Positive s) (hdrop : drop_session H s v = some (s', freed)) : Left s v s' := by
  unfold drop_session at hdrop
  rcases hm : s.sessions.lookup v with _ | m
  · rw [hm] at hdrop
    cases hdrop
    have hpath : pathOf s.sessions v = [] := by
      unfold pathOf
      rw [hm]
      rfl
    have hnot : v ∉ live s := by
      unfold live
      rw [mem_keySet_lookup]
      simp [hm]
    refine ⟨h, fun id => ?_, fun id => ?_, (erase_eq_of_notMem hnot).symm, fun _ _ => rfl, fun id => ?_⟩
    · have hnonneg := h.count_nonneg id
      simpa [hpath] using hnonneg
    · unfold RunsOut
      simp [hpath]
    · simp [hpath]
  · rw [hm] at hdrop
    simp only [bind, bind_eq_some_iff] at hdrop
    obtain ⟨p, -, rfl, -⟩ := hdrop
    have hsame := take_back_all_same m.path s
    have hall := fun id => take_back_all_at m.path id s h
    rw [← (foldl_drop_block m.path (s, 0)).1] at hall hsame
    have hv : v ∈ keySet s.sessions := mem_keySet_lookup.2 ⟨m, hm⟩
    have hpath := pathOf_lookup hm
    refine ⟨(hall 0).1, fun id => ?_, fun id => ?_, ?_, fun t ht => ?_, fun id => ?_⟩
    · rw [hpath]
      exact (hall id).2.1
    · rw [hpath]
      exact (hall id).2.2
    · show keySet (AList.erase v (m.path.foldl drop_block (s, 0)).1.sessions) = _
      rw [hsame.sessions, keySet_erase]
      rfl
    · rw [hsame.sessions, pathOf_erase ht]
    · rw [hsame.sessions, occurrences_erase hv]

/-! ## Whose blocks go -/

def NamedByOther (s : State π) (v : SessionId) (id : ObjId) : Prop :=
  ∃ t ∈ live s, t ≠ v ∧ id ∈ pathOf s.sessions t

/-- Dropping `v` takes from the cache only blocks that no other live session names. -/
def DropSpares (H : Hooks π) (s : State π) (v : SessionId) : Prop :=
  ∀ s' freed, drop_session H s v = some (s', freed) → ∀ id ∈ resident s \ resident s', ¬ NamedByOther s v id

/-- And so does the release loop of the turn `ids`. -/
def RecordSpares (H : Hooks π) (s : State π) (ids : List ObjId) : Prop :=
  ∀ id ∈ resident s \ resident (record H s ids), ¬ NamedByOther s s.cur_session id

/-- The claims of a block that another live session names do not run out when `v` gives up its path. -/
def DropLasts (s : State π) (v : SessionId) : Prop :=
  ∀ id ∈ resident s, NamedByOther s v id → ¬ RunsOut (claimCount s id) ((pathOf s.sessions v).count id : Nat)

/-- And, those of the turn included, when the turn gives up the last one. -/
def RecordLasts (s : State π) (ids : List ObjId) : Prop :=
  ∀ id ∈ resident s, NamedByOther s s.cur_session id →
    ¬ RunsOut (claimCount s id + (ids.count id : Nat)) ((pathOf s.sessions s.cur_session).count id : Nat)

theorem dropSpares_iff (h : Positive s)
    (hdrop : drop_session H s v = some (s', freed)) : DropSpares H s v ↔ DropLasts s v := by
  have hleft := drop_left h hdrop
  constructor
  · intro hspares id hid hother hout
    refine hspares s' freed hdrop id ?_ hother
    rw [mem_sdiff, hleft.resident]
    exact ⟨hid, fun hin => hin.2 hout⟩
  · intro hlasts t n ht id hid hother
    rw [hdrop] at ht
    cases ht
    rw [mem_sdiff, hleft.resident] at hid
    exact hid.2 ⟨hid.1, hlasts id hid.1 hother⟩

theorem recordSpares_iff (h : Positive s) (ids : List ObjId) : RecordSpares H s ids ↔ RecordLasts s ids := by
  constructor
  · intro hspares id hid hother hout
    refine hspares id ?_ hother
    rw [mem_sdiff, (record_at h ids id).2.2]
    exact ⟨hid, fun hin => hin.2 hout⟩
  · intro hlasts id hid hother
    rw [mem_sdiff, (record_at h ids id).2.2] at hid
    exact hid.2 ⟨hid.1, hlasts id hid.1 hother⟩

/-! ## Old and new counts -/

/-- The turn claims a block whose record has forgotten what other live sessions claim, and some of the
new claims stay, or the block is in the cache, to be taken out by the release loop. -/
def Mixes (s : State π) : Act → Prop
  | .record_request ids => ∃ id ∈ ids, NamedByOther s s.cur_session id ∧
      claimCount s id < occurrences s.sessions id ∧
      (((pathOf s.sessions s.cur_session).count id : Int) < claimCount s id + (ids.count id : Nat) ∨ id ∈ resident s)
  | _ => False

/-- Where nothing is mixed a block has no claims on record, or all of them, or one session only. -/
structure Counted (s : State π) (id : ObjId) : Prop where
  le : claimCount s id ≤ occurrences s.sessions id
  kind : claimCount s id = 0 ∨ claimCount s id = occurrences s.sessions id ∨
    ∃ t, ∀ u, id ∈ pathOf s.sessions u → u = t

theorem Counted.congr (h : Counted s id) (hc : claimCount s' id = claimCount s id)
    (hs : SameTurns s.sessions s'.sessions) : Counted s' id := by
  refine ⟨?_, ?_⟩
  · rw [hc, hs.occurrences]
    exact h.le
  · rw [hc, hs.occurrences, hs.pathOf]
    exact h.kind

theorem mem_live_of_path {t : SessionId} (h : id ∈ pathOf s.sessions t) : t ∈ live s := by
  unfold live
  rw [mem_keySet_lookup]
  unfold pathOf at h
  rcases hm : s.sessions.lookup t with _ | m
  · simp [hm] at h
  · exact ⟨m, rfl⟩

theorem count_lt_occurrences (h : NamedByOther s v id) : (pathOf s.sessions v).count id < occurrences s.sessions id := by
  obtain ⟨t, ht, hne, hin⟩ := h
  have hpos := count_pos_iff.2 hin
  rcases em (v ∈ live s) with hv | hv
  · have herase := refs_erase (pathOf s.sessions) hv id
    have hother := refs_erase (pathOf s.sessions) (mem_erase.2 ⟨hne, ht⟩) id
    show _ < refs (live s) _ id
    omega
  · have hnil : (pathOf s.sessions v).count id = 0 := by
      rw [count_eq_zero]
      exact fun hin' => hv (mem_live_of_path hin')
    have := count_le_occurrences s.sessions t id
    omega

theorem Counted.dropLasts (h : ∀ id, Counted s id) (v : SessionId) : DropLasts s v := by
  rintro id - hother ⟨hpos, hle⟩
  have hlt := count_lt_occurrences hother
  obtain ⟨t, -, hne, hin⟩ := hother
  rcases (h id).kind with hzero | hall | ⟨u, hu⟩
  · omega
  · omega
  · have hv : id ∈ pathOf s.sessions v := count_pos_iff.1 (by omega)
    exact hne ((hu t hin).trans (hu v hv).symm)

variable {ids : List ObjId}

theorem Counted.recordLasts (h : ∀ id, Counted s id) (hmix : ¬ Mixes s (.record_request ids)) : RecordLasts s ids := by
  rintro id hid hother ⟨hpos, hle⟩
  have hlt := count_lt_occurrences hother
  rcases (h id).kind with hzero | hall | ⟨u, hu⟩
  · -- the turn has claimed it, and another session does
    have hin : id ∈ ids := count_pos_iff.1 (by omega)
    exact hmix ⟨id, hin, hother, by omega, Or.inr hid⟩
  · omega
  · obtain ⟨t, -, hne, hin⟩ := hother
    have hcur : id ∈ pathOf s.sessions s.cur_session := count_pos_iff.1 (by omega)
    exact hne ((hu t hin).trans (hu _ hcur).symm)

/-! ### Acts -/

theorem Counted.drop (h : Counted s id) (hleft : Left s v s') : Counted s' id := by
  have hle := h.le
  refine ⟨?_, ?_⟩
  · rw [hleft.claims, hleft.occurrences]
    omega
  · rw [hleft.claims, hleft.occurrences]
    rcases h.kind with hzero | hall | ⟨t, ht⟩
    · exact Or.inl (by omega)
    · exact Or.inr (Or.inl (by omega))
    · refine Or.inr (Or.inr ⟨t, fun u hu => ht u ?_⟩)
      have hne : u ≠ v := by
        rintro rfl
        have := mem_live_of_path hu
        rw [hleft.live] at this
        simp at this
      rwa [hleft.paths u hne] at hu

theorem Counted.record (hpos : Positive s) (h : Counted s id)
    (hmix : ¬ Mixes s (.record_request ids)) : Counted (record H s ids) id := by
  obtain ⟨-, hclaims, -⟩ := record_at (H := H) hpos ids id
  obtain ⟨m, hm, hpath⟩ : ∃ m, (Session.record H s ids).sessions = s.sessions.insert s.cur_session m ∧ m.path = ids :=
    ⟨_, rfl, rfl⟩
  have hocc : occurrences (Session.record H s ids).sessions id =
      occurrences s.sessions id + ids.count id - (pathOf s.sessions s.cur_session).count id := by
    rw [hm, occurrences_insert, hpath]
  have hpaths := (record_paths (H := H) s ids).2
  have hle := h.le
  refine ⟨by rw [hclaims, hocc]; omega, ?_⟩
  rcases em (NamedByOther s s.cur_session id) with hother | hnone
  · rcases em (id ∈ ids) with hin | hout
    · rcases em (claimCount s id < occurrences s.sessions id) with hfew | hall
      · -- nothing is mixed, so the release loop takes every claim back
        have hback : ¬ ((pathOf s.sessions s.cur_session).count id : Int) < claimCount s id + (ids.count id : Nat) :=
          fun hmore => hmix ⟨id, hin, hother, hfew, Or.inl hmore⟩
        exact Or.inl (by omega)
      · exact Or.inr (Or.inl (by omega))
    · have hzero : ids.count id = 0 := count_eq_zero.2 hout
      rcases h.kind with hnil | hall | ⟨t, ht⟩
      · exact Or.inl (by omega)
      · exact Or.inr (Or.inl (by omega))
      · refine Or.inr (Or.inr ⟨t, fun u hu => ht u ?_⟩)
        rw [hpaths] at hu
        split_ifs at hu
        · exact absurd hu hout
        · exact hu
  · refine Or.inr (Or.inr ⟨s.cur_session, fun u hu => ?_⟩)
    rw [hpaths] at hu
    split_ifs at hu with heq
    · exact heq
    · exact absurd ⟨u, mem_live_of_path hu, heq, hu⟩ hnone

theorem Sound.keeps {Inv : π → Finset SessionId → Prop} (hH : Sound H Inv) : Keeps H fun _ p ss => Inv p (keySet ss) where
  init := hH.init
  bill := by
    intro now p ss t m cost h hm
    have hsame : SameTurns ss (ss.insert t { m with cost_sum := cost }) := SameTurns.bill hm rfl rfl
    rw [hsame.keySet]
    exact h
  select := by
    intro now p ss p' ss' v h hsel
    obtain ⟨p1, ss1, v1, hsel1, hinv, hturns, -⟩ := hH.select now p ss h
    cases hsel.symm.trans hsel1
    rw [hturns.keySet]
    exact ⟨hinv, hturns⟩
  touch := by
    intro now p ss t m _ h _
    rw [keySet_insert]
    exact hH.touch p (ss.insert t m) t (keySet ss) h (keySet_insert _ _ _)
  removed := by
    intro now p ss t p' h ht hrem
    obtain ⟨p1, hrem1, hinv⟩ := hH.removed p t (keySet ss) h ht
    cases hrem.symm.trans hrem1
    rw [keySet_erase]
    exact hinv

structure Sane (Inv : π → Finset SessionId → Prop) (s : State π) : Prop where
  holds : Holds (fun _ p ss => Inv p (keySet ss)) s
  positive : Positive s

variable {Inv : π → Finset SessionId → Prop}

theorem init_sane (hH : Sound H Inv) (cache_size : Int) : Sane Inv (session_cache_init H cache_size) := by
  refine ⟨init_holds hH.keeps cache_size, fun id b hb => ?_⟩
  cases hb

theorem set_ctx_blocks (s : State π) (ctx : RequestCtx) : (set_ctx s ctx).blocks = s.blocks := by
  unfold set_ctx
  split_ifs <;> rfl

theorem set_ctx_same (s : State π) (ctx : RequestCtx) : (set_ctx s ctx).sessions = s.sessions ∧
    (set_ctx s ctx).now = s.now ∧ (set_ctx s ctx).policy = s.policy := by
  unfold set_ctx
  split_ifs <;> exact ⟨rfl, rfl, rfl⟩

variable {s s' : State π}

theorem insert_at (h : Positive s) (req : Request) : Positive (SessionCache_insert s req) ∧
    (∀ id, claimCount (SessionCache_insert s req) id = claimCount s id) ∧
    SameTurns s.sessions (SessionCache_insert s req).sessions := by
  unfold SessionCache_insert note_insert
  dsimp only
  rcases hb : s.blocks req.obj_id with _ | b
  · exact ⟨h, fun _ => rfl, .refl _⟩
  · let after := if req.obj_cost > 0 then req.obj_cost else 1
    have hclaims : ∀ (t : State π) cost, t.blocks = update s.blocks req.obj_id (some { b with cost := cost }) →
        Positive t ∧ ∀ id, claimCount t id = claimCount s id := by
      intro t cost ht
      refine ⟨h.update (o := some { b with cost := cost }) ?_ ht, fun id => ?_⟩
      · rintro _ ⟨rfl⟩
        exact h _ b hb
      · rw [claimCount_update s req.obj_id id (some { b with cost := cost }) t ht]
        split_ifs with heq
        · subst heq
          unfold claimCount
          rw [hb]
          rfl
        · rfl
    rcases hm : s.sessions.lookup s.cur_session with _ | m
    · exact ⟨(hclaims _ after rfl).1, (hclaims _ after rfl).2, .refl _⟩
    · exact ⟨(hclaims _ after rfl).1, (hclaims _ after rfl).2, SameTurns.bill hm rfl rfl⟩

theorem remove_at (h : Positive s) (x : ObjId) : Positive (SessionCache_remove s x).1 ∧
    (∀ id, claimCount (SessionCache_remove s x).1 id = claimCount s id ∨ claimCount (SessionCache_remove s x).1 id = 0) ∧
    SameSessions s (SessionCache_remove s x).1 := by
  unfold SessionCache_remove
  rcases s.hashtable.lookup x with _ | size
  · exact ⟨h, fun _ => Or.inl rfl, .refl s⟩
  · refine ⟨h.update (by simp) rfl, fun id => ?_, ⟨rfl, rfl, rfl, rfl, rfl, rfl⟩⟩
    rw [claimCount_update s x id none _ rfl]
    split_ifs
    · exact Or.inr rfl
    · exact Or.inl rfl

section

variable (hH : Sound H Inv)
include hH

section

variable (hs : Sane Inv s)
include hs

theorem round_cases (h : act H s .round = some s') :
    ∃ p ss, SameTurns s.sessions ss ∧
      (s' = { s with policy := p, sessions := ss } ∨
        ∃ v, Left { s with policy := p, sessions := ss } v s') := by
  simp only [act, map_eq_some_iff] at h
  obtain ⟨e, hev, rfl⟩ := h
  simp only [evict_victim, bind, bind_eq_some_iff, Prod.exists] at hev
  obtain ⟨p, ss, v, hsel, hev⟩ := hev
  obtain ⟨-, hsame⟩ := hH.keeps.select _ _ _ _ _ _ hs.holds.inv hsel
  refine ⟨p, ss, hsame, ?_⟩
  rcases v with _ | v
  · cases hev
    exact Or.inl rfl
  · simp only [bind_eq_some_iff, Prod.exists, pure, some.injEq] at hev
    obtain ⟨t, freed, hdrop, rfl⟩ := hev
    have hpos : Positive { s with policy := p, sessions := ss } := hs.positive
    exact Or.inr ⟨v, drop_left hpos hdrop⟩

theorem drop_returns (v : SessionId) :
    ∃ s' freed, drop_session H s v = some (s', freed) := by
  unfold drop_session
  rcases hm : s.sessions.lookup v with _ | m
  · exact ⟨s, 0, rfl⟩
  · have hsame : (m.path.foldl drop_block (s, 0)).1.policy = s.policy := by
      rw [(foldl_drop_block m.path (s, 0)).1]
      exact (take_back_all_same m.path s).policy
    obtain ⟨p, hp, -⟩ := hH.removed s.policy v (live s) hs.holds.inv (mem_keySet_lookup.2 ⟨m, hm⟩)
    simp [hsame, hp]

theorem act_sane {a : Act} (h : act H s a = some s') : Sane Inv s' := by
  obtain ⟨hholds, hpos⟩ := hs
  cases a with
  | set_request_ctx ctx =>
    cases h
    refine ⟨?_, ?_⟩
    · obtain ⟨h1, h2, h3⟩ := set_ctx_same s ctx
      exact ⟨by rw [h1, h2]; exact hholds.clock, by rw [h1, h3]; exact hholds.inv⟩
    · unfold Positive
      rw [set_ctx_blocks]
      exact hpos
  | record_request ids =>
    cases h
    exact ⟨record_holds hH.keeps hholds ids, (record_at hpos ids 0).1⟩
  | count_req =>
    cases h
    exact ⟨⟨hholds.clock, hholds.inv⟩, hpos⟩
  | insert req =>
    cases h
    refine ⟨?_, (insert_at hpos req).1⟩
    apply note_insert_holds hH.keeps.toCalm
    exact ⟨hholds.clock, hholds.inv⟩
  | round =>
    refine ⟨?_, ?_⟩
    · simp only [act, map_eq_some_iff] at h
      obtain ⟨e, hev, rfl⟩ := h
      exact evict_victim_holds hH.keeps.toCalm hholds hev
    · obtain ⟨p, ss, -, rfl | ⟨v, hleft⟩⟩ := round_cases hH ⟨hholds, hpos⟩ h
      · exact hpos
      · exact hleft.positive
  | remove x =>
    cases h
    obtain ⟨h1, -, hsame⟩ := remove_at hpos x
    exact ⟨hholds.of_same hsame, h1⟩
  | report =>
    cases h
    exact ⟨⟨hholds.clock, hholds.inv⟩, hpos⟩

theorem act_counted {a : Act} (hcounted : ∀ id, Counted s id)
    (hmix : ¬ Mixes s a) (h : act H s a = some s') : ∀ id, Counted s' id := by
  intro id
  cases a with
  | set_request_ctx ctx =>
    cases h
    refine (hcounted id).congr ?_ ?_
    · unfold claimCount
      rw [set_ctx_blocks]
    · rw [(set_ctx_same s ctx).1]
      exact .refl _
  | record_request ids =>
    cases h
    exact (hcounted id).record hs.positive hmix
  | count_req =>
    cases h
    exact (hcounted id).congr rfl (.refl _)
  | insert req =>
    cases h
    obtain ⟨-, hclaims, hsame⟩ := insert_at hs.positive req
    exact (hcounted id).congr (hclaims id) hsame
  | round =>
    obtain ⟨p, ss, hsame, rfl | ⟨v, hleft⟩⟩ := round_cases hH hs h
    · exact (hcounted id).congr rfl hsame
    · have hsel : Counted { s with policy := p, sessions := ss } id := (hcounted id).congr rfl hsame
      exact hsel.drop hleft
  | remove x =>
    cases h
    obtain ⟨-, hclaims, hsame⟩ := remove_at hs.positive x
    rcases hclaims id with heq | hzero
    · refine (hcounted id).congr heq ?_
      rw [hsame.sessions]
      exact .refl _
    · refine ⟨?_, Or.inl hzero⟩
      rw [hzero]
      exact Int.natCast_nonneg _
  | report =>
    cases h
    exact (hcounted id).congr rfl (.refl _)

end

end

/-- In every state of a run, with removals anywhere between: a session that is dropped and a turn
spare the blocks of the other live sessions exactly if the claims of these blocks do not run out. If
no turn of the run so far has mixed old counts with new ones, every drop spares them, and so does
every turn that mixes none. -/
theorem eviction_spares_others_iff {Q : Type} (env : Env Q) (alg : Algorithm) (cache_size : Int)
    (s : State (alg.Fields Q))
    (h : Reach (act (alg.hooks env)) (fun _ _ => True) (session_cache_init (alg.hooks env) cache_size) s) :
    (∀ v, DropSpares (alg.hooks env) s v ↔ DropLasts s v) ∧
    (∀ ids, RecordSpares (alg.hooks env) s ids ↔ RecordLasts s ids) ∧
    (Reach (act (alg.hooks env)) (fun s a => ¬ Mixes s a) (session_cache_init (alg.hooks env) cache_size) s →
      (∀ v, DropSpares (alg.hooks env) s v) ∧
      ∀ ids, ¬ Mixes s (.record_request ids) → RecordSpares (alg.hooks env) s ids) := by
  have hH := alg.sound env
  have hsane : Sane alg.Inv s :=
    h.inv (Sane alg.Inv) (fun _ _ _ hc _ hact => act_sane hH hc hact) (init_sane hH cache_size)
  have hdrop : ∀ v, DropSpares (alg.hooks env) s v ↔ DropLasts s v := by
    intro v
    obtain ⟨s', freed, hdrop⟩ := drop_returns hH hsane v
    exact dropSpares_iff hsane.positive hdrop
  have hrecord : ∀ ids, RecordSpares (alg.hooks env) s ids ↔ RecordLasts s ids := recordSpares_iff hsane.positive
  refine ⟨hdrop, hrecord, fun hclean => ?_⟩
  have hcounted : Sane alg.Inv s ∧ ∀ id, Counted s id := by
    refine hclean.inv (fun c => Sane alg.Inv c ∧ ∀ id, Counted c id) ?_ ⟨init_sane hH cache_size, fun id => ?_⟩
    · exact fun c a c' hc hmix hact => ⟨act_sane hH hc.1 hact, act_counted hH hc.1 hc.2 hmix hact⟩
    · exact ⟨Int.natCast_nonneg _, Or.inl rfl⟩
  exact ⟨fun v => (hdrop v).2 (Counted.dropLasts hcounted.2 v),
    fun ids hmix => (hrecord ids).2 (Counted.recordLasts hcounted.2 hmix)⟩

theorem eviction_spares_others_after_removal :
    ∃ s, runs (event (Algorithm.session_lru.hooks plainEnv) { cache_size_blocks := 2 })
        (Algorithm.session_lru.start plainEnv { cache_size_blocks := 2 })
        [.call (.serve { blocks := [7], session := 1 }), .remove 7, .call (.serve { blocks := [8], session := 2 })] =
          some s ∧
      ∀ v, DropSpares (Algorithm.session_lru.hooks plainEnv) s.cache v ↔ DropLasts s.cache v := by
  exact exists_some (P := fun _ => True) (by decide +kernel) fun s hs _ =>
    (eviction_spares_others_iff plainEnv .session_lru 2 s.cache (events_acts hs)).1

/-- Block 7 is removed while session 1 names it, and session 2 claims it: the one claim on record is
session 2's, and session 1 gives it up. -/
theorem drop_takes_reclaimed_block :
    ∃ s, runs (event (Algorithm.session_lru.hooks plainEnv) { cache_size_blocks := 2 })
        (Algorithm.session_lru.start plainEnv { cache_size_blocks := 2 })
        [.call (.serve { blocks := [7], session := 1 }), .remove 7, .call (.serve { blocks := [7], session := 2 })] =
          some s ∧
      ¬ DropSpares (Algorithm.session_lru.hooks plainEnv) s.cache 1 := by
  refine ⟨_, rfl, fun h => ?_⟩
  exact h _ _ rfl 7 (by decide) ⟨2, by decide, by decide, by decide⟩

end CacheSim.Session
