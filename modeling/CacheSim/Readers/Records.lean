import CacheSim.Readers.Model

/-!
# Records of one size, to the end of the file

The announced number of requests is rounded down, and a read asks only where a record starts.
-/

namespace CacheSim.Readers

open Lib Binary List Nat
open Option (bind_eq_bind bind_eq_some_iff bind_some map_eq_bind some.injEq)

variable {b : Build} {r : Reader b}

/-! ## Calls one after the other -/

def deliver (s : Reader b × Binary.Request) : Option ((Reader b × Binary.Request) × Option Binary.Request) := do
  let (r, req, ok) ← read_one_req s.1 s.2
  return ((r, req), if ok then some req else none)

def Reader.Allows (r : Reader b) (n : Nat) : Prop := n = 0 ∨ r.cap_at_n_req ≤ 1 ∨ r.n_read_req + n ≤ r.cap_at_n_req

theorem read_one_req_end (h : r.source.file_size ≤ r.source.mmap_offset ∨ ¬ r.Allows 1) (req : Binary.Request) :
    read_one_req r req = some (r, { req with valid := false }, false) := by
  unfold read_one_req
  by_cases hend : r.source.mmap_offset ≥ r.source.file_size
  · rw [if_pos hend]
  · rw [if_neg hend, if_pos]
    have := h.resolve_left hend
    unfold Reader.Allows at this
    omega

theorem read_one_req_read (hend : r.source.mmap_offset < r.source.file_size) (hallows : r.Allows 1) (hleft : r.n_req_left ≤ 0)
    (req : Binary.Request) :
    read_one_req r req = (r.source.read_one_req r.n_req_left r.last_req_clock_time (blank req)).map fun s =>
      ({ r with source := s.1, n_read_req := r.n_read_req + 1, n_req_left := s.2.1, last_req_clock_time := s.2.2.1 },
        r.adjust s.2.2.2.1, s.2.2.2.2) := by
  unfold Reader.Allows at hallows
  unfold read_one_req
  rw [if_neg (by omega), if_neg (by omega), if_neg (by omega), map_eq_bind]
  rfl

theorem outcomes_end (h : r.source.file_size ≤ r.source.mmap_offset ∨ ¬ r.Allows 1) (n : Nat) (req : Binary.Request) :
    outcomes n r req = List.replicate n (some none) := by
  induction n generalizing req with
  | zero => rfl
  | succ n ih =>
    rw [outcomes, read_one_req_end h, replicate_succ]
    exact congrArg (some none :: ·) (ih _)

variable {req req' : Binary.Request} {r' : Reader b} {m : Nat}

theorem outcomes_none (h : read_one_req r req = none) (n : Nat) : outcomes (n + 1) r req = [none] := by
  rw [outcomes, h]

variable {ok : Bool}

theorem outcomes_some (h : read_one_req r req = some (r', req', ok))
    (n : Nat) : outcomes (n + 1) r req = some (if ok then some req' else none) :: outcomes n r' req' := by
  rw [outcomes, h]

def Delivers (r : Reader b) (req : Binary.Request) (m : Nat) (r' : Reader b) (req' : Binary.Request) : Prop :=
  read_n_req m r req = some (r', req', m)

theorem n_ok_le {n : Nat} (h : read_n_req n r req = some (r', req', m)) : m ≤ n := by
  induction n generalizing r req m with
  | zero =>
    cases h
    rfl
  | succ n ih =>
    simp only [read_n_req, bind_eq_bind, bind_eq_some_iff, Prod.exists] at h
    obtain ⟨r1, req1, ok, -, r2, req2, k, hrest, h⟩ := h
    cases h
    have := ih hrest
    split_ifs <;> omega

theorem delivers_succ :
    Delivers r req (m + 1) r' req' ↔ ∃ r1 req1, read_one_req r req = some (r1, req1, true) ∧ Delivers r1 req1 m r' req' := by
  unfold Delivers
  simp only [read_n_req, bind_eq_bind, bind_eq_some_iff, Prod.exists, Option.pure_def, some.injEq, Prod.mk.injEq]
  constructor
  · rintro ⟨r1, req1, ok, hread, r2, req2, k, hrest, rfl, rfl, hsum⟩
    have := n_ok_le hrest
    cases ok with
    | false => simp at hsum; omega
    | true => exact ⟨r1, req1, hread, by rw [hrest]; simp at hsum ⊢; omega⟩
  · rintro ⟨r1, req1, hread, hrest⟩
    exact ⟨r1, req1, true, hread, r', req', m, hrest, rfl, rfl, by simp; omega⟩

theorem read_n_req_add {n : Nat} :
    read_n_req (n + m) r req = (read_n_req n r req).bind fun s =>
      (read_n_req m s.1 s.2.1).map fun t => (t.1, t.2.1, s.2.2 + t.2.2) := by
  induction n generalizing r req with
  | zero =>
    cases h : read_n_req m r req with
    | none => simp [read_n_req]
    | some t => simp [read_n_req]
  | succ n ih =>
    rw [succ_add, read_n_req, read_n_req]
    cases h : read_one_req r req with
    | none => rfl
    | some s =>
      simp only [bind_eq_bind, bind_some, ih]
      cases hn : read_n_req n s.1 s.2.1 with
      | none => rfl
      | some t =>
        simp only [bind_some, Option.pure_def]
        cases read_n_req m t.1 t.2.1 with
        | none => rfl
        | some u => simp [add_assoc]

theorem outcomes_after {r1 r2 r1' r2' : Reader b} {req1 req2 : Binary.Request}
    (h : ∀ n, outcomes n r1 req = outcomes n r2 req) (h1 : Delivers r1 req m r1' req1) (h2 : Delivers r2 req m r2' req2) :
    req1 = req2 ∧ ∀ n, outcomes n r1' req1 = outcomes n r2' req2 := by
  induction m generalizing r1 r2 req with
  | zero =>
    cases h1
    cases h2
    exact ⟨rfl, h⟩
  | succ m ih =>
    obtain ⟨s1, q1, hread1, hrest1⟩ := delivers_succ.1 h1
    obtain ⟨s2, q2, hread2, hrest2⟩ := delivers_succ.1 h2
    have hboth : ∀ n, some (some q1) :: outcomes n s1 q1 = some (some q2) :: outcomes n s2 q2 := by
      intro n
      have hn := h (n + 1)
      rwa [outcomes_some hread1, outcomes_some hread2, if_pos rfl, if_pos rfl] at hn
    have hreq : q1 = q2 := by simpa [outcomes] using hboth 0
    subst hreq
    exact ih (fun n => (List.cons.inj (hboth n)).2) hrest1 hrest2

/-! ## Records at their offsets -/

def ahead (file_size item_size o : Nat) : Nat := (file_size - o) / item_size

def kept (file_size item_size : Nat) (keeps : Nat → Bool) (o : Nat) : Nat :=
  (List.range (ahead file_size item_size o)).countP fun i => keeps (o + i * item_size)

/-- What a read does at each offset `o` of a trace with records of `item_size` bytes: `keeps` are the records that it does
not pass over. A record that is cut off is read past the end of the mapping, or, where nothing in it is passed over, what is
needed of it may lie before the cut. -/
structure Fixed (at_ : Nat → Source b) (file_size item_size : Nat) (keeps : Nat → Bool) : Prop where
  pos : 0 < item_size
  length : ∀ o, (at_ o).file_size = file_size
  offset : ∀ o, (at_ o).mmap_offset = o
  read_kept : ∀ o left time req, o + item_size ≤ file_size → keeps o = true →
    ∃ req', (at_ o).read_one_req left time req = some (at_ (o + item_size), left, time, req', true)
  read_skipped : ∀ o left time req, o + item_size ≤ file_size → keeps o = false →
    ∃ req', (at_ o).read_one_req left time req =
      if o + item_size = file_size then some (at_ (o + item_size), left, time, req', false)
      else (at_ (o + item_size)).read_one_req left time req'
  read_cut : ∀ o left time req, o < file_size → file_size < o + item_size →
    (at_ o).read_one_req left time req = none ∨
    item_size < 2 ^ 31 ∧ (∀ o, keeps o = true) ∧ ∃ req', (at_ o).read_one_req left time req =
      some (at_ (o + item_size), left, time, req', true)

variable {at_ : Nat → Source b} {file_size item_size : Nat} {keeps : Nat → Bool} {o : Nat}

theorem ahead_succ (hpos : 0 < item_size) (h : o + item_size ≤ file_size) :
    ahead file_size item_size o = ahead file_size item_size (o + item_size) + 1 := by
  unfold ahead
  rw [show file_size - o = file_size - (o + item_size) + item_size by omega, add_div_right _ hpos]

theorem ahead_zero (hpos : 0 < item_size) (h : file_size < o + item_size) : ahead file_size item_size o = 0 :=
  div_eq_of_lt (by omega)

theorem mod_succ (h : o + item_size ≤ file_size) :
    (file_size - o) % item_size = (file_size - (o + item_size)) % item_size := by
  rw [show file_size - o = file_size - (o + item_size) + item_size by omega, add_mod_right]

theorem kept_succ (hpos : 0 < item_size) (h : o + item_size ≤ file_size) :
    kept file_size item_size keeps o =
      (if keeps o = true then 1 else 0) + kept file_size item_size keeps (o + item_size) := by
  unfold kept
  rw [ahead_succ hpos h, range_succ_eq_map, countP_cons, countP_map, add_comm]
  simp only [Function.comp_def, succ_mul, zero_mul, add_zero]
  simp only [add_assoc, add_comm item_size]

theorem kept_zero (hpos : 0 < item_size) (h : file_size < o + item_size) : kept file_size item_size keeps o = 0 := by
  rw [kept, ahead_zero hpos h]
  rfl

theorem kept_le (o : Nat) : kept file_size item_size keeps o ≤ ahead file_size item_size o := by
  simpa [kept] using countP_le_length (l := List.range (ahead file_size item_size o)) (p := fun i => keeps (o + i * item_size))

inductive Next (at_ : Nat → Source b) (file_size item_size : Nat) (keeps : Nat → Bool) (o : Nat) (left time : Int)
    (req : Binary.Request) : Prop
  | kept (o' : Nat) (req' : Binary.Request) : o' + item_size ≤ file_size → o ≤ o' → (o' - o) % item_size = 0 → keeps o' = true →
      kept file_size item_size keeps o = kept file_size item_size keeps (o' + item_size) + 1 →
      (at_ o).read_one_req left time req = some (at_ (o' + item_size), left, time, req', true) →
      Next at_ file_size item_size keeps o left time req
  | done (req' : Binary.Request) : kept file_size item_size keeps o = 0 → (file_size - o) % item_size = 0 →
      (at_ o).read_one_req left time req = some (at_ file_size, left, time, req', false) →
      Next at_ file_size item_size keeps o left time req
  | fault : kept file_size item_size keeps o = 0 → (file_size - o) % item_size ≠ 0 → (at_ o).read_one_req left time req = none →
      Next at_ file_size item_size keeps o left time req
  | cut (req' : Binary.Request) : item_size < 2 ^ 31 → (∀ o, keeps o = true) → file_size < o + item_size →
    (file_size - o) % item_size ≠ 0 →
      (at_ o).read_one_req left time req = some (at_ (o + item_size), left, time, req', true) →
      Next at_ file_size item_size keeps o left time req

theorem Fixed.next (h : Fixed at_ file_size item_size keeps) (ho : o < file_size) (left time : Int) (req : Binary.Request) :
    Next at_ file_size item_size keeps o left time req := by
  have hpos := h.pos
  -- by induction on the records ahead that are passed over
  induction hn : ahead file_size item_size o generalizing o req with
  | zero =>
    have hlt : file_size < o + item_size := by
      by_contra hle
      rw [ahead_succ hpos (by omega)] at hn
      omega
    have hmod : (file_size - o) % item_size ≠ 0 := by
      rw [mod_eq_of_lt (by omega)]
      omega
    rcases h.read_cut o left time req ho hlt with hnone | ⟨hsmall, hall, req', hread⟩
    · exact .fault (kept_zero hpos hlt) hmod hnone
    · exact .cut req' hsmall hall hlt hmod hread
  | succ n ih =>
    have hle : o + item_size ≤ file_size := by
      by_contra hlt
      rw [ahead_zero hpos (by omega)] at hn
      omega
    cases hkeep : keeps o with
    | true =>
      obtain ⟨req', hread⟩ := h.read_kept o left time req hle hkeep
      refine .kept o req' hle le_rfl (by simp) hkeep ?_ hread
      rw [kept_succ hpos hle, if_pos hkeep, add_comm]
    | false =>
      obtain ⟨req1, hread⟩ := h.read_skipped o left time req hle hkeep
      have hkept : kept file_size item_size keeps o = kept file_size item_size keeps (o + item_size) := by
        rw [kept_succ hpos hle, if_neg (by simp [hkeep]), zero_add]
      by_cases hlast : o + item_size = file_size
      · rw [if_pos hlast] at hread
        refine .done req1 ?_ ?_ (by rw [hread, hlast])
        · rw [hkept, kept_zero hpos (by omega)]
        · rw [mod_succ hle, hlast]
          simp
      · rw [if_neg hlast] at hread
        rw [ahead_succ hpos hle] at hn
        cases ih (o := o + item_size) (by omega) req1 (by omega) with
        | kept o' req' hle' hoo hmod hk hkept' hread' =>
          refine .kept o' req' hle' (by omega) ?_ hk (hkept.trans hkept') (hread.trans hread')
          rw [show o' - o = o' - (o + item_size) + item_size by omega, add_mod_right, hmod]
        | done req' hk hmod hread' => exact .done req' (hkept.trans hk) ((mod_succ hle).trans hmod) (hread.trans hread')
        | fault hk hmod hread' => exact .fault (hkept.trans hk) (by rwa [mod_succ hle]) (hread.trans hread')
        | cut req' _ hall _ _ _ => exact absurd (hall o) (by simp [hkeep])

/-! ## A reader in such a trace -/

def Reader.put (r : Reader b) (source : Source b) (n : Int) : Reader b := { r with source := source, n_read_req := n }

variable {r : Reader b} {n : Int} {m : Nat} {s : BinaryReader} {req req' : Binary.Request} {r' : Reader b}

theorem allows_succ {s s' : Source b} : (r.put s n).Allows (m + 1) ↔ (r.put s n).Allows 1 ∧ (r.put s' (n + 1)).Allows m := by
  unfold Reader.Allows Reader.put
  dsimp only
  omega

theorem allows_mono {m' : Nat} (h : r.Allows m) (hle : m' ≤ m) : r.Allows m' := by
  unfold Reader.Allows at *
  omega

section

variable (h : Fixed at_ file_size item_size keeps)
include h

theorem put_read (ho : o < file_size) (hallows : (r.put (at_ o) n).Allows 1)
    (hleft : r.n_req_left ≤ 0) (req : Binary.Request) :
    read_one_req (r.put (at_ o) n) req =
      ((at_ o).read_one_req r.n_req_left r.last_req_clock_time (blank req)).map fun s =>
        ({ r with source := s.1, n_read_req := n + 1, n_req_left := s.2.1, last_req_clock_time := s.2.2.1 },
          (r.put (at_ o) n).adjust s.2.2.2.1, s.2.2.2.2) := by
  apply read_one_req_read _ hallows hleft
  show (at_ o).mmap_offset < (at_ o).file_size
  rwa [h.offset, h.length]

theorem put_end (hend : file_size ≤ o ∨ ¬ (r.put (at_ o) n).Allows 1) :
    (r.put (at_ o) n).source.file_size ≤ (r.put (at_ o) n).source.mmap_offset ∨ ¬ (r.put (at_ o) n).Allows 1 := by
  apply hend.imp_left
  intro hle
  show (at_ o).file_size ≤ (at_ o).mmap_offset
  rwa [h.offset, h.length]

inductive Call (r : Reader b) (at_ : Nat → Source b) (file_size item_size : Nat) (keeps : Nat → Bool) (o : Nat) (n : Int)
    (req : Binary.Request) : Prop
  | past : file_size ≤ o ∨ ¬ (r.put (at_ o) n).Allows 1 →
      read_one_req (r.put (at_ o) n) req = some (r.put (at_ o) n, { req with valid := false }, false) →
      Call r at_ file_size item_size keeps o n req
  | kept (o' : Nat) (req' : Binary.Request) : (r.put (at_ o) n).Allows 1 → o' + item_size ≤ file_size → o ≤ o' →
      (o' - o) % item_size = 0 → keeps o' = true →
      kept file_size item_size keeps o = kept file_size item_size keeps (o' + item_size) + 1 →
      read_one_req (r.put (at_ o) n) req = some (r.put (at_ (o' + item_size)) (n + 1), req', true) →
      Call r at_ file_size item_size keeps o n req
  | done (req' : Binary.Request) : o < file_size → (r.put (at_ o) n).Allows 1 → kept file_size item_size keeps o = 0 →
      (file_size - o) % item_size = 0 →
      read_one_req (r.put (at_ o) n) req = some (r.put (at_ file_size) (n + 1), req', false) →
      Call r at_ file_size item_size keeps o n req
  | fault : (r.put (at_ o) n).Allows 1 → kept file_size item_size keeps o = 0 → (file_size - o) % item_size ≠ 0 →
      read_one_req (r.put (at_ o) n) req = none → Call r at_ file_size item_size keeps o n req
  | cut (req' : Binary.Request) : (r.put (at_ o) n).Allows 1 → item_size < 2 ^ 31 → (∀ o, keeps o = true) →
    o < file_size → file_size < o + item_size →
      (file_size - o) % item_size ≠ 0 →
      read_one_req (r.put (at_ o) n) req = some (r.put (at_ (o + item_size)) (n + 1), req', true) →
      Call r at_ file_size item_size keeps o n req

section

variable (hleft : r.n_req_left ≤ 0)
include hleft

theorem Fixed.call (o : Nat) (n : Int) (req : Binary.Request) :
    Call r at_ file_size item_size keeps o n req := by
  by_cases hend : file_size ≤ o ∨ ¬ (r.put (at_ o) n).Allows 1
  · exact .past hend (read_one_req_end (put_end h hend) req)
  · push Not at hend
    have hread := put_read h hend.1 hend.2 hleft req
    cases h.next hend.1 r.n_req_left r.last_req_clock_time (blank req) with
    | kept o' req' hle hoo hmod hk hkept hnext =>
      rw [hnext] at hread
      exact .kept o' _ hend.2 hle hoo hmod hk hkept hread
    | done req' hk hmod hnext =>
      rw [hnext] at hread
      exact .done _ hend.1 hend.2 hk hmod hread
    | fault hk hmod hnext =>
      rw [hnext] at hread
      exact .fault hend.2 hk hmod hread
    | cut req' hsmall hall hlt hmod hnext =>
      rw [hnext] at hread
      exact .cut _ hend.2 hsmall hall hend.1 hlt hmod hread

theorem Fixed.call_kept (hle : o + item_size ≤ file_size)
    (hkeep : keeps o = true) (hallows : (r.put (at_ o) n).Allows 1) (req : Binary.Request) :
    ∃ req', read_one_req (r.put (at_ o) n) req = some (r.put (at_ (o + item_size)) (n + 1), req', true) := by
  have hpos := h.pos
  obtain ⟨req', hsource⟩ := h.read_kept o r.n_req_left r.last_req_clock_time (blank req) hle hkeep
  have hread := put_read h (by omega) hallows hleft req
  rw [hsource] at hread
  exact ⟨_, hread⟩

theorem Fixed.delivers
    (hle : o + m * item_size ≤ file_size) (hkeep : ∀ i < m, keeps (o + i * item_size) = true)
    (hallows : (r.put (at_ o) n).Allows m) (req : Binary.Request) :
    ∃ req', Delivers (r.put (at_ o) n) req m (r.put (at_ (o + m * item_size)) (n + m)) req' := by
  induction m generalizing o n req with
  | zero =>
    refine ⟨req, ?_⟩
    rw [zero_mul, cast_zero, add_zero, add_zero]
    rfl
  | succ m ih =>
    rw [succ_mul] at hle
    obtain ⟨hfirst, hrest⟩ : _ ∧ (r.put (at_ (o + item_size)) (n + 1)).Allows m := allows_succ.1 hallows
    obtain ⟨req1, hread⟩ := h.call_kept hleft (by omega) (by simpa using hkeep 0 (by omega)) hfirst req
    have hkeep' : ∀ i < m, keeps (o + item_size + i * item_size) = true := by
      intro i hi
      rw [show o + item_size + i * item_size = o + (i + 1) * item_size by rw [succ_mul]; omega]
      exact hkeep (i + 1) (by omega)
    obtain ⟨req', hdelivers⟩ := ih (by omega) hkeep' hrest req1
    refine ⟨req', delivers_succ.2 ⟨_, _, hread, ?_⟩⟩
    rw [show o + (m + 1) * item_size = o + item_size + m * item_size by rw [succ_mul]; omega]
    rw [show n + ((m + 1 : Nat) : Int) = n + 1 + m by push_cast; omega]
    exact hdelivers

end

end

theorem kept_eq_iff : kept file_size item_size keeps o = ahead file_size item_size o ↔
    ∀ i < ahead file_size item_size o, keeps (o + i * item_size) = true := by
  have hcount := countP_eq_length (l := List.range (ahead file_size item_size o)) (p := fun i => keeps (o + i * item_size))
  simpa [kept] using hcount

def cut_off (file_size item_size o : Nat) : Nat := if (file_size - o) % item_size = 0 then 0 else 1

theorem cut_off_next {o' : Nat} (hle : o' + item_size ≤ file_size) (hoo : o ≤ o') (hmod : (o' - o) % item_size = 0) :
    cut_off file_size item_size o = cut_off file_size item_size (o' + item_size) := by
  have heq : (file_size - o) % item_size = (file_size - (o' + item_size)) % item_size := by
    rw [show file_size - o = file_size - (o' + item_size) + item_size + (o' - o) by omega, add_mod, hmod, add_zero,
      mod_mod, add_mod_right]
  rw [cut_off, cut_off, heq]

theorem Fixed.delivers_inv (h : Fixed at_ file_size item_size keeps) (hleft : r.n_req_left ≤ 0) (ho : o ≤ file_size)
    (hd : Delivers (r.put (at_ o) n) req m r' req') :
    (r.put (at_ o) n).Allows m ∧ ∃ o', r' = r.put (at_ o') (n + m) ∧
      (o' ≤ file_size ∧ kept file_size item_size keeps o' + m = kept file_size item_size keeps o ∧
          cut_off file_size item_size o' = cut_off file_size item_size o ∨
        file_size < o' ∧ m = kept file_size item_size keeps o + 1 ∧ ∀ o, keeps o = true) := by
  have hpos := h.pos
  induction m generalizing o n req with
  | zero =>
    cases hd
    exact ⟨.inl rfl, o, by simp, .inl ⟨ho, rfl, rfl⟩⟩
  | succ m ih =>
    obtain ⟨r1, req1, hread, hrest⟩ := delivers_succ.1 hd
    cases h.call hleft o n req with
    | past _ hcall =>
      rw [hread] at hcall
      cases hcall
    | done _ _ _ _ _ hcall =>
      rw [hread] at hcall
      cases hcall
    | fault _ _ _ hcall =>
      rw [hread] at hcall
      cases hcall
    | kept o' req2 hallows hle hoo hmod hk hkept hcall =>
      rw [hread] at hcall
      cases hcall
      obtain ⟨hallows', o2, rfl, hwhere⟩ := ih (by omega) hrest
      refine ⟨allows_succ.2 ⟨hallows, hallows'⟩, o2, ?_, ?_⟩
      · rw [show n + ((m + 1 : Nat) : Int) = n + 1 + m by push_cast; omega]
      · rw [cut_off_next hle hoo hmod, hkept]
        exact hwhere.imp (fun hw => ⟨hw.1, by omega, hw.2.2⟩) (fun hw => ⟨hw.1, by omega, hw.2.2⟩)
    | cut req2 hallows hsmall hall hlt hcut hmod hcall =>
      rw [hread] at hcall
      cases hcall
      -- past the end of the file nothing is delivered
      cases m with
      | zero =>
        cases hrest
        refine ⟨hallows, o + item_size, rfl, .inr ⟨hcut, ?_, hall⟩⟩
        rw [kept_zero hpos hcut]
      | succ m =>
        obtain ⟨r2, req3, hread', -⟩ := delivers_succ.1 hrest
        rw [read_one_req_end (put_end h (.inl hcut.le))] at hread'
        cases hread'

theorem Fixed.delivers_kept (h : Fixed at_ file_size item_size keeps) (hleft : r.n_req_left ≤ 0) (ho : o ≤ file_size)
    (hm : m ≤ kept file_size item_size keeps o) (hallows : (r.put (at_ o) n).Allows m) (req : Binary.Request) :
    ∃ o' req', Delivers (r.put (at_ o) n) req m (r.put (at_ o') (n + m)) req' ∧ o' ≤ file_size ∧
      kept file_size item_size keeps o' + m = kept file_size item_size keeps o ∧
      cut_off file_size item_size o' = cut_off file_size item_size o := by
  have hpos := h.pos
  induction m generalizing o n req with
  | zero => exact ⟨o, req, by simp [Delivers, read_n_req], ho, rfl, rfl⟩
  | succ m ih =>
    cases h.call hleft o n req with
    | past hend hcall =>
      rcases hend with hend | hcap
      · rw [kept_zero hpos (by omega)] at hm
        omega
      · exact absurd (allows_mono hallows (by omega)) hcap
    | done _ _ _ hk => omega
    | fault _ hk => omega
    | kept o1 req1 hallows1 hle hoo hmod hk hkept hcall =>
      obtain ⟨o', req', hd, ho', hsum, hcut⟩ := ih hle (by omega) (allows_succ.1 hallows).2 req1
      refine ⟨o', req', delivers_succ.2 ⟨_, _, hcall, ?_⟩, ho', by omega, ?_⟩
      · rw [show n + ((m + 1 : Nat) : Int) = n + 1 + m by push_cast; omega]
        exact hd
      · rw [hcut, cut_off_next hle hoo hmod]
    | cut _ _ _ _ _ hcut =>
      rw [kept_zero hpos hcut] at hm
      omega

/-! ## To the end -/

/-- Every record is delivered, and then the end is reported: there is nothing left, or a cap holds the reader back from the
record that is cut off. -/
structure Complete (r : Reader b) (file_size item_size : Nat) (keeps : Nat → Bool) (o : Nat) : Prop where
  keeps : ∀ i < ahead file_size item_size o, keeps (o + i * item_size) = true
  allows : r.Allows (ahead file_size item_size o)
  ends : (file_size - o) % item_size = 0 ∨ ¬ r.Allows (ahead file_size item_size o + 1)

theorem deliver_some (h : read_one_req r req = some (r', req', ok)) :
    deliver (r, req) = some ((r', req'), if ok then some req' else none) := by
  simp [deliver, h]

theorem reads_of_delivers (h : Delivers r req m r' req')
    (hend : ∃ s, read_one_req r' req' = some s ∧ s.2.2 = false) : ∃ l, Reads deliver (r, req) l ∧ l.length = m := by
  induction m generalizing r req with
  | zero =>
    cases h
    obtain ⟨⟨r1, req1, ok⟩, hread, rfl⟩ := hend
    exact ⟨[], .done (deliver_some hread), rfl⟩
  | succ m ih =>
    obtain ⟨r1, req1, hread, hrest⟩ := delivers_succ.1 h
    obtain ⟨l, hl, hlen⟩ := ih hrest
    exact ⟨req1 :: l, .more (deliver_some hread) hl, by simp [hlen]⟩

theorem delivers_of_reads {l : List Binary.Request} {s : Reader b × Binary.Request} (h : Reads deliver s l) :
    ∃ r' req', Delivers s.1 s.2 l.length r' req' ∧ ∃ t, read_one_req r' req' = some t ∧ t.2.2 = false := by
  induction h with
  | @done s t hread =>
    simp only [deliver, bind_eq_bind, bind_eq_some_iff, Prod.exists, Option.pure_def, some.injEq,
      Prod.mk.injEq] at hread
    obtain ⟨r1, req1, ok, hread, -, hok⟩ := hread
    exact ⟨s.1, s.2, rfl, _, hread, by simpa using hok⟩
  | @more s t req l hread _ ih =>
    simp only [deliver, bind_eq_bind, bind_eq_some_iff, Prod.exists, Option.pure_def, some.injEq,
      Prod.mk.injEq] at hread
    obtain ⟨r1, req1, ok, hread, rfl, hok⟩ := hread
    obtain ⟨r', req', hd, hend⟩ := ih
    cases ok with
    | false => cases hok
    | true => exact ⟨r', req', delivers_succ.2 ⟨r1, req1, hread, hd⟩, hend⟩

theorem Fixed.complete_of_delivers (h : Fixed at_ file_size item_size keeps) (hleft : r.n_req_left ≤ 0) (ho : o ≤ file_size)
    (hd : Delivers (r.put (at_ o) n) req (ahead file_size item_size o) r' req')
    (hend : ∃ t, read_one_req r' req' = some t ∧ t.2.2 = false) : Complete (r.put (at_ o) n) file_size item_size keeps o := by
  have hle : kept file_size item_size keeps o ≤ ahead file_size item_size o := kept_le o
  obtain ⟨hallows, o', rfl, hwhere⟩ := h.delivers_inv hleft ho hd
  obtain ⟨t, hread, hok⟩ := hend
  rcases hwhere with ⟨-, hsum, hcut⟩ | ⟨-, hm, hall⟩
  · refine ⟨kept_eq_iff.1 (by omega), hallows, ?_⟩
    have hmod_iff : (file_size - o') % item_size = 0 → (file_size - o) % item_size = 0 := by
      intro hmod
      by_contra hne
      rw [cut_off, cut_off, if_pos hmod, if_neg hne] at hcut
      cases hcut
    cases h.call hleft o' (n + ahead file_size item_size o) req' with
    | past hover _ =>
      refine hover.imp (fun hle => hmod_iff ?_) (fun hcap hnext => hcap ?_)
      · rw [show file_size - o' = 0 by omega, zero_mod]
      · unfold Reader.Allows Reader.put at *
        dsimp only at *
        omega
    | done _ _ _ _ hmod _ => exact .inl (hmod_iff hmod)
    | kept _ _ _ _ _ _ _ _ hcall | cut _ _ _ _ _ _ _ hcall =>
      rw [hread] at hcall
      cases hcall
      cases hok
    | fault _ _ _ hcall =>
      rw [hread] at hcall
      cases hcall
  · rw [kept_eq_iff.2 fun i _ => hall _] at hm
    omega

theorem Complete.delivers (hc : Complete (r.put (at_ o) n) file_size item_size keeps o) (h : Fixed at_ file_size item_size keeps)
    (hleft : r.n_req_left ≤ 0) (ho : o ≤ file_size) (req : Binary.Request) :
    ∃ o' req', Delivers (r.put (at_ o) n) req (ahead file_size item_size o) (r.put (at_ o') (n + ahead file_size item_size o)) req' ∧
      (file_size ≤ o' ∨ ¬ (r.put (at_ o') (n + ahead file_size item_size o)).Allows 1) := by
  have hdiv := div_add_mod' (file_size - o) item_size
  have hle : o + ahead file_size item_size o * item_size ≤ file_size := by
    unfold ahead
    omega
  obtain ⟨req', hd⟩ := h.delivers hleft hle hc.keeps hc.allows req
  refine ⟨_, req', hd, hc.ends.imp (fun hmod => ?_) (fun hcap hnext => hcap ?_)⟩
  · unfold ahead
    omega
  · unfold Reader.Allows Reader.put at *
    dsimp only at *
    omega

theorem Fixed.reads_iff (h : Fixed at_ file_size item_size keeps) (hleft : r.n_req_left ≤ 0) (ho : o ≤ file_size)
    (req : Binary.Request) :
    (∃ l, Reads deliver (r.put (at_ o) n, req) l ∧ l.length = ahead file_size item_size o) ↔
      Complete (r.put (at_ o) n) file_size item_size keeps o := by
  constructor
  · rintro ⟨l, hl, hlen⟩
    obtain ⟨r', req', hd, hend⟩ := delivers_of_reads hl
    rw [hlen] at hd
    exact h.complete_of_delivers hleft ho hd hend
  · intro hc
    obtain ⟨o', req', hd, hend⟩ := hc.delivers h hleft ho req
    exact reads_of_delivers hd ⟨_, read_one_req_end (put_end h hend) req', rfl⟩

/-! ## Record structs -/

def record_keeps (format : RecordFormat) (s : Binary.Reader) (o : Nat) : Bool :=
  !s.skips (format.fields ((s.mapped_file.drop o).take s.item_size) {})

theorem skips_eq (format : RecordFormat) (s : Binary.Reader) (o o' : Nat) (req : BinaryRequest) :
    Binary.Reader.skips { s with mmap_offset := o' } (format.fields ((s.mapped_file.drop o).take s.item_size) req) =
      !record_keeps format s o := by
  rw [record_keeps, Bool.not_not]
  unfold Binary.Reader.skips
  rw [format.obj_size_eq]

theorem read_record_fuel {fields : Bytes → BinaryRequest → BinaryRequest} {s : Binary.Reader} (hpos : 0 < s.item_size)
    {fuel fuel' : Nat} (hfuel : s.file_size - s.mmap_offset < fuel) (hfuel' : s.file_size - s.mmap_offset < fuel')
    (req : BinaryRequest) : read_record fields fuel s req = read_record fields fuel' s req := by
  induction fuel generalizing fuel' s req with
  | zero => omega
  | succ fuel ih =>
    obtain ⟨fuel', rfl⟩ : ∃ k, fuel' = k + 1 := ⟨fuel' - 1, by omega⟩
    rw [read_record, read_record]
    unfold Binary.read_bytes
    by_cases hend : s.mmap_offset ≥ s.file_size
    · rw [if_pos hend]
      rfl
    · rw [if_neg hend]
      by_cases hle : s.mmap_offset + s.item_size ≤ s.file_size
      · rw [if_pos hle]
        simp only [bind_eq_bind, bind_some]
        have hrest : ∀ req, read_record fields fuel { s with mmap_offset := s.mmap_offset + s.item_size } req =
            read_record fields fuel' { s with mmap_offset := s.mmap_offset + s.item_size } req := by
          apply ih (s := { s with mmap_offset := s.mmap_offset + s.item_size }) hpos
          · show s.file_size - (s.mmap_offset + s.item_size) < fuel
            omega
          · show s.file_size - (s.mmap_offset + s.item_size) < fuel'
            omega
        rw [hrest]
      · rw [if_neg hle]
        rfl

theorem records_read (format : RecordFormat) (s : Binary.Reader) (o : Nat) (left time : Int) (req : Binary.Request) :
    ((Source.records format s : Source b).at o).read_one_req left time req =
      (read_record format.fields (s.file_size + 1) { s with mmap_offset := o } req.toBinaryRequest).map fun t =>
        (.records format t.1, left, time, { req with toBinaryRequest := t.2.1 }, t.2.2) := by
  rw [map_eq_bind]
  rfl

theorem read_record_at (format : RecordFormat) {s : Binary.Reader} (hpos : 0 < s.item_size) {o : Nat}
    (hle : o + s.item_size ≤ s.file_size) (fuel : Nat) (req : BinaryRequest) :
    read_record format.fields (fuel + 1) { s with mmap_offset := o } req =
      let req := format.fields ((s.mapped_file.drop o).take s.item_size) req
      if record_keeps format s o then some ({ s with mmap_offset := o + s.item_size }, req, true)
      else read_record format.fields fuel { s with mmap_offset := o + s.item_size } req := by
  rw [read_record]
  unfold Binary.read_bytes
  rw [if_neg (by show ¬ o ≥ s.file_size; omega), if_pos (by exact hle)]
  simp only [bind_eq_bind, bind_some, skips_eq]
  cases record_keeps format s o <;> rfl

theorem fixed_records (format : RecordFormat) (s : Binary.Reader) (hpos : 0 < s.item_size) :
    Fixed (fun o => (Source.records format s : Source b).at o) s.file_size s.item_size (record_keeps format s) where
  pos := hpos
  length _ := rfl
  offset _ := rfl
  read_kept := by
    intro o left time req hle hkeep
    rw [records_read, read_record_at format hpos hle, hkeep, if_pos rfl]
    exact ⟨_, rfl⟩
  read_skipped := by
    intro o left time req hle hkeep
    rw [records_read, read_record_at format hpos hle, hkeep, if_neg (by simp)]
    by_cases hlast : o + s.item_size = s.file_size
    · obtain ⟨fuel, hfuel⟩ : ∃ k, s.file_size = k + 1 := ⟨s.file_size - 1, by omega⟩
      simp only [if_pos hlast]
      rw [hfuel, read_record, read_bytes_end (by show s.file_size ≤ o + s.item_size; omega)]
      exact ⟨_, rfl⟩
    · simp only [if_neg hlast, records_read]
      refine ⟨{ req with toBinaryRequest := format.fields ((s.mapped_file.drop o).take s.item_size) req.toBinaryRequest }, ?_⟩
      rw [read_record_fuel (s := { s with mmap_offset := o + s.item_size }) hpos]
      · show s.file_size - (o + s.item_size) < s.file_size
        omega
      · show s.file_size - (o + s.item_size) < s.file_size + 1
        omega
  read_cut := by
    intro o left time req hlt hcut
    left
    rw [records_read, read_record]
    unfold Binary.read_bytes
    rw [if_neg (by show ¬ o ≥ s.file_size; omega), if_neg (by show ¬ o + s.item_size ≤ s.file_size; omega)]
    rfl

/-! ## Records by a format string -/

theorem foldlM_add_size_eq {l : Bytes} {a v : Int} (h : l.foldlM add_size a = some v) :
    (∀ format ∈ l, format_to_size format = some (width format)) ∧ v = a + ((l.map width).sum : Nat) ∧ (l = [] ∨ v < 2 ^ 31) := by
  induction l generalizing a with
  | nil =>
    cases h
    simp
  | cons format l ih =>
    rw [foldlM_cons, bind_eq_bind, bind_eq_some_iff] at h
    obtain ⟨a', hstep, h⟩ := h
    simp only [add_size, bind_eq_bind, bind_eq_some_iff, Option.guard_eq_some', Option.pure_def,
      some.injEq] at hstep
    obtain ⟨size, hsize, -, hlt, rfl⟩ := hstep
    have hwidth : width format = size := by rw [width, hsize, Option.getD_some]
    obtain ⟨hall, rfl, hsmall⟩ := ih h
    refine ⟨?_, ?_, .inr ?_⟩
    · intro f hf
      rcases mem_cons.1 hf with rfl | hf
      · rw [hsize, hwidth]
      · exact hall f hf
    · rw [map_cons, sum_cons, hwidth]
      push_cast
      ring
    · rcases hsmall with rfl | hsmall
      · simpa using hlt
      · exact hsmall

structure Whole (s : BinaryReader) : Prop where
  pos : 0 < s.item_size
  small : s.item_size < 2 ^ 31
  fields : ∀ support_ttl t, s.reads support_ttl t = true →
    ∃ size, format_to_size (s.params t).format = some size ∧ (s.params t).offset.toNat + size ≤ s.item_size

variable {fmt_str : Bytes} {f : Field}

theorem setup_obj_id_whole {field item_size : Int} (hf : setup_obj_id fmt_str field = some f)
    (hitem : cal_offset fmt_str (fmt_str.length + 1) = some item_size) (hlt : to_field_idx field ≤ fmt_str.length) :
    ∃ size, format_to_size f.format = some size ∧ f.offset.toNat + size ≤ item_size.toNat := by
  simp only [setup_obj_id, char_at, cal_offset, bind_eq_bind, bind_eq_some_iff, Option.ite_none_left_eq_some,
    Option.pure_def, some.injEq] at hf hitem
  obtain ⟨format, ⟨hidx, rfl⟩, offset, ⟨-, hoffset⟩, rfl⟩ := hf
  obtain ⟨i, hi⟩ : ∃ i : Nat, to_field_idx field - 1 = i := ⟨(to_field_idx field - 1).toNat, by omega⟩
  have hlen : i < fmt_str.length := by omega
  obtain ⟨hall, htotal, -⟩ := foldlM_add_size_eq hitem.2
  obtain ⟨-, hstart, -⟩ := foldlM_add_size_eq hoffset
  have hle := field_offset_le fmt_str hlen
  rw [show ((fmt_str.length : Int) + 1 - 1).toNat = fmt_str.length by omega, take_length] at hall htotal
  rw [hi, Int.toNat_natCast] at hstart
  rw [hi, Int.toNat_natCast]
  have hmem : fmt_str.getD i 0 ∈ fmt_str := by
    rw [getD_eq_getElem?_getD, getElem?_eq_getElem hlen]
    exact getElem_mem hlen
  refine ⟨_, hall _ hmem, ?_⟩
  unfold field_offset at hle
  dsimp only
  omega

theorem setup_field_whole {field item_size : Int} (hf : setup_field fmt_str field = some f)
    (hitem : cal_offset fmt_str (fmt_str.length + 1) = some item_size) (hlt : to_field_idx field ≤ fmt_str.length)
    (hpos : f.field_idx > 0) : ∃ size, format_to_size f.format = some size ∧ f.offset.toNat + size ≤ item_size.toNat := by
  unfold setup_field at hf
  split_ifs at hf with h
  · exact setup_obj_id_whole hf hitem hlt
  · cases hf
    exact absurd hpos h

variable {file : Bytes}

theorem setup_whole {init : BinaryInit} (h : binaryReader_setup init file = some s)
    (hfields : ∀ t, to_field_idx (init.field t) < init.binary_fmt_str.length) : Whole s := by
  simp only [binaryReader_setup, bind_eq_bind, bind_eq_some_iff, Option.guard_eq_some', Option.pure_def,
    some.injEq] at h
  obtain ⟨-, hhead, obj_id, hobj_id, time, htime, obj_size, hobj_size, obj_cost, hobj_cost, op, hop, ttl, httl, next, hnext,
    item_size, hitem, -, hne, rfl⟩ := h
  have hlen : init.binary_fmt_str.tail.length + 1 = init.binary_fmt_str.length := by
    cases hstr : init.binary_fmt_str with
    | nil =>
      rw [hstr] at hhead
      cases hhead
    | cons c l => rfl
  have hle : ∀ t, to_field_idx (init.field t) ≤ init.binary_fmt_str.tail.length := by
    intro t
    have := hfields t
    omega
  obtain ⟨-, hsum, hsmall⟩ := foldlM_add_size_eq (Option.ite_none_left_eq_some.1 hitem).2
  have hlt : item_size < 2 ^ 31 := by
    rcases hsmall with hnil | hlt
    · rw [hnil] at hsum
      exact absurd (by simpa using hsum) hne
    · exact hlt
  refine ⟨by show 0 < item_size.toNat; omega, by show item_size.toNat < 2 ^ 31; omega, ?_⟩
  intro support_ttl t hreads
  have hpos : t ≠ .obj_id → _ > (0 : Int) := fun ht =>
    ((of_decide_eq_true hreads).resolve_left ht).1
  cases t with
  | obj_id => exact setup_obj_id_whole hobj_id hitem (hle _)
  | time => exact setup_field_whole htime hitem (hle _) (hpos (by simp))
  | obj_size => exact setup_field_whole hobj_size hitem (hle _) (hpos (by simp))
  | obj_cost => exact setup_field_whole hobj_cost hitem (hle _) (hpos (by simp))
  | op => exact setup_field_whole hop hitem (hle _) (hpos (by simp))
  | ttl => exact setup_field_whole httl hitem (hle _) (hpos (by simp))
  | next_access_vtime => exact setup_field_whole hnext hitem (hle _) (hpos (by simp))

theorem binary_read_whole (h : Whole s) (hle : s.mmap_offset + s.item_size ≤ s.mapped_file.length)
    (support_ttl : Bool) (casts : FloatCasts) (req : Binary.Request) :
    ∃ req', binary_read_one_req support_ttl casts s req = some ({ s with mmap_offset := s.mmap_offset + s.item_size }, req') := by
  have hfield : ∀ req t, ∃ req', read_field support_ttl casts s req t = some req' := by
    intro req t
    unfold read_field
    split_ifs with hreads
    · obtain ⟨size, hsize, hfit⟩ := h.fields support_ttl t hreads
      have hroom : size ≤ ((s.mapped_file.drop s.mmap_offset).drop (s.params t).offset.toNat).length := by
        rw [length_drop, length_drop]
        omega
      simp only [read_data, hsize, bind_eq_bind, bind_some, guard, if_pos hroom]
      exact ⟨_, rfl⟩
    · exact ⟨req, rfl⟩
  have hfold : ∀ (l : List Target) req, ∃ req', l.foldlM (read_field support_ttl casts s) req = some req' := by
    intro l
    induction l with
    | nil => exact fun req => ⟨req, rfl⟩
    | cons t l ih =>
      intro req
      obtain ⟨req1, hfirst⟩ := hfield req t
      obtain ⟨req', hrest⟩ := ih req1
      exact ⟨req', by rw [foldlM_cons, hfirst]; exact hrest⟩
  obtain ⟨req', hall⟩ := hfold Target.all req
  exact ⟨req', by simp [binary_read_one_req, hall]⟩

theorem fixed_bin (h : Whole s) :
    Fixed (fun o => (Source.bin s : Source b).at o) s.mapped_file.length s.item_size (fun _ => true) where
  pos := h.pos
  length _ := rfl
  offset _ := rfl
  read_kept := by
    intro o left time req hle _
    have hwhole : Whole { s with mmap_offset := o } := { h with }
    obtain ⟨req', hread⟩ := binary_read_whole hwhole hle b.support_ttl b.casts req
    refine ⟨req', ?_⟩
    simp only [Source.at, Source.read_one_req, hread]
    rfl
  read_skipped := by
    intro o left time req _ hkeep
    cases hkeep
  read_cut := by
    intro o left time req _ _
    cases hread : binary_read_one_req b.support_ttl b.casts { s with mmap_offset := o } req with
    | none =>
      left
      simp only [Source.at, Source.read_one_req, hread]
      rfl
    | some t =>
      right
      refine ⟨h.small, fun _ => rfl, t.2, ?_⟩
      have hat : t.1 = { s with mmap_offset := o + s.item_size } := by
        simp only [binary_read_one_req, bind_eq_bind, bind_eq_some_iff, Option.pure_def, some.injEq] at hread
        obtain ⟨req', -, rfl⟩ := hread
        rfl
      simp only [Source.at, Source.read_one_req, hread]
      rw [← hat]
      rfl

/-! ## Traces that were opened -/

def Source.keeps_record : Source b → Nat → Bool
  | .records format s, o => record_keeps format s o
  | _, _ => true

structure Source.Regular (s : Source b) : Prop where
  fixed : Fixed s.at s.file_size s.item_size s.keeps_record
  at_self : s.at s.mmap_offset = s

theorem regular_records (format : RecordFormat) {s : Binary.Reader} (hpos : 0 < s.item_size) :
    (Source.records format s : Source b).Regular := ⟨fixed_records format s hpos, rfl⟩

theorem regular_bin (h : Whole s) : (Source.bin s : Source b).Regular := ⟨fixed_bin h, rfl⟩

theorem Source.Headerless.regular {s : Source b} (h : s.Headerless) : s.Regular := by
  cases h with
  | bin _ _ _ hfields hsetup => exact regular_bin (setup_whole hsetup hfields)
  | records format zero _ hpos =>
    apply regular_records
    unfold open_records count_records
    split_ifs <;> exact hpos

theorem Source.Headerless.announced {s : Source b} (h : s.Headerless) (hlen : s.file_size < 2 ^ 63) :
    s.mmap_offset ≤ s.file_size ∧ s.n_total_req = ahead s.file_size s.item_size s.mmap_offset := by
  cases h with
  | @bin init file s _ hle _ _ hsetup =>
    simp only [binaryReader_setup, bind_eq_bind, bind_eq_some_iff, Option.pure_def, some.injEq] at hsetup
    obtain ⟨-, -, obj_id, -, time, -, obj_size, -, obj_cost, -, op, -, ttl, -, next, -, item_size, hitem, -, -, rfl⟩ := hsetup
    obtain ⟨-, hsum, -⟩ := foldlM_add_size_eq (Option.ite_none_left_eq_some.1 hitem).2
    refine ⟨hle, ?_⟩
    have hlt : (file.length : Int) < 2 ^ 63 := by exact_mod_cast hlen
    show ((file.length : Int) - init.trace_start_offset) % 2 ^ 64 / item_size =
      ((file.length - init.trace_start_offset) / item_size.toNat : Nat)
    rw [Int.emod_eq_of_lt (by omega) (by omega), Int.natCast_ediv]
    push_cast [hle]
    rw [Int.toNat_of_nonneg (by omega)]
  | @records format file item_size start zero _ hpos hle _ =>
    exact ⟨hle, rfl⟩

/-- Reading a truncated trace to its end delivers the announced number of requests, and reads nothing behind the file, if and
only if no record is passed over, and the records fill the file or a cap of just this number stops the reader. -/
theorem reads_announced_iff (r : Reader b) (hopen : r.Opened) (hsource : r.source.Headerless) (hlen : r.source.file_size < 2 ^ 63)
    (req : Binary.Request) :
    let f := ahead r.source.file_size r.source.item_size r.source.mmap_offset
    (∃ l, Reads deliver (r, req) l ∧ l.length = f ∧ r.source.n_total_req = f) ↔
      (∀ i < f, r.source.keeps_record (r.source.mmap_offset + i * r.source.item_size) = true) ∧
      (1 < r.cap_at_n_req ∧ r.cap_at_n_req = f ∨
        r.source.item_size ∣ r.source.file_size - r.source.mmap_offset ∧ (r.cap_at_n_req ≤ 1 ∨ f ≤ r.cap_at_n_req)) := by
  intro f
  obtain ⟨hle, htotal⟩ := hsource.announced hlen
  have hreg := hsource.regular
  have hput : r.put (r.source.at r.source.mmap_offset) 0 = r := by
    rw [hreg.at_self, ← hopen.n_read_req]
    rfl
  have hiff := hreg.fixed.reads_iff (r := r) (n := 0) (by rw [hopen.n_req_left]) hle req
  rw [hput] at hiff
  have hboth : (∃ l, Reads deliver (r, req) l ∧ l.length = f ∧ r.source.n_total_req = f) ↔
      ∃ l, Reads deliver (r, req) l ∧ l.length = f := by simp only [htotal, f, and_true]
  rw [hboth, hiff]
  constructor
  · rintro ⟨hkeeps, hallows, hends⟩
    refine ⟨hkeeps, ?_⟩
    unfold Reader.Allows at hallows hends
    rw [hopen.n_read_req] at hallows hends
    omega
  · rintro ⟨hkeeps, hcap⟩
    refine ⟨hkeeps, ?_, ?_⟩
    · unfold Reader.Allows
      rw [hopen.n_read_req]
      omega
    · unfold Reader.Allows
      rw [hopen.n_read_req]
      omega

def bare_build : Build where
  support_ttl := false
  casts := no_floats
  zstd := Zstd.small_decoder
  fuel := 0

def id_init : BinaryInit where
  binary_fmt_str := ascii "<qI"
  field
    | .obj_id => 1
    | _ => 0

def id_reader (file : Bytes) (cap : Int) : Option (Reader bare_build) :=
  (binaryReader_setup id_init file).map fun s => { source := .bin s, cap_at_n_req := cap }

theorem id_reader_opened (hne : file ≠ []) {cap : Int} {r : Reader bare_build} (h : id_reader file cap = some r) :
    r.Opened ∧ r.source.Headerless := by
  obtain ⟨s, hsetup, rfl⟩ := Option.map_eq_some_iff.1 h
  have hsource : (Source.bin s : Source bare_build).Headerless := by
    refine .bin hne (zero_le _) (by decide) ?_ hsetup
    intro t
    cases t <;> decide
  exact ⟨⟨.headerless hsource, rfl, rfl, rfl⟩, hsource⟩

theorem reads_announced_of_two : ∃ r, id_reader (List.replicate 24 1) 0 = some r ∧
    ∃ l, Reads deliver (r, {}) l ∧ l.length = 2 ∧ r.source.n_total_req = 2 := by
  obtain ⟨r, hr, hitem, hsize, hoffset, hcap, hkeeps⟩ : ∃ r, id_reader (List.replicate 24 1) 0 = some r ∧
      r.source.item_size = 12 ∧ r.source.file_size = 24 ∧
      r.source.mmap_offset = 0 ∧ r.cap_at_n_req = 0 ∧ ∀ i < 2, r.source.keeps_record (i * 12) = true := by decide +kernel
  obtain ⟨hopen, hsource⟩ := id_reader_opened (by decide) hr
  have hf : ahead r.source.file_size r.source.item_size r.source.mmap_offset = 2 := by rw [hitem, hsize, hoffset]; rfl
  obtain ⟨l, hl, hlen, htotal⟩ := (reads_announced_iff r hopen hsource (by rw [hsize]; decide) {}).2 ⟨by
    rw [hf, hoffset, hitem]
    simpa using hkeeps, .inr ⟨by rw [hitem, hsize, hoffset]; decide, .inl (by rw [hcap]; decide)⟩⟩
  rw [hf] at hlen htotal
  exact ⟨r, hr, l, hl, hlen, htotal⟩

/-- Twenty bytes announce one request and deliver two: all that is needed of the second lies before the cut. -/
theorem cut_record_delivered : ∃ r, id_reader (List.replicate 20 1) 0 = some r ∧ r.Opened ∧ r.source.Headerless ∧
    r.source.n_total_req = 1 ∧ (∃ l, Reads deliver (r, {}) l ∧ l.length = 2) ∧
    ¬ ∃ l, Reads deliver (r, {}) l ∧ l.length = ahead r.source.file_size r.source.item_size r.source.mmap_offset := by
  obtain ⟨r, hr, htotal, hf, hread⟩ : ∃ r, id_reader (List.replicate 20 1) 0 = some r ∧ r.source.n_total_req = 1 ∧
      ahead r.source.file_size r.source.item_size r.source.mmap_offset = 1 ∧
      (read_all deliver 3 (r, {})).map List.length = some 2 := by decide +kernel
  obtain ⟨hopen, hsource⟩ := id_reader_opened (by decide) hr
  obtain ⟨l, hl, hlen⟩ := Option.map_eq_some_iff.1 hread
  refine ⟨r, hr, hopen, hsource, htotal, ⟨l, Reads.of_read_all hl, hlen⟩, ?_⟩
  rintro ⟨l', hl', hlen'⟩
  rw [hl'.unique (Reads.of_read_all hl), hlen, hf] at hlen'
  cases hlen'

end CacheSim.Readers
