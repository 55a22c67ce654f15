import CacheSim.Lcp.Cost
import CacheSim.Readers.Records

/-!
# Skipping requests

`skip_n_req` adds to the offset and does not count reads; a read may pass over records, is held to the cap,
and keeps the state of the decoder.
-/

namespace CacheSim.Readers

open Lib Binary List Option Nat Int

variable {b : Build} {at_ : Nat → Source b} {file_size item_size : Nat} {keeps : Nat → Bool} {o : Nat} {r : Reader b} {n : Int}

/-- `N` calls return what `skip_n_req` counts, and what is delivered afterwards is the same. -/
def SkipAgrees (r : Reader b) (N : Nat) : Prop :=
  ∀ req, ∃ r' req' n_ok, read_n_req N r req = some (r', req', n_ok) ∧ (skip_n_req r N).2 = n_ok ∧
    ∀ m q, outcomes m r' q = outcomes m (skip_n_req r N).1 q

theorem Fixed.outcomes_over (h : Fixed at_ file_size item_size keeps) (hleft : r.n_req_left ≤ 0)
    (hkept : kept file_size item_size keeps o = 0) (hcut : cut_off file_size item_size o = 0) (m : Nat) (req : Binary.Request) :
    outcomes m (r.put (at_ o) n) req = List.replicate m (some none) := by
  have hmod : (file_size - o) % item_size = 0 := by
    by_contra hne
    rw [cut_off, if_neg hne] at hcut
    cases hcut
  cases h.call hleft o n req with
  | past hend _ => exact outcomes_end (put_end h hend) m req
  | done req' _ _ _ _ hcall =>
    cases m with
    | zero => rfl
    | succ m =>
      rw [outcomes_some hcall, replicate_succ, outcomes_end (put_end h (.inl le_rfl))]
      rfl
  | kept _ _ _ _ _ _ _ hk _ => omega
  | fault _ _ hne _ => exact absurd hmod hne
  | cut _ _ _ _ _ _ hne _ => exact absurd hmod hne

theorem Fixed.outcomes_eq (h : Fixed at_ file_size item_size keeps) (hleft : r.n_req_left ≤ 0) {n1 n2 : Int}
    (h1 : (r.put (at_ o) n1).Allows (kept file_size item_size keeps o + cut_off file_size item_size o))
    (h2 : (r.put (at_ o) n2).Allows (kept file_size item_size keeps o + cut_off file_size item_size o)) (m : Nat)
    (req : Binary.Request) : outcomes m (r.put (at_ o) n1) req = outcomes m (r.put (at_ o) n2) req := by
  have hpos := h.pos
  induction m generalizing o n1 n2 req with
  | zero => rfl
  | succ m ih =>
    by_cases hzero : kept file_size item_size keeps o + cut_off file_size item_size o = 0
    · rw [h.outcomes_over hleft (by omega) (by omega), h.outcomes_over hleft (by omega) (by omega)]
    · have ho : o < file_size := by
        by_contra hge
        apply hzero
        rw [kept_zero hpos (by omega), cut_off, show file_size - o = 0 by omega, zero_mod, if_pos rfl]
      have hread1 := put_read h ho (allows_mono h1 (by omega)) hleft req
      have hread2 := put_read h ho (allows_mono h2 (by omega)) hleft req
      cases h.next ho r.n_req_left r.last_req_clock_time (blank req) with
      | kept o' req' hle hoo hmod hk hkept hnext =>
        rw [hnext] at hread1 hread2
        rw [outcomes_some hread1, outcomes_some hread2]
        rw [hkept, cut_off_next hle hoo hmod, add_right_comm] at h1 h2
        have hrest := ih (allows_succ.1 h1).2 (allows_succ.1 h2).2 ((r.put (at_ o) n1).adjust req')
        exact congrArg (_ :: ·) hrest
      | done req' hk hmod _ =>
        rw [hk, cut_off, if_pos hmod] at hzero
        exact absurd rfl hzero
      | fault hk hmod hnext =>
        rw [hnext] at hread1 hread2
        rw [outcomes_none hread1, outcomes_none hread2]
      | cut req' hsmall hall hlt hmod hnext =>
        rw [hnext] at hread1 hread2
        rw [outcomes_some hread1, outcomes_some hread2]
        have hover : ∀ k req, outcomes m (r.put (at_ (o + item_size)) k) req = List.replicate m (some none) :=
          fun k => outcomes_end (put_end h (.inl hlt.le)) m
        exact congrArg (_ :: ·) ((hover _ _).trans (hover _ _).symm)

/-! ## The calls after the last request -/

theorem read_n_req_end (h : r.source.file_size ≤ r.source.mmap_offset ∨ ¬ r.Allows 1) (m : Nat) (req : Binary.Request) :
    ∃ req', read_n_req m r req = some (r, req', 0) := by
  induction m generalizing req with
  | zero => exact ⟨req, rfl⟩
  | succ m ih =>
    obtain ⟨req', hrest⟩ := ih { req with valid := false }
    exact ⟨req', by simp [read_n_req, read_one_req_end h, hrest]⟩

variable {req req' : Binary.Request}

theorem Fixed.read_n_req_inv (h : Fixed at_ file_size item_size keeps) (hleft : r.n_req_left ≤ 0) {N m : Nat}
    {r' : Reader b} (hread : read_n_req N (r.put (at_ o) n) req = some (r', req', m)) (hm : m < N) :
    ∃ r1 req1, Delivers (r.put (at_ o) n) req m r1 req1 ∧ ∃ t, read_one_req r1 req1 = some t ∧ t.2.2 = false := by
  induction N generalizing o n req m with
  | zero => omega
  | succ N ih =>
    simp only [read_n_req, bind_eq_bind, bind_eq_some_iff, Prod.exists] at hread
    obtain ⟨r1, req1, ok, hfirst, r2, req2, k, hrest, rfl, rfl, rfl⟩ := hread
    cases h.call hleft o n req with
    | past hend hcall =>
      rw [hfirst] at hcall
      cases hcall
      obtain ⟨q, hnone⟩ := read_n_req_end (put_end h hend) N { req with valid := false }
      rw [hrest] at hnone
      cases hnone
      exact ⟨_, _, rfl, _, hfirst, rfl⟩
    | done q _ _ _ _ hcall =>
      rw [hfirst] at hcall
      cases hcall
      obtain ⟨q', hnone⟩ := read_n_req_end (put_end (n := n + 1) h (.inl le_rfl)) N req1
      rw [hrest] at hnone
      cases hnone
      exact ⟨_, _, rfl, _, hfirst, rfl⟩
    | fault _ _ _ hcall =>
      rw [hfirst] at hcall
      cases hcall
    | kept o' q hallows _ _ _ _ _ hcall | cut q hallows _ _ _ _ _ hcall =>
      rw [hfirst] at hcall
      cases hcall
      simp only [if_true] at hm ⊢
      obtain ⟨r3, req3, hd, hend⟩ := ih hrest (by omega)
      exact ⟨r3, req3, by rw [add_comm]; exact delivers_succ.2 ⟨_, _, hfirst, hd⟩, hend⟩

/-! ## What a skip leaves -/

def first_kept (item_size : Nat) (keeps : Nat → Bool) (o N : Nat) : Nat := (List.range N).countP fun i => keeps (o + i * item_size)

theorem first_kept_le (N : Nat) : first_kept item_size keeps o N ≤ N := by
  simpa [first_kept] using countP_le_length (l := List.range N) (p := fun i => keeps (o + i * item_size))

variable {N : Nat}

theorem first_kept_eq_iff : first_kept item_size keeps o N = N ↔ ∀ i < N, keeps (o + i * item_size) = true := by
  have hcount := countP_eq_length (l := List.range N) (p := fun i => keeps (o + i * item_size))
  simpa [first_kept] using hcount

theorem kept_add (hpos : 0 < item_size) (hle : o + N * item_size ≤ file_size) :
    kept file_size item_size keeps o =
      first_kept item_size keeps o N + kept file_size item_size keeps (o + N * item_size) := by
  induction N with
  | zero => simp [first_kept]
  | succ N ih =>
    rw [succ_mul] at hle ⊢
    have hlast : first_kept item_size keeps o (N + 1) =
        first_kept item_size keeps o N + if keeps (o + N * item_size) = true then 1 else 0 := by
      simp [first_kept, range_succ]
    rw [ih (by omega), kept_succ hpos (by omega), hlast, add_assoc, add_assoc]

theorem ahead_le_iff (hpos : 0 < item_size) (ho : o ≤ file_size) :
    N ≤ ahead file_size item_size o ↔ o + N * item_size ≤ file_size := by
  rw [ahead, le_div_iff_mul_le hpos]
  omega

theorem cut_off_add (hle : o + N * item_size ≤ file_size) :
    cut_off file_size item_size (o + N * item_size) = cut_off file_size item_size o := by
  have hmod : (file_size - (o + N * item_size)) % item_size = (file_size - o) % item_size := by
    rw [show file_size - o = file_size - (o + N * item_size) + N * item_size by omega, add_mul_mod_self_right]
  rw [cut_off, cut_off, hmod]

theorem cut_off_le (o : Nat) : cut_off file_size item_size o ≤ 1 := by
  unfold cut_off
  split_ifs <;> omega

theorem Fixed.outcome_of_allows (h : Fixed at_ file_size item_size keeps) (hleft : r.n_req_left ≤ 0) (ho : o ≤ file_size)
    (hallows : (r.put (at_ o) n).Allows 1) (req : Binary.Request) :
    (0 < kept file_size item_size keeps o ∧ ∃ q, outcomes 1 (r.put (at_ o) n) req = [some (some q)]) ∨
    (kept file_size item_size keeps o = 0 ∧ cut_off file_size item_size o = 0 ∧
      outcomes 1 (r.put (at_ o) n) req = [some none]) ∨
    (kept file_size item_size keeps o = 0 ∧ (outcomes 1 (r.put (at_ o) n) req = [none] ∨ ∀ o, keeps o = true) ∧
      outcomes 1 (r.put (at_ o) n) req ≠ [some none]) := by
  have hpos := h.pos
  cases h.call hleft o n req with
  | past hend hcall =>
    have hge : file_size ≤ o := hend.resolve_right fun hcap => hcap hallows
    refine .inr (.inl ⟨kept_zero hpos (by omega), ?_, ?_⟩)
    · rw [cut_off, show file_size - o = 0 by omega, zero_mod, if_pos rfl]
    · rw [outcomes_some hcall]
      rfl
  | kept o' q _ _ _ _ _ hk hcall =>
    refine .inl ⟨by omega, q, ?_⟩
    rw [outcomes_some hcall]
    rfl
  | done q _ _ hk hmod hcall =>
    refine .inr (.inl ⟨hk, by rw [cut_off, if_pos hmod], ?_⟩)
    rw [outcomes_some hcall]
    rfl
  | fault _ hk _ hcall =>
    refine .inr (.inr ⟨hk, .inl (outcomes_none hcall 0), ?_⟩)
    rw [outcomes_none hcall]
    simp
  | cut q _ _ hall _ hlt _ hcall =>
    refine .inr (.inr ⟨kept_zero hpos hlt, .inr hall, ?_⟩)
    rw [outcomes_some hcall]
    simp

/-- After `N` reads, and after a skip that counts no reads, the same is delivered only if as many records are left and the cap
allows them all. -/
theorem Fixed.enough_of_outcomes_eq (h : Fixed at_ file_size item_size keeps) (hleft : r.n_req_left ≤ 0) {N o1 o2 : Nat}
    (hN : 0 < N) (hcap : (r.put (at_ o) n).Allows N) (ho1 : o1 ≤ file_size) (ho2 : o2 ≤ file_size)
    (hle : kept file_size item_size keeps o1 ≤ kept file_size item_size keeps o2)
    (hcut : cut_off file_size item_size o1 = cut_off file_size item_size o2)
    (hall : (∀ o, keeps o = true) → kept file_size item_size keeps o2 = kept file_size item_size keeps o1)
    (heq : ∀ m q, outcomes m (r.put (at_ o1) (n + N)) q = outcomes m (r.put (at_ o2) n) q) :
    kept file_size item_size keeps o2 = kept file_size item_size keeps o1 ∧
      (r.put (at_ o1) (n + N)).Allows (kept file_size item_size keeps o1 + cut_off file_size item_size o1) := by
  -- as many as both the records and the cap give
  obtain ⟨d, hd, hallows, hstop⟩ : ∃ d ≤ kept file_size item_size keeps o1, (r.put (at_ o1) (n + N)).Allows d ∧
      (d = kept file_size item_size keeps o1 ∨ ¬ (r.put (at_ o1) (n + N)).Allows (d + 1)) := by
    by_cases hk : (r.put (at_ o1) (n + N)).Allows (kept file_size item_size keeps o1)
    · exact ⟨_, le_rfl, hk, .inl rfl⟩
    · unfold Reader.Allows Reader.put at *
      dsimp only at *
      refine ⟨(r.cap_at_n_req - (n + N)).toNat, ?_, ?_, .inr ?_⟩
      all_goals omega
  have hallows2 : (r.put (at_ o2) n).Allows (d + 1) := by
    unfold Reader.Allows Reader.put at *
    dsimp only at *
    omega
  obtain ⟨o1', req1, hdel1, ho1', hsum1, -⟩ := h.delivers_kept hleft ho1 hd hallows {}
  obtain ⟨o2', req2, hdel2, ho2', hsum2, hcut2⟩ := h.delivers_kept hleft ho2 (hd.trans hle) (allows_mono hallows2 (by omega)) {}
  obtain ⟨rfl, hrest⟩ := outcomes_after (fun m => heq m {}) hdel1 hdel2
  have hone := hrest 1
  have hnext2 : (r.put (at_ o2') (n + d)).Allows 1 := by
    unfold Reader.Allows Reader.put at *
    dsimp only at *
    omega
  by_cases hmore : (r.put (at_ o1) (n + N)).Allows (d + 1)
  · have hdk : d = kept file_size item_size keeps o1 := hstop.resolve_right fun hno => hno hmore
    have hnext1 : (r.put (at_ o1') (n + N + d)).Allows 1 := by
      unfold Reader.Allows Reader.put at *
      dsimp only at *
      omega
    have hcut : cut_off file_size item_size o1 ≤ 1 := cut_off_le o1
    refine ⟨?_, allows_mono hmore (by omega)⟩
    rcases h.outcome_of_allows hleft ho2' hnext2 req1 with ⟨-, q, hout2⟩ | ⟨hk2, -⟩ | ⟨hk2, -⟩
    · rw [hout2] at hone
      rcases h.outcome_of_allows hleft ho1' hnext1 req1 with ⟨hk1, -⟩ | ⟨-, -, hout1⟩ | ⟨-, hout1 | hkeeps, -⟩
      · omega
      · rw [hout1] at hone
        simp at hone
      · rw [hout1] at hone
        simp at hone
      · exact hall hkeeps
    · omega
    · omega
  · have hcapped : outcomes 1 (r.put (at_ o1') (n + N + d)) req1 = [some none] := by
      apply outcomes_end (.inr _)
      unfold Reader.Allows Reader.put at *
      dsimp only at *
      omega
    rw [hcapped] at hone
    rcases h.outcome_of_allows hleft ho2' hnext2 req1 with ⟨-, q, hout2⟩ | ⟨hk2, hzero, -⟩ | ⟨-, -, hne⟩
    · rw [hout2] at hone
      simp at hone
    · have hdk : d = kept file_size item_size keeps o1 := by omega
      rw [hcut, ← hcut2, hzero, add_zero, ← hdk]
      exact ⟨by omega, hallows⟩
    · exact absurd hone.symm hne

/-! ## Traces of records of one size -/

def Reader.ahead (r : Reader b) : Nat := Readers.ahead r.source.file_size r.source.item_size r.source.mmap_offset

def Reader.Keeps (r : Reader b) (N : Nat) : Prop :=
  ∀ i < N, r.source.keeps_record (r.source.mmap_offset + i * r.source.item_size) = true

/-- The reads that can reach a record: those of the records ahead that are not passed over, and of one that is cut off. -/
def Reader.reads_left (r : Reader b) : Nat :=
  kept r.source.file_size r.source.item_size r.source.keeps_record r.source.mmap_offset +
    cut_off r.source.file_size r.source.item_size r.source.mmap_offset

/-- The reader is not past the end of the file. Among as many records as are skipped none is passed over, and the cap allows
all that is left; or more are skipped than there are, none of these is passed over, and they end at the end of the file or
at the cap. -/
def Skippable (r : Reader b) (N : Nat) : Prop :=
  r.source.mmap_offset ≤ r.source.file_size ∧
  (N = 0 ∨
    (N ≤ r.ahead ∧ r.Keeps N ∧ r.Allows r.reads_left) ∨
    (r.ahead < N ∧ r.Keeps r.ahead ∧ r.Allows r.ahead ∧
      (r.source.item_size ∣ r.source.file_size - r.source.mmap_offset ∨ ¬ r.Allows (r.ahead + 1))))

theorem count_of_le (ho : o ≤ file_size) (hlen : file_size < 2 ^ 63) (hsmall : ahead file_size item_size o < 2 ^ 31) :
    int32 ((((file_size : Int) - o) % 2 ^ 64) / item_size) = ahead file_size item_size o := by
  have hahead : ((ahead file_size item_size o : Nat) : Int) = ((file_size : Int) - o) / item_size := by
    unfold ahead
    push_cast [ho]
    rfl
  rw [emod_eq_of_lt (by omega) (by omega), ← hahead, int32]
  apply bmod_eq_of_le <;> omega

theorem count_of_gt (hlt : file_size < o) (hnear : o < file_size + item_size) (hsmall : item_size < 2 ^ 31) :
    int32 ((((file_size : Int) - o) % 2 ^ 64) / item_size) ≠ 0 := by
  have hwrap : ((file_size : Int) - o) % 2 ^ 64 = 2 ^ 64 - (o - file_size) := by
    rw [← add_emod_right, emod_eq_of_lt (by omega) (by omega)]
    ring
  rw [hwrap]
  intro hzero
  obtain ⟨m, hm⟩ : (2 ^ 32 : Int) ∣ (2 ^ 64 - ((o : Int) - file_size)) / item_size := by
    apply dvd_of_emod_eq_zero
    unfold int32 at hzero
    rw [bmod_def] at hzero
    split_ifs at hzero <;> omega
  have hle := Int.ediv_mul_le (2 ^ 64 - ((o : Int) - file_size)) (b := item_size) (by omega)
  have hgt := lt_ediv_add_one_mul_self (2 ^ 64 - ((o : Int) - file_size)) (b := item_size) (by omega)
  rw [hm] at hle hgt
  rw [add_mul, one_mul, mul_assoc] at hgt
  rw [mul_assoc] at hle
  generalize m * (item_size : Int) = x at hle hgt
  omega

theorem skip_of_le (h : r.source.mmap_offset + N * r.source.item_size ≤ r.source.file_size) :
    skip_n_req r N = (r.put (r.source.at (r.source.mmap_offset + N * r.source.item_size)) r.n_read_req, (N : Int)) := by
  unfold skip_n_req
  rw [skip_bytes, if_pos h]
  rfl

theorem skip_of_gt (h : r.source.file_size < r.source.mmap_offset + N * r.source.item_size) :
    skip_n_req r N = (r.put (r.source.at r.source.file_size) r.n_read_req,
      int32 ((((r.source.file_size : Int) - r.source.mmap_offset) % 2 ^ 64) / r.source.item_size)) := by
  unfold skip_n_req
  rw [skip_bytes, if_neg (by omega)]
  rfl

theorem Source.Regular.put_self (h : r.source.Regular) : r.put (r.source.at r.source.mmap_offset) r.n_read_req = r := by
  rw [h.at_self]
  rfl

theorem skip_agrees_zero (h : r.source.Regular) (ho : r.source.mmap_offset ≤ r.source.file_size) : SkipAgrees r 0 := by
  intro req
  have hskip := skip_of_le (r := r) (N := 0) (by omega)
  rw [zero_mul, add_zero, h.put_self] at hskip
  exact ⟨r, req, 0, rfl, by rw [hskip], fun m q => by rw [hskip]⟩

theorem not_skip_agrees_over (hlt : r.source.file_size < r.source.mmap_offset)
    (hnear : r.source.mmap_offset < r.source.file_size + r.source.item_size) (hsmall : r.source.item_size < 2 ^ 31) (N : Nat) :
    ¬ SkipAgrees r N := by
  intro hagrees
  obtain ⟨r', req', n_ok, hread, hcount, -⟩ := hagrees {}
  obtain ⟨q, hnone⟩ := read_n_req_end (.inl hlt.le) N {}
  rw [hread] at hnone
  cases hnone
  rw [skip_of_gt (by omega)] at hcount
  exact count_of_gt hlt hnear hsmall hcount

section

variable (h : r.source.Regular)
include h

section

variable (hleft : r.n_req_left ≤ 0)
include hleft

theorem skip_agrees_inside (hN : 0 < N) (hle : N ≤ r.ahead)
    (ho : r.source.mmap_offset ≤ r.source.file_size) : SkipAgrees r N ↔ r.Keeps N ∧ r.Allows r.reads_left := by
  have hfixed := h.fixed
  have hroom : r.source.mmap_offset + N * r.source.item_size ≤ r.source.file_size := (ahead_le_iff hfixed.pos ho).1 hle
  have hskip := skip_of_le hroom
  have hadd := @kept_add _ _ r.source.keeps_record _ _ hfixed.pos hroom
  have hfirst : first_kept r.source.item_size r.source.keeps_record r.source.mmap_offset N ≤ N := first_kept_le N
  have hcut := cut_off_add hroom
  constructor
  · intro hagrees
    obtain ⟨r', req', n_ok, hread, hcount, hout⟩ := hagrees {}
    rw [hskip] at hcount hout
    dsimp only at hcount hout
    have hok : n_ok = N := by exact_mod_cast hcount.symm
    subst hok
    have hdel : Delivers (r.put (r.source.at r.source.mmap_offset) r.n_read_req) {} n_ok r' req' := by
      rw [h.put_self]
      exact hread
    obtain ⟨hallows, o', rfl, hwhere⟩ := hfixed.delivers_inv hleft ho hdel
    rcases hwhere with ⟨ho', hsum, hcut'⟩ | ⟨-, hm, hall⟩
    · have hall : (∀ o, r.source.keeps_record o = true) → kept r.source.file_size r.source.item_size r.source.keeps_record
            (r.source.mmap_offset + n_ok * r.source.item_size) =
          kept r.source.file_size r.source.item_size r.source.keeps_record o' := by
        intro hall
        have := first_kept_eq_iff.2 fun i (_ : i < n_ok) => hall (r.source.mmap_offset + i * r.source.item_size)
        omega
      obtain ⟨heq, henough⟩ := hfixed.enough_of_outcomes_eq hleft hN hallows ho' hroom (by omega) (by omega) hall hout
      refine ⟨first_kept_eq_iff.1 (by omega), ?_⟩
      unfold Reader.reads_left
      unfold Reader.Allows Reader.put at *
      dsimp only at *
      omega
    · -- the reads would have gone past the records ahead
      rw [kept_eq_iff.2 fun i _ => hall _] at hm
      unfold Reader.ahead at hle
      omega
  · rintro ⟨hkeeps, hallows⟩ req
    have hfirst' := first_kept_eq_iff.2 hkeeps
    unfold Reader.reads_left at hallows
    have hallowsN : r.Allows N := allows_mono hallows (by omega)
    obtain ⟨req', hdel⟩ := hfixed.delivers (r := r) (n := r.n_read_req) hleft hroom hkeeps hallowsN req
    rw [h.put_self] at hdel
    refine ⟨_, req', N, hdel, by rw [hskip], fun m q => ?_⟩
    rw [hskip]
    apply hfixed.outcomes_eq hleft
    · unfold Reader.Allows Reader.put at *
      dsimp only at *
      omega
    · unfold Reader.Allows Reader.put at *
      dsimp only at *
      omega

theorem skip_agrees_past (hN : N < 2 ^ 31) (hlt : r.ahead < N)
    (ho : r.source.mmap_offset ≤ r.source.file_size) (hlen : r.source.file_size < 2 ^ 63) :
    SkipAgrees r N ↔ Complete r r.source.file_size r.source.item_size r.source.keeps_record r.source.mmap_offset := by
  have hfixed := h.fixed
  have hroom : r.source.file_size < r.source.mmap_offset + N * r.source.item_size := by
    by_contra hle
    exact absurd ((ahead_le_iff hfixed.pos ho).2 (not_lt.1 hle)) (not_le.2 hlt)
  have hskip := skip_of_gt hroom
  rw [count_of_le ho hlen (by unfold Reader.ahead at hlt; omega)] at hskip
  constructor
  · intro hagrees
    obtain ⟨r', req', n_ok, hread, hcount, -⟩ := hagrees {}
    rw [hskip] at hcount
    dsimp only at hcount
    have hok : n_ok = r.ahead := by exact_mod_cast hcount.symm
    subst hok
    have hput : read_n_req N (r.put (r.source.at r.source.mmap_offset) r.n_read_req) {} = some (r', req', r.ahead) := by
      rw [h.put_self]
      exact hread
    obtain ⟨r1, req1, hdel, hend⟩ := hfixed.read_n_req_inv hleft hput hlt
    have hcomplete := hfixed.complete_of_delivers hleft ho hdel hend
    rwa [h.put_self] at hcomplete
  · intro hcomplete req
    have hput : Complete (r.put (r.source.at r.source.mmap_offset) r.n_read_req) r.source.file_size r.source.item_size
        r.source.keeps_record r.source.mmap_offset := by
      rw [h.put_self]
      exact hcomplete
    obtain ⟨o', req', hdel, hend⟩ := hput.delivers hfixed hleft ho req
    rw [h.put_self] at hdel
    obtain ⟨req'', hnone⟩ := read_n_req_end (put_end hfixed hend) (N - r.ahead) req'
    have hread : read_n_req N r req = some (r.put (r.source.at o') (r.n_read_req + r.ahead), req'', r.ahead) := by
      rw [show N = r.ahead + (N - r.ahead) by omega, read_n_req_add, show read_n_req r.ahead r req = _ from hdel, bind_some]
      exact congrArg (Option.map _) hnone
    refine ⟨_, req'', r.ahead, hread, by rw [hskip]; rfl, fun m q => ?_⟩
    rw [hskip, outcomes_end (put_end hfixed (.inl le_rfl))]
    exact outcomes_end (put_end hfixed hend) m q

theorem skip_agrees_iff_of_regular (hlen : r.source.file_size < 2 ^ 63)
    (hover : r.source.file_size < r.source.mmap_offset →
      r.source.mmap_offset < r.source.file_size + r.source.item_size ∧ r.source.item_size < 2 ^ 31)
    (hN : N < 2 ^ 31) : SkipAgrees r N ↔ Skippable r N := by
  unfold Skippable
  by_cases ho : r.source.mmap_offset ≤ r.source.file_size
  · rw [and_iff_right ho]
    by_cases hzero : N = 0
    · subst hzero
      exact iff_of_true (skip_agrees_zero h ho) (.inl rfl)
    · rw [or_iff_right hzero]
      by_cases hle : N ≤ r.ahead
      · rw [skip_agrees_inside h hleft (by omega) hle ho, or_iff_left fun hpast => by omega, and_iff_right hle]
      · rw [skip_agrees_past h hleft hN (by omega) ho hlen, or_iff_right fun hin => by omega, and_iff_right (by omega),
          dvd_iff_mod_eq_zero]
        exact ⟨fun hc => ⟨hc.keeps, hc.allows, hc.ends⟩, fun hc => ⟨hc.1, hc.2.1, hc.2.2⟩⟩
  · have hpast := hover (by omega)
    exact iff_of_false (not_skip_agrees_over (by omega) hpast.1 hpast.2 N) (fun hs => ho hs.1)

end

end

/-! ## What reads leave -/

theorem read_n_req_inv (P : Reader b → Prop)
    (hstep : ∀ {r r' : Reader b} {req req' : Binary.Request} {ok : Bool}, P r → read_one_req r req = some (r', req', ok) → P r')
    {N n_ok : Nat} {r r' : Reader b} (hr : P r) (h : read_n_req N r req = some (r', req', n_ok)) :
    P r' := by
  induction N generalizing r req n_ok with
  | zero =>
    cases h
    exact hr
  | succ N ih =>
    simp only [read_n_req, bind_eq_bind, bind_eq_some_iff, Prod.exists] at h
    obtain ⟨r1, req1, ok, hfirst, r2, req2, k, hrest, rfl, rfl, rfl⟩ := h
    exact ih (hstep hr hfirst) hrest

inductive Source.Uncompressed : Source b → Prop
  | bin {s : BinaryReader} : Whole s → Uncompressed (.bin s)
  | records (format : RecordFormat) {s : Binary.Reader} : 0 < s.item_size → Uncompressed (.records format s)

theorem Source.Uncompressed.regular {s : Source b} (h : s.Uncompressed) : s.Regular := by
  cases h with
  | bin h => exact regular_bin h
  | records format hpos => exact regular_records format hpos

theorem Source.Uncompressed.at {s : Source b} (h : s.Uncompressed) (o : Nat) :
    (s.at o).Uncompressed ∧ (s.at o).file_size = s.file_size ∧ (s.at o).item_size = s.item_size := by
  cases h with
  | bin h => exact ⟨.bin { h with }, rfl, rfl⟩
  | records format hpos => exact ⟨.records format hpos, rfl, rfl⟩

structure Steady (file_size : Nat) (r : Reader b) : Prop where
  source : r.source.Uncompressed
  length : r.source.file_size = file_size
  n_req_left : r.n_req_left = 0
  near : file_size < r.source.mmap_offset →
    r.source.mmap_offset < file_size + r.source.item_size ∧ r.source.item_size < 2 ^ 31

variable {ok : Bool}

theorem Steady.step {r' : Reader b} (h : Steady file_size r)
    (hread : read_one_req r req = some (r', req', ok)) : Steady file_size r' := by
  obtain ⟨hsource, hlen, hleft, hnear⟩ := h
  subst hlen
  have hreg := hsource.regular
  have hput : ∀ o, (r.source.file_size < o → o < r.source.file_size + r.source.item_size ∧ r.source.item_size < 2 ^ 31) →
      ∀ n, Steady r.source.file_size (r.put (r.source.at o) n) := by
    intro o ho n
    obtain ⟨hun, hlen', hitem'⟩ := hsource.at o
    refine ⟨hun, hlen', hleft, ?_⟩
    show r.source.file_size < (r.source.at o).mmap_offset →
      (r.source.at o).mmap_offset < r.source.file_size + (r.source.at o).item_size ∧ (r.source.at o).item_size < 2 ^ 31
    rw [hreg.fixed.offset, hitem']
    exact ho
  cases hreg.fixed.call hleft.le r.source.mmap_offset r.n_read_req req with
  | past _ hcall =>
    rw [hreg.put_self, hread] at hcall
    cases hcall
    exact ⟨hsource, rfl, hleft, hnear⟩
  | kept o' q _ hle _ _ _ _ hcall =>
    rw [hreg.put_self, hread] at hcall
    cases hcall
    exact hput _ (fun hlt => by omega) _
  | done q _ _ _ _ hcall =>
    rw [hreg.put_self, hread] at hcall
    cases hcall
    exact hput _ (fun hlt => by omega) _
  | fault _ _ _ hcall =>
    rw [hreg.put_self, hread] at hcall
    cases hcall
  | cut q _ hsmall _ hlt _ _ hcall =>
    rw [hreg.put_self, hread] at hcall
    cases hcall
    exact hput _ (fun _ => ⟨by omega, hsmall⟩) _

theorem lcsReader_setup_spec {s0 s : Binary.Reader} (h : lcsReader_setup s0 = some s) (hoffset : s0.mmap_offset = 0) :
    0 < s.item_size ∧ s.mapped_file = s0.mapped_file ∧ s.mmap_offset = lcs_trace_header_size ∧
      lcs_trace_header_size ≤ s0.file_size ∧ s.trace_start_offset = lcs_trace_header_size ∧
      s.ignore_size_zero_req = s0.ignore_size_zero_req ∧ s.read_direction = s0.read_direction := by
  simp only [lcsReader_setup, bind_eq_bind, bind_eq_some_iff, Prod.exists, Option.pure_def, some.injEq] at h
  obtain ⟨s1, data, hread, bytes, rfl, -, -, item_size, hitem, rfl⟩ := h
  unfold Binary.read_bytes at hread
  split_ifs at hread with hend hroom
  · cases hread
  · cases hread
    exact ⟨item_size_pos hitem, rfl, by show s0.mmap_offset + _ = _; rw [hoffset, zero_add], by omega, rfl, rfl, rfl⟩

/-! ## A flat lcp trace -/

structure Placed (r : Lcp.LcpParams) : Prop where
  suffix : ∃ n, r.rest = r.body.drop n

theorem Placed.read_record {r r' : Lcp.LcpParams} {rec_ : Option Lcp.LcpReqV1} (h : Placed r)
    (hread : Lcp._read_record r = some (r', rec_)) : Placed r' := by
  obtain ⟨n, hn⟩ := h.suffix
  cases rec_ with
  | none =>
    obtain ⟨-, -, rfl⟩ := Lcp.read_record_eq_none.1 hread
    exact h
  | some rec_ =>
    obtain ⟨-, -, -, -, rfl⟩ := Lcp.read_record_eq_some.1 hread
    exact ⟨n + Lcp.lcp_req_size, by simp [hn]⟩

theorem Placed.seek_block {fuel : Nat} {r r' : Lcp.LcpParams} {more : Bool} (h : Placed r)
    (hseek : Lcp.seek_block fuel r = some (r', more)) : Placed r' := by
  induction fuel generalizing r with
  | zero =>
    unfold Lcp.seek_block at hseek
    split_ifs at hseek
    cases hseek
    exact h
  | succ fuel ih =>
    unfold Lcp.seek_block at hseek
    split_ifs at hseek
    · cases hseek
      exact h
    · simp only [bind_eq_bind, bind_eq_some_iff, Prod.exists] at hseek
      obtain ⟨r1, rec_, hrec, hseek⟩ := hseek
      have hplaced := h.read_record hrec
      cases rec_ with
      | none =>
        cases hseek
        exact hplaced
      | some rec_ =>
        refine ih ?_ hseek
        exact ⟨hplaced.suffix⟩

theorem Placed.read_one {cost : Int → Int} {r r' : Lcp.LcpParams} {block : Option CacheSim.Request} (h : Placed r)
    (hread : Lcp.lcp_read_one_req cost r = some (r', block)) : Placed r' := by
  simp only [Lcp.lcp_read_one_req, bind_eq_bind, bind_eq_some_iff, Prod.exists] at hread
  obtain ⟨r1, more, hseek, hread⟩ := hread
  have hplaced := h.seek_block hseek
  split_ifs at hread
  · cases hread
    exact hplaced
  · simp only [bind_eq_some_iff, Prod.exists] at hread
    obtain ⟨r2, id, next, hblock, hread⟩ := hread
    obtain ⟨-, -, -, -, -, rfl⟩ := Lcp.read_block_eq_some.1 hblock
    cases hread
    obtain ⟨n, hn⟩ := hplaced.suffix
    exact ⟨n + Lcp.lcp_block_size, by simp [hn]⟩

inductive Flat : Reader b → Prop
  | mk {r : Reader b} (cost : Int → Int) (s : Lcp.LcpParams) : r.source = .lcp cost s → Placed s → Flat r

theorem Flat.step {r' : Reader b} (h : Flat r) (hread : read_one_req r req = some (r', req', ok)) : Flat r' := by
  obtain ⟨cost, s, hsource, hplaced⟩ := h
  unfold read_one_req at hread
  split_ifs at hread
  · cases hread
    exact ⟨cost, s, hsource, hplaced⟩
  · cases hread
    exact ⟨cost, s, hsource, hplaced⟩
  · cases hread
    exact ⟨cost, s, hsource, hplaced⟩
  · simp only [hsource, Source.read_one_req, bind_eq_bind, bind_eq_some_iff, Prod.exists] at hread
    obtain ⟨source, left, time, q, ok', ⟨s', block, hlcp, rfl, -⟩, rfl, -⟩ := hread
    exact ⟨cost, s', rfl, hplaced.read_one hlcp⟩

theorem Flat.skip_agrees (h : Flat r) (hN : N = 0 ∨ r.source.file_size ≤ r.source.mmap_offset) : SkipAgrees r N := by
  obtain ⟨cost, s, hsource, ⟨n, hn⟩⟩ := h
  have hself : r.put (r.source.at r.source.mmap_offset) r.n_read_req = r := by
    have hrest : s.body.drop ((Source.lcp cost s : Source b).mmap_offset - Lcp.lcp_header_size) = s.rest := by
      show s.body.drop (Lcp.lcp_header_size + (s.body.length - s.rest.length) - Lcp.lcp_header_size) = s.rest
      rw [Nat.add_sub_cancel_left, hn, length_drop]
      by_cases hle : n ≤ s.body.length
      · rw [Nat.sub_sub_self hle]
      · rw [drop_eq_nil_of_le (by omega), drop_eq_nil_of_le (by omega)]
    rw [hsource]
    show ({ r with source := .lcp cost { s with rest := s.body.drop _ } } : Reader b) = r
    rw [hrest, ← hsource]
  have hlen : r.source.mmap_offset ≤ r.source.file_size := by
    rw [hsource]
    exact Nat.add_le_add_left (sub_le _ _) _
  intro req
  by_cases hzero : N = 0
  · subst hzero
    have hskip := skip_of_le (r := r) (N := 0) (by omega)
    rw [zero_mul, add_zero, hself] at hskip
    exact ⟨r, req, 0, rfl, by rw [hskip], fun m q => by rw [hskip]⟩
  · have hend := hN.resolve_left hzero
    have heq : r.source.mmap_offset = r.source.file_size := by omega
    have hitem : r.source.item_size = 16 := by rw [hsource]; rfl
    have hskip := skip_of_gt (r := r) (N := N) (by rw [hitem]; omega)
    rw [heq, sub_self, hitem, ← heq, hself] at hskip
    obtain ⟨req', hread⟩ := read_n_req_end (.inl hend) N req
    exact ⟨r, req', 0, hread, by rw [hskip]; rfl, fun m q => by rw [hskip]⟩

/-! ## After any number of reads -/

theorem Source.Opened.steady {r : Reader b} (hopen : r.Opened) (hun : r.source.Uncompressed) : Steady r.source.file_size r := by
  refine ⟨hun, rfl, hopen.n_req_left, fun hlt => ?_⟩
  have hsource := hopen.source
  generalize r.source = s at *
  cases hun with
  | bin hwhole =>
    cases hsource with
    | headerless hs =>
      cases hs with
      | @bin init file s _ hle _ _ hsetup =>
        simp only [binaryReader_setup, bind_eq_bind, bind_eq_some_iff, Option.pure_def, some.injEq] at hsetup
        obtain ⟨-, -, obj_id, -, time, -, obj_size, -, obj_cost, -, op, -, ttl, -, next, -, item_size, -, -, -, rfl⟩ := hsetup
        exact absurd hlt (not_lt.2 hle)
  | @records format s hpos =>
    cases hsource with
    | headerless hs =>
      cases hs with
      | records _ zero _ _ hle =>
        exact absurd hlt (not_lt.2 hle)
    | lcs _ hsetup =>
      obtain ⟨-, hfile, hoffset, hle, -⟩ := lcsReader_setup_spec hsetup rfl
      have hge : s.mmap_offset ≤ s.file_size := by
        rw [hoffset]
        unfold Binary.Reader.file_size at hle ⊢
        rwa [hfile]
      exact absurd hlt (not_lt.2 hge)

theorem Source.Opened.uncompressed {s : Source b} (h : s.Opened) (hkind : (∃ t, s = .bin t) ∨ ∃ format t, s = .records format t) :
    s.Uncompressed := by
  cases h with
  | headerless hs =>
    cases hs with
    | bin _ _ _ hfields hsetup => exact .bin (setup_whole hsetup hfields)
    | records format zero _ hpos =>
      refine .records format ?_
      unfold open_records count_records
      split_ifs <;> exact hpos
  | lcs _ hsetup => exact .records _ (lcsReader_setup_spec hsetup rfl).1
  | csv _ | plain_txt _ _ _ _ | lcp _ _ | zstd_lcs _ | zstd_lcp _ _ =>
    rcases hkind with ⟨_, hs⟩ | ⟨_, _, hs⟩ <;> cases hs

theorem lcpReader_setup_placed {max : Int → Int} {file : Bytes} {s : Lcp.LcpParams} (h : Lcp.lcpReader_setup max file = some s) :
    Placed s := by
  simp only [Lcp.lcpReader_setup, bind_eq_bind, bind_eq_some_iff, Option.pure_def, some.injEq] at h
  obtain ⟨-, -, -, -, -, -, -, -, rfl⟩ := h
  exact ⟨0, rfl⟩

/-- After any number of reads of a trace of records, a skip is as good as reading if and only if it is `Skippable`; in a flat
lcp trace a skip of nothing is, and one at the end of the trace. -/
theorem skip_agrees_iff (r₀ r : Reader b) (k N : Nat) (hopen : r₀.Opened) (hlen : r₀.source.file_size < 2 ^ 63)
    (hreach : Reached r₀ k r) (hN : N < 2 ^ 31) :
    (((∃ s, r₀.source = .bin s) ∨ ∃ format s, r₀.source = .records format s) → (SkipAgrees r N ↔ Skippable r N)) ∧
    (∀ cost s, r₀.source = .lcp cost s → N = 0 ∨ r.source.file_size ≤ r.source.mmap_offset → SkipAgrees r N) := by
  obtain ⟨req0, req, n_ok, hread⟩ := hreach
  constructor
  · intro hkind
    have hsteady := read_n_req_inv (Steady r₀.source.file_size) Steady.step
      (Source.Opened.steady hopen (hopen.source.uncompressed hkind)) hread
    have hlength := hsteady.length
    apply skip_agrees_iff_of_regular hsteady.source.regular hsteady.n_req_left.le (by rw [hlength]; exact hlen) _ hN
    intro hlt
    rw [hlength] at hlt ⊢
    exact hsteady.near hlt
  · intro cost s hsource hN
    have hplaced : Placed s := by
      have hopened := hopen.source
      rw [hsource] at hopened
      cases hopened with
      | headerless hs => cases hs
      | lcp _ hsetup => exact lcpReader_setup_placed hsetup
    exact (read_n_req_inv Flat Flat.step ⟨cost, s, hsource, hplaced⟩ hread).skip_agrees hN

theorem skip_agrees_of_two : ∃ r, id_reader (List.replicate 24 1) 0 = some r ∧ SkipAgrees r 1 := by
  obtain ⟨r, hr, hitem, hsize, hoffset, hcap, hkeeps⟩ : ∃ r, id_reader (List.replicate 24 1) 0 = some r ∧
      r.source.item_size = 12 ∧ r.source.file_size = 24 ∧
      r.source.mmap_offset = 0 ∧ r.cap_at_n_req = 0 ∧ ∀ i < 1, r.source.keeps_record (i * 12) = true := by decide +kernel
  obtain ⟨hopen, -⟩ := id_reader_opened (by decide) hr
  refine ⟨r, hr, ((skip_agrees_iff r r 0 1 hopen (by rw [hsize]; decide) ⟨{}, {}, 0, rfl⟩ (by decide)).1 ?_).2 ?_⟩
  · obtain ⟨s, -, rfl⟩ := map_eq_some_iff.1 hr
    exact .inl ⟨s, rfl⟩
  · refine ⟨by rw [hoffset]; exact zero_le _, .inr (.inl ⟨?_, ?_, .inr (.inl (by rw [hcap]; decide))⟩)⟩
    · unfold Reader.ahead
      rw [hitem, hsize, hoffset]
      decide
    · unfold Reader.Keeps
      rw [hoffset, hitem]
      simpa using hkeeps

def three_blocks : Reader bare_build where
  source := .lcp (fun _ => 1) (Lcp.open_body Lcp.steep_stat Lcp.steep_body)

/-- A skip of one block leaves the reader inside the record of the request, where no record can be read. -/
theorem skip_into_record : three_blocks.Opened ∧ (skip_n_req three_blocks 1).2 = 1 ∧
    outcomes 1 (skip_n_req three_blocks 1).1 {} = [none] ∧ ¬ SkipAgrees three_blocks 1 := by
  have hsetup : Lcp.lcpReader_setup (fun _ => 1) Lcp.steep_file = some (Lcp.open_body Lcp.steep_stat Lcp.steep_body) :=
    Lcp.steep_setup (by decide)
  have hskip : outcomes 1 (skip_n_req three_blocks 1).1 {} = [none] := by decide +kernel
  have hread : (read_n_req 1 three_blocks {}).any (fun t => outcomes 1 t.1 {} ≠ [none]) = true := by decide +kernel
  refine ⟨⟨.lcp _ hsetup, rfl, rfl, rfl⟩, by decide +kernel, hskip, fun hagrees => ?_⟩
  obtain ⟨r', req', n_ok, hrun, -, hsame⟩ := hagrees {}
  rw [hrun, any_some, decide_eq_true_eq, hsame, hskip] at hread
  exact hread rfl

end CacheSim.Readers
