import CacheSim.WorkloadAware.Runs

/-!
# The victims of one workload class

With one class the front of its list goes, which no resident was accessed before.
-/

namespace CacheSim.WorkloadAware

open Lib Prefixsim List Option AList

variable {D : Type} [LinearOrder D] {F : Doubles D} {s t : State D} {x v : ObjId} {m : BlockMeta D} {d : D} {c : Nat}

structure OneClass (c : Nat) (s : State D) : Prop where
  cur : s.cur_category = c
  metas : ∀ x m, s.metas.lookup x = some m → m.category = c

def Oldest (s : State D) (v : ObjId) : Prop :=
  ∃ m, s.metas.lookup v = some m ∧ ∀ x ∈ s.cache.q, ∀ n, s.metas.lookup x = some n → m.last_access ≤ n.last_access

def Deepest (s : State D) (v : ObjId) : Prop :=
  ∃ m, s.metas.lookup v = some m ∧
    ∀ x ∈ s.cache.q, ∀ n, s.metas.lookup x = some n → n.last_access = m.last_access → n.offset ≤ m.offset

def Precedes (m n : BlockMeta D) : Prop :=
  m.last_access < n.last_access ∨ (m.last_access = n.last_access ∧ n.offset ≤ m.offset)

/-- In state `s` the call puts no block behind a shallower one that was last accessed at the same time. -/
def InOrder (s : State D) : Op → Prop
  | .record_request ids => ∀ before x after, ids = before ++ x :: after → x ∉ before → ∀ m, Reaccessed s x m →
      ∀ y n, y ≠ x → s.metas.lookup y = some n → n.resident = true → n.last_access = s.now ∨ y ∈ before → m.offset ≤ n.offset
  | .get req => req.obj_id ∉ s.cache.q →
      ∀ y n, s.metas.lookup y = some n → n.resident = true → n.last_access = s.now → (incoming s req.obj_id).offset ≤ n.offset
  | _ => True

theorem InOrder.puts_after {ids before after : List ObjId} (h : InOrder s (.record_request ids)) (hs : Timely d s)
    (heq : ids = before ++ x :: after) : PutsAfter Precedes s before x := by
  intro hx m hm y n hne hn hr _
  have hdeep := h before x after heq hx m hm y n hne hn hr
  have hlast := hs.past y n hn
  split_ifs with hin
  · exact .inr ⟨rfl, hdeep (.inr hin)⟩
  · rcases hlast.lt_or_eq with hlt | heq
    · exact .inl (hs.now.symm ▸ hlt)
    · exact .inr ⟨heq.trans hs.now.symm, hdeep (.inl (heq.trans hs.now.symm))⟩

variable {req : Request} {ids : List ObjId}

theorem InOrder.comes_after (h : InOrder s (.get req)) (hs : Recorded d ids s)
    (hin : req.obj_id ∈ ids) (hx : req.obj_id ∉ s.cache.q) : ComesAfter Precedes s req.obj_id := by
  intro y n hn hr _
  have hlast : (incoming s req.obj_id).last_access = d := hs.incoming_last hin
  rcases (hs.past y n hn).lt_or_eq with hlt | heq
  · exact .inl (hlast.symm ▸ hlt)
  · exact .inr ⟨heq.trans hlast.symm, h hx y n hn hr (heq.trans hs.now.symm)⟩

theorem evict_front (hs : Inv s) (hone : OneClass c s) (hev : WorkloadAware_evict F s = some t) :
    ∃ v m, s.metas.lookup v = some m ∧ v ∈ s.cache.q ∧ (∀ x, x ∈ t.cache.q ↔ x ≠ v ∧ x ∈ s.cache.q) ∧
      ∀ R, Ordered R s → ∀ x ∈ s.cache.q, x ≠ v → ∀ n, s.metas.lookup x = some n → R m n := by
  obtain ⟨v, o, c', -, n, ho, hhead, rfl, -⟩ := hs.of_evict hev
  obtain ⟨m, hm, -, hc⟩ := hs.resident_of_head hhead
  refine ⟨v, m, hm, Table.mem_of_lookup ho, fun x => mem_erase, fun R hR x hx hne k hk => ?_⟩
  obtain ⟨d, hd⟩ := (hs.listed x).1 hx
  have hclass : d = c' := by
    obtain ⟨k', hk', -, rfl⟩ := hd
    rw [hone.metas x k' hk', ← hc, hone.metas v m hm]
  have hin : x ∈ lru s c' := (hs.lru_mem c' x).2 (hclass ▸ hd)
  rw [category_head_eq] at hhead
  obtain ⟨rest, hrest⟩ := head?_eq_some_iff.1 hhead
  have hpair := hR c'
  rw [hrest] at hin hpair
  exact (pairwise_cons.1 hpair).1 x ((mem_cons.1 hin).resolve_left hne) m k hm hk

theorem OneClass.evict (h : OneClass c s) (hs : Inv s) (hev : WorkloadAware_evict F s = some t) : OneClass c t := by
  obtain ⟨v, o, c', -, n, -, -, rfl, -⟩ := hs.of_evict hev
  refine ⟨(forget_rest s v).2.2.trans h.cur, fun y n hn => ?_⟩
  have hlook := (lookup_forget s v y).symm.trans hn
  split_ifs at hlook
  exact h.metas y n hlook

omit [LinearOrder D] in
theorem OneClass.record_request (h : OneClass c s) (ids : List ObjId) : OneClass c (WorkloadAware_record_request F s ids) := by
  refine ⟨(record_blocks_clock { s with hooked := true } ids).cur_category.trans h.cur, fun y n hn => ?_⟩
  have hlook := (lookup_record_blocks { s with hooked := true } ids y).symm.trans hn
  split_ifs at hlook
  · cases hlook
    unfold seen
    rcases hm : s.metas.lookup y with _ | m
    · exact h.cur
    · exact h.metas y m hm
  · exact h.metas y n hlook

omit [LinearOrder D] in
theorem OneClass.insert (h : OneClass c s) (hs : Inv s) (hx : req.obj_id ∉ s.cache.q) :
    OneClass c (WorkloadAware_insert F s req) := by
  rw [WorkloadAware_insert_eq hs hx]
  refine ⟨h.cur, fun y n hn => ?_⟩
  rcases eq_or_ne y req.obj_id with rfl | hne
  · cases (lookup_insert _).symm.trans hn
    unfold incoming
    rcases hm : s.metas.lookup req.obj_id with _ | m
    · exact h.cur
    · exact h.metas _ m hm
  · exact h.metas y n ((lookup_insert_ne hne).symm.trans hn)

variable {stamp : ℚ → D}

theorem OneClass.get (h : OneClass c s) (hs : Recorded d ids s)
    {vs : List ObjId} (hget : (policy F stamp).get s req = some (t, vs)) : OneClass c t := by
  refine queue_get_inv (fun _ => ops F) (fun s => s.cache) (fun u => u = s)
    (fun u => Inv u ∧ req.obj_id ∉ u.cache.q ∧ OneClass c u) (OneClass c) ?_ ?_ ?_ ?_ rfl hget
  · rintro u u' hit rfl hfind
    cases (WorkloadAware_find_hooked hs.hooked req).symm.trans (some.inj hfind)
    split_ifs with hit
    · exact ⟨h.cur, h.metas⟩
    · exact ⟨hs.inv.count_req, fun hmem => hit (lookup_isSome.2 hmem), h.cur, h.metas⟩
  · rintro u u' admitted hu hcan
    cases hcan
    split_ifs
    · exact hu
    · exact hu.2.2
  · rintro u u' ⟨hu, hx, hone⟩ hev
    obtain ⟨v, o, c', heap, n, -, -, rfl, hinv⟩ := hu.of_evict hev
    exact ⟨hinv, fun hmem => hx (hu.evict_sub hev _ hmem), hone.evict hu hev⟩
  · rintro u u' ⟨hu, hx, hone⟩ hins
    cases hins
    exact hone.insert hu hx

/-! ## A run -/

def AllInOrder (log : CallLog (State D)) : Prop := ∀ c ∈ log, InOrder c.1 c.2

variable {log : CallLog (State D)}

theorem AllInOrder.snoc {o : Op} (h : AllInOrder (log ++ [(s, o)])) : AllInOrder log ∧ InOrder s o :=
  ⟨fun c hc => h c (mem_append_left _ hc), h (s, o) (mem_append_right _ mem_cons_self)⟩

def TakesOldest (F : Doubles D) (before : CallLog (State D)) (s : State D) : Op → Prop
  | .evict _ _ => ∃ t v, WorkloadAware_evict F s = some t ∧ v ∈ s.cache.q ∧ (∀ x, x ∈ t.cache.q ↔ x ≠ v ∧ x ∈ s.cache.q) ∧
      Oldest s v ∧ (AllInOrder before → Deepest s v)
  | _ => True

structure Watched (F : Doubles D) (s : State D) (log : CallLog (State D)) : Prop where
  sorted : Ordered NotAfter s
  deepest : AllInOrder log → Ordered Precedes s
  taken : Chronicle (TakesOldest F) log

theorem takes_oldest (hs : Inv s) (hone : OneClass c s) (h : Watched F s log)
    (hev : WorkloadAware_evict F s = some t) (pin : Option (ObjId → Bool)) (req : Request) : TakesOldest F log s (.evict pin req) := by
  obtain ⟨v, m, hm, hv, hleft, hfirst⟩ := evict_front hs hone hev
  refine ⟨t, v, hev, hv, hleft, ⟨m, hm, ?_⟩, fun hall => ⟨m, hm, ?_⟩⟩
  · intro x hx n hn
    rcases eq_or_ne x v with rfl | hne
    · cases hm.symm.trans hn
      exact le_refl _
    · exact hfirst NotAfter h.sorted x hx hne n hn
  · intro x hx n hn hlast
    rcases eq_or_ne x v with rfl | hne
    · cases hm.symm.trans hn
      exact le_refl _
    · rcases hfirst Precedes (h.deepest hall) x hx hne n hn with hlt | ⟨-, hle⟩
      · exact absurd hlast hlt.ne'
      · exact hle

theorem Watched.call {o : Op} (h : Watched F s log) (hsorted : Ordered NotAfter t)
    (hdeepest : InOrder s o → Ordered Precedes s → Ordered Precedes t) (htakes : TakesOldest F log s o) :
    Watched F t (log ++ [(s, o)]) :=
  ⟨hsorted, fun hall => hdeepest hall.snoc.2 (h.deepest hall.snoc.1), h.taken.snoc htakes⟩

theorem Watched.serve (hF : F.Exact) {config : SimulatorConfig} {s s' : Simulator (State D × CallLog (State D))}
    {request : BlockRequest} {ok : Result} (hs : Watched F s.cache.1 s.cache.2) (hinv : Inv s.cache.1)
    (hclass : ∀ x m, s.cache.1.metas.lookup x = some m → m.category = request.category)
    (hpast : Past (stamp request.timestamp) s.cache.1) (h : serve (recorded (policy F stamp)) config s request = some (s', ok)) :
    Watched F s'.cache.1 s'.cache.2 ∧ Inv s'.cache.1 ∧
      (∀ x m, s'.cache.1.metas.lookup x = some m → m.category = request.category) ∧ Past (stamp request.timestamp) s'.cache.1 := by
  cases hskip : skips config request with
  | true =>
    obtain ⟨t, hserve, hcache⟩ := serve_skipped (recorded (policy F stamp)) hskip
    cases h.symm.trans hserve
    rw [hcache]
    exact ⟨hs, hinv, hclass, hpast⟩
  | false =>
    let J : State D × CallLog (State D) → Prop := fun u =>
      Timely (stamp request.timestamp) u.1 ∧ OneClass request.category u.1 ∧ Watched F u.1 u.2
    let K : State D × CallLog (State D) → Prop := fun u =>
      Recorded (stamp request.timestamp) request.blocks u.1 ∧ OneClass request.category u.1 ∧ Watched F u.1 u.2
    have hctx : J (set_request_ctx (recorded (policy F stamp)) s.cache request) :=
      ⟨⟨hinv.set_request_ctx request.category (stamp request.timestamp), rfl, hpast⟩, ⟨rfl, hclass⟩,
        hs.call hs.sorted (fun _ hord => hord) trivial⟩
    have hend : J s'.cache ∨ K s'.cache := by
      refine serve_phases hctx ?_ ?_ ?_ hskip h
      · rintro u o u' ho ⟨hu, hone, hw⟩ hstep
        rw [op_recorded] at hstep
        obtain ⟨c, hc, rfl⟩ := map_eq_some_iff.1 hstep
        have hev := evict_of_op ho hc
        obtain ⟨hu', -, hkept⟩ := hu.evict hev
        refine ⟨hu', hone.evict hu.inv hev, hw.call (hkept _ hw.sorted) (fun _ => hkept _) ?_⟩
        cases o with
        | evict pin req => exact takes_oldest hu.inv hone hw hev pin req
        | _ => trivial
      · rintro u u' ⟨hu, hone, hw⟩ hrec
        cases hrec
        refine ⟨hu.record request.blocks, hone.record_request _, hw.call ?_ ?_ trivial⟩
        · exact hw.sorted.record_request hF hu fun before x _ _ => hu.puts_after before x
        · exact fun hin hord => hord.record_request hF hu fun before x after heq => hin.puts_after hu heq
      · rintro u u' i hi ⟨hu, hone, hw⟩ hget
        obtain ⟨c, hc, rfl⟩ := map_eq_some_iff.1 hget
        obtain ⟨⟨w, vs⟩, hw', rfl⟩ := map_eq_some_iff.1 hc
        have hin := fill_request_mem config hi
        obtain ⟨hu', hkept⟩ := hu.get hin hw'
        refine ⟨hu', hone.get hu hw', hw.call (hkept hw.sorted fun _ => hu.comes_after hin) ?_ trivial⟩
        exact fun hput hord => (hu.get hin hw').2 hord fun hx => hput.comes_after hu hin hx
    rcases hend with ⟨hu, hone, hw⟩ | ⟨hu, hone, hw⟩
    · exact ⟨hw, hu.inv, hone.metas, hu.past⟩
    · exact ⟨hw, hu.inv, hone.metas, hu.past⟩

/-- Every run of requests of one class returns, its gets evict nothing, and each eviction takes an oldest
block, the deepest of the oldest as long as all blocks have been put in order. -/
theorem WorkloadAware_evicts_oldest (F : Doubles D) (hF : F.Exact) (stamp : ℚ → D) (hstamp : Monotone stamp)
    (config : SimulatorConfig) (category : Nat) (requests : List BlockRequest) (hclass : ∀ r ∈ requests, r.category = category)
    (hcosts : ∀ r ∈ requests, skips config r = false → CostsFit config r)
    (htimes : requests.Pairwise fun r r' => r.timestamp ≤ r'.timestamp) :
    ∃ s, runs (serve_ok (recorded (policy F stamp)) config) { cache := (WorkloadAware_init F config.cache_size_blocks, []) } requests =
        some s ∧ QuietGets (policy F stamp) s.cache.2 ∧
      ∀ before s' pin req after, s.cache.2 = before ++ (s', .evict pin req) :: after →
        ∃ t v, WorkloadAware_evict F s' = some t ∧ v ∈ s'.cache.q ∧ (∀ x, x ∈ t.cache.q ↔ x ≠ v ∧ x ∈ s'.cache.q) ∧
          Oldest s' v ∧ ((∀ c ∈ before, InOrder c.1 c.2) → Deepest s' v) := by
  have hrun : ∀ (requests : List BlockRequest) (s : Simulator (State D × CallLog (State D))),
      (∀ r ∈ requests, r.category = category) → (∀ r ∈ requests, skips config r = false → CostsFit config r) →
      requests.Pairwise (fun r r' => r.timestamp ≤ r'.timestamp) →
      Watched F s.cache.1 s.cache.2 → (∀ x m, s.cache.1.metas.lookup x = some m → m.category = category) →
      (Inv s.cache.1 ∧ Blocks config.cache_size_blocks s.cache.1.cache) ∧ QuietGets (policy F stamp) s.cache.2 →
      (∀ r ∈ requests, Past (stamp r.timestamp) s.cache.1) →
      ∃ t, runs (serve_ok (recorded (policy F stamp)) config) s requests = some t ∧ QuietGets (policy F stamp) t.cache.2 ∧
        Watched F t.cache.1 t.cache.2 := by
    intro requests
    induction requests with
    | nil => exact fun s _ _ _ hw _ hq _ => ⟨s, rfl, hq.2, hw⟩
    | cons request requests ih =>
      intro s hclass hcosts htimes hw hmetas hs hpast
      obtain ⟨hfirst, hrest⟩ := pairwise_cons.1 htimes
      obtain ⟨t, hserve, ht⟩ := (heedless F stamp config).recorded.serve hs (hcosts request mem_cons_self)
      have hcat := hclass request mem_cons_self
      obtain ⟨hw', hinv', hmetas', hp⟩ := hw.serve hF hs.1.1 (hcat.symm ▸ hmetas) (hpast request mem_cons_self)
        (serve_of_serve_ok hserve)
      obtain ⟨u, hu, hquiet, huw⟩ := ih t (fun r hr => hclass r (mem_cons_of_mem _ hr)) (fun r hr => hcosts r (mem_cons_of_mem _ hr))
        hrest hw' (hcat ▸ hmetas') ht fun r hr x m hm => (hp x m hm).trans (hstamp (hfirst r hr))
      exact ⟨u, by simp [runs_cons, hserve, hu], hquiet, huw⟩
  have hempty : ∀ R, Ordered R (WorkloadAware_init F config.cache_size_blocks) := fun R c => by simp [WorkloadAware_init, lru]
  obtain ⟨s, hs, hquiet, hw⟩ := hrun requests { cache := (WorkloadAware_init F config.cache_size_blocks, []) } hclass hcosts htimes
    ⟨hempty _, fun _ => hempty _, .nil⟩ (by simp [WorkloadAware_init]) ⟨⟨init_inv _, Blocks.init _⟩, by simp [QuietGets]⟩
    (by simp [Past, WorkloadAware_init])
  exact ⟨s, hs, hquiet, fun before s' pin req after heq => hw.taken before s' (.evict pin req) after heq⟩

theorem WorkloadAware_evicts_oldest_of_two : ∃ s,
    runs (serve_ok (recorded (policy .rational id)) { cache_size_blocks := 2 }) { cache := (WorkloadAware_init .rational 2, []) }
        [{ blocks := [1, 2] }, { blocks := [3], timestamp := 1 }] = some s ∧ QuietGets (policy .rational id) s.cache.2 ∧
      ∀ before s' pin req after, s.cache.2 = before ++ (s', .evict pin req) :: after →
        ∃ t v, WorkloadAware_evict .rational s' = some t ∧ v ∈ s'.cache.q ∧ (∀ x, x ∈ t.cache.q ↔ x ≠ v ∧ x ∈ s'.cache.q) ∧
          Oldest s' v ∧ ((∀ c ∈ before, InOrder c.1 c.2) → Deepest s' v) :=
  WorkloadAware_evicts_oldest .rational Doubles.rational_exact id monotone_id { cache_size_blocks := 2 } 0
    [{ blocks := [1, 2] }, { blocks := [3], timestamp := 1 }] (by simp)
      (fun _ _ _ _ _ => show (1 : Int) ≤ INT32_MAX by decide) (by simp)

/-- The second request moves block 1 behind block 2, and then block 2 behind block 1: the third one evicts
block 1, the head of the prefix. -/
theorem evicts_head_of_prefix : ∃ s c t,
    runs (serve_ok (recorded (policy .rational id)) { cache_size_blocks := 2 }) { cache := (WorkloadAware_init .rational 2, []) }
        [{ blocks := [1, 2] }, { blocks := [1, 2], timestamp := 1 }, { blocks := [3], timestamp := 2 }] = some s ∧
      c ∈ s.cache.2 ∧ (∃ pin req, c.2 = .evict pin req) ∧ WorkloadAware_evict .rational c.1 = some t ∧
      1 ∈ c.1.cache.q ∧ 1 ∉ t.cache.q ∧ ¬ Deepest c.1 1 := by
  obtain ⟨s, hs, c, hc, hop, t, ht, hbefore, hafter, hone, htwo⟩ : ∃ s,
      runs (serve_ok (recorded (policy .rational id)) { cache_size_blocks := 2 }) { cache := (WorkloadAware_init .rational 2, []) }
        [{ blocks := [1, 2] }, { blocks := [1, 2], timestamp := 1 }, { blocks := [3], timestamp := 2 }] = some s ∧
      ∃ c ∈ s.cache.2, (match c.2 with | .evict _ _ => true | _ => false) = true ∧ ∃ t, WorkloadAware_evict .rational c.1 = some t ∧
        c.1.cache.q.keys = [1, 2] ∧ t.cache.q.keys = [2] ∧ (c.1.metas.lookup 1).map
          (fun m => (m.last_access, m.offset)) = some (1, 0) ∧
          (c.1.metas.lookup 2).map (fun m => (m.last_access, m.offset)) = some (1, 1) := by decide +kernel
  obtain ⟨m1, hm1, h1⟩ := map_eq_some_iff.1 hone
  obtain ⟨m2, hm2, h2⟩ := map_eq_some_iff.1 htwo
  refine ⟨s, c, t, hs, hc, ?_, ht, AList.mem_keys.2 (by simp [hbefore]), fun h => by simpa [hafter] using AList.mem_keys.1 h, ?_⟩
  · split at hop
    · rename_i pin req heq
      exact ⟨pin, req, heq⟩
    · cases hop
  · rintro ⟨m, hm, hdeep⟩
    cases hm.symm.trans hm1
    have := hdeep 2 (AList.mem_keys.2 (by simp [hbefore])) m2 hm2
    simp_all

end CacheSim.WorkloadAware
