import CacheSim.Prefixsim.Proofs

/-!
# The calls behind a request

`serve` reaches the cache through its function pointers only, and in phases, so what is to hold in a
phase must be kept by the calls of that phase only.
-/

namespace CacheSim.Prefixsim

open Lib Option

variable {σ : Type} {P : CachePolicy σ} {config : SimulatorConfig} {request : BlockRequest}

inductive Op
  | set_request_ctx (ctx : RequestCtx)
  | record_request (ids : List ObjId)
  | get (req : Request)
  | evict (pin : Option (ObjId → Bool)) (req : Request)
  | evict_n (pin : Option (ObjId → Bool)) (req : Request) (n : Int)

def op (P : CachePolicy σ) (s : σ) : Op → Option σ
  | .set_request_ctx ctx => P.set_request_ctx.map fun f => f s ctx
  | .record_request ids => P.record_request.bind fun f => f s ids
  | .get req => (P.get s req).map (·.1)
  | .evict pin req => (P.evict pin s req).map (·.1)
  | .evict_n pin req n => P.evict_n.bind fun f => (f pin s req n).map (·.1)

def Op.evicts : Op → Prop
  | .evict _ _ | .evict_n _ _ _ => True
  | _ => False

theorem count_victims_cache (alpha : Finset ObjId) (vs : List ObjId) (a : Alloc σ) :
    (vs.foldl (count_victim alpha) a).cache = a.cache := by
  induction vs generalizing a with
  | nil => rfl
  | cons v vs ih =>
    rw [List.foldl_cons, ih]
    unfold count_victim
    split_ifs <;> rfl

/-! ## One phase after the other -/

section

variable {J : σ → Prop}

section

variable (hJ : ∀ s o s', J s → op P s o = some s' → J s')
include hJ

theorem set_request_ctx_keeps {s : σ} (hs : J s) (request : BlockRequest) :
    J (set_request_ctx P s request) := by
  unfold set_request_ctx
  rcases hf : P.set_request_ctx with _ | f
  · exact hs
  · exact hJ s (.set_request_ctx request.ctx) _ hs (by simp [op, hf])

theorem record_request_keeps {s s' : σ} (hs : J s)
    (h : record_request P s request = some s') : J s' := by
  unfold record_request at h
  rcases hf : P.record_request with _ | f
  · rw [hf, some.injEq] at h
    exact h ▸ hs
  · rw [hf] at h
    exact hJ s (.record_request request.blocks) _ hs (by simp [op, hf, h])

end

section

variable (hJ : ∀ s o s', o.evicts → J s → op P s o = some s' → J s')
include hJ

variable {pin : Option (ObjId → Bool)} {req : Request}

theorem evict_once_keeps {s s' : σ} {vs vs' : List ObjId} (hs : J s)
    (h : evict_once P pin req s vs = some (s', vs')) : J s' := by
  have hevict : ∀ c c' reported, J c → P.evict pin c req = some (c', reported) → J c' := by
    intro c c' reported hc hev
    exact hJ c (.evict pin req) c' trivial hc (by simp [op, hev])
  simp only [evict_once, bind, bind_eq_some_iff, Prod.exists, pure, some.injEq, Prod.mk.injEq] at h
  obtain ⟨c1, v1, n1, ⟨c0, reported, hev, rfl, rfl, rfl⟩, c2, v2, n2, hloop, rfl, rfl⟩ := h
  refine (whileLoop_inv (fun x => J x.1) ?_ _ _ _ (hevict s c0 reported hs hev) hloop).1
  rintro x x' hx - hx'
  simp only [bind_eq_some_iff, Prod.exists, some.injEq] at hx'
  obtain ⟨c, r, hev', rfl⟩ := hx'
  exact hevict x.1 c r hx hev'

theorem evict_round_keeps {a : Alloc σ} {s' : σ} {vs : List ObjId}
    (ha : J a.cache) (h : evict_round P pin req a = some (s', vs)) : J s' := by
  unfold evict_round at h
  rcases hf : P.evict_n with _ | f
  · rw [hf] at h
    exact evict_once_keeps hJ ha h
  · simp only [hf, bind, bind_eq_some_iff, Prod.exists, pure, some.injEq, Prod.mk.injEq] at h
    obtain ⟨c, r, hev, rfl, rfl⟩ := h
    exact hJ a.cache (.evict_n pin req (a.needed - a.progress)) c trivial ha (by simp [op, hf, hev])

theorem allocate_round_keeps {a a' : Alloc σ}
    (ha : J a.cache) (h : allocate_round P config pin req request a = some a') : J a'.cache := by
  simp only [allocate_round, bind, bind_eq_some_iff, Prod.exists] at h
  obtain ⟨c, vs, hround, h⟩ := h
  have hc : J c := evict_round_keeps hJ ha hround
  split_ifs at h with hnone
  · cases h
    unfold unreported
    dsimp only
    split_ifs <;> exact hc
  · cases h
    rw [count_victims_cache]
    exact hc

theorem make_room_keeps {s s' : Simulator σ} {ok : Result} (hctx : J (set_request_ctx P s.cache request))
    (h : make_room P config s request = some (s', ok)) : J s'.cache := by
  simp only [make_room, bind, bind_eq_some_iff] at h
  obtain ⟨m, -, h⟩ := h
  split_ifs at h
  · simp only [allocate, bind, bind_eq_some_iff, Prod.exists] at h
    obtain ⟨a, req_buf, ⟨a', hloop, rfl, rfl⟩, rfl, rfl⟩ := h
    exact (whileLoop_inv (fun a => J a.cache) (fun a a' ha _ hb => allocate_round_keeps hJ ha hb) _ _ _ hctx hloop).1
  · cases h
    exact hctx

end

theorem access_blocks_keeps
    (hJ : ∀ s s', ∀ i < request.blocks.length, J s → op P s (.get (fill_request config request i)) = some s' → J s') (order : List Nat)
    {x x' : σ × Request × List ObjId} (hin : ∀ i ∈ order, i < request.blocks.length)
    (hx : J x.1) (h : order.foldlM (access_block P config request) x = some x') : J x'.1 := by
  induction order generalizing x with
  | nil =>
    cases h
    exact hx
  | cons i order ih =>
    simp only [List.foldlM_cons, bind, bind_eq_some_iff] at h
    obtain ⟨y, hy, h⟩ := h
    simp only [access_block, bind, bind_eq_some_iff, Prod.exists, pure, some.injEq] at hy
    obtain ⟨c, r, hget, rfl⟩ := hy
    exact ih (fun j hj => hin j (List.mem_cons_of_mem _ hj)) (hJ x.1 c i (hin i List.mem_cons_self) hx (by simp [op, hget])) h

theorem access_keeps {s s' : Simulator σ}
    (hJ : ∀ s s', ∀ i < request.blocks.length, J s → op P s (.get (fill_request config request i)) = some s' → J s') (hs : J s.cache)
    (h : access P config s request = some s') : J s'.cache := by
  simp only [access, bind, bind_eq_some_iff, Prod.exists, pure, some.injEq] at h
  obtain ⟨c, req_buf, vs, hfold, rfl⟩ := h
  refine access_blocks_keeps hJ _ (fun i hi => ?_) hs hfold
  split_ifs at hi
  · exact List.mem_range.1 (List.mem_reverse.1 hi)
  · exact List.mem_range.1 hi

end

variable {s s' : Simulator σ} {ok : Result}

theorem serve_phases {J K : σ → Prop}
    (hctx : J (set_request_ctx P s.cache request))
    (hevict : ∀ s o s', o.evicts → J s → op P s o = some s' → J s')
    (hrecord : ∀ s s', J s → record_request P s request = some s' → K s')
    (hget : ∀ s s', ∀ i < request.blocks.length, K s → op P s (.get (fill_request config request i)) = some s' → K s')
    (hskip : skips config request = false) (h : serve P config s request = some (s', ok)) : J s'.cache ∨ K s'.cache := by
  simp only [serve, hskip, Bool.false_eq_true, if_false, bind, bind_eq_some_iff, Prod.exists] at h
  obtain ⟨m, ok', hroom, h⟩ := h
  have hm := make_room_keeps hevict hctx hroom
  cases ok' with
  | error text =>
    cases h
    exact .inl hm
  | ok u =>
    simp only [bind_eq_some_iff] at h
    obtain ⟨c, hrec, t, hacc, rfl, -⟩ := h
    exact .inr (access_keeps hget (hrecord _ _ hm hrec) hacc)

theorem serve_keeps {J : σ → Prop} (hJ : ∀ s o s', J s → op P s o = some s' → J s')
    (hs : J s.cache) (h : serve P config s request = some (s', ok)) : J s'.cache := by
  cases hskip : skips config request with
  | true =>
    simp only [serve, hskip] at h
    cases h
    exact hs
  | false =>
    exact or_self_iff.1 (serve_phases (set_request_ctx_keeps hJ hs request) (fun s o s' _ => hJ s o s')
      (fun _ _ => record_request_keeps hJ) (fun s s' _ _ => hJ s _ s') hskip h)

end CacheSim.Prefixsim

/-!
## The calls of a run

A policy that also writes down each call, with the state in which it was made, so that every eviction
of a run can be spoken of. Writing it down changes nothing.
-/

namespace CacheSim.Prefixsim

open Lib List

variable {σ : Type} {P : CachePolicy σ} {config : SimulatorConfig} {request : BlockRequest}

abbrev CallLog (σ : Type) := List (σ × Op)

def recorded (P : CachePolicy σ) : CachePolicy (σ × CallLog σ) where
  find s id := P.find s.1 id
  get s req := (P.get s.1 req).map fun r => ((r.1, s.2 ++ [(s.1, .get req)]), r.2)
  evict pin s req := (P.evict pin s.1 req).map fun r => ((r.1, s.2 ++ [(s.1, .evict pin req)]), r.2)
  evict_n := P.evict_n.map fun f pin s req n =>
    (f pin s.1 req n).map fun r => ((r.1, s.2 ++ [(s.1, .evict_n pin req n)]), r.2)
  get_occupied_byte s := P.get_occupied_byte s.1
  get_n_obj s := P.get_n_obj s.1
  set_request_ctx := P.set_request_ctx.map fun f s ctx => (f s.1 ctx, s.2 ++ [(s.1, .set_request_ctx ctx)])
  record_request := P.record_request.map fun f s ids =>
    (f s.1 ids).map fun c => (c, s.2 ++ [(s.1, .record_request ids)])

theorem op_recorded (P : CachePolicy σ) (s : σ × CallLog σ) (o : Op) :
    op (recorded P) s o = (op P s.1 o).map fun c => (c, s.2 ++ [(s.1, o)]) := by
  cases o with
  | set_request_ctx ctx => cases h : P.set_request_ctx <;> simp [op, recorded, h]
  | record_request ids => cases h : P.record_request <;> simp [op, recorded, h]
  | get req => cases h : P.get s.1 req <;> simp [op, recorded, h]
  | evict pin req => cases h : P.evict pin s.1 req <;> simp [op, recorded, h]
  | evict_n pin req n =>
    rcases h : P.evict_n with _ | f
    · simp [op, recorded, h]
    · cases hf : f pin s.1 req n <;> simp [op, recorded, h, hf]

def Chronicle (Q : CallLog σ → σ → Op → Prop) (log : CallLog σ) : Prop :=
  ∀ before s o after, log = before ++ (s, o) :: after → Q before s o

variable {Q : CallLog σ → σ → Op → Prop}

theorem Chronicle.nil : Chronicle Q [] := by simp [Chronicle]

variable {log : CallLog σ}

theorem Chronicle.snoc {s : σ} {o : Op} (h : Chronicle Q log) (ho : Q log s o) : Chronicle Q (log ++ [(s, o)]) := by
  intro before t p after heq
  rcases after.eq_nil_or_concat with rfl | ⟨after, c, rfl⟩
  · obtain ⟨rfl, hlast⟩ := append_inj' heq rfl
    cases hlast
    exact ho
  · rw [concat_eq_append, ← cons_append, ← append_assoc] at heq
    exact h before t p after (append_inj' heq rfl).1

/-! ## A policy that passes no pinned block over -/

variable {Inv : σ → Prop} {resident : σ → Finset ObjId}

/-- The contract of a policy that evicts one object per call, pinned or not, and reports it. -/
structure Heedless (P : CachePolicy σ) (config : SimulatorConfig) (Inv : σ → Prop) (resident : σ → Finset ObjId) : Prop
    extends Residency P Inv resident, Gets P config Inv resident where
  evict_n : P.evict_n = none
  evict : ∀ pin c req, Inv c → (resident c).Nonempty → ∃ c' v, P.evict pin c req = some (c', [v]) ∧ Inv c' ∧ v ∈ resident c ∧
    resident c' = (resident c).erase v
  set_request_ctx : ∀ f, P.set_request_ctx = some f → ∀ c ctx, Inv c → Inv (f c ctx) ∧ resident (f c ctx) = resident c
  record_request : ∀ f, P.record_request = some f → ∀ c path, Inv c → ∃ c', f c path = some c' ∧ Inv c' ∧
    resident c' = resident c

theorem Heedless.contract (hP : Heedless P config Inv resident) : Contract P config Inv resident true where
  __ := hP
  evict := hP.evict none

theorem Heedless.serve (hP : Heedless P config Inv resident) {s : Simulator σ} (hs : Inv s.cache)
    (hcost : skips config request = false → CostsFit config request) :
    ∃ s', serve_ok P config s request = some s' ∧ Inv s'.cache := by
  unfold serve_ok
  cases hskip : skips config request with
  | true =>
    obtain ⟨s', hserve, hcache⟩ := serve_skipped P hskip
    exact ⟨s', by rw [hserve], hcache ▸ hs⟩
  | false =>
    have hA : (request.alpha.card : Int) ≤ config.cache_size_blocks := by
      unfold skips at hskip
      simpa using hskip
    obtain ⟨m, hm, hroom⟩ := make_room_spec hP.toResidency (set_request_ctx_spec hP.contract hs request) (hcost hskip)
      (fun c rb m needed hc _ hneed hpos =>
        allocate_reported hP.toResidency (reports_of_evict hP.evict_n (hP.evict _)) hc hA rb m hneed hpos)
    obtain ⟨c, hrec, hc, hres⟩ := record_request_spec hP.contract hroom.inv request
    obtain ⟨s', hserve, hinv, -⟩ := serve_of_room hP.toResidency hP.toGets hskip hm hrec hc (hres ▸ hroom.fits)
    exact ⟨s', by rw [hserve], hinv⟩

theorem serve_of_serve_ok {s s' : Simulator σ} (h : serve_ok P config s request = some s') :
    serve P config s request = some (s', .ok ()) := by
  unfold serve_ok at h
  split at h
  · cases h
    assumption
  · cases h

def QuietGets (P : CachePolicy σ) (log : CallLog σ) : Prop := ∀ s req, (s, .get req) ∈ log → ∃ t, P.get s req = some (t, [])

theorem QuietGets.snoc (h : QuietGets P log) {s : σ} {o : Op}
    (ho : ∀ req, o = .get req → ∃ t, P.get s req = some (t, [])) : QuietGets P (log ++ [(s, o)]) := by
  intro t req hin
  rcases mem_append.1 hin with hin | hin
  · exact h t req hin
  · cases mem_singleton.1 hin
    exact ho req rfl

theorem Heedless.recorded (hP : Heedless P config Inv resident) :
    Heedless (recorded P) config (fun s => Inv s.1 ∧ QuietGets P s.2) fun s => resident s.1 where
  find s id hs := hP.find s.1 id hs.1
  occupied s hs := hP.occupied s.1 hs.1
  get_hit := by
    rintro s req ⟨hs, hq⟩ hin
    obtain ⟨c, hget, hc, hres⟩ := hP.get_hit s.1 req hs hin
    exact ⟨(c, s.2 ++ [(s.1, .get req)]), by simp [Prefixsim.recorded, hget],
      ⟨hc, hq.snoc fun r hr => by cases hr; exact ⟨c, hget⟩⟩, hres⟩
  get_miss := by
    rintro s req ⟨hs, hq⟩ hout hsize hroom
    obtain ⟨c, hget, hc, hres⟩ := hP.get_miss s.1 req hs hout hsize hroom
    exact ⟨(c, s.2 ++ [(s.1, .get req)]), by simp [Prefixsim.recorded, hget],
      ⟨hc, hq.snoc fun r hr => by cases hr; exact ⟨c, hget⟩⟩, hres⟩
  evict_n := by simp [Prefixsim.recorded, hP.evict_n]
  evict := by
    rintro pin s req ⟨hs, hq⟩ hne
    obtain ⟨c, v, hev, hc, hv, hres⟩ := hP.evict pin s.1 req hs hne
    exact ⟨(c, s.2 ++ [(s.1, .evict pin req)]), v, by simp [Prefixsim.recorded, hev], ⟨hc, hq.snoc (by simp)⟩, hv, hres⟩
  set_request_ctx := by
    rintro f hf s ctx ⟨hs, hq⟩
    obtain ⟨g, hg, rfl⟩ := Option.map_eq_some_iff.1 hf
    obtain ⟨hc, hres⟩ := hP.set_request_ctx g hg s.1 ctx hs
    exact ⟨⟨hc, hq.snoc (by simp)⟩, hres⟩
  record_request := by
    rintro f hf s ids ⟨hs, hq⟩
    obtain ⟨g, hg, rfl⟩ := Option.map_eq_some_iff.1 hf
    obtain ⟨c, hrec, hc, hres⟩ := hP.record_request g hg s.1 ids hs
    exact ⟨(c, s.2 ++ [(s.1, .record_request ids)]), by simp [hrec], ⟨hc, hq.snoc (by simp)⟩, hres⟩

end CacheSim.Prefixsim
