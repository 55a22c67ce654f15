import CacheSim.Lib.Loop

/-!
# The cache interface (`cache.h`, `cache.c`)

`cache_get_base` is the one loop that every eviction policy runs under: look the object up, and on
a miss evict until there is room, then insert. The `find` of a policy is `X_find` with `update_cache`, with
whether it returned an object, and `X_probe` without.
-/

namespace CacheSim

open Lib Option

/-- `obj_id_t` -/
abbrev ObjId := Nat

/-- `request_t`, with the fields that the eviction policies read. -/
structure Request where
  obj_id : ObjId
  obj_size : Int := 1
  obj_cost : Int := 1
  next_access_vtime : Int := -2
  clock_time : Int := 0
deriving DecidableEq, Repr

/-- The function pointers of `cache_t` that `cache_get_base` calls. -/
structure CacheOps (σ : Type) where
  /-- `cache->n_req += 1` -/
  count_req : σ → σ
  /-- `find(cache, req, true)`, and whether it returned an object -/
  find : σ → Request → Option (σ × Bool)
  can_insert : σ → Request → Option (σ × Bool)
  get_occupied_byte : σ → Int
  obj_md_size : σ → Int
  cache_size : σ → Int
  evict : σ → Request → Option σ
  insert : σ → Request → Option σ

namespace CacheOps

variable {σ : Type} (ops : CacheOps σ)

def full_for (req : Request) (s : σ) : Bool :=
  ops.get_occupied_byte s + req.obj_size + ops.obj_md_size s > ops.cache_size s

theorem full_for_iff (req : Request) (s : σ) : ops.full_for req s = true ↔
    ops.cache_size s < ops.get_occupied_byte s + req.obj_size + ops.obj_md_size s := by
  simp [full_for]

theorem full_for_false_iff (req : Request) (s : σ) : ops.full_for req s = false ↔
    ops.get_occupied_byte s + req.obj_size + ops.obj_md_size s ≤ ops.cache_size s := by
  simp [full_for]

/-- `fuel` bounds the rounds of the eviction loop. -/
def cache_get_base (fuel : σ → Nat) (s : σ) (req : Request) : Option (σ × Bool) := do
  let (s, hit) ← ops.find (ops.count_req s) req
  if hit then
    return (s, true)
  let (s, admitted) ← ops.can_insert s req
  if !admitted then
    return (s, false)
  let s ← whileLoop (ops.full_for req) (ops.evict · req) (fuel s) s
  let s ← ops.insert s req
  return (s, false)

variable {ops} {fuel : σ → Nat} {req : Request}

theorem cache_get_base_hit {s s1 : σ} (hf : ops.find (ops.count_req s) req = some (s1, true)) :
    ops.cache_get_base fuel s req = some (s1, true) := by
  simp [cache_get_base, hf]

theorem cache_get_base_reject {s s1 s2 : σ}
    (hf : ops.find (ops.count_req s) req = some (s1, false))
    (hc : ops.can_insert s1 req = some (s2, false)) :
    ops.cache_get_base fuel s req = some (s2, false) := by
  simp [cache_get_base, hf, hc]

variable {hit : Bool}

theorem cache_get_base_miss {s s1 t : σ} (hf : ops.find (ops.count_req s) req = some (s1, false))
    (hget : ops.cache_get_base fuel s req = some (t, hit)) : hit = false := by
  simp only [cache_get_base, hf, bind, bind_some, Bool.false_eq_true] at hget
  obtain ⟨⟨s2, admitted⟩, -, hget⟩ := bind_eq_some_iff.1 hget
  cases admitted with
  | false => exact (congrArg Prod.snd (some.inj hget)).symm
  | true =>
    obtain ⟨s3, -, hget⟩ := bind_eq_some_iff.1 hget
    obtain ⟨s4, -, hget⟩ := bind_eq_some_iff.1 hget
    exact (congrArg Prod.snd (some.inj hget)).symm

theorem cache_get_base_insert {s s1 s2 s3 s4 : σ}
    (hf : ops.find (ops.count_req s) req = some (s1, false))
    (hc : ops.can_insert s1 req = some (s2, true))
    (hw : whileLoop (ops.full_for req) (ops.evict · req) (fuel s2) s2 = some s3)
    (hi : ops.insert s3 req = some s4) : ops.cache_get_base fuel s req = some (s4, false) := by
  simp [cache_get_base, hf, hc, hw, hi]

variable {s t : σ}

theorem cache_get_base_found (hget : ops.cache_get_base fuel s req = some (t, true)) :
    ops.find (ops.count_req s) req = some (t, true) := by
  obtain ⟨⟨s1, hit⟩, hf, hrest⟩ := bind_eq_some_iff.1 hget
  cases hit with
  | true =>
    cases hrest
    exact hf
  | false => cases cache_get_base_miss hf hget

theorem cache_get_base_missed (hget : ops.cache_get_base fuel s req = some (t, false)) :
    ∃ s1 s2 admitted, ops.find (ops.count_req s) req = some (s1, false) ∧ ops.can_insert s1 req = some (s2, admitted) ∧
      if admitted then
        ∃ s3, whileLoop (ops.full_for req) (ops.evict · req) (fuel s2) s2 = some s3 ∧ ops.insert s3 req = some t
      else t = s2 := by
  simp only [cache_get_base, bind, bind_eq_some_iff, Prod.exists, pure] at hget
  obtain ⟨s1, hit, hf, hget⟩ := hget
  cases hit with
  | true => simp at hget
  | false =>
    simp only [Bool.false_eq_true, if_false, bind_eq_some_iff, Prod.exists] at hget
    obtain ⟨s2, admitted, hc, hget⟩ := hget
    refine ⟨s1, s2, admitted, hf, hc, ?_⟩
    cases admitted with
    | false =>
      simp only [Bool.not_false, if_true, some.injEq, Prod.mk.injEq, and_true] at hget
      exact hget.symm
    | true =>
      simp only [Bool.not_true, Bool.false_eq_true, if_false, bind_eq_some_iff, some.injEq, Prod.mk.injEq,
        and_true] at hget
      obtain ⟨s3, hw, s4, hi, rfl⟩ := hget
      exact ⟨s3, hw, hi⟩

theorem cache_get_base_inv (Pre Miss Done : σ → Prop)
    (hfind : ∀ s s' hit, Pre s → ops.find (ops.count_req s) req = some (s', hit) →
      if hit then Done s' else Miss s')
    (hcan : ∀ s s' admitted, Miss s → ops.can_insert s req = some (s', admitted) →
      if admitted then Miss s' else Done s')
    (hevict : ∀ s s', Miss s → ops.full_for req s = true → ops.evict s req = some s' → Miss s')
    (hinsert : ∀ s s', Miss s → ops.full_for req s = false → ops.insert s req = some s' → Done s')
    (hs : Pre s) (hget : ops.cache_get_base fuel s req = some (t, hit)) :
    Done t := by
  simp only [cache_get_base, bind, bind_eq_some_iff, Prod.exists, pure] at hget
  obtain ⟨s1, h1, hf, hget⟩ := hget
  have d1 := hfind s s1 h1 hs hf
  cases h1 with
  | true =>
    simp only [if_true, some.injEq, Prod.mk.injEq] at hget d1
    exact hget.1 ▸ d1
  | false =>
    simp only [Bool.false_eq_true, if_false, bind_eq_some_iff, Prod.exists] at hget d1
    obtain ⟨s2, admitted, hc, hget⟩ := hget
    have d2 := hcan s1 s2 admitted d1 hc
    cases admitted with
    | false =>
      simp only [Bool.not_false, if_true, some.injEq, Prod.mk.injEq] at hget d2
      exact hget.1 ▸ d2
    | true =>
      simp only [Bool.not_true, Bool.false_eq_true, if_false, bind_eq_some_iff, some.injEq, Prod.mk.injEq] at hget d2
      obtain ⟨s3, hw, s4, hi, rfl, -⟩ := hget
      obtain ⟨d3, hroom⟩ := whileLoop_inv Miss (fun a b ha hc hb => hevict a b ha hc hb) _ _ _ d2 hw
      exact hinsert s3 s4 d3 hroom hi

theorem cache_get_base_total (Pre Miss Ready Done : σ → Prop) (μ : σ → Nat)
    (hfuel : ∀ s, Ready s → μ s ≤ fuel s)
    (hfind : ∀ s, Pre s → ∃ s' hit, ops.find (ops.count_req s) req = some (s', hit) ∧
      if hit then Done s' else Miss s')
    (hcan : ∀ s, Miss s → ∃ s' admitted, ops.can_insert s req = some (s', admitted) ∧
      if admitted then Ready s' else Done s')
    (hevict : ∀ s, Ready s → ops.full_for req s = true →
      ∃ s', ops.evict s req = some s' ∧ Ready s' ∧ μ s' < μ s)
    (hinsert : ∀ s, Ready s → ops.full_for req s = false →
      ∃ s', ops.insert s req = some s' ∧ Done s')
    {s : σ} (hs : Pre s) :
    ∃ t hit, ops.cache_get_base fuel s req = some (t, hit) ∧ Done t := by
  obtain ⟨s1, h1, hf, d1⟩ := hfind s hs
  cases h1 with
  | true => exact ⟨s1, true, cache_get_base_hit hf, by simpa using d1⟩
  | false =>
    obtain ⟨s2, admitted, hc, d2⟩ := hcan s1 (by simpa using d1)
    cases admitted with
    | false => exact ⟨s2, false, cache_get_base_reject hf hc, by simpa using d2⟩
    | true =>
      have r2 : Ready s2 := by simpa using d2
      obtain ⟨s3, hw, r3, hroom⟩ := whileLoop_total Ready μ (fun a ha hc => hevict a ha hc)
        (fuel s2) s2 r2 (hfuel s2 r2)
      obtain ⟨s4, hi, d4⟩ := hinsert s3 r3 hroom
      exact ⟨s4, false, cache_get_base_insert hf hc hw hi, d4⟩

/-- A policy that simulates another one part by part simulates its gets: they hit together, and one fails only where the other
does. `Miss` relates the states from a lookup that found nothing up to the insertion. -/
theorem cache_get_base_rel {τ : Type} {ops' : CacheOps τ} {fuel' : τ → Nat} (R Miss : σ → τ → Prop)
    (hfind : ∀ s a, R s a → Option.Rel (fun p q => (if p.2 then R p.1 q.1 else Miss p.1 q.1) ∧ p.2 = q.2)
      (ops.find (ops.count_req s) req) (ops'.find (ops'.count_req a) req))
    (hcan : ∀ s a, Miss s a → Option.Rel (fun p q => (if p.2 then Miss p.1 q.1 else R p.1 q.1) ∧ p.2 = q.2)
      (ops.can_insert s req) (ops'.can_insert a req))
    (hfull : ∀ s a, Miss s a → ops.full_for req s = ops'.full_for req a) (hfuel : ∀ s a, Miss s a → fuel s = fuel' a)
    (hevict : ∀ s a, Miss s a → Option.Rel Miss (ops.evict s req) (ops'.evict a req))
    (hinsert : ∀ s a, Miss s a → Option.Rel R (ops.insert s req) (ops'.insert a req)) {s : σ} {a : τ} (h : R s a) :
    Option.Rel (fun p q => R p.1 q.1 ∧ p.2 = q.2) (ops.cache_get_base fuel s req) (ops'.cache_get_base fuel' a req) := by
  apply bind_rel (hfind s a h)
  rintro ⟨s1, hit⟩ ⟨a1, _⟩ ⟨h1, rfl⟩
  cases hit with
  | true => exact .some ⟨by simpa using h1, rfl⟩
  | false =>
    apply bind_rel (hcan s1 a1 (by simpa using h1))
    rintro ⟨s2, admitted⟩ ⟨a2, _⟩ ⟨h2, rfl⟩
    cases admitted with
    | false => exact .some ⟨by simpa using h2, rfl⟩
    | true =>
      replace h2 : Miss s2 a2 := by simpa using h2
      have hloop : Option.Rel Miss (whileLoop (ops.full_for req) (ops.evict · req) (fuel s2) s2)
          (whileLoop (ops'.full_for req) (ops'.evict · req) (fuel' a2) a2) := by
        rw [hfuel s2 a2 h2]
        exact whileLoop_rel hfull hevict _ h2
      apply bind_rel hloop
      intro s3 a3 h3
      apply bind_rel (hinsert _ _ h3)
      intro s4 a4 h4
      exact .some ⟨h4, rfl⟩

/-! ## Observers -/

variable {H : Type}

/-- The policy next to a history of its evictions, to which `note` adds the one that a state is about to make. -/
def observed (ops : CacheOps σ) (note : σ → H → H) : CacheOps (σ × H) where
  count_req p := (ops.count_req p.1, p.2)
  find p req := (ops.find p.1 req).map fun r => ((r.1, p.2), r.2)
  can_insert p req := (ops.can_insert p.1 req).map fun r => ((r.1, p.2), r.2)
  get_occupied_byte p := ops.get_occupied_byte p.1
  obj_md_size p := ops.obj_md_size p.1
  cache_size p := ops.cache_size p.1
  evict p req := (ops.evict p.1 req).map fun s => (s, note p.1 p.2)
  insert p req := (ops.insert p.1 req).map fun s => (s, p.2)

theorem observed_get (note : σ → H → H) (p : σ × H) :
    Option.Rel (fun q r => q.1.1 = r.1 ∧ q.2 = r.2) ((ops.observed note).cache_get_base (fun p => fuel p.1) p req)
      (ops.cache_get_base fuel p.1 req) := by
  have hmap : ∀ {α β : Type} {R : β → α → Prop} (o : Option α) (f : α → β), (∀ a, R (f a) a) → Option.Rel R (o.map f) o := by
    intro α β R o f hf
    cases o with
    | none => exact .none
    | some a => exact .some (hf a)
  refine cache_get_base_rel (fun (q : σ × H) s => q.1 = s) (fun q s => q.1 = s) ?_ ?_ ?_ ?_ ?_ ?_ rfl
  · rintro q _ rfl
    exact hmap _ _ fun r => by simp
  · rintro q _ rfl
    exact hmap _ _ fun r => by simp
  · rintro q _ rfl
    rfl
  · rintro q _ rfl
    rfl
  · rintro q _ rfl
    exact hmap _ _ fun _ => rfl
  · rintro q _ rfl
    exact hmap _ _ fun _ => rfl

end CacheOps

end CacheSim

/-!
## The candidate of `to_evict` (`cache.h`)

What `to_evict` returns has to be what `evict` takes, if it is the next call and `n_req` is the same.
-/

namespace CacheSim

variable {σ : Type}

/-- `to_evict` returns an object, and the eviction after it takes this object and no other. -/
def Honoured (to_evict : σ → Option (σ × Option ObjId)) (evict : σ → Option σ) (resident : σ → ObjId → Prop) (s : σ) : Prop :=
  ∃ t c u, to_evict s = some (t, some c) ∧ evict t = some u ∧ resident s c ∧ ∀ x, resident u x ↔ x ≠ c ∧ resident s x

theorem Honoured.iff_victim {to_evict : σ → Option (σ × Option ObjId)} {evict : σ → Option σ} {resident : σ → ObjId → Prop}
    {s t u : σ} {c : Option ObjId} {v : ObjId} (hto : to_evict s = some (t, c)) (hevict : evict t = some u)
    (hv : resident s v) (hleft : ∀ x, resident u x ↔ x ≠ v ∧ resident s x) :
    Honoured to_evict evict resident s ↔ c = some v := by
  constructor
  · rintro ⟨t', c', u', hto', hevict', hc, hleft'⟩
    simp only [hto, Option.some.injEq] at hto'
    obtain ⟨rfl, rfl⟩ := hto'
    obtain rfl := Option.some.inj (hevict.symm.trans hevict')
    by_contra hne
    have hstays : resident u c' := (hleft c').2 ⟨fun heq => hne (heq ▸ rfl), hc⟩
    exact ((hleft' c').1 hstays).1 rfl
  · rintro rfl
    exact ⟨t, v, u, hto, hevict, hv, hleft⟩

end CacheSim
