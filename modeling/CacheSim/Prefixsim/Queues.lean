import CacheSim.Clock
import CacheSim.Prefixsim.Pinned
import CacheSim.Sieve.Hand

/-!
# LRU, FIFO, Clock and Sieve under the simulator

Each keeps its blocks in a queue, all of size 1 and without metadata.
-/

namespace CacheSim.Prefixsim

open Lib List Option AList

variable {σ μ : Type}

def gone (before after : List ObjId) : List ObjId := before.filter (· ∉ after)

def logged (ops : CacheOps σ) (keys : σ → List ObjId) : CacheOps (σ × List ObjId) where
  count_req s := (ops.count_req s.1, s.2)
  find s req := (ops.find s.1 req).map fun r => ((r.1, s.2), r.2)
  can_insert s req := (ops.can_insert s.1 req).map fun r => ((r.1, s.2), r.2)
  get_occupied_byte s := ops.get_occupied_byte s.1
  obj_md_size s := ops.obj_md_size s.1
  cache_size s := ops.cache_size s.1
  evict s req := (ops.evict s.1 req).map fun t => (t, s.2 ++ gone (keys s.1) (keys t))
  insert s req := (ops.insert s.1 req).map fun t => (t, s.2)

def queue_policy (ops : Pin → CacheOps σ) (queue : σ → Fifo μ) : CachePolicy σ where
  find s id := decide (id ∈ (queue s).q.keys)
  get s req := ((logged (ops none) fun s => (queue s).q.keys).cache_get_base (fun s => (queue s.1).q.entries.length)
    (s, []) req).map (·.1)
  evict pin s req := ((ops pin).evict s req).map fun t => (t, gone (queue s).q.keys (queue t).q.keys)
  get_occupied_byte s := (queue s).occupied_byte
  get_n_obj s := (queue s).n_obj

def lru : CachePolicy (Lru Unit) :=
  queue_policy (fun pin => { Lru.ops with evict := fun c _ => Lru.LRU_evict_pinned pin c }) id

def fifo_queue : CachePolicy (Fifo Unit) :=
  queue_policy (fun pin => { Fifo.ops with evict := fun c _ => Fifo.FIFO_evict_pinned pin c }) id

def clock : CachePolicy Clock.State := queue_policy Clock.ops Clock.State.fifo

def sieve : CachePolicy Sieve.State := queue_policy Sieve.ops Sieve.State.fifo

theorem queue_get_hit (ops : Pin → CacheOps σ) {queue : σ → Fifo μ} {s s' : σ} {req : Request}
    (hfind : (ops none).find ((ops none).count_req s) req = some (s', true)) :
    (queue_policy ops queue).get s req = some (s', []) := by
  have hget : (logged (ops none) fun s => (queue s).q.keys).cache_get_base (fun s => (queue s.1).q.entries.length)
      (s, []) req = some ((s', []), true) := CacheOps.cache_get_base_hit (by simp [logged, hfind])
  exact congrArg (Option.map Prod.fst) hget

theorem queue_get_miss (ops : Pin → CacheOps σ) {queue : σ → Fifo μ} {s s1 s' : σ} {req : Request}
    (hfind : (ops none).find ((ops none).count_req s) req = some (s1, false))
    (hcan : (ops none).can_insert s1 req = some (s1, true)) (hfree : (ops none).full_for req s1 = false)
    (hinsert : (ops none).insert s1 req = some s') : (queue_policy ops queue).get s req = some (s', []) := by
  let L := logged (ops none) fun s => (queue s).q.keys
  have hfind' : L.find (L.count_req (s, [])) req = some ((s1, []), false) := by simp [L, logged, hfind]
  have hcan' : L.can_insert (s1, []) req = some ((s1, []), true) := by simp [L, logged, hcan]
  have hinsert' : L.insert (s1, []) req = some (s', []) := by simp [L, logged, hinsert]
  have hget : L.cache_get_base (fun s => (queue s.1).q.entries.length) (s, []) req = some ((s', []), false) :=
    CacheOps.cache_get_base_insert hfind' hcan' (whileLoop_stop _ _ _ _ hfree) hinsert'
  exact congrArg (Option.map Prod.fst) hget

theorem queue_get_inv (ops : Pin → CacheOps σ) (queue : σ → Fifo μ) {req : Request} (Pre Miss Done : σ → Prop)
    (hfind : ∀ s s' hit, Pre s → (ops none).find ((ops none).count_req s) req = some (s', hit) → if hit then Done s' else Miss s')
    (hcan : ∀ s s' admitted, Miss s → (ops none).can_insert s req = some (s', admitted) → if admitted then Miss s' else Done s')
    (hevict : ∀ s s', Miss s → (ops none).evict s req = some s' → Miss s')
    (hinsert : ∀ s s', Miss s → (ops none).insert s req = some s' → Done s')
    {s t : σ} {vs : List ObjId} (hs : Pre s) (hget : (queue_policy ops queue).get s req = some (t, vs)) : Done t := by
  obtain ⟨⟨u, hit⟩, hbase, hu⟩ := map_eq_some_iff.1 hget
  cases hu
  refine CacheOps.cache_get_base_inv (fun s => Pre s.1) (fun s => Miss s.1) (fun s => Done s.1) ?_ ?_ ?_ ?_ hs hbase
  · intro a b hit ha hab
    obtain ⟨r, hr, hrb⟩ := map_eq_some_iff.1 hab
    cases hrb
    exact hfind a.1 r.1 _ ha hr
  · intro a b admitted ha hab
    obtain ⟨r, hr, hrb⟩ := map_eq_some_iff.1 hab
    cases hrb
    exact hcan a.1 r.1 _ ha hr
  · intro a b ha _ hab
    obtain ⟨r, hr, hrb⟩ := map_eq_some_iff.1 hab
    cases hrb
    exact hevict a.1 r ha hr
  · intro a b ha _ hab
    obtain ⟨r, hr, hrb⟩ := map_eq_some_iff.1 hab
    cases hrb
    exact hinsert a.1 r ha hr

/-! ## What a queue policy keeps -/

structure QueuedGets (ops : Pin → CacheOps σ) (queue : σ → Fifo μ) (K : Int) (Inv : σ → Prop) : Prop where
  blocks : ∀ s, Inv s → Blocks K (queue s)
  can_insert : ∀ s req, (ops none).can_insert s req =
    some (s, !(req.obj_size + (queue s).obj_md_size > (queue s).cache_size))
  occupied : ∀ s, (ops none).get_occupied_byte s = (queue s).occupied_byte
  obj_md_size : ∀ s, (ops none).obj_md_size s = (queue s).obj_md_size
  cache_size : ∀ s, (ops none).cache_size s = (queue s).cache_size
  hit : ∀ s req, Inv s → req.obj_id ∈ (queue s).q → ∃ s', (ops none).find ((ops none).count_req s) req = some (s', true) ∧
    Inv s' ∧ ∀ x, x ∈ (queue s').q ↔ x ∈ (queue s).q
  miss : ∀ s req, Inv s → req.obj_id ∉ (queue s).q → ∃ s', (ops none).find ((ops none).count_req s) req = some (s', false) ∧
    Inv s' ∧ (queue s').q = (queue s).q
  insert : ∀ s req, Inv s → req.obj_id ∉ (queue s).q → req.obj_size = 1 → ∃ s', (ops none).insert s req = some s' ∧
    Inv s' ∧ ∀ x, x ∈ (queue s').q ↔ x = req.obj_id ∨ x ∈ (queue s).q

/-- `Ready A n s`: with `A` pinned, `n` evictions from `s` take blocks that are not pinned. -/
structure Queued (ops : Pin → CacheOps σ) (queue : σ → Fifo μ) (K : Int) (Inv : σ → Prop)
    (Ready : Finset ObjId → Nat → σ → Prop) : Prop extends QueuedGets ops queue K Inv where
  evict : ∀ A n s req, Inv s → Ready A (n + 1) s → (∃ x ∈ (queue s).q, x ∉ A) → ∃ s' v,
    (ops (pins A)).evict s req = some s' ∧ Inv s' ∧ v ∈ (queue s).q ∧ v ∉ A ∧
      (∀ x, x ∈ (queue s').q ↔ x ≠ v ∧ x ∈ (queue s).q) ∧ Ready A n s'

theorem QueuedGets.gets {ops : Pin → CacheOps σ} {queue : σ → Fifo μ} {config : SimulatorConfig} {Inv : σ → Prop}
    (hQ : QueuedGets ops queue config.cache_size_blocks Inv) :
    Gets (queue_policy ops queue) config Inv fun s => (queue s).q.keys.toFinset where
  get_hit := by
    intro s req hs hin
    obtain ⟨s', hfind, hs', hsame⟩ := hQ.hit s req hs (AList.mem_keys.2 (List.mem_toFinset.1 hin))
    refine ⟨s', queue_get_hit ops hfind, hs', ?_⟩
    ext x
    rw [List.mem_toFinset, List.mem_toFinset, ← AList.mem_keys, ← AList.mem_keys, hsame x]
  get_miss := by
    intro s req hs hout hsize hroom
    have hout' : req.obj_id ∉ (queue s).q := fun hmem => hout (List.mem_toFinset.2 (AList.mem_keys.1 hmem))
    obtain ⟨s1, hfind, hs1, hsame⟩ := hQ.miss s req hs hout'
    have hout1 : req.obj_id ∉ (queue s1).q := by rwa [hsame]
    obtain ⟨s', hinsert, hs', hkeys⟩ := hQ.insert s1 req hs1 hout1 hsize
    have hb := hQ.blocks s1 hs1
    have hocc : (queue s1).occupied_byte < config.cache_size_blocks := by
      rw [hb.occupied, hsame]
      exact hroom
    have hpos : (0 : Int) ≤ (queue s1).occupied_byte := by
      rw [hb.occupied]
      exact Int.natCast_nonneg _
    have hcan : (ops none).can_insert s1 req = some (s1, true) := by
      have hfit : ¬ (req.obj_size + (queue s1).obj_md_size > (queue s1).cache_size) := by
        rw [hsize, hb.md, hb.size]
        omega
      rw [hQ.can_insert, decide_eq_false hfit]
      rfl
    have hfree : (ops none).full_for req s1 = false := by
      rw [CacheOps.full_for_false_iff, hQ.occupied, hQ.obj_md_size, hQ.cache_size, hsize, hb.md, hb.size]
      omega
    refine ⟨s', queue_get_miss ops hfind hcan hfree hinsert, hs', ?_⟩
    ext x
    rw [List.mem_toFinset, Finset.mem_insert, List.mem_toFinset, ← AList.mem_keys, ← AList.mem_keys, hkeys x, hsame]

theorem gone_eq {before after : List ObjId} {v : ObjId} (hn : before.Nodup) (hv : v ∈ before)
    (h : ∀ x, x ∈ after ↔ x ≠ v ∧ x ∈ before) : gone before after = [v] := by
  have hgone : gone before after = before.filter (· = v) := by
    apply filter_congr
    intro x hx
    simp [h x, hx]
  rw [hgone, filter_eq, count_eq_one_of_mem hn hv]
  rfl

theorem queue_evict_one (ops : Pin → CacheOps σ) (queue : σ → Fifo μ) (pin : Pin) (req : Request) {s s' : σ} {v : ObjId}
    (hevict : (ops pin).evict s req = some s') (hv : v ∈ (queue s).q)
    (hleft : ∀ x, x ∈ (queue s').q ↔ x ≠ v ∧ x ∈ (queue s).q) :
    (queue_policy ops queue).evict pin s req = some (s', [v]) ∧ v ∈ (queue s).q.keys.toFinset ∧
      (queue s').q.keys.toFinset = (queue s).q.keys.toFinset.erase v := by
  have hleft' : ∀ x, x ∈ (queue s').q.keys ↔ x ≠ v ∧ x ∈ (queue s).q.keys := by
    intro x
    rw [← AList.mem_keys, ← AList.mem_keys, hleft x]
  refine ⟨?_, List.mem_toFinset.2 (AList.mem_keys.1 hv), ?_⟩
  · simp [queue_policy, hevict, gone_eq (queue s).q.keys_nodup (AList.mem_keys.1 hv) hleft']
  · ext x
    simp [hleft' x]

theorem evict_of_op (ops : Pin → CacheOps σ) (queue : σ → Fifo μ) (P : CachePolicy σ)
    (hevict : P.evict = (queue_policy ops queue).evict)
    (hn : P.evict_n = none) {s t : σ} {o : Op} (ho : o.evicts) (h : op P s o = some t) :
    ∃ pin req, o = .evict pin req ∧ (ops pin).evict s req = some t := by
  cases o with
  | evict pin req =>
    obtain ⟨⟨u, vs⟩, hu, rfl⟩ := map_eq_some_iff.1 h
    rw [hevict] at hu
    obtain ⟨u', hu', hpair⟩ := map_eq_some_iff.1 hu
    cases hpair
    exact ⟨pin, req, rfl, hu'⟩
  | evict_n pin req n => simp [op, hn] at h
  | _ => exact ho.elim

theorem Queued.contract {ops : Pin → CacheOps σ} {queue : σ → Fifo μ} {config : SimulatorConfig} {Inv : σ → Prop}
    {Ready : Finset ObjId → Nat → σ → Prop} (hQ : Queued ops queue config.cache_size_blocks Inv Ready) :
    PinContract (queue_policy ops queue) config Inv (fun s => (queue s).q.keys.toFinset) Ready where
  __ := hQ.toQueuedGets.gets
  find s id _ := by simp [queue_policy]
  occupied s hs := (hQ.blocks s hs).occupied
  evict_n := rfl
  set_request_ctx := rfl
  record_request := rfl
  evict := by
    intro A n s req hs hready hfree
    obtain ⟨s', v, hevict, hs', hv, hvA, hleft, hready'⟩ := hQ.evict A n s req hs hready (by
      obtain ⟨x, hx, hxA⟩ := hfree
      exact ⟨x, AList.mem_keys.2 (List.mem_toFinset.1 hx), hxA⟩)
    obtain ⟨hreport, hmem, hres⟩ := queue_evict_one ops queue (pins A) req hevict hv hleft
    exact ⟨s', v, hreport, hs', hmem, hvA, hres, hready'⟩

/-! ## The four policies -/

theorem pins_is_pinned (A : Finset ObjId) (x : ObjId) : Pin.is_pinned (pins A) x = decide (x ∈ A) := rfl

theorem victim_of_honours {evict : σ → Option σ} {queue : σ → Fifo μ} {A : Finset ObjId} {s : σ}
    (h : Pin.Honours (pins A) (fun s x => x ∈ (queue s).q) evict s) (hfree : ∃ x ∈ (queue s).q, x ∉ A) :
    ∃ s' v, evict s = some s' ∧ v ∈ (queue s).q ∧ v ∉ A ∧ ∀ x, x ∈ (queue s').q ↔ x ≠ v ∧ x ∈ (queue s).q := by
  obtain ⟨s', v, hevict, hv, hleft, hpin⟩ := h
  refine ⟨s', v, hevict, hv, ?_, hleft⟩
  obtain ⟨x, hx, hxA⟩ := hfree
  have := hpin ⟨x, hx, by simp [pins_is_pinned, hxA]⟩
  simpa [pins_is_pinned] using this

theorem lru_queued (K : Int) :
    Queued (fun pin => { (Lru.ops : CacheOps (Lru Unit)) with evict := fun c _ => Lru.LRU_evict_pinned pin c }) id K
      (Blocks K) fun _ _ _ => True where
  blocks _ h := h
  can_insert _ _ := rfl
  occupied _ := rfl
  obj_md_size _ := rfl
  cache_size _ := rfl
  hit := by
    intro c req h hin
    obtain ⟨o, ho⟩ := Table.exists_lookup hin
    have hfind := Lru.LRU_find_hit (c := { c with n_req := c.n_req + 1 }) ho
    refine ⟨_, by simp [Lru.ops, hfind], h.count_req.move ho o.md, fun x => ?_⟩
    rw [← lookup_isSome, ← lookup_isSome]
    exact iff_of_eq (congrArg (Option.isSome · = true) (Lru.lookup_move_to_head ho x))
  miss := by
    intro c req h hout
    have hfind := Lru.LRU_find_miss (c := { c with n_req := c.n_req + 1 }) (lookup_eq_none.2 hout) true
    exact ⟨_, by simp [Lru.ops, hfind], h.count_req, rfl⟩
  insert := by
    intro c req h hout hsize
    exact ⟨_, rfl, h.insert _ hout hsize, fun x => mem_insert _⟩
  evict := by
    intro A n c req h _ hfree
    have hne : c.q.keys ≠ [] := by
      obtain ⟨x, hx, -⟩ := hfree
      exact ne_nil_of_mem (AList.mem_keys.1 hx)
    have hhonours : Pin.Honours (pins A) (fun c x => x ∈ (id c : Fifo Unit).q) (Fifo.FIFO_evict_pinned (pins A)) c :=
      Fifo.FIFO_evict_honours (pins A) hne
    obtain ⟨c', v, hevict, hv, hvA, hleft⟩ := victim_of_honours hhonours hfree
    exact ⟨c', v, hevict, h.evict_pinned hevict, hv, hvA, hleft, trivial⟩

theorem fifo_queued (K : Int) :
    Queued (fun pin => { (Fifo.ops : CacheOps (Fifo Unit)) with evict := fun c _ => Fifo.FIFO_evict_pinned pin c }) id K
      (Blocks K) fun _ _ _ => True where
  blocks _ h := h
  can_insert _ _ := rfl
  occupied _ := rfl
  obj_md_size _ := rfl
  cache_size _ := rfl
  hit := by
    intro c req h hin
    exact ⟨{ c with n_req := c.n_req + 1 }, congrArg (fun b => some (_, b)) (lookup_isSome.2 hin), h.count_req,
      fun _ => .rfl⟩
  miss := by
    intro c req h hout
    have hnone : c.q.lookup req.obj_id = none := lookup_eq_none.2 hout
    exact ⟨{ c with n_req := c.n_req + 1 }, congrArg (fun o => some (_, Option.isSome o)) hnone, h.count_req, rfl⟩
  insert := (lru_queued K).insert
  evict := (lru_queued K).evict

theorem clock_queued (K : Int) : Queued Clock.ops Clock.State.fifo K (fun s => Blocks K s.fifo) fun _ _ _ => True where
  blocks _ h := h
  can_insert _ _ := rfl
  occupied _ := rfl
  obj_md_size _ := rfl
  cache_size _ := rfl
  hit := by
    intro s req h hin
    obtain ⟨o, ho⟩ := Table.exists_lookup hin
    by_cases hless : o.md < s.max_freq
    · refine ⟨{ s with fifo := { s.fifo with n_req := s.fifo.n_req + 1 }.set_md req.obj_id o (o.md + 1) },
        by simp [Clock.ops, Clock.Clock_find, ho, hless], h.count_req.set_md ho _, fun x => ?_⟩
      rw [AList.mem_keys, AList.mem_keys]
      exact iff_of_eq (congrArg (x ∈ ·) (keys_replace _ _ _))
    · exact ⟨{ s with fifo := { s.fifo with n_req := s.fifo.n_req + 1 } },
        by simp [Clock.ops, Clock.Clock_find, ho, hless], h.count_req, fun _ => .rfl⟩
  miss := by
    intro s req h hout
    exact ⟨{ s with fifo := { s.fifo with n_req := s.fifo.n_req + 1 } },
      by simp [Clock.ops, Clock.Clock_find, lookup_eq_none.2 hout], h.count_req, rfl⟩
  insert := by
    intro s req h hout hsize
    exact ⟨_, rfl, h.insert _ hout hsize, fun x => mem_insert _⟩
  evict := by
    intro A n s req h _ hfree
    have hne : s.fifo.q.keys ≠ [] := by
      obtain ⟨x, hx, -⟩ := hfree
      exact ne_nil_of_mem (AList.mem_keys.1 hx)
    obtain ⟨s', v, hevict, hv, hvA, hleft⟩ := victim_of_honours (Clock.Clock_evict_honours (pins A) hne) hfree
    exact ⟨s', v, hevict, h.clock_evict hevict, hv, hvA, hleft, trivial⟩

theorem move_q {w w' : Sieve.Hand} (h : w.move = some w') : w'.q = w.q := by
  obtain ⟨x, -, h⟩ := bind_eq_some_iff.1 h
  cases h
  rfl

theorem blocks_sieve_evict {K : Int} {s s' : Sieve.State} {pin : Pin} (h : Blocks K s.fifo) (hs' : s'.fifo.Inv)
    (hev : Sieve.Sieve_evict pin s = some s') : Blocks K s'.fifo := by
  let I : Sieve.Hand → Prop := fun w => ∀ x o, w.q.lookup x = some o → o.obj_size = 1
  obtain ⟨x, -, hev⟩ := bind_eq_some_iff.1 hev
  obtain ⟨w, hwalk, hev⟩ := bind_eq_some_iff.1 hev
  obtain ⟨o, ho, hev⟩ := bind_eq_some_iff.1 hev
  cases hev
  obtain ⟨hw, -⟩ := whileLoop_inv I (by
    intro w w' hw _ hstep
    obtain ⟨o, ho, hstep⟩ := bind_eq_some_iff.1 hstep
    dsimp only at hstep
    intro y o' hy
    split_ifs at hstep
    · cases hstep
      exact hw y o' hy
    · exact hw y o' ((congrArg (AList.lookup y) (move_q hstep)).symm.trans hy)
    · have hy' := (congrArg (AList.lookup y) (move_q hstep)).symm.trans hy
      rcases eq_or_ne y w.obj with rfl | hne
      · cases (Table.lookup_replace ho _).symm.trans hy'
        exact hw _ o ho
      · exact hw y o' ((Table.lookup_replace_ne ho _ hne).symm.trans hy')
    · cases hstep
      exact hw y o' hy) _ _ _ h.unit hwalk
  refine ⟨hs', h.size, h.md, fun y o' hy => ?_⟩
  rcases eq_or_ne y w.obj with rfl | hne
  · exact absurd ((lookup_erase _ w.q).symm.trans hy) (by simp)
  · exact hw y o' ((lookup_erase_ne hne).symm.trans hy)

theorem sieve_queued (K : Int) : Queued Sieve.ops Sieve.State.fifo K (fun s => Sieve.Inv s ∧ Blocks K s.fifo)
    fun A n s => Item.Lasts n (Sieve.items (pins A) s) where
  blocks _ h := h.2
  can_insert _ _ := rfl
  occupied _ := rfl
  obj_md_size _ := rfl
  cache_size _ := rfl
  hit := by
    rintro s req ⟨h, hb⟩ hin
    obtain ⟨o, ho⟩ := Table.exists_lookup hin
    have hcount : Sieve.Inv { s with fifo := { s.fifo with n_req := s.fifo.n_req + 1 } } :=
      { h with fifo := ⟨h.fifo.occupied, h.fifo.n_obj⟩ }
    refine ⟨{ s with fifo := { s.fifo with n_req := s.fifo.n_req + 1 }.set_md req.obj_id o 1 },
      by simp [Sieve.ops, Sieve.Sieve_find, ho], ⟨hcount.find ho, hb.count_req.set_md ho 1⟩, fun x => ?_⟩
    rw [AList.mem_keys, AList.mem_keys]
    exact iff_of_eq (congrArg (x ∈ ·) (keys_replace _ _ _))
  miss := by
    rintro s req ⟨h, hb⟩ hout
    exact ⟨{ s with fifo := { s.fifo with n_req := s.fifo.n_req + 1 } },
      by simp [Sieve.ops, Sieve.Sieve_find, lookup_eq_none.2 hout],
      ⟨{ h with fifo := ⟨h.fifo.occupied, h.fifo.n_obj⟩ }, hb.count_req⟩, rfl⟩
  insert := by
    rintro s req ⟨h, hb⟩ hout hsize
    exact ⟨_, rfl, ⟨h.insert hout, hb.insert _ hout hsize⟩, fun x => mem_insert _⟩
  evict := by
    rintro A n s req ⟨h, hb⟩ ⟨hafford, hlasts⟩ ⟨x, hx, hxA⟩
    obtain ⟨s', v, hevict, hs', hv, hpin, hkeys, hitems⟩ := Sieve.Sieve_evict_sweeps h
      ⟨x, AList.mem_keys.1 hx, by simp [pins_is_pinned, hxA]⟩ hafford
    refine ⟨s', v, hevict, ⟨hs', blocks_sieve_evict hb hs'.fifo hevict⟩, hv, by simpa [pins_is_pinned] using hpin, fun y => ?_,
      hitems ▸ hlasts⟩
    rw [AList.mem_keys, hkeys, s.fifo.q.keys_nodup.mem_erase_iff, AList.mem_keys]

theorem unpinned_items {s : Sieve.State} (h : Sieve.Inv s) (A : Finset ObjId) :
    (Sieve.items (pins A) s).count .unread + (Sieve.items (pins A) s).count .read =
      (s.fifo.q.keys.toFinset \ A).card := by
  have hlen := Item.length_eq (Sieve.items (pins A) s)
  have hpinned : (Sieve.items (pins A) s).count .pinned = (s.fifo.q.keys.toFinset ∩ A).card := by
    have hcount : (Sieve.items (pins A) s).count .pinned = s.fifo.q.keys.countP (· ∈ A) := by
      unfold Sieve.items
      rw [count_eq_countP, countP_map, ← (Sieve.hand_perm h).countP_eq]
      apply countP_congr
      intro y _
      simpa [pins_is_pinned] using @Sieve.item_eq_pinned (pins A) y s.fifo.q
    rw [hcount, countP_eq_length_filter, length_filter_eq_card s.fifo.q.keys_nodup (· ∈ A), Finset.filter_mem_eq_inter]
  have hitems : (Sieve.items (pins A) s).length = s.fifo.q.keys.toFinset.card := by
    unfold Sieve.items
    rw [length_map, (Sieve.hand_perm h).length_eq, toFinset_card_of_nodup s.fifo.q.keys_nodup]
  have hsplit := card_split (A := A) (E := s.fifo.q.keys.toFinset)
  omega

def HandLasts (config : SimulatorConfig) (s : Sieve.State) (request : BlockRequest) : Prop :=
  Item.Fits (lacking config request s.fifo.q.keys.toFinset) (Sieve.items (pins request.alpha) s)

/-- After any requests, the next one loses none of its own blocks, and as many others as it lacks room
for. Under Sieve, in every run in which the hand lasts for each request. -/
theorem pinned_requests_spared (config : SimulatorConfig) (hpin : config.pin_request_blocks = true) :
    SparesRequests lru config (fun c => c.q.keys.toFinset) (fun _ _ => True)
      { cache := { cache_size := config.cache_size_blocks } } ∧
    SparesRequests fifo_queue config (fun c => c.q.keys.toFinset) (fun _ _ => True)
      { cache := { cache_size := config.cache_size_blocks } } ∧
    (∀ (init_freq : Int) (n_bit_counter : Nat),
      SparesRequests clock config (fun s => s.fifo.q.keys.toFinset) (fun _ _ => True)
        { cache := Clock.Clock_init config.cache_size_blocks init_freq n_bit_counter }) ∧
    SparesRequests sieve config (fun s => s.fifo.q.keys.toFinset) (HandLasts config)
      { cache := Sieve.Sieve_init config.cache_size_blocks false } := by
  refine ⟨?_, ?_, fun init_freq n_bit_counter => ?_, ?_⟩
  · exact (lru_queued _).contract.spares hpin (fun _ _ _ _ _ => trivial) (Blocks.init _)
  · exact (fifo_queued _).contract.spares hpin (fun _ _ _ _ _ => trivial) (Blocks.init _)
  · exact (clock_queued _).contract.spares hpin (fun _ _ _ _ _ => trivial) (Blocks.init _)
  · refine (sieve_queued _).contract.spares hpin ?_ ⟨Sieve.init_inv _ _, Blocks.init _⟩
    rintro s request ⟨hs, -⟩ hskip hfits
    refine (Item.lasts_iff _ _ ?_).2 hfits
    -- what is lacking is not more than what is not pinned
    have hA : (request.alpha.card : Int) ≤ config.cache_size_blocks := by
      unfold skips at hskip
      simpa using hskip
    rw [unpinned_items hs]
    unfold lacking deficit
    omega

theorem pinned_requests_spared_full : ∃ s s',
    runs (serve_ok sieve { cache_size_blocks := 3 }) { cache := Sieve.Sieve_init 3 false } [{ blocks := [1, 2, 3] }] = some s ∧
      serve sieve { cache_size_blocks := 3 } s { blocks := [1, 4] } = some (s', .ok ()) ∧
      Spared sieve { cache_size_blocks := 3 } (fun s => s.fifo.q.keys.toFinset) { blocks := [1, 4] } s s' := by
  have hcost : ∀ r, CostsFit { cache_size_blocks := 3 } r := by
    intro r i _
    show (1 : Int) ≤ INT32_MAX
    decide
  obtain ⟨s, hs, hlasts⟩ : ∃ s, serve_ok sieve { cache_size_blocks := 3 } { cache := Sieve.Sieve_init 3 false } { blocks := [1, 2, 3] } = some s ∧
      lacking { cache_size_blocks := 3 } { blocks := [1, 4] } s.cache.fifo.q.keys.toFinset ≤
        (Sieve.items (pins {1, 4}) s.cache).count .unread := by decide +kernel
  have hnone : lacking { cache_size_blocks := 3 } { blocks := [1, 2, 3] } ∅ = 0 := by decide
  obtain ⟨-, -, -, hsieve⟩ := pinned_requests_spared { cache_size_blocks := 3 } rfl
  obtain ⟨-, hnext⟩ := hsieve s (.step _ .refl (fun _ => ⟨hcost _, .inl (hnone.trans_le (Nat.zero_le _))⟩) hs)
  obtain ⟨s', hserve, hspared⟩ := (hnext { blocks := [1, 4] }).2 (by decide) (hcost _) (.inl hlasts)
  refine ⟨s, s', ?_, hserve, hspared⟩
  rw [runs_cons, hs]
  rfl

/-- Blocks 1 to 3 fill the cache and 1 is read. A request for 2, 3 and 4 lacks room for one. The hand
passes 3, 2, 1 and 3 again, and its budget ends at 2, which is evicted before 1 is. -/
theorem sieve_evicts_requested : ∃ s s',
    runs (serve_ok sieve { cache_size_blocks := 3 }) { cache := Sieve.Sieve_init 3 false }
      [{ blocks := [1, 2, 3] }, { blocks := [1] }] = some s ∧ s.stats.n_evictions = 0 ∧
    serve_ok sieve { cache_size_blocks := 3 } s { blocks := [2, 3, 4] } = some s' ∧
      s.cache.fifo.q.keys.toFinset = {1, 2, 3} ∧ s'.stats.n_self_evictions = 1 ∧ s'.stats.n_evictions = 2 := by
  simp only [exists_and_left]
  decide +kernel

end CacheSim.Prefixsim
