import CacheSim.Mq.Queues

/-!
# The runs of MQ

Next to the cache stands a history of the frequencies with which objects were evicted, which `Qout` recalls in part.
-/

namespace CacheSim.Mq

open Lib List Option AList Table CacheOps Function

variable {s t : State} {req : Request} {id x : ObjId} {obj : Obj}

structure Inv (s : State) : Prop where
  queues : Queues s
  vtime : 0 ≤ s.vtime
  occupied : s.occupied_byte = s.hashtable.weigh fun _ obj => charge s obj
  n_obj : s.n_obj = s.hashtable.entries.length
  Qout : s.Qout.Inv
  /-- no resident object is in `Qout` -/
  out : ∀ x ∈ s.Qout.q, x ∉ s.hashtable

def params (s : State) : Nat × Int × Int × Int := (s.n_queues, s.lifetime, s.cache_size, s.obj_md_size)

theorem Inv.relinks (h : Inv s) (hr : Relinks s t) (hvtime : 0 ≤ t.vtime) : Inv t := by
  have hocc : t.occupied_byte = s.occupied_byte := (congrArg State.occupied_byte hr.frame_eq :)
  have hn : t.n_obj = s.n_obj := (congrArg State.n_obj hr.frame_eq :)
  have hQ : t.Qout = s.Qout := (congrArg State.Qout hr.frame_eq :)
  refine ⟨hr.queues, hvtime, ?_, ?_, hQ ▸ h.Qout, fun x hx hmem => ?_⟩
  · rw [hocc, h.occupied, hr.charge_eq, hr.weigh]
  · rw [hn, h.n_obj, hr.length]
  · exact h.out x (hQ ▸ hx) ((hr.mem x).1 hmem)

/-! ## Lookups and insertions -/

theorem MQ_find_hit (h : Inv s) (ho : s.hashtable.lookup req.obj_id = some obj) :
    ∃ t, MQ_find s req = some (t, true) ∧ Inv t ∧ frame t = frame s ∧ t.vtime = s.vtime + 1 := by
  have hvtime := h.vtime
  have hrelinks := relink_spec (k := MQ_queue_num s (next_freq obj.freq)) h.queues ho
    { obj with freq := next_freq obj.freq, expire_time := s.vtime + s.lifetime } hvtime rfl rfl le_rfl
  obtain ⟨t, hadjust, hadjusts, ht⟩ := MQ_adjust_spec hrelinks.queues hvtime
  refine ⟨t, ?_, h.relinks (hrelinks.trans hadjusts.toRelinks) ?_, hadjusts.frame_eq.trans hrelinks.frame_eq, ht⟩
  · unfold MQ_find
    rw [ho]
    exact congrArg (Option.bind · fun s => some (s, true)) hadjust
  · rw [ht]
    exact Int.add_nonneg hvtime Int.one_nonneg

theorem Inv.forget (h : Inv s) (id : ObjId) : Inv { s with Qout := (s.Qout.FIFO_remove id).1 } := by
  obtain ⟨hinv, hmem⟩ := Fifo.FIFO_remove_spec h.Qout id
  exact ⟨h.queues.beside _ _ _ _ _ _ _, h.vtime, h.occupied, h.n_obj, hinv, fun x hx => h.out x ((hmem x).1 hx).2⟩

theorem MQ_find_miss (hmiss : s.hashtable.lookup req.obj_id = none) : ∃ hit freq ghost_obj_id,
    MQ_find s req = some ({ s with
      hit_on_ghost := hit, ghost_freq := freq, ghost_obj_id := ghost_obj_id, Qout := (s.Qout.FIFO_remove req.obj_id).1 }, false) ∧
    ∀ g, s.Qout.q.lookup req.obj_id = some g → hit = true ∧ freq = g.md ∧ ghost_obj_id = req.obj_id := by
  unfold MQ_find
  rw [hmiss]
  rcases hghost : s.Qout.q.lookup req.obj_id with _ | g
  · have hsame : (s.Qout.FIFO_remove req.obj_id).1 = s.Qout := by
      unfold Fifo.FIFO_remove
      rw [hghost]
    refine ⟨false, 0, 0, ?_, nofun⟩
    dsimp only
    rw [hghost, hsame]
  · refine ⟨true, g.md, req.obj_id, ?_, fun g' hg' => ?_⟩
    · dsimp only
      rw [hghost]
    · cases hg'
      exact ⟨rfl, rfl, rfl⟩

theorem MQ_insert_spec (h : Inv s) (hmiss : s.hashtable.lookup req.obj_id = none) (hforgotten : req.obj_id ∉ s.Qout.q) :
    ∃ t, MQ_insert s req = some t ∧ Inv t ∧ params t = params s ∧ t.vtime = s.vtime + 1 ∧ t.Qout = s.Qout ∧
      (t.hashtable.lookup req.obj_id).map Obj.freq =
        some (if s.hit_on_ghost && s.ghost_obj_id == req.obj_id then next_freq s.ghost_freq else 1) := by
  set freq := if s.hit_on_ghost && s.ghost_obj_id == req.obj_id then next_freq s.ghost_freq else 1 with hfreq
  let u : State := { s with
    occupied_byte := s.occupied_byte + (req.obj_size + s.obj_md_size)
    n_obj := s.n_obj + 1
    hit_on_ghost := false, ghost_freq := 0, ghost_obj_id := 0 }
  let o : Obj := { obj_size := req.obj_size, freq := freq, expire_time := s.vtime + s.lifetime }
  let linked : State := MQ_queue_link u req.obj_id o (MQ_queue_num u freq)
  have hu : Queues u := h.queues.beside _ _ _ _ _ _ _
  have hnew := lookup_eq_none.1 hmiss
  have hlinked : Inv linked := by
    have hwrites : ∀ o', some { o with queue_id := MQ_queue_num u freq } = some o' →
        o'.queue_id ≤ MQ_queue_num u o'.freq ∧ o'.expire_time = u.vtime + u.lifetime ∧ 0 ≤ u.vtime := by
      rintro _ ⟨⟩
      exact ⟨le_rfl, rfl, h.vtime⟩
    refine ⟨hu.writes (link_writes hu hmiss o _) hwrites, h.vtime, ?_, ?_, h.Qout, ?_⟩
    · show s.occupied_byte + charge s o = Table.weigh (fun _ obj => charge s obj) (s.hashtable.insert req.obj_id _)
      rw [weigh_insert_of_notMem _ _ hnew, h.occupied, Int.add_comm]
      rfl
    · show s.n_obj + 1 = ((s.hashtable.insert req.obj_id _).entries.length : Int)
      rw [entries_insert_of_notMem hnew, h.n_obj]
      simp
    · intro x hx hmem
      rcases (mem_insert _).1 hmem with rfl | hmem
      · exact hforgotten hx
      · exact h.out x hx hmem
  obtain ⟨t, hadjust, hadjusts, ht⟩ := MQ_adjust_spec hlinked.queues h.vtime
  refine ⟨t, hadjust, hlinked.relinks hadjusts.toRelinks ?_, (congrArg params hadjusts.frame_eq :), ht,
    (congrArg State.Qout hadjusts.frame_eq :), ?_⟩
  · rw [ht]
    exact Int.add_nonneg h.vtime Int.one_nonneg
  · rw [hadjusts.freq]
    show ((s.hashtable.insert req.obj_id _).lookup req.obj_id).map Obj.freq = _
    rw [lookup_insert]
    rfl

theorem MQ_to_evict_spec (h : Queues s) (hne : s.hashtable.entries ≠ []) :
    ∃ id obj, MQ_to_evict s = some id ∧ s.hashtable.lookup id = some obj := by
  obtain ⟨e, he⟩ := exists_mem_of_ne_nil _ hne
  have hlook := lookup_of_mem_entries he
  have hmem : e.1 ∈ s.queues e.2.queue_id := h.mem_iff.2 ⟨e.2, hlook, rfl⟩
  have hsome : (MQ_to_evict s).isSome = true := by
    unfold MQ_to_evict
    rw [findSome?_isSome_iff]
    exact ⟨e.2.queue_id, mem_range.2 (h.lt_n_queues hlook), by simpa using ne_nil_of_mem hmem⟩
  obtain ⟨id, hid⟩ := isSome_iff_exists.1 hsome
  obtain ⟨k, -, hlast⟩ := exists_of_findSome?_eq_some hid
  obtain ⟨obj, ho, -⟩ := h.mem_iff.1 (mem_of_getLast? hlast)
  exact ⟨id, obj, hid, ho⟩

variable {Qout : Fifo Nat}

theorem Inv.lose (h : Inv s) (ho : s.hashtable.lookup id = some obj) (hQ : Qout.Inv)
    (hout : ∀ x ∈ Qout.q, x = id ∨ x ∉ s.hashtable) :
    Inv (cache_remove_obj_base (MQ_queue_unlink { s with Qout := Qout } id obj) id obj) := by
  have hleft := h.queues.writes (unlink_writes h.queues ho) nofun
  refine ⟨hleft.beside _ _ _ _ _ _ _, h.vtime, ?_, ?_, hQ, ?_⟩
  · show s.occupied_byte - charge s obj = Table.weigh (fun _ obj => charge s obj) (s.hashtable.erase id)
    rw [weigh_erase _ ho, h.occupied]
  · have hlen := (perm_erase ho).length_eq
    rw [length_cons] at hlen
    show s.n_obj - 1 = ((s.hashtable.erase id).entries.length : Int)
    rw [h.n_obj, hlen]
    omega
  · intro x hx hmem
    obtain ⟨hne, hmem⟩ := mem_erase.1 hmem
    exact (hout x hx).elim hne fun hx => hx hmem

theorem MQ_remove_inv (h : Inv s) (id : ObjId) : Inv (MQ_remove s id).1 := by
  have hforget := h.forget id
  unfold MQ_remove
  dsimp only
  split
  · exact hforget
  · rename_i obj ho
    exact hforget.lose ho hforget.Qout fun x hx => .inr (hforget.out x hx)

/-! ## The history of the evictions -/

abbrev History := ObjId → Option Nat

def note (s : State) (evicted : History) : History :=
  match MQ_to_evict s with
  | none => evicted
  | some id => update evicted id ((s.hashtable.lookup id).map Obj.freq)

def Recalls (Qout : Fifo Nat) (evicted : History) : Prop := ∀ x g, Qout.q.lookup x = some g → evicted x = some g.md

variable {evicted : History}

theorem Recalls.remove (h : Recalls Qout evicted) (id : ObjId) : Recalls (Qout.FIFO_remove id).1 evicted := by
  intro x g hx
  rw [Fifo.lookup_FIFO_remove] at hx
  split_ifs at hx
  exact h x g hx

def write_freq (Qout : Fifo Nat) (id : ObjId) (freq : Nat) : Fifo Nat :=
  match Qout.q.lookup id with
  | none => Qout
  | some ghost_obj => Qout.set_md id ghost_obj freq

theorem write_freq_spec (hQ : Qout.Inv) (h : Recalls Qout evicted) (req : Request) (freq : Nat) :
    ∃ Qout' hit, Qout.FIFO_get req = some (Qout', hit) ∧ (write_freq Qout' req.obj_id freq).Inv ∧
      Recalls (write_freq Qout' req.obj_id freq) (update evicted req.obj_id (some freq)) ∧
      ∀ x ∈ (write_freq Qout' req.obj_id freq).q, x = req.obj_id ∨ x ∈ Qout.q := by
  obtain ⟨Qout', hit, hget, hinv, hmem⟩ := Fifo.FIFO_get_spec hQ req
  have hold : ∀ {x g}, x ≠ req.obj_id → Qout'.q.lookup x = some g →
      update evicted req.obj_id (some freq) x = some g.md := by
    intro x g hx hg
    rw [update_of_ne hx]
    exact h x g (Fifo.FIFO_get_lookup hget hx hg)
  refine ⟨Qout', hit, hget, ?_⟩
  unfold write_freq
  rcases hghost : Qout'.q.lookup req.obj_id with _ | ghost_obj
  · refine ⟨hinv, fun x g hg => hold ?_ hg, hmem⟩
    rintro rfl
    cases hghost.symm.trans hg
  · refine ⟨hinv.set_md hghost freq, fun x g hg => ?_, fun x hx => hmem x (mem_replace.1 hx)⟩
    rw [Fifo.lookup_set_md hghost] at hg
    split_ifs at hg with hx
    · cases hg
      rw [hx, update_self]
    · exact hold hx hg

theorem MQ_evict_spec (h : Inv s) (hr : Recalls s.Qout evicted) (hne : s.hashtable.entries ≠ []) : ∃ id obj Qout,
    MQ_to_evict s = some id ∧ s.hashtable.lookup id = some obj ∧
    MQ_evict s = some (cache_remove_obj_base (MQ_queue_unlink { s with Qout := Qout } id obj) id obj) ∧
    Inv (cache_remove_obj_base (MQ_queue_unlink { s with Qout := Qout } id obj) id obj) ∧
    Recalls Qout (note s evicted) ∧ ∀ x ∈ Qout.q, x = id ∨ x ∈ s.Qout.q := by
  obtain ⟨id, obj, hid, ho⟩ := MQ_to_evict_spec h.queues hne
  obtain ⟨Qout', hit, hget, hinv, hrecalls, hmem⟩ := write_freq_spec h.Qout hr { obj_id := id, obj_size := obj.obj_size } obj.freq
  refine ⟨id, obj, _, hid, ho, ?_, h.lose ho hinv ?_, ?_, hmem⟩
  · unfold MQ_evict
    rw [hid, bind_eq_bind, bind_some, ho, bind_eq_bind, bind_some, hget]
    rfl
  · exact fun x hx => (hmem x hx).imp_right fun hx => h.out x hx
  · unfold note
    rw [hid]
    dsimp only
    rw [ho]
    exact hrecalls

/-! ## The gets -/

variable {allows : Int → Request → Bool}

def MQ_get_noted (allows : Int → Request → Bool) (p : State × History) (req : Request) : Option ((State × History) × Bool) :=
  ((ops allows).observed note).cache_get_base (fun p => p.1.hashtable.entries.length) p req

def Admits (allows : Int → Request → Bool) (s : State) (req : Request) : Prop :=
  allows (s.n_req + 1) req = true ∧ req.obj_size + s.obj_md_size ≤ s.cache_size

structure Misses (s : State) (req : Request) (p : State × History) : Prop where
  inv : Inv p.1
  recalls : Recalls p.1.Qout p.2
  gone : req.obj_id ∉ p.1.hashtable
  forgotten : req.obj_id ∉ p.1.Qout.q
  params_eq : params p.1 = params s
  n_req : p.1.n_req = s.n_req + 1
  vtime : p.1.vtime = s.vtime
  ghost : ∀ g, s.Qout.q.lookup req.obj_id = some g →
    p.1.hit_on_ghost = true ∧ p.1.ghost_freq = g.md ∧ p.1.ghost_obj_id = req.obj_id

structure Serves (allows : Int → Request → Bool) (s : State) (req : Request) (p : State × History) : Prop where
  inv : Inv p.1
  recalls : Recalls p.1.Qout p.2
  params_eq : params p.1 = params s
  vtime : p.1.vtime ≤ s.vtime + 1
  returned : ∀ g, s.Qout.q.lookup req.obj_id = some g → Admits allows s req →
    (p.1.hashtable.lookup req.obj_id).map Obj.freq = some (next_freq g.md)

theorem MQ_get_spec (h : Inv s) (hr : Recalls s.Qout evicted) (req : Request) :
    ∃ p hit, MQ_get_noted allows (s, evicted) req = some (p, hit) ∧ Serves allows s req p := by
  have hcount : Inv { s with n_req := s.n_req + 1 } :=
    { h with queues := h.queues.beside _ _ _ _ _ _ _ }
  apply cache_get_base_total (fun p => p = (s, evicted)) (Misses s req)
    (fun p => Misses s req p ∧ Admits allows s req) (Serves allows s req) (fun p => p.1.hashtable.entries.length)
    (fun _ _ => le_rfl) ?_ ?_ ?_ ?_ rfl
  · rintro _ rfl
    rcases ho : s.hashtable.lookup req.obj_id with _ | obj
    · obtain ⟨hit, freq, ghost_obj_id, hfind, hghost⟩ := MQ_find_miss (s := { s with n_req := s.n_req + 1 }) ho
      have hforget := hcount.forget req.obj_id
      refine ⟨_, false, congrArg (Option.map _) hfind, ⟨?_, hr.remove _, lookup_eq_none.1 ho, ?_, rfl, rfl, rfl, hghost⟩⟩
      · exact ⟨hforget.queues.beside _ _ _ _ _ _ _, h.vtime, h.occupied, h.n_obj, hforget.Qout, hforget.out⟩
      · exact fun hmem => (((Fifo.FIFO_remove_spec h.Qout _).2 _).1 hmem).1 rfl
    · obtain ⟨t, hfind, ht, hframe, hvtime⟩ := MQ_find_hit hcount ho
      have hQ : t.Qout = s.Qout := (congrArg State.Qout hframe :)
      refine ⟨_, true, congrArg (Option.map _) hfind,
        ⟨ht, hQ ▸ hr, (congrArg params hframe :), hvtime.le, fun g hg => ?_⟩⟩
      exact absurd (mem_of_lookup ho) (h.out _ (mem_of_lookup hg))
  · intro p hp
    have hcs : p.1.cache_size = s.cache_size := (congrArg (·.2.2.1) hp.params_eq :)
    have hmd : p.1.obj_md_size = s.obj_md_size := (congrArg (·.2.2.2) hp.params_eq :)
    refine ⟨p, _, rfl, ?_⟩
    rw [hp.n_req, hcs, hmd]
    split_ifs with hadmitted
    · exact ⟨hp, by simpa [Admits] using hadmitted⟩
    · have hrejected : ¬ Admits allows s req := by simpa [Admits] using hadmitted
      exact { hp with vtime := hp.vtime ▸ (by omega), returned := fun g _ hadmits => absurd hadmits hrejected }
  · rintro p ⟨hp, hadmits⟩ hfull
    have hcs : p.1.cache_size = s.cache_size := (congrArg (·.2.2.1) hp.params_eq :)
    have hmd : p.1.obj_md_size = s.obj_md_size := (congrArg (·.2.2.2) hp.params_eq :)
    have hne : p.1.hashtable.entries ≠ [] := by
      intro hnil
      have hocc : p.1.occupied_byte = 0 := by
        rw [hp.inv.occupied, Table.weigh, hnil]
        rfl
      have hlt : p.1.cache_size < p.1.occupied_byte + req.obj_size + p.1.obj_md_size := (full_for_iff _ _ _).1 hfull
      have hfits := hadmits.2
      omega
    obtain ⟨id, obj, Qout, -, ho, hevict, hinv, hrecalls, hmem⟩ := MQ_evict_spec hp.inv hp.recalls hne
    refine ⟨_, congrArg (Option.map _) hevict, ⟨⟨hinv, hrecalls, ?_, ?_, hp.params_eq, hp.n_req, hp.vtime, hp.ghost⟩, hadmits⟩, ?_⟩
    · exact fun hx => hp.gone (mem_erase.1 hx).2
    · intro hx
      rcases hmem _ hx with heq | hx
      · exact hp.gone (heq ▸ mem_of_lookup ho)
      · exact hp.forgotten hx
    · have hlen := (perm_erase ho).length_eq
      rw [length_cons] at hlen
      show (p.1.hashtable.erase id).entries.length < _
      omega
  · rintro p ⟨hp, hadmits⟩ -
    obtain ⟨t, hinsert, ht, hparams, hvtime, hQ, hfreq⟩ := MQ_insert_spec hp.inv (lookup_eq_none.2 hp.gone) hp.forgotten
    refine ⟨_, congrArg (Option.map _) hinsert, ⟨ht, hQ ▸ hp.recalls, hparams.trans hp.params_eq, ?_, fun g hg _ => ?_⟩⟩
    · rw [hvtime, hp.vtime]
    · obtain ⟨hhit, hghost, hghost_id⟩ := hp.ghost g hg
      rw [hfreq, hhit, hghost, hghost_id]
      simp

/-! ## The runs -/

def noted_call (allows : Int → Request → Bool) (p : State × History) : Call → Option (State × History)
  | .get req => (MQ_get_noted allows p req).map (·.1)
  | .remove id => some ((MQ_remove p.1 id).1, p.2)

theorem MQ_get_noted_rel (p : State × History) (req : Request) :
    Option.Rel (fun q r => q.1.1 = r.1 ∧ q.2 = r.2) (MQ_get_noted allows p req) (MQ_get allows p.1 req) :=
  @observed_get State (ops allows) (fun s => s.hashtable.entries.length) req History note p

theorem noted_call_rel (p : State × History) (s : State) (c : Call) (h : p.1 = s) :
    Option.Rel (fun q t => q.1 = t) (noted_call allows p c) (call allows s c) := by
  subst h
  cases c with
  | get req => exact map_rel (MQ_get_noted_rel p req) fun _ _ hrel => hrel.1
  | remove id => exact .some rfl

structure Recalled (s : State) (p : State × History) (n : Nat) : Prop where
  inv : Inv p.1
  recalls : Recalls p.1.Qout p.2
  params_eq : params p.1 = params s
  vtime : p.1.vtime ≤ s.vtime + n

variable {p : State × History}

theorem noted_call_spec {n : Nat} (h : Recalled s p n) (c : Call) :
    ∃ q, noted_call allows p c = some q ∧ Recalled s q (n + 1) := by
  have hvtime := h.vtime
  cases c with
  | get req =>
    obtain ⟨q, hit, hget, hq⟩ := MQ_get_spec h.inv h.recalls req
    refine ⟨q, congrArg (Option.map _) hget, hq.inv, hq.recalls, hq.params_eq.trans h.params_eq, ?_⟩
    have hle := hq.vtime
    omega
  | remove id =>
    have hfields : (MQ_remove p.1 id).1.Qout = (p.1.Qout.FIFO_remove id).1 ∧ params (MQ_remove p.1 id).1 = params p.1 ∧
        (MQ_remove p.1 id).1.vtime = p.1.vtime := by
      unfold MQ_remove
      dsimp only
      split <;> exact ⟨rfl, rfl, rfl⟩
    obtain ⟨hQ, hparams, heq⟩ := hfields
    refine ⟨_, rfl, MQ_remove_inv h.inv id, hQ ▸ h.recalls.remove id, hparams.trans h.params_eq, ?_⟩
    dsimp only
    omega

theorem noted_runs (calls : List Call) {n : Nat} (h : Recalled s p n) :
    ∃ q, runs (noted_call allows) p calls = some q ∧ Recalled s q (n + calls.length) := by
  induction calls generalizing p n with
  | nil => exact ⟨p, rfl, h⟩
  | cons c calls ih =>
    obtain ⟨q, hcall, hq⟩ := noted_call_spec h c
    obtain ⟨r, hrun, hr⟩ := ih hq
    refine ⟨r, ?_, ?_⟩
    · rw [runs_cons, hcall]
      exact hrun
    · rw [length_cons, Nat.add_comm calls.length 1, ← Nat.add_assoc]
      exact hr

theorem init_inv (cache_size : Int) (md : Bool) {n_queues : Nat} (hn : 1 ≤ n_queues) (lifetime Qout_size : Int) :
    Inv (MQ_init cache_size md n_queues lifetime Qout_size) := by
  refine ⟨⟨hn, fun k => ⟨nodup_nil, fun id => ⟨nofun, ?_⟩⟩, fun _ => rfl, fun _ => rfl, nofun, nofun, fun _ => .nil⟩, le_rfl,
    rfl, rfl, Fifo.init_inv _ _, fun _ _ hmem => nomatch hmem⟩
  rintro ⟨obj, ho, -⟩
  cases ho

/-- Every run returns. An object that is requested while `Qout` has it comes back with the frequency it was evicted with, and one more
unless that is `INT32_MAX`. -/
theorem MQ_runs (allows : Int → Request → Bool) (cache_size : Int) (md : Bool) {n_queues : Nat} (hn : 1 ≤ n_queues)
    (lifetime Qout_size : Int) (calls : List Call) :
    ∃ s evicted, runs (noted_call allows) (MQ_init cache_size md n_queues lifetime Qout_size, fun _ => none) calls =
        some (s, evicted) ∧
      runs (call allows) (MQ_init cache_size md n_queues lifetime Qout_size) calls = some s ∧
      Inv s ∧ s.n_queues = n_queues ∧ s.lifetime = lifetime ∧ s.vtime ≤ calls.length ∧
      ∀ req : Request, req.obj_id ∈ s.Qout.q → Admits allows s req → ∃ f t, evicted req.obj_id = some f ∧
        MQ_get allows s req = some (t, false) ∧ (t.hashtable.lookup req.obj_id).map Obj.freq = some (next_freq f) := by
  have hstart : Recalled (MQ_init cache_size md n_queues lifetime Qout_size)
      (MQ_init cache_size md n_queues lifetime Qout_size, fun _ => none) 0 :=
    ⟨init_inv _ _ hn _ _, nofun, rfl, le_rfl⟩
  obtain ⟨⟨s, evicted⟩, hnoted, hs⟩ := noted_runs calls hstart
  have hrel : Option.Rel (fun q t => q.1 = t)
      (runs (noted_call allows) (MQ_init cache_size md n_queues lifetime Qout_size, fun _ => none) calls)
      (runs (call allows) (MQ_init cache_size md n_queues lifetime Qout_size) calls) :=
    runs_rel noted_call_rel calls rfl
  rw [hnoted] at hrel
  obtain ⟨_, hrun, rfl⟩ := rel_some hrel
  refine ⟨s, evicted, hnoted, hrun, hs.inv, (congrArg (·.1) hs.params_eq :), (congrArg (·.2.1) hs.params_eq :), ?_,
    fun req hmem hadmits => ?_⟩
  · have hvtime : s.vtime ≤ (0 : Int) + ((0 + calls.length : Nat) : Int) := hs.vtime
    omega
  · obtain ⟨g, hg⟩ := exists_lookup hmem
    obtain ⟨q, hit, hget, hq⟩ := MQ_get_spec hs.inv hs.recalls req
    have hget' : Option.Rel _ (MQ_get_noted allows (s, evicted) req) (MQ_get allows s req) := MQ_get_noted_rel _ req
    rw [hget] at hget'
    obtain ⟨⟨t, _⟩, ht, heq, rfl⟩ := rel_some hget'
    have hmiss : s.hashtable.lookup req.obj_id = none := lookup_eq_none.2 (hs.inv.out _ hmem)
    obtain ⟨hit_on_ghost, freq, ghost_obj_id, hfound, -⟩ := MQ_find_miss (s := { s with n_req := s.n_req + 1 }) hmiss
    have hfind : (ops allows).find ((ops allows).count_req s) req = some (_, false) := hfound
    cases cache_get_base_miss hfind ht
    have hsame : q.1 = t := heq
    exact ⟨g.md, t, hs.recalls _ g hg, ht, hsame ▸ hq.returned g hg hadmits⟩

theorem MQ_runs_of_return : ∃ s t, Inv s ∧ runs (call fun _ _ => true) (MQ_init 2 false 2 1 4)
      [.get { obj_id := 1 }, .get { obj_id := 1 }, .get { obj_id := 2 }, .get { obj_id := 2 }, .get { obj_id := 3 }] = some s ∧
    MQ_get (fun _ _ => true) s { obj_id := 1 } = some (t, false) ∧ (t.hashtable.lookup 1).map Obj.freq = some 3 := by
  obtain ⟨s, evicted, hnoted, hrun, hs, -, -, -, hreturn⟩ := MQ_runs (fun _ _ => true) 2 false (by decide : 1 ≤ 2) 1 4
    [.get { obj_id := 1 }, .get { obj_id := 1 }, .get { obj_id := 2 }, .get { obj_id := 2 }, .get { obj_id := 3 }]
  have hknown : ((runs (noted_call fun _ _ => true) (MQ_init 2 false 2 1 4, fun _ => none)
      [.get { obj_id := 1 }, .get { obj_id := 1 }, .get { obj_id := 2 }, .get { obj_id := 2 }, .get { obj_id := 3 }]).all fun p =>
        decide (1 ∈ p.1.Qout.q ∧ p.2 1 = some 2 ∧ 1 + p.1.obj_md_size ≤ p.1.cache_size)) = true := by decide +kernel
  rw [hnoted, all_some, decide_eq_true_iff] at hknown
  obtain ⟨hmem, hevicted, hfits⟩ := hknown
  obtain ⟨f, t, hf, hget, hfreq⟩ := hreturn { obj_id := 1 } hmem ⟨rfl, hfits⟩
  cases hevicted.symm.trans hf
  exact ⟨s, t, hs, hrun, hget, hfreq⟩

/-! ## The largest frequency -/

def held (n : Nat) : State where
  cache_size := 1
  obj_md_size := 0
  n_req := n
  occupied_byte := 1
  n_obj := 1
  hashtable := AList.singleton 1 { obj_size := 1, freq := n, expire_time := n, queue_id := 0 }
  queues := update (fun _ => []) 0 [1]
  queue_n_bytes := update (fun _ => 0) 0 1
  queue_n_objs := update (fun _ => 0) 0 1
  n_queues := 1
  lifetime := 1
  Qout := { cache_size := 4 }
  vtime := n

theorem find_held {n : Nat} (hn : n < INT32_MAX) :
    MQ_find { held n with n_req := (n : Int) + 1 } { obj_id := 1 } = some (held (n + 1), true) := by
  have hlook : ∀ o : Obj, (AList.singleton 1 o : Table ObjId Obj).lookup 1 = some o := fun _ => rfl
  simp [MQ_find, held, hlook, hn, MQ_queue_unlink, MQ_queue_link, MQ_adjust, MQ_queue_num, halvings, next_freq]

theorem get_held {n : Nat} (hn : n < INT32_MAX) (evicted : History) :
    MQ_get_noted (fun _ _ => true) (held n, evicted) { obj_id := 1 } = some ((held (n + 1), evicted), true) := by
  have hfind : ((ops fun _ _ => true).observed note).find (((ops fun _ _ => true).observed note).count_req (held n, evicted))
      { obj_id := 1 } = some ((held (n + 1), evicted), true) := by
    show (MQ_find { held n with n_req := (n : Int) + 1 } { obj_id := 1 }).map (fun r => ((r.1, evicted), r.2)) = _
    rw [find_held hn]
    rfl
  exact cache_get_base_hit hfind

theorem gets_held {n : Nat} (hpos : 1 ≤ n) (hn : n ≤ INT32_MAX) :
    runs (noted_call fun _ _ => true) (MQ_init 1 false 1 1 4, fun _ => none) (.replicate n (.get { obj_id := 1 })) =
      some (held n, fun _ => none) := by
  induction n, hpos using Nat.le_induction with
  | base =>
    rfl
  | succ n _ ih =>
    rw [replicate_succ', runs_append, ih (by omega), bind_some, runs_cons, noted_call, get_held hn]
    rfl

/-- An object that is evicted with the largest frequency comes back with it. -/
theorem MQ_freq_saturates : ∃ s evicted t, runs (noted_call fun _ _ => true) (MQ_init 1 false 1 1 4, fun _ => none)
      (.replicate INT32_MAX (.get { obj_id := 1 }) ++ [.get { obj_id := 2 }]) = some (s, evicted) ∧
    1 ∈ s.Qout.q ∧ evicted 1 = some INT32_MAX ∧
    MQ_get (fun _ _ => true) s { obj_id := 1 } = some (t, false) ∧ (t.hashtable.lookup 1).map Obj.freq = some INT32_MAX := by
  obtain ⟨⟨s, evicted⟩, hs, hmem, hevicted, ⟨t, _⟩, ht, rfl, hfreq⟩ : ∃ p,
      runs (noted_call fun _ _ => true) (held INT32_MAX, fun _ => none) [.get { obj_id := 2 }] = some p ∧
        1 ∈ p.1.Qout.q ∧ p.2 1 = some INT32_MAX ∧ ∃ r, MQ_get (fun _ _ => true) p.1 { obj_id := 1 } = some r ∧
          r.2 = false ∧ (r.1.hashtable.lookup 1).map Obj.freq = some INT32_MAX := by decide +kernel
  refine ⟨s, evicted, t, ?_, hmem, hevicted, ht, hfreq⟩
  rw [runs_append, gets_held (by decide) le_rfl]
  exact hs

end CacheSim.Mq
