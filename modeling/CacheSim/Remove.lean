import CacheSim.Arc.Proofs
import CacheSim.Car.Proofs
import CacheSim.S3fifo.Proofs
import CacheSim.TwoQ
import CacheSim.Mq.Model
import CacheSim.Merlin.Proofs

/-!
# The user's remove on ARC and CAR

A removed ghost leaves its list and its counter, but its hash-table entry stays.
-/

namespace CacheSim.Directory

open Lib

inductive Call where
  | get (req : Request)
  | remove (id : ObjId)

def call {σ : Type} (get : σ → Request → Option (σ × Bool)) (remove : σ → ObjId → σ × Bool) (s : σ) :
    Call → Option σ
  | .get req => (get s req).map Prod.fst
  | .remove id => some (remove s id).1

def Call.Sized : Call → Prop
  | .get req => 1 ≤ req.obj_size
  | .remove _ => True

def Careful (d : Dir) : Call → Prop
  | .get req => 1 ≤ req.obj_size
  | .remove id => ¬ d.Ghost id

def RemoveOk {σ : Type} (dir : σ → Dir) (remove : σ → ObjId → σ × Bool) (s : σ) (id : ObjId) : Prop :=
  (dir s).Removed (dir (remove s id).1) (remove s id).2 id

section

variable {σ : Type} {get : σ → Request → Option (σ × Bool)}
  {remove : σ → ObjId → σ × Bool}

theorem careful_fits (dir : σ → Dir)
    (hget : ∀ s req, DirFits (dir s) → 1 ≤ req.obj_size → ∃ s' hit, get s req = some (s', hit) ∧
      DirFits (dir s') ∧ (dir s').cache_size = (dir s).cache_size)
    (hremove : ∀ s id, dir (remove s id).1 = ((dir s).remove id).1) {s t : σ} (hs : DirFits (dir s))
    (hr : Reach (call get remove) (fun s => Careful (dir s)) s t) : DirFits (dir t) := by
  apply Reach.inv (fun s => DirFits (dir s)) _ hs hr
  intro s c s' hs hc hcall
  cases c with
  | get req =>
    obtain ⟨s1, hit, h1, hfits, -⟩ := hget s req hs hc
    simp only [call, h1, Option.map_some, Option.some.injEq] at hcall
    exact hcall ▸ hfits
  | remove id =>
    simp only [call, Option.some.injEq] at hcall
    subst hcall
    rw [hremove]
    exact (hs.inv.remove_keeps hc).dirFits hs

end

/-- In every state that careful calls reach, each get returns, and a remove keeps its promise if
and only if it does not name a ghost. -/
theorem remove_ok_iff_not_ghost (rnd : ℚ → ℚ) (cache_size : Nat) (md : Bool) (p : Int)
    (adm : Option (Request → Bool)) :
    (∀ s, Reach (call (Arc.ARC_get rnd) Arc.ARC_remove) (fun s => Careful s.toDir)
        (Arc.ARC_init cache_size md adm) s →
      (∀ req, 1 ≤ req.obj_size → (Arc.ARC_get rnd s req).isSome) ∧
      ∀ id, RemoveOk Arc.State.toDir Arc.ARC_remove s id ↔ ¬ s.toDir.Ghost id) ∧
    (∀ s, Reach (call (Car.CAR_get rnd) Car.CAR_remove) (fun s => Careful s.toDir)
        (Car.CAR_init cache_size md p adm) s →
      (∀ req, 1 ≤ req.obj_size → (Car.CAR_get rnd s req).isSome) ∧
      ∀ id, RemoveOk Car.State.toDir Car.CAR_remove s id ↔ ¬ s.toDir.Ghost id) := by
  constructor
  · intro s hr
    have hfits := careful_fits Arc.State.toDir (fun _ _ h hsize => Arc.ARC_get_spec rnd h hsize)
      (fun _ _ => rfl) (Arc.ARC_init_fits cache_size md adm) hr
    refine ⟨fun req hsize => ?_, fun id => hfits.inv.remove_removed_iff id⟩
    obtain ⟨s', hit, hget, -⟩ := Arc.ARC_get_spec rnd hfits hsize
    simp [hget]
  · intro s hr
    have hfits := careful_fits Car.State.toDir (fun _ _ h hsize => Car.CAR_get_spec rnd h hsize)
      (fun _ _ => rfl) (Car.CAR_init_fits cache_size md p adm) hr
    refine ⟨fun req hsize => ?_, fun id => hfits.inv.remove_removed_iff id⟩
    obtain ⟨s', hit, hget, -⟩ := Car.CAR_get_spec rnd hfits hsize
    simp [hget]

/-- Object 1 is read twice and stays, object 2 makes room for object 3 and becomes a ghost. -/
def ghostTrace : List Call :=
  [.get { obj_id := 1 }, .get { obj_id := 1 }, .get { obj_id := 2 }, .get { obj_id := 3 }]

theorem ghostTrace_sized : ∀ c ∈ ghostTrace, c.Sized := by
  simp [ghostTrace, Call.Sized]

section

variable {σ : Type} {dir : σ → Dir} {get : σ → Request → Option (σ × Bool)} {remove : σ → ObjId → σ × Bool} {s : σ}

theorem not_ok_of_ghostTrace
    (hrun : (runs (call get remove) s ghostTrace).map (fun t => ((dir (remove t 2).1).dir.table 2).isSome) = some true) :
    ¬ ∀ t, Reach (call get remove) (fun _ c => c.Sized) s t → ∀ id, RemoveOk dir remove t id := by
  intro h
  obtain ⟨t, ht, hsome⟩ := Option.map_eq_some_iff.1 hrun
  have hok := h t (.of_runs (fun c hc _ => ghostTrace_sized c hc) ht) 2
  simp [hok.absent] at hsome

/-- A remove of ghost 2 leaves its entry in the hash table, in ARC and in CAR. -/
theorem remove_of_ghost_fails :
    (¬ ∀ s, Reach (call (Arc.ARC_get id) Arc.ARC_remove) (fun _ c => c.Sized) (Arc.ARC_init 2 false) s →
      ∀ id, RemoveOk Arc.State.toDir Arc.ARC_remove s id) ∧
    (¬ ∀ s, Reach (call (Car.CAR_get id) Car.CAR_remove) (fun _ c => c.Sized) (Car.CAR_init 2 false) s →
      ∀ id, RemoveOk Car.State.toDir Car.CAR_remove s id) :=
  ⟨not_ok_of_ghostTrace (by decide), not_ok_of_ghostTrace (by decide)⟩

def ghosts (d : Dir) (ids : List ObjId) : List (Option Bool) := ids.map fun i => (d.dir.table i).map Obj.ghost

theorem ok_beside_ghost
    (hok : ∀ t, Reach (call get remove) (fun s => Careful (dir s)) s t → ∀ id, RemoveOk dir remove t id ↔ ¬ (dir t).Ghost id)
    (hrun : (runs (call get remove) s ghostTrace).map (fun t => ghosts (dir t) [1, 2, 3]) =
      some [some false, some true, some false]) :
    ∃ t, runs (call get remove) s ghostTrace = some t ∧ ghosts (dir t) [1, 2, 3] = [some false, some true, some false] ∧
      RemoveOk dir remove t 1 ∧ RemoveOk dir remove t 3 ∧ ¬ RemoveOk dir remove t 2 := by
  obtain ⟨t, ht, hghosts⟩ := Option.map_eq_some_iff.1 hrun
  have hcareful : ∀ c ∈ ghostTrace, ∀ d, Careful d c := by simp [ghostTrace, Careful]
  have hok := hok t (.of_runs (fun c hc _ => hcareful c hc _) ht)
  have hghost : ∀ i, (dir t).Ghost i ↔ ((dir t).dir.table i).map Obj.ghost = some true := by simp [Dir.Ghost]
  refine ⟨t, ht, hghosts, ?_⟩
  simp only [ghosts, List.map_cons, List.map_nil, List.cons.injEq, and_true] at hghosts
  obtain ⟨h1, h2, h3⟩ := hghosts
  simp [hok, hghost, h1, h2, h3]

end

/-- After the trace a remove of resident 1 or 3 keeps its promise, and one of ghost 2 does not. -/
theorem remove_ok_of_ghostTrace :
    (∃ s, runs (call (Arc.ARC_get id) Arc.ARC_remove) (Arc.ARC_init 2 false) ghostTrace = some s ∧
      ghosts s.toDir [1, 2, 3] = [some false, some true, some false] ∧
      RemoveOk Arc.State.toDir Arc.ARC_remove s 1 ∧ RemoveOk Arc.State.toDir Arc.ARC_remove s 3 ∧
      ¬ RemoveOk Arc.State.toDir Arc.ARC_remove s 2) ∧
    ∃ s, runs (call (Car.CAR_get id) Car.CAR_remove) (Car.CAR_init 2 false) ghostTrace = some s ∧
      ghosts s.toDir [1, 2, 3] = [some false, some true, some false] ∧
      RemoveOk Car.State.toDir Car.CAR_remove s 1 ∧ RemoveOk Car.State.toDir Car.CAR_remove s 3 ∧
      ¬ RemoveOk Car.State.toDir Car.CAR_remove s 2 := by
  obtain ⟨harc, hcar⟩ := remove_ok_iff_not_ghost id 2 false 0 none
  exact ⟨ok_beside_ghost (fun t hr => (harc t hr).2) (by decide), ok_beside_ghost (fun t hr => (hcar t hr).2) (by decide)⟩

end CacheSim.Directory

/-!
## The user's remove on the policies with a ghost queue

S3-FIFO, 2Q and Merlin also remove the entry of a ghost queue and count that as a removal, so an id
that is only remembered is reported as removed. MQ forgets it silently.
-/

namespace CacheSim.RemoveGhost

open Lib Directory Fifo

/-- What the contract of `remove` speaks about. -/
structure Policy (σ : Type) where
  /-- whether `find` returns an object, with `update_cache` false -/
  find : σ → ObjId → Bool
  /-- whether a ghost queue has an entry -/
  remembers : σ → ObjId → Bool
  /-- what the cache is charged for the object, 0 if it is not resident -/
  charged : σ → ObjId → Int
  get_occupied_byte : σ → Int
  remove : σ → ObjId → σ × Bool

/-- The remove of `id` in state `s` does what it promises. -/
structure Removes {σ : Type} (P : Policy σ) (s : σ) (id : ObjId) : Prop where
  returned : (P.remove s id).2 = P.find s id
  gone : P.find (P.remove s id).1 id = false
  forgotten : P.remembers (P.remove s id).1 id = false
  others : ∀ x ≠ id, P.find (P.remove s id).1 x = P.find s x
  occupied : P.get_occupied_byte (P.remove s id).1 = P.get_occupied_byte s - P.charged s id

def Ghost {σ : Type} (P : Policy σ) (s : σ) (id : ObjId) : Prop := P.find s id = false ∧ P.remembers s id = true

def charge_in {μ : Type} (c : Fifo μ) (id : ObjId) : Option Int := (c.q.lookup id).map c.charge

theorem occupied_remove {μ : Type} (c : Fifo μ) (id : ObjId) :
    (c.FIFO_remove id).1.occupied_byte = c.occupied_byte - (charge_in c id).getD 0 := by
  unfold Fifo.FIFO_remove charge_in
  rcases c.q.lookup id with _ | o
  · simp
  · rfl

/-! ## The four policies -/

def s3fifo : Policy S3fifo.State where
  find s id := (S3fifo.S3FIFO_probe s id).isSome
  remembers s id := s.remembers id
  charged s id := ((charge_in s.small_fifo id).or (charge_in s.main_fifo id)).getD 0
  get_occupied_byte s := s.S3FIFO_get_occupied_byte
  remove := S3fifo.S3FIFO_remove

def twoQ : Policy TwoQ.State where
  find s id := (TwoQ.TwoQ_probe s id).isSome
  remembers s id := (s.Aout.q.lookup id).isSome
  charged s id := ((charge_in s.Ain id).or (charge_in s.Am id)).getD 0
  get_occupied_byte s := s.TwoQ_get_occupied_byte
  remove := TwoQ.TwoQ_remove

def mq : Policy Mq.State where
  find s id := (Mq.MQ_probe s id).isSome
  remembers s id := (s.Qout.q.lookup id).isSome
  charged s id := ((Mq.MQ_probe s id).map fun obj => obj.obj_size + s.obj_md_size).getD 0
  get_occupied_byte s := s.occupied_byte
  remove := Mq.MQ_remove

/-- `merlin_find` with `update_cache` false looks into the three queues of the cache. -/
def merlin (κ : Type) : Policy (Merlin.State κ) where
  find s id := (Merlin.find_in s id [.filter, .staging, .core]).isSome
  remembers s id := ((s.queue .ghost).q.lookup id).isSome
  charged s id :=
    ((charge_in (s.queue .filter) id).or ((charge_in (s.queue .staging) id).or (charge_in (s.queue .core) id))).getD 0
  get_occupied_byte s := s.merlin_get_occupied_byte
  remove := Merlin.merlin_remove

theorem mq_removes (s : Mq.State) (id : ObjId) : Removes mq s id := by
  have hout : ∀ x, (s.Qout.FIFO_remove id).1.q.lookup x = if x = id then none else s.Qout.q.lookup x :=
    lookup_FIFO_remove id
  rcases hid : s.hashtable.lookup id with _ | obj
  · have hrem : Mq.MQ_remove s id = ({ s with Qout := (s.Qout.FIFO_remove id).1 }, false) := by
      simp [Mq.MQ_remove, hid]
    constructor <;> simp [mq, hrem, Mq.MQ_probe, hid, hout]
  · have hrem : Mq.MQ_remove s id = (Mq.cache_remove_obj_base
        (Mq.MQ_queue_unlink { s with Qout := (s.Qout.FIFO_remove id).1 } id obj) id obj, true) := by
      simp [Mq.MQ_remove, hid]
    constructor
    · simp [mq, hrem, Mq.MQ_probe, hid]
    · simp [mq, hrem, Mq.MQ_probe, Mq.cache_remove_obj_base]
    · simp [mq, hrem, Mq.cache_remove_obj_base, Mq.MQ_queue_unlink, hout]
    · intro x hx
      simp [mq, hrem, Mq.MQ_probe, Mq.cache_remove_obj_base, Mq.MQ_queue_unlink, AList.lookup_erase_ne hx]
    · simp [mq, hrem, Mq.MQ_probe, hid, Mq.cache_remove_obj_base, Mq.MQ_queue_unlink]

theorem removes_iff {σ : Type} {P : Policy σ} {s : σ} {id : ObjId}
    (hret : (P.remove s id).2 = (P.find s id || P.remembers s id)) (hgone : P.find (P.remove s id).1 id = false)
    (hforgot : P.remembers (P.remove s id).1 id = false) (hothers : ∀ x ≠ id, P.find (P.remove s id).1 x = P.find s x)
    (hocc : P.get_occupied_byte (P.remove s id).1 = P.get_occupied_byte s - P.charged s id) :
    Removes P s id ↔ ¬ Ghost P s id := by
  constructor
  · rintro hr ⟨hfind, hghost⟩
    have hret' := hr.returned
    rw [hret, hfind, hghost] at hret'
    exact absurd hret' (by decide)
  · intro hnot
    refine ⟨?_, hgone, hforgot, hothers, hocc⟩
    rw [hret]
    unfold Ghost at hnot
    cases hfind : P.find s id with
    | true => rfl
    | false => simpa [hfind] using hnot

theorem s3fifo_removes_iff {s : S3fifo.State} (h : S3fifo.Inv s) (id : ObjId) :
    Removes s3fifo s id ↔ ¬ Ghost s3fifo s id := by
  obtain ⟨ghost, hrem, -, hleft⟩ := S3fifo.S3FIFO_remove_spec h id
  apply removes_iff
  · simp [s3fifo, hrem]
  · simp [s3fifo, hrem, S3fifo.S3FIFO_probe, lookup_FIFO_remove]
  · simp only [s3fifo, hrem]
    rw [hleft _ rfl]
    simp
  · intro x hx
    simp [s3fifo, hrem, S3fifo.S3FIFO_probe, lookup_FIFO_remove, hx]
  · simp only [s3fifo, hrem, S3fifo.State.S3FIFO_get_occupied_byte, occupied_remove]
    rcases h.apart id with hnone | hnone
    · simp [charge_in, hnone]
      omega
    · simp [charge_in, hnone]
      omega

theorem twoQ_removes_iff {s : TwoQ.State} (h : TwoQ.Inv s) (id : ObjId) : Removes twoQ s id ↔ ¬ Ghost twoQ s id := by
  have hrem := TwoQ.TwoQ_remove_spec h id
  apply removes_iff
  · simp [twoQ, hrem]
  · simp [twoQ, hrem, TwoQ.TwoQ_probe, lookup_FIFO_remove]
  · simp [twoQ, hrem, lookup_FIFO_remove]
  · intro x hx
    simp [twoQ, hrem, TwoQ.TwoQ_probe, lookup_FIFO_remove, hx]
  · simp only [twoQ, hrem, TwoQ.State.TwoQ_get_occupied_byte, occupied_remove]
    rcases h.apart id with hnone | hnone
    · simp [charge_in, hnone]
      omega
    · simp [charge_in, hnone]
      omega

section

variable {κ : Type}

theorem merlin_find_eq (s : Merlin.State κ) (id : ObjId) : (merlin κ).find s id =
    (((s.queue .filter).q.lookup id).isSome || ((s.queue .staging).q.lookup id).isSome ||
      ((s.queue .core).q.lookup id).isSome) := by
  simp only [merlin, Merlin.find_in, List.findSome?_cons]
  rcases (s.queue .filter).q.lookup id with _ | _ <;> rcases (s.queue .staging).q.lookup id with _ | _ <;>
    rcases (s.queue .core).q.lookup id with _ | _ <;> rfl

theorem queue_remove_from (id : ObjId) (w : Merlin.State κ × Bool) (t u : Merlin.Tier) :
    (Merlin.remove_from id w t).1.queue u = if u = t then ((w.1.queue t).FIFO_remove id).1 else w.1.queue u := by
  unfold Merlin.remove_from
  rcases hid : (w.1.queue t).q.lookup id with _ | o
  · have hsame : (w.1.queue t).FIFO_remove id = (w.1.queue t, false) := by simp [Fifo.FIFO_remove, hid]
    split_ifs with hu
    · rw [hsame, hu]
    · rfl
  · exact Merlin.queue_set

theorem remove_from_snd (id : ObjId) (w : Merlin.State κ × Bool) (t : Merlin.Tier) :
    (Merlin.remove_from id w t).2 = (w.2 || ((w.1.queue t).q.lookup id).isSome) := by
  unfold Merlin.remove_from
  rcases (w.1.queue t).q.lookup id with _ | o <;> simp

theorem merlin_remove_spec (s : Merlin.State κ) (id : ObjId) :
    (∀ u, (Merlin.merlin_remove s id).1.queue u = ((s.queue u).FIFO_remove id).1) ∧
    (Merlin.merlin_remove s id).2 = ((merlin κ).find s id || (merlin κ).remembers s id) := by
  constructor
  · intro u
    unfold Merlin.merlin_remove
    cases u <;> simp [queue_remove_from]
  · rw [merlin_find_eq]
    unfold Merlin.merlin_remove
    simp [remove_from_snd, queue_remove_from, merlin]

theorem one_queue {s : Merlin.State κ} (h : Merlin.Inv s) (id : ObjId) :
    ((s.queue .filter).q.lookup id = none ∧ (s.queue .staging).q.lookup id = none) ∨
    ((s.queue .filter).q.lookup id = none ∧ (s.queue .core).q.lookup id = none) ∨
    ((s.queue .staging).q.lookup id = none ∧ (s.queue .core).q.lookup id = none) := by
  have hnone : ∀ t, s.md t id = none → (s.queue t).q.lookup id = none := fun t ht => by simpa [Merlin.State.md] using ht
  have hplaced := h.placed id
  generalize hf : s.md .filter id = f, hs : s.md .staging id = m, hc : s.md .core id = c, s.md .ghost id = g at hplaced
  cases hplaced with
  | nowhere => exact .inl ⟨hnone _ hf, hnone _ hs⟩
  | filter => exact .inr (.inr ⟨hnone _ hs, hnone _ hc⟩)
  | staging => exact .inr (.inl ⟨hnone _ hf, hnone _ hc⟩)
  | core => exact .inl ⟨hnone _ hf, hnone _ hs⟩
  | ghost => exact .inl ⟨hnone _ hf, hnone _ hs⟩
  | both => exact .inr (.inl ⟨hnone _ hf, hnone _ hc⟩)

theorem merlin_removes_iff {s : Merlin.State κ} (h : Merlin.Inv s) (id : ObjId) :
    Removes (merlin κ) s id ↔ ¬ Ghost (merlin κ) s id := by
  obtain ⟨hqueue, hret⟩ := merlin_remove_spec s id
  apply removes_iff hret
  · have hfind := merlin_find_eq (Merlin.merlin_remove s id).1 id
    simp only [hqueue, lookup_FIFO_remove] at hfind
    exact hfind
  · simp [merlin, hqueue, lookup_FIFO_remove]
  · intro x hx
    have hfind := merlin_find_eq (Merlin.merlin_remove s id).1 x
    simp only [hqueue, lookup_FIFO_remove, hx, if_false] at hfind
    exact hfind.trans (merlin_find_eq s x).symm
  · simp only [merlin, Merlin.State.merlin_get_occupied_byte, hqueue, occupied_remove]
    unfold charge_in
    rcases one_queue h id with ⟨h1, h2⟩ | ⟨h1, h2⟩ | ⟨h1, h2⟩
    · simp [h1, h2]
      omega
    · simp [h1, h2]
      omega
    · simp [h1, h2]
      omega

end

/-! ## Runs of gets and removes -/

section

variable {σ : Type} {get : σ → Request → Option (σ × Bool)} {remove : σ → ObjId → σ × Bool}

theorem reach_inv {I : σ → Prop} (hget : ∀ s req s' hit, I s → get s req = some (s', hit) → I s')
    (hremove : ∀ s id, I s → I (remove s id).1) {s t : σ} (hs : I s)
    (hr : Reach (call get remove) (fun _ _ => True) s t) : I t := by
  apply Reach.inv I _ hs hr
  rintro s c s' hs - hcall
  cases c with
  | get req =>
    obtain ⟨⟨u, hit⟩, hu, rfl⟩ := Option.map_eq_some_iff.1 hcall
    exact hget s req u hit hs hu
  | remove id =>
    simp only [Directory.call, Option.some.injEq] at hcall
    exact hcall ▸ hremove s id hs

end

/-- In every state that gets and removes reach, a remove keeps its promise if and only if the id is
not in a ghost queue only; in MQ it always does. -/
theorem remove_ok_iff_not_only_ghost (allows : Int → Request → Bool) (cache_size : Nat) (md : Bool) :
    (∀ (small_fifo_size ghost_fifo_size move_to_main_threshold : Int) (s : S3fifo.State),
      Reach (call (S3fifo.S3FIFO_get allows) S3fifo.S3FIFO_remove) (fun _ _ => True)
        (S3fifo.S3FIFO_init cache_size small_fifo_size ghost_fifo_size move_to_main_threshold) s →
      ∀ id, Removes s3fifo s id ↔ ¬ Ghost s3fifo s id) ∧
    (∀ (Ain_cache_size : Nat) (Aout_cache_size : Int) (s : TwoQ.State),
      Reach (call (TwoQ.TwoQ_get allows) TwoQ.TwoQ_remove) (fun _ _ => True)
        (TwoQ.TwoQ_init cache_size Ain_cache_size Aout_cache_size md) s →
      ∀ id, Removes twoQ s id ↔ ¬ Ghost twoQ s id) ∧
    (∀ (n_queues : Nat) (lifetime Qout_size : Int) (s : Mq.State),
      Reach (call (Mq.MQ_get allows) Mq.MQ_remove) (fun _ _ => True)
        (Mq.MQ_init cache_size md n_queues lifetime Qout_size) s →
      ∀ id, Removes mq s id) ∧
    ∀ (κ : Type) (K : Merlin.Sketch κ) (fuel : Merlin.State κ → Nat) (obj_md_size filter_size staging_size ghost_size : Int)
      (sketch : κ) (epoch_update : Int) (s : Merlin.State κ),
      Reach (call (Merlin.merlin_get K allows fuel) Merlin.merlin_remove) (fun _ _ => True)
        (Merlin.merlin_init cache_size obj_md_size filter_size staging_size ghost_size sketch epoch_update) s →
      ∀ id, Removes (merlin κ) s id ↔ ¬ Ghost (merlin κ) s id := by
  refine ⟨?_, ?_, fun _ _ _ s _ id => mq_removes s id, ?_⟩
  · intro small_fifo_size ghost_fifo_size move_to_main_threshold s hr id
    apply s3fifo_removes_iff
    exact reach_inv (I := S3fifo.Inv) (fun _ _ _ _ h hget => S3fifo.S3FIFO_get_inv h hget)
      (fun _ id h => S3fifo.S3FIFO_remove_inv h id)
      (S3fifo.S3FIFO_init_inv _ _ _ _) hr
  · intro Ain_cache_size Aout_cache_size s hr id
    apply twoQ_removes_iff
    refine reach_inv (I := TwoQ.Inv) (fun s req s' hit h hget => ?_) (fun _ id h => TwoQ.TwoQ_remove_inv h id)
      (TwoQ.TwoQ_init_fits _ _ _ _).inv hr
    obtain ⟨t, hit', ht, hinv⟩ := TwoQ.TwoQ_get_inv allows h req
    rw [ht, Option.some.injEq, Prod.mk.injEq] at hget
    exact hget.1 ▸ hinv
  · intro κ K fuel obj_md_size filter_size staging_size ghost_size sketch epoch_update s hr id
    apply merlin_removes_iff
    exact reach_inv (I := Merlin.Inv) (fun _ _ _ _ h hget => Merlin.merlin_get_inv h hget)
      (fun _ id h => Merlin.merlin_remove_inv h id)
      (Merlin.init_inv ..) hr

def gets (ids : List ObjId) : List Call := ids.map fun id => .get { obj_id := id }

theorem not_removes_of_run {σ : Type} {P : Policy σ} {get : σ → Request → Option (σ × Bool)} {s : σ}
    (ids : List ObjId) (id : ObjId)
    (hrun : (runs (call get P.remove) s (gets ids)).any (fun t => !P.find t id && (P.remove t id).2) = true) :
    ¬ ∀ t, Reach (call get P.remove) (fun _ _ => True) s t → ∀ id, Removes P t id := by
  intro h
  obtain ⟨t, ht, hbad⟩ := (Option.any_eq_true _ _).1 hrun
  have hret := (h t (.of_runs (fun _ _ _ => trivial) ht) id).returned
  simp only [Bool.and_eq_true, Bool.not_eq_eq_eq_not] at hbad
  rw [hbad.1, hbad.2] at hret
  exact absurd hret (by decide)

/-- The remove of an id that is in a ghost queue only returns true, in S3-FIFO, 2Q and Merlin. -/
theorem remove_of_only_ghost_fails :
    (¬ ∀ s, Reach (call (S3fifo.S3FIFO_get fun _ _ => true) s3fifo.remove) (fun _ _ => True)
      (S3fifo.S3FIFO_init 4 2 3 2) s → ∀ id, Removes s3fifo s id) ∧
    (¬ ∀ s, Reach (call (TwoQ.TwoQ_get fun _ _ => true) twoQ.remove) (fun _ _ => True)
      (TwoQ.TwoQ_init 4 1 2 false) s → ∀ id, Removes twoQ s id) ∧
    (¬ ∀ s, Reach (call (Merlin.merlin_get Merlin.counting (fun _ _ => true) fun _ => 8) (merlin _).remove) (fun _ _ => True)
      (Merlin.merlin_init 5 0 2 1 3 (fun _ => 0) 32) s → ∀ id, Removes (merlin _) s id) := by
  refine ⟨?_, ?_, ?_⟩
  · exact not_removes_of_run [1, 2, 3, 4, 5] 1 (by decide +kernel)
  · exact not_removes_of_run [1, 2, 3, 4, 5] 1 (by decide +kernel)
  · exact not_removes_of_run [1, 2, 3, 4, 5, 3, 6, 7, 8] 6 (by decide +kernel)

section

variable {σ : Type} {P : Policy σ} {get : σ → Request → Option (σ × Bool)} {s : σ} {ids : List ObjId} {x y : ObjId}
  (hrun : (runs (call get P.remove) s (gets ids)).any (fun t => P.find t x && (!P.find t y && P.remembers t y)) = true)
include hrun

theorem resident_beside_ghost : ∃ t, Reach (call get P.remove) (fun _ _ => True) s t ∧
    runs (call get P.remove) s (gets ids) = some t ∧ P.find t x = true ∧ Ghost P t y := by
  obtain ⟨t, ht, hmarks⟩ := (Option.any_eq_true _ _).1 hrun
  simp only [Bool.and_eq_true, Bool.not_eq_eq_eq_not, Bool.not_true] at hmarks
  exact ⟨t, .of_runs (fun _ _ _ => trivial) ht, ht, hmarks.1, hmarks.2⟩

theorem removes_beside_ghost
    (hiff : ∀ t, Reach (call get P.remove) (fun _ _ => True) s t → ∀ id, Removes P t id ↔ ¬ Ghost P t id) :
    ∃ t, runs (call get P.remove) s (gets ids) = some t ∧ P.find t x = true ∧ Ghost P t y ∧
      Removes P t x ∧ ¬ Removes P t y := by
  obtain ⟨t, hr, ht, hx, hy⟩ := resident_beside_ghost hrun
  have hresident : ¬ Ghost P t x := fun hghost => absurd (hx.symm.trans hghost.1) (by decide)
  exact ⟨t, ht, hx, hy, (hiff t hr x).2 hresident, fun hok => (hiff t hr y).1 hok hy⟩

end

/-- After the gets one id is resident and another is only remembered. A remove of the first keeps
its promise; of the second it does so in MQ alone. -/
theorem remove_ok_of_gets :
    (∃ s, runs (call (S3fifo.S3FIFO_get fun _ _ => true) s3fifo.remove) (S3fifo.S3FIFO_init 4 2 3 2)
        (gets [1, 2, 3, 4, 5]) = some s ∧ s3fifo.find s 5 = true ∧ Ghost s3fifo s 1 ∧
      Removes s3fifo s 5 ∧ ¬ Removes s3fifo s 1) ∧
    (∃ s, runs (call (TwoQ.TwoQ_get fun _ _ => true) twoQ.remove) (TwoQ.TwoQ_init 4 1 2 false)
        (gets [1, 2, 3, 4, 5]) = some s ∧ twoQ.find s 5 = true ∧ Ghost twoQ s 1 ∧
      Removes twoQ s 5 ∧ ¬ Removes twoQ s 1) ∧
    (∃ s, runs (call (Mq.MQ_get fun _ _ => true) mq.remove) (Mq.MQ_init 4 false 8 10000 16)
        (gets [1, 2, 3, 4, 5]) = some s ∧ mq.find s 5 = true ∧ Ghost mq s 1 ∧ Removes mq s 5 ∧ Removes mq s 1) ∧
    ∃ s, runs (call (Merlin.merlin_get Merlin.counting (fun _ _ => true) fun _ => 8) (merlin _).remove)
        (Merlin.merlin_init 4 0 2 1 3 (fun _ => 0) 32) (gets [1, 2, 3, 4, 5, 3, 6, 7, 8]) = some s ∧
      (merlin _).find s 7 = true ∧ Ghost (merlin _) s 6 ∧ Removes (merlin _) s 7 ∧ ¬ Removes (merlin _) s 6 := by
  obtain ⟨h1, h2, h3, h4⟩ := remove_ok_iff_not_only_ghost (fun _ _ => true) 4 false
  refine ⟨?_, ?_, ?_, ?_⟩
  · exact removes_beside_ghost (by decide +kernel) (h1 2 3 2)
  · exact removes_beside_ghost (by decide +kernel) (h2 1 2)
  · obtain ⟨s, hr, hs, hx, hy⟩ := resident_beside_ghost (P := mq) (x := 5) (y := 1)
      (s := Mq.MQ_init 4 false 8 10000 16) (by decide +kernel :
        (runs (call (Mq.MQ_get fun _ _ => true) _) _ (gets [1, 2, 3, 4, 5])).any _ = true)
    exact ⟨s, hs, hx, hy, h3 8 10000 16 s hr 5, h3 8 10000 16 s hr 1⟩
  · exact removes_beside_ghost (by decide +kernel) (h4 _ Merlin.counting (fun _ => 8) 0 2 1 3 (fun _ => 0) 32)

end CacheSim.RemoveGhost
