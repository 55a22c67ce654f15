import CacheSim.Directory.Proofs

/-!
# Gets and parts of gets

Between two gets and in the middle of one the directory is the same kind of state.
-/

namespace CacheSim.Directory

open Lib

inductive Piece where
  | get (req : Request)
  | find (req : Request)
  | evict (req : Request)

def NeedsEviction (d : Dir) (req : Request) : Prop :=
  1 ≤ req.obj_size ∧ d.cache_can_insert_default req = true ∧ d.occupied_byte + req.obj_size + d.obj_md_size > d.cache_size

instance (d : Dir) (req : Request) : Decidable (NeedsEviction d req) := by
  unfold NeedsEviction
  infer_instance

theorem NeedsEviction.room {d : Dir} {req : Request} (h : NeedsEviction d req) :
    req.obj_size + d.obj_md_size ≤ d.cache_size ∧ 0 < d.occupied_byte := by
  obtain ⟨-, hadm, hfull⟩ := h
  have hfits := Dir.can_insert_fits hadm
  exact ⟨hfits, by omega⟩

def Piece.Ok (d : Dir) : Piece → Prop
  | get req => 1 ≤ req.obj_size
  | find req => 1 ≤ req.obj_size
  | evict req => NeedsEviction d req

instance (d : Dir) (a : Piece) : Decidable (a.Ok d) := by
  cases a <;> unfold Piece.Ok <;> infer_instance

variable {σ : Type} {ops : CacheOps σ} {dir : σ → Dir} {s s' : σ}

def serve_piece (ops : CacheOps σ) (dir : σ → Dir) (s : σ) : Piece → Option σ
  | .get req => (ops.cache_get_base (fun s => (dir s).occupied_byte.toNat) s req).map Prod.fst
  | .find req => (ops.find (ops.count_req s) req).map Prod.fst
  | .evict req => ops.evict s req

section

variable (hp : ∀ req : Request, 1 ≤ req.obj_size → Policy ops dir req)
include hp

theorem Policy.piece_fits {a : Piece} (h : DirFits (dir s))
    (ha : a.Ok (dir s)) (hs : serve_piece ops dir s a = some s') : DirFits (dir s') := by
  cases a with
  | get req =>
    obtain ⟨t, hit, hget, hfits, -⟩ := (hp req ha).get_spec h
    simp only [serve_piece, hget, Option.map_some, Option.some.injEq] at hs
    exact hs ▸ hfits
  | find req =>
    obtain ⟨t, hit, hfind, hkeeps, -⟩ := (hp req ha).find s h.inv
    simp only [serve_piece, hfind, Option.map_some, Option.some.injEq] at hs
    exact hs ▸ hkeeps.dirFits h
  | evict req =>
    obtain ⟨hfits, hocc⟩ := NeedsEviction.room ha
    obtain ⟨t, hev, hkeeps, -⟩ := (hp req ha.1).evict s h hocc hfits
    cases hev.symm.trans hs
    exact hkeeps.dirFits h

theorem Policy.reach_fits (h : DirFits (dir s))
    (hr : Reach (serve_piece ops dir) (fun t a => a.Ok (dir t)) s s') : DirFits (dir s') :=
  hr.inv (fun t => DirFits (dir t)) (fun _ _ _ ht ha hs => Policy.piece_fits hp ht ha hs) h

end

end CacheSim.Directory

/-!
## Where an object enters

An object whose ghost was hit is to enter T2, and every other object T1.
-/

namespace CacheSim.Directory

open Dir

variable {d d' : Dir} {i : ObjId} {req : Request}

def Dir.Placed (d : Dir) (k : ListId) (i : ObjId) : Prop := i ∈ d.dir.list k ∧ ∃ o, d.dir.table i = some o ∧ o.listId = k

/-- The object has entered T2 if and only if its ghost was there before, and otherwise T1. -/
structure Dir.Promotes (d d' : Dir) (i : ObjId) : Prop where
  to_T2 : d'.Placed .L2_data i ↔ d.Ghost i
  to_T1 : d'.Placed .L1_data i ↔ ¬ d.Ghost i

theorem Dir.Placed.unique {k k' : ListId} (h : d.Placed k i) (h' : d.Placed k' i) : k = k' := by
  obtain ⟨-, o, ho, rfl⟩ := h
  obtain ⟨-, o', ho', rfl⟩ := h'
  cases ho.symm.trans ho'
  rfl

theorem Dir.enter_placed (d : Dir) (req : Request) (lru_id : Nat) (at_head : Bool) :
    (d.enter req lru_id at_head).Placed (if lru_id = 1 then .L1_data else .L2_data) req.obj_id := by
  have hid : ({ obj_size := req.obj_size, lru_id := lru_id } : Obj).listId = if lru_id = 1 then .L1_data else .L2_data := by
    simp [Obj.listId]
  have hmem : ∀ l : List ObjId, req.obj_id ∈ push at_head req.obj_id l :=
    fun l => (push_perm at_head req.obj_id l).mem_iff.2 List.mem_cons_self
  refine ⟨?_, { obj_size := req.obj_size, lru_id := lru_id }, ?_, hid⟩
  · rw [← hid]
    simp [Dir.enter, Dir.link, hmem]
  · simp [Dir.enter, Dir.link]

theorem Dir.Placed.promotes_iff {b : Bool} (h : d'.Placed (if b then .L2_data else .L1_data) i) :
    d.Promotes d' i ↔ (b = true ↔ d.Ghost i) := by
  have hT2 : d'.Placed .L2_data i ↔ b = true := by
    cases b with
    | true => exact iff_of_true h rfl
    | false => exact iff_of_false (fun h' => by cases h.unique h') Bool.false_ne_true
  have hT1 : d'.Placed .L1_data i ↔ ¬ b = true := by
    cases b with
    | true => exact iff_of_false (fun h' => by cases h.unique h') (not_not_intro rfl)
    | false => exact iff_of_true h Bool.false_ne_true
  constructor
  · intro hp
    rw [← hT2]
    exact hp.to_T2
  · intro hb
    refine ⟨hT2.trans hb, hT1.trans (not_congr hb)⟩

/-! ## What evictions leave alone -/

structure Dir.Trims (d d' : Dir) : Prop where
  n_req : d'.n_req = d.n_req
  absent : ∀ j, d.dir.table j = none → d'.dir.table j = none

theorem Dir.Trims.refl (d : Dir) : d.Trims d := ⟨rfl, fun _ hj => hj⟩

theorem Dir.Trims.trans {d'' : Dir} (h : d.Trims d') (h' : d'.Trims d'') : d.Trims d'' :=
  ⟨h'.n_req.trans h.n_req, fun j hj => h'.absent j (h.absent j hj)⟩

variable {o : Obj}

section

variable (hi : d.dir.table i = some o)
include hi

theorem Dir.trims_of_update {x : Option Obj} (hn : d'.n_req = d.n_req)
    (ht : d'.dir.table = Function.update d.dir.table i x) : d.Trims d' := by
  refine ⟨hn, fun j hj => ?_⟩
  have hji : j ≠ i := by
    rintro rfl
    rw [hi] at hj
    cases hj
  rw [ht, Function.update_of_ne hji, hj]

theorem Dir.demote_trims : d.Trims (d.demote i o) := by
  apply trims_of_update (x := some { o with ghost := true }) hi <;> simp [Dir.demote, Dir.remove_obj_from_list,
    Dir.link, Dir.cache_evict_base]

theorem Dir.drop_trims : d.Trims (d.drop i o) := by
  apply trims_of_update (x := none) hi <;> simp [Dir.drop, Dir.remove_obj_from_list]

theorem Dir.discard_trims : d.Trims (d.discard i o) := by
  apply trims_of_update (x := none) hi <;> simp [Dir.discard, Dir.remove_obj_from_list]

end

theorem Dir.promote_trims {o' : Obj} (hi : d.dir.table i = some o') (o : Obj) (at_head reference : Bool) :
    d.Trims (d.promote i o at_head reference) := by
  apply trims_of_update (x := some { o with lru_id := 2, reference := reference })
    hi <;> simp [Dir.promote, Dir.remove_obj_from_list, Dir.link]

theorem Dir.turn_trims {o' : Obj} (hi : d.dir.table i = some o') (o : Obj) (at_head : Bool) (k : ListId) :
    d.Trims ((d.move at_head k i).set_obj i o) := by
  apply trims_of_update (x := some o) hi <;> simp [Dir.move]

theorem Dir.enter_n_req (d : Dir) (req : Request) (lru_id : Nat) (at_head : Bool) : (d.enter req lru_id at_head).n_req = d.n_req := by
  simp [Dir.enter, Dir.cache_insert_base, Dir.link]

end CacheSim.Directory
