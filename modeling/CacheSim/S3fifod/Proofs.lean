import CacheSim.S3fifod.Main
import CacheSim.Lib.Partition

/-!
# Gets of S3-FIFO-d

Whatever the reads of freed objects yield, the sizes add up and a get leaves its object in the cache, as long
as no queue is left without a size.
-/

namespace CacheSim.S3fifod

open Lib Finset CacheOps

variable {σ : Type} {P : MainPolicy σ} {MInv : σ → Prop} {resident : σ → Finset ObjId} {freed : Nat → Int} {s : State σ}
  {req : Request}

/-- The counters match the queues, and each object is in one of them. -/
structure Inv (P : MainPolicy σ) (MInv : σ → Prop) (resident : σ → Finset ObjId) (s : State σ) : Prop where
  small : Blocks s.small_fifo.cache_size s.small_fifo
  main : MInv s.main_fifo
  ghost : s.ghost_fifo.Inv
  small_eviction : s.small_eviction.Inv
  main_eviction : s.main_eviction.Inv
  disjoint : Disjoint (objects s.small_fifo) (resident s.main_fifo)
  room : ((objects s.small_fifo).card + (resident s.main_fifo).card : Int) ≤ s.cache_size
  main_size : 0 ≤ P.ops.cache_size s.main_fifo

structure Frame (P : MainPolicy σ) (s s' : State σ) : Prop where
  cache_size : s'.cache_size = s.cache_size
  small_size : s'.small_fifo.cache_size = s.small_fifo.cache_size
  main_size : P.ops.cache_size s'.main_fifo = P.ops.cache_size s.main_fifo

variable {s1 s2 s3 : State σ}

theorem Frame.trans (h1 : Frame P s1 s2) (h2 : Frame P s2 s3) : Frame P s1 s3 :=
  ⟨h2.cache_size.trans h1.cache_size, h2.small_size.trans h1.small_size, h2.main_size.trans h1.main_size⟩

def cached (resident : σ → Finset ObjId) (s : State σ) : Finset ObjId := objects s.small_fifo ∪ resident s.main_fifo

theorem Inv.card_cached (h : Inv P MInv resident s) :
    (cached resident s).card = (objects s.small_fifo).card + (resident s.main_fifo).card :=
  card_union_of_disjoint h.disjoint

theorem Inv.occupied (hP : MainContract P MInv resident) (h : Inv P MInv resident s) :
    S3FIFOd_get_occupied_byte P s = (cached resident s).card := by
  unfold S3FIFOd_get_occupied_byte
  rw [h.card_cached, h.small.occupied, hP.occupied _ h.main]
  rfl

theorem Inv.small_empty_iff (h : Inv P MInv resident s) : s.small_fifo.occupied_byte = 0 ↔ objects s.small_fifo = ∅ := by
  rw [h.small.occupied, ← card_eq_zero]
  exact Int.natCast_eq_zero

structure Kept (P : MainPolicy σ) (resident : σ → Finset ObjId) (s s' : State σ) : Prop extends Frame P s s' where
  small : objects s'.small_fifo = objects s.small_fifo
  main : resident s'.main_fifo = resident s.main_fifo
  freed_reads : s'.freed_reads = s.freed_reads

theorem Kept.cached {s s' : State σ} (h : Kept P resident s s') : cached resident s' = cached resident s := by
  unfold S3fifod.cached
  rw [h.small, h.main]

theorem take_record_inv {c : Fifo Nat} (h : c.Inv) (req : Request) : (take_record c req).1.Inv := by
  unfold take_record
  split_ifs
  · exact (Fifo.FIFO_remove_spec h req.obj_id).1
  · exact h

section

variable (hP : MainContract P MInv resident)
include hP

theorem find_spec (h : Inv P MInv resident s) (req : Request) :
    ∃ s', S3FIFOd_find P s req = some (s', decide (req.obj_id ∈ cached resident s)) ∧ Inv P MInv resident s' ∧
      Kept P resident s s' := by
  unfold S3FIFOd_find cached
  dsimp only
  cases hsmall : s.small_fifo.q.lookup req.obj_id with
  | some obj =>
    have hmem : req.obj_id ∈ objects s.small_fifo := mem_objects.2 (Table.mem_of_lookup hsmall)
    have hsame : objects (s.small_fifo.set_md req.obj_id obj (obj.md + 1)) = objects s.small_fifo := by
      apply objects_eq
      intro x
      rw [AList.mem_keys, AList.mem_keys]
      exact iff_of_eq (congrArg (x ∈ ·) (AList.keys_replace _ _ _))
    refine ⟨{ s with hit_on_ghost := false, small_fifo := s.small_fifo.set_md req.obj_id obj (obj.md + 1) }, ?_,
      { h with small := h.small.set_md hsmall _, disjoint := ?_, room := ?_ },
      ⟨⟨rfl, rfl, rfl⟩, hsame, rfl, rfl⟩⟩
    · rw [decide_eq_true (mem_union_left _ hmem)]
    · rw [hsame]
      exact h.disjoint
    · rw [hsame]
      exact h.room
  | none =>
    have hnot : req.obj_id ∉ objects s.small_fifo := mt mem_objects.1 (AList.lookup_eq_none.1 hsmall)
    obtain ⟨m, hfind, hm⟩ := hP.find s.main_fifo req h.main
    have hhit : decide (req.obj_id ∈ objects s.small_fifo ∪ resident s.main_fifo) = decide (req.obj_id ∈ resident s.main_fifo) := by
      simp [hnot]
    rw [hfind, hhit]
    refine ⟨_, rfl, ⟨h.small, hm.inv, ?_, ?_, ?_, ?_, ?_, ?_⟩, ⟨⟨rfl, rfl, hm.cache_size⟩, rfl, hm.resident, rfl⟩⟩
    · exact (Fifo.FIFO_remove_spec h.ghost req.obj_id).1
    · exact take_record_inv h.small_eviction req
    · exact take_record_inv h.main_eviction req
    · rw [hm.resident]
      exact h.disjoint
    · rw [hm.resident]
      exact h.room
    · rw [hm.cache_size]
      exact h.main_size

/-! ## Insertion -/

theorem main_get_spec {m : σ} (h : MInv m) (hout : req.obj_id ∉ resident m)
    (hunit : req.obj_size = 1) :
    ∃ m' hit, main_get P m req = some (m', hit) ∧ MInv m' ∧ P.ops.cache_size m' = P.ops.cache_size m ∧
      resident m' ⊆ insert req.obj_id (resident m) ∧ (1 ≤ P.ops.cache_size m → req.obj_id ∈ resident m') := by
  let Left : σ → Prop := fun t => MInv t ∧ P.ops.cache_size t = P.ops.cache_size m ∧ resident t ⊆ resident m
  let Done : σ → Prop := fun t => MInv t ∧ P.ops.cache_size t = P.ops.cache_size m ∧
    resident t ⊆ insert req.obj_id (resident m) ∧ (1 ≤ P.ops.cache_size m → req.obj_id ∈ resident t)
  apply cache_get_base_total (fun t => t = m) Left (fun t => Left t ∧ 1 ≤ P.ops.cache_size m) Done P.n_obj
    (fun _ _ => le_rfl) ?_ ?_ ?_ ?_ rfl
  · rintro t rfl
    obtain ⟨hinv, hcount, hsame⟩ := hP.count_req t h
    obtain ⟨t', hfind, hinv', hsize', hsame'⟩ := hP.find (P.ops.count_req t) req hinv
    have hmiss : decide (req.obj_id ∈ resident (P.ops.count_req t)) = false := decide_eq_false (by rwa [hsame])
    rw [hmiss] at hfind
    refine ⟨t', false, hfind, hinv', hsize'.trans hcount, ?_⟩
    rw [hsame', hsame]
  · rintro t ⟨ht, hsize, hsub⟩
    refine ⟨t, _, hP.can_insert t req ht hunit, ?_⟩
    rw [hsize]
    by_cases hfits : P.ops.cache_size m < 1
    · simp only [hfits]
      exact ⟨ht, hsize, hsub.trans (subset_insert _ _), fun hpos => absurd hpos (by omega)⟩
    · simp only [hfits]
      exact ⟨⟨ht, hsize, hsub⟩, by omega⟩
  · rintro t ⟨⟨ht, hsize, hsub⟩, hpos⟩ hfull
    have hne : (resident t).Nonempty := by
      rw [full_for_iff, hP.obj_md_size t ht, hP.occupied t ht, hsize, hunit] at hfull
      rw [← card_pos]
      omega
    obtain ⟨t', v, hevict, hinv, hsize', hv, hleft⟩ := hP.evict t req ht hne
    refine ⟨t', hevict, ⟨⟨hinv, hsize'.trans hsize, ?_⟩, hpos⟩, ?_⟩
    · rw [hleft]
      exact (erase_subset v _).trans hsub
    · rw [hP.n_obj t ht, hP.n_obj t' hinv, hleft]
      exact card_erase_lt_of_mem hv
  · rintro t ⟨⟨ht, hsize, hsub⟩, -⟩ -
    obtain ⟨t', hinsert, hinv, hsize', hadd⟩ := hP.insert t req ht (fun hin => hout (hsub hin)) hunit
    refine ⟨t', hinsert, hinv, hsize'.trans hsize, ?_, fun _ => ?_⟩
    · rw [hadd]
      exact insert_subset_insert _ hsub
    · rw [hadd]
      exact mem_insert_self _ _

theorem insert_spec (h : Inv P MInv resident s) (hout : req.obj_id ∉ cached resident s)
    (hunit : req.obj_size = 1) (hsize : 1 ≤ P.ops.cache_size s.main_fifo)
    (hfree : ((cached resident s).card : Int) < s.cache_size) :
    ∃ s', S3FIFOd_insert P s req = some s' ∧ Inv P MInv resident s' ∧ Frame P s s' ∧ req.obj_id ∈ cached resident s' ∧
      s'.freed_reads = s.freed_reads := by
  unfold cached at hout
  rw [mem_union, not_or] at hout
  obtain ⟨hsmall, hmain⟩ := hout
  rw [h.card_cached] at hfree
  unfold S3FIFOd_insert
  split_ifs with hghost
  · obtain ⟨m, hit, hget, hm, hsame, hsub, htaken⟩ := main_get_spec hP h.main hmain hunit
    have hin := htaken hsize
    have hcard : (resident m).card ≤ (resident s.main_fifo).card + 1 :=
      (card_le_card hsub).trans (card_insert_le _ _)
    have hprobe : P.probe m req.obj_id = true := by
      rw [hP.probe m _ hm]
      exact decide_eq_true hin
    refine ⟨{ s with hit_on_ghost := false, main_fifo := m }, ?_,
      { h with main := hm, disjoint := ?_, room := ?_, main_size := ?_ },
      ⟨rfl, rfl, hsame⟩, mem_union_right _ hin, rfl⟩
    · simp [hget, hprobe]
    · exact (disjoint_insert_right.2 ⟨hsmall, h.disjoint⟩).mono_right hsub
    · dsimp only
      omega
    · rw [hsame]
      exact h.main_size
  · have hadd := objects_insert s.small_fifo req 0
    refine ⟨_, rfl, { h with small := h.small.insert 0 (mt mem_objects.2 hsmall) hunit, disjoint := ?_, room :=
      ?_ }, ⟨rfl, rfl, rfl⟩, ?_, rfl⟩
    · rw [hadd]
      exact disjoint_insert_left.2 ⟨hmain, h.disjoint⟩
    · dsimp only
      rw [hadd, card_insert_of_notMem hsmall]
      omega
    · apply mem_union_left
      rw [hadd]
      exact mem_insert_self _ _

end

variable {s' : State σ}

section

variable (hP : MainContract P MInv resident)
include hP

section

variable (h : Inv P MInv resident s)
include h

theorem insert_frame (hout : req.obj_id ∉ cached resident s)
    (hunit : req.obj_size = 1) (hinsert : S3FIFOd_insert P s req = some s') : Frame P s s' := by
  unfold S3FIFOd_insert at hinsert
  split_ifs at hinsert with hghost
  · obtain ⟨m, hit, hget, -, hsame, -⟩ := main_get_spec hP h.main (fun hin => hout (mem_union_right _ hin)) hunit
    obtain ⟨_, hget', hinsert⟩ := Option.bind_eq_some_iff.1 hinsert
    cases hget.symm.trans hget'
    obtain ⟨-, -, hinsert⟩ := Option.bind_eq_some_iff.1 hinsert
    cases hinsert
    exact ⟨rfl, rfl, hsame⟩
  · cases hinsert
    exact ⟨rfl, rfl, rfl⟩

/-! ## Eviction -/

theorem evict_from_main_spec (req : Request)
    (hne : (resident s.main_fifo).Nonempty) :
    ∃ s' v, evict_from_main P s req = some s' ∧ Inv P MInv resident s' ∧ Frame P s s' ∧ s'.small_fifo = s.small_fifo ∧
      s'.freed_reads = s.freed_reads ∧ v ∈ resident s.main_fifo ∧ resident s'.main_fifo = (resident s.main_fifo).erase v := by
  obtain ⟨req_local, hvictim⟩ := hP.to_evict _ h.main hne
  obtain ⟨main_eviction, hit, hget, hrecord, -⟩ := Fifo.FIFO_get_spec h.main_eviction req_local
  obtain ⟨m, v, hevict, hm, hsame, hv, hleft⟩ := hP.evict _ req h.main hne
  have hcard := card_erase_le (a := v) (s := resident s.main_fifo)
  refine ⟨{ s with main_eviction := main_eviction, main_fifo := m }, v, ?_,
    ⟨h.small, hm, h.ghost, h.small_eviction, hrecord, ?_, ?_, ?_⟩, ⟨rfl, rfl, hsame⟩, rfl, rfl, hv, hleft⟩
  · simp [evict_from_main, hvictim, hget, hevict]
  · rw [hleft]
    exact h.disjoint.mono_right (erase_subset v _)
  · dsimp only
    rw [hleft]
    have := h.room
    omega
  · rw [hsame]
    exact h.main_size

theorem shrink_main_spec (req : Request) :
    ∃ s', whileLoop (fun s => P.ops.get_occupied_byte s.main_fifo > P.ops.cache_size s.main_fifo) (evict_from_main P · req)
        (P.n_obj s.main_fifo) s = some s' ∧ Inv P MInv resident s' ∧ Frame P s s' ∧ s'.small_fifo = s.small_fifo ∧
      s'.freed_reads = s.freed_reads ∧ resident s'.main_fifo ⊆ resident s.main_fifo := by
  let I : State σ → Prop := fun t => Inv P MInv resident t ∧ Frame P s t ∧ t.small_fifo = s.small_fifo ∧
    t.freed_reads = s.freed_reads ∧ resident t.main_fifo ⊆ resident s.main_fifo
  have hbody : ∀ t, I t → decide (P.ops.get_occupied_byte t.main_fifo > P.ops.cache_size t.main_fifo) = true →
      ∃ t', evict_from_main P t req = some t' ∧ I t' ∧ P.n_obj t'.main_fifo < P.n_obj t.main_fifo := by
    rintro t ⟨ht, hframe, hsmall, hreads, hsub⟩ hover
    have hne : (resident t.main_fifo).Nonempty := by
      have hsize := ht.main_size
      rw [decide_eq_true_iff, hP.occupied _ ht.main] at hover
      rw [← card_pos]
      omega
    obtain ⟨t', v, hevict, ht', hframe', hsmall', hreads', hv, hleft⟩ := evict_from_main_spec hP ht req hne
    refine ⟨t', hevict, ⟨ht', hframe.trans hframe', hsmall'.trans hsmall, hreads'.trans hreads, ?_⟩, ?_⟩
    · rw [hleft]
      exact (erase_subset v _).trans hsub
    · rw [hP.n_obj _ ht.main, hP.n_obj _ ht'.main, hleft]
      exact card_erase_lt_of_mem hv
  obtain ⟨s', hloop, hI, -⟩ := whileLoop_total I (fun t => P.n_obj t.main_fifo) hbody (P.n_obj s.main_fifo) s
    ⟨h, ⟨rfl, rfl, rfl⟩, rfl, rfl, Finset.Subset.refl _⟩ le_rfl
  exact ⟨s', hloop, hI⟩

end

end

def lose (s : State σ) (id : ObjId) (obj : FifoObj Nat) (freq : Int) : State σ :=
  { s with
    small_fifo := s.small_fifo.cache_remove_obj_base id obj
    freed_reads := s.freed_reads ++ [(freq, obj.md)] }

section
variable {id : ObjId} {obj : FifoObj Nat}

theorem objects_lose (s : State σ) (id : ObjId) (obj : FifoObj Nat) (freq : Int) :
    objects (lose s id obj freq).small_fifo = (objects s.small_fifo).erase id := objects_remove s.small_fifo id obj

theorem reads_lose (s : State σ) (id : ObjId) (obj : FifoObj Nat) (freq : Int) :
    s.freed_reads.length < (lose s id obj freq).freed_reads.length := by simp [lose]

theorem mem_small (hid : s.small_fifo.q.lookup id = some obj) : id ∈ objects s.small_fifo :=
  mem_objects.2 (Table.mem_of_lookup hid)

theorem length_lose (hid : s.small_fifo.q.lookup id = some obj) (freq : Int) :
    (lose s id obj freq).small_fifo.q.entries.length < s.small_fifo.q.entries.length := by
  rw [← card_objects, ← card_objects, objects_lose]
  exact card_erase_lt_of_mem (mem_small hid)

theorem Inv.lose (h : Inv P MInv resident s) (hid : s.small_fifo.q.lookup id = some obj) (freq : Int) :
    Inv P MInv resident (lose s id obj freq) := by
  refine { h with small := h.small.remove hid, disjoint := ?_, room := ?_ }
  · rw [objects_lose]
    exact h.disjoint.mono_left (erase_subset id _)
  · have hroom := h.room
    have hcard := card_erase_le (a := id) (s := objects s.small_fifo)
    rw [objects_lose]
    show _ + ((resident s.main_fifo).card : Int) ≤ s.cache_size
    omega

end

structure Evicted (P : MainPolicy σ) (MInv : σ → Prop) (resident : σ → Finset ObjId) (s s' : State σ) : Prop
    extends Frame P s s' where
  inv : Inv P MInv resident s'
  subset : cached resident s' ⊆ cached resident s
  fewer : evictions_left P s' < evictions_left P s
  spares : objects s.small_fifo = ∅ → objects s'.small_fifo = ∅ ∧ s'.freed_reads = s.freed_reads
  reads : objects s.small_fifo ≠ ∅ → s.freed_reads.length < s'.freed_reads.length

theorem promote_spec (hP : MainContract P MInv resident) (h : Inv P MInv resident s) (req : Request) {id : ObjId} {obj : FifoObj Nat}
    (hid : s.small_fifo.q.lookup id = some obj) (freq : Int) :
    ∃ m s', P.ops.insert s.main_fifo (copy_cache_obj_to_request ⟨id, obj⟩) = some m ∧
      whileLoop (fun s => P.ops.get_occupied_byte s.main_fifo > P.ops.cache_size s.main_fifo) (evict_from_main P · req)
        (P.n_obj m) { lose s id obj freq with main_fifo := m } = some s' ∧ Evicted P MInv resident s s' := by
  have hmem := mem_small hid
  have hout : id ∉ resident s.main_fifo := disjoint_left.1 h.disjoint hmem
  obtain ⟨m, hinsert, hm, hsame, hadd⟩ := hP.insert s.main_fifo (copy_cache_obj_to_request ⟨id, obj⟩) h.main hout
    (h.small.unit id obj hid)
  dsimp only [copy_cache_obj_to_request] at hadd
  have hl := h.lose hid freq
  have hu : Inv P MInv resident { lose s id obj freq with main_fifo := m } := by
    refine { hl with main := hm, disjoint := ?_, room := ?_, main_size := ?_ }
    · rw [hadd]
      refine disjoint_insert_right.2 ⟨?_, hl.disjoint⟩
      rw [objects_lose]
      exact notMem_erase id _
    · have hroom := h.room
      have hcard := card_erase_of_mem hmem
      have hpos := card_pos.2 ⟨id, hmem⟩
      show ((objects (lose s id obj freq).small_fifo).card + (resident m).card : Int) ≤ s.cache_size
      rw [hadd, objects_lose, card_insert_of_notMem hout]
      omega
    · rw [hsame]
      exact h.main_size
  obtain ⟨s', hloop, hinv, hframe, hsmall, hreads, hsub⟩ := shrink_main_spec hP hu req
  dsimp only at hsmall hreads hsub
  have hmain : resident s'.main_fifo ⊆ insert id (resident s.main_fifo) := hadd ▸ hsub
  refine ⟨m, s', hinsert, hloop, { hframe with main_size := hframe.main_size.trans hsame }, hinv, ?_, ?_, ?_, ?_⟩
  · intro x hx
    rcases mem_union.1 hx with hx | hx
    · rw [hsmall, objects_lose] at hx
      exact mem_union_left _ (mem_of_mem_erase hx)
    · rcases mem_insert.1 (hmain hx) with rfl | hx
      · exact mem_union_left _ hmem
      · exact mem_union_right _ hx
  · have hcard := (card_le_card hmain).trans (card_insert_le _ _)
    have hlost := length_lose hid freq
    unfold evictions_left
    rw [hP.n_obj _ h.main, hP.n_obj _ hinv.main, hsmall]
    omega
  · intro hnone
    rw [hnone] at hmem
    exact absurd hmem (notMem_empty id)
  · intro _
    rw [hreads]
    exact reads_lose s id obj freq

theorem demote_spec (h : Inv P MInv resident s) (req_local : Request) {id : ObjId} {obj : FifoObj Nat}
    (hid : s.small_fifo.q.lookup id = some obj) (freq : Int) :
    ∃ ghost small_eviction, s.ghost_fifo.FIFO_get req_local = some ghost ∧
      s.small_eviction.FIFO_get req_local = some small_eviction ∧
      Evicted P MInv resident s { lose s id obj freq with ghost_fifo := ghost.1, small_eviction := small_eviction.1 } := by
  have hmem := mem_small hid
  have hl := h.lose hid freq
  obtain ⟨ghost, hit, hghost, hghost', -⟩ := Fifo.FIFO_get_spec h.ghost req_local
  obtain ⟨small_eviction, hit', hrecord, hrecord', -⟩ := Fifo.FIFO_get_spec h.small_eviction req_local
  refine ⟨_, _, hghost, hrecord, ⟨rfl, rfl, rfl⟩,
    { hl with ghost := hghost', small_eviction := hrecord' }, ?_, ?_, ?_, ?_⟩
  · apply union_subset_union_left
    exact (objects_lose s id obj freq).subset.trans (erase_subset id _)
  · have hlost := length_lose hid freq
    show 2 * (lose s id obj freq).small_fifo.q.entries.length + P.n_obj s.main_fifo < evictions_left P s
    unfold evictions_left
    omega
  · intro hnone
    rw [hnone] at hmem
    exact absurd hmem (notMem_empty id)
  · intro _
    exact reads_lose s id obj freq

theorem evict_spec (freed : Nat → Int) (hP : MainContract P MInv resident) (h : Inv P MInv resident s) (req : Request)
    (hne : (cached resident s).Nonempty) : ∃ s', S3FIFOd_evict P freed s req = some s' ∧ Evicted P MInv resident s s' := by
  unfold S3FIFOd_evict
  split_ifs with hempty
  · have hsmall := h.small_empty_iff.1 hempty
    have hmain : (resident s.main_fifo).Nonempty := by
      unfold cached at hne
      rwa [hsmall, empty_union] at hne
    obtain ⟨s', v, hevict, hinv, hframe, hsame, hreads, hv, hleft⟩ := evict_from_main_spec hP h req hmain
    have hfits : P.ops.get_occupied_byte s.main_fifo ≤ s.cache_size := by
      have := h.room
      rw [hP.occupied _ h.main]
      omega
    refine ⟨s', by simp [hfits, hevict], hframe, hinv, ?_, ?_, fun _ => ⟨by rwa [hsame], hreads⟩, fun hsome => absurd hsmall hsome⟩
    · unfold cached
      rw [hsame, hleft]
      exact union_subset_union_right (erase_subset v _)
    · unfold evictions_left
      rw [hsame, hP.n_obj _ h.main, hP.n_obj _ hinv.main, hleft]
      have := card_erase_lt_of_mem hv
      omega
  · have hsome : (objects s.small_fifo).Nonempty := nonempty_iff_ne_empty.2 (mt h.small_empty_iff.2 hempty)
    obtain ⟨⟨id, obj⟩, hlast⟩ : ∃ e, s.small_fifo.FIFO_to_evict = some e :=
      ⟨_, List.getLast?_eq_some_getLast (entries_ne_nil hsome)⟩
    have hid : s.small_fifo.q.lookup id = some obj := Fifo.lookup_to_evict hlast
    have hremove : s.small_fifo.FIFO_remove id = (s.small_fifo.cache_remove_obj_base id obj, true) := by
      simp [Fifo.FIFO_remove, hid]
    have hobj_id : (copy_cache_obj_to_request ⟨id, obj⟩).obj_id = id := rfl
    obtain ⟨m, s', hinsert, hloop, hpromoted⟩ := promote_spec hP h req hid (freed s.freed_reads.length)
    obtain ⟨ghost, small_eviction, hghost, hrecord, hdemoted⟩ := demote_spec h
      (copy_cache_obj_to_request ⟨id, obj⟩) hid (freed s.freed_reads.length)
    simp only [hlast, hobj_id, hremove, bind, Option.bind_some, guard, if_true]
    split_ifs
    · rw [hinsert]
      exact ⟨s', hloop, hpromoted⟩
    · rw [hghost, hrecord]
      exact ⟨_, rfl, hdemoted⟩

theorem Evicted.trans (h1 : Evicted P MInv resident s1 s2) (h2 : Evicted P MInv resident s2 s3) :
    Evicted P MInv resident s1 s3 := by
  refine ⟨h1.toFrame.trans h2.toFrame, h2.inv, h2.subset.trans h1.subset, h2.fewer.trans h1.fewer, ?_, ?_⟩
  · intro hnone
    obtain ⟨hnone', hreads⟩ := h1.spares hnone
    exact ⟨(h2.spares hnone').1, (h2.spares hnone').2.trans hreads⟩
  · intro hsome
    have hlonger := h1.reads hsome
    by_cases hnone' : objects s2.small_fifo = ∅
    · rwa [(h2.spares hnone').2]
    · exact hlonger.trans (h2.reads hnone')

/-! ## A get -/

structure Sized (P : MainPolicy σ) (s : State σ) : Prop where
  small : 1 ≤ s.small_fifo.cache_size
  main : 1 ≤ P.ops.cache_size s.main_fifo
  sum : s.small_fifo.cache_size + P.ops.cache_size s.main_fifo = s.cache_size

theorem Frame.sized {s s' : State σ} (h : Frame P s s') (hs : Sized P s) : Sized P s' := by
  obtain ⟨hsmall, hmain, hsum⟩ := hs
  refine ⟨?_, ?_, ?_⟩
  · rwa [h.small_size]
  · rwa [h.main_size]
  · rwa [h.small_size, h.main_size, h.cache_size]

theorem full_for_iff (hP : MainContract P MInv resident) (h : Inv P MInv resident s) (hunit : req.obj_size = 1) :
    (ops P freed).full_for req s = true ↔ s.cache_size ≤ (cached resident s).card := by
  rw [CacheOps.full_for_iff, hunit]
  show s.cache_size < S3FIFOd_get_occupied_byte P s + 1 + 0 ↔ _
  rw [h.occupied hP]
  omega

theorem make_room_spec (freed : Nat → Int) (hP : MainContract P MInv resident) (h : Inv P MInv resident s)
    (hs : Sized P s) (hunit : req.obj_size = 1) :
    ∃ s', whileLoop ((ops P freed).full_for req) ((ops P freed).evict · req) (evictions_left P s) s = some s' ∧
      Inv P MInv resident s' ∧ ((cached resident s').card : Int) < s'.cache_size ∧
      (s' = s ∨ s.cache_size ≤ (cached resident s).card ∧ Evicted P MInv resident s s') := by
  let I : State σ → Prop := fun t => Inv P MInv resident t ∧ Sized P t ∧
    (t = s ∨ s.cache_size ≤ (cached resident s).card ∧ Evicted P MInv resident s t)
  have hbody : ∀ t, I t → (ops P freed).full_for req t = true →
      ∃ t', (ops P freed).evict t req = some t' ∧ I t' ∧ evictions_left P t' < evictions_left P t := by
    rintro t ⟨ht, hsized, hfrom⟩ hfull
    have hcard := (full_for_iff hP ht hunit).1 hfull
    have hne : (cached resident t).Nonempty := by
      obtain ⟨hsmall, hmain, hsum⟩ := hsized
      rw [← card_pos]
      omega
    obtain ⟨t', hevict, hstep⟩ := evict_spec freed hP ht req hne
    refine ⟨t', hevict, ⟨hstep.inv, hstep.toFrame.sized hsized, .inr ?_⟩, hstep.fewer⟩
    rcases hfrom with rfl | ⟨hfull', hfrom⟩
    · exact ⟨hcard, hstep⟩
    · exact ⟨hfull', hfrom.trans hstep⟩
  obtain ⟨s', hloop, ⟨hinv, -, hevicted⟩, hroom⟩ := whileLoop_total I (evictions_left P) hbody (evictions_left P s) s
    ⟨h, hs, .inl rfl⟩ le_rfl
  refine ⟨s', hloop, hinv, ?_, hevicted⟩
  by_contra hfull
  rw [(full_for_iff hP hinv hunit).2 (by omega)] at hroom
  exact absurd hroom (by decide)

theorem Inv.count_req (h : Inv P MInv resident s) : Inv P MInv resident { s with n_req := s.n_req + 1 } :=
  { h with }

theorem get_base_frame (hP : MainContract P MInv resident) (h : Inv P MInv resident s) (hpos : 1 ≤ s.cache_size)
    (hunit : req.obj_size = 1) {hit : Bool}
    (hget : (ops P freed).cache_get_base (evictions_left P) s req = some (s', hit)) : Frame P s s' := by
  let Miss : State σ → Prop := fun t => Inv P MInv resident t ∧ Frame P s t ∧ req.obj_id ∉ cached resident t
  apply cache_get_base_inv (· = s) Miss (Frame P s) ?_ ?_ ?_ ?_ rfl hget
  · rintro t t' hit rfl hfind
    obtain ⟨u, hu, hinv, hkept⟩ := find_spec hP h.count_req req
    cases hu.symm.trans hfind
    have hframe : Frame P t t' := { hkept with }
    split_ifs with hin
    · exact hframe
    · rw [decide_eq_true_iff, ← hkept.cached] at hin
      exact ⟨hinv, hframe, hin⟩
  · intro t t' admitted ht hcan
    cases hcan
    split_ifs
    · exact ht
    · exact ht.2.1
  · rintro t t' ⟨ht, hframe, hout⟩ hfull hevict
    have hne : (cached resident t).Nonempty := by
      have hcard := (full_for_iff hP ht hunit).1 hfull
      rw [hframe.cache_size] at hcard
      rw [← card_pos]
      omega
    obtain ⟨u, hu, hevicted⟩ := evict_spec freed hP ht req hne
    cases hu.symm.trans hevict
    exact ⟨hevicted.inv, hframe.trans hevicted.toFrame, fun hin => hout (hevicted.subset hin)⟩
  · rintro t t' ⟨ht, hframe, hout⟩ - hinsert
    exact hframe.trans (insert_frame hP ht hout hunit hinsert)

theorem get_base_spec (freed : Nat → Int) (hP : MainContract P MInv resident) (h : Inv P MInv resident s)
    (hs : Sized P s) (hunit : req.obj_size = 1) :
    ∃ s' hit, (ops P freed).cache_get_base (evictions_left P) s req = some (s', hit) ∧ Inv P MInv resident s' ∧ Frame P s s' ∧
      req.obj_id ∈ cached resident s' ∧ (s'.freed_reads = s.freed_reads ↔
        req.obj_id ∈ cached resident s ∨ (cached resident s).card < s.cache_size ∨ objects s.small_fifo = ∅) := by
  obtain ⟨t, hfind, ht, hkept⟩ := find_spec hP h.count_req req
  have hcached : cached resident t = cached resident s := hkept.cached
  have hframe : Frame P s t := { hkept with }
  have hsized := hframe.sized hs
  by_cases hin : req.obj_id ∈ cached resident s
  · have hfind' : (ops P freed).find ((ops P freed).count_req s) req = some (t, true) := hfind.trans (by
      rw [decide_eq_true (by exact hin)])
    refine ⟨t, true, cache_get_base_hit hfind', ht, hframe, hcached ▸ hin, iff_of_true hkept.freed_reads (.inl hin)⟩
  · have hfind' : (ops P freed).find ((ops P freed).count_req s) req = some (t, false) := hfind.trans (by
      rw [decide_eq_false (by exact hin)])
    have hcan : (ops P freed).can_insert t req = some (t, true) := by
      have hfits : S3FIFOd_can_insert t req = true := by
        obtain ⟨hsmall, hmain, hsum⟩ := hsized
        simp only [S3FIFOd_can_insert, hunit, Bool.and_eq_true, decide_eq_true_iff, Bool.not_eq_true', decide_eq_false_iff_not]
        omega
      exact congrArg (fun b => some (t, b)) hfits
    obtain ⟨u, hloop, hu, hroom, hevicted⟩ := make_room_spec freed hP ht hsized hunit
    have hframe' : Frame P s u := by
      rcases hevicted with rfl | ⟨-, hevicted⟩
      · exact hframe
      · exact hframe.trans hevicted.toFrame
    have hout : req.obj_id ∉ cached resident u := by
      rw [← hcached] at hin
      rcases hevicted with rfl | ⟨-, hevicted⟩
      · exact hin
      · exact fun hmem => hin (hevicted.subset hmem)
    obtain ⟨s', hinsert, hs', hframe'', hmem, hreads⟩ := insert_spec hP hu hout hunit (hframe'.sized hs).main hroom
    refine ⟨s', false, cache_get_base_insert hfind' hcan hloop hinsert, hs', hframe'.trans hframe'', hmem, ?_⟩
    have hreads' : t.freed_reads = s.freed_reads := hkept.freed_reads
    have hsmall : objects t.small_fifo = objects s.small_fifo := hkept.small
    rw [hreads]
    rcases hevicted with rfl | ⟨hfull, hevicted⟩
    · rw [hcached, hframe.cache_size] at hroom
      exact iff_of_true hreads' (.inr (.inl hroom))
    · rw [hcached, hframe.cache_size] at hfull
      constructor
      · intro heq
        by_contra hnot
        rw [not_or, not_or, ← hsmall] at hnot
        have hlonger := hevicted.reads hnot.2.2
        rw [heq, hreads'] at hlonger
        exact lt_irrefl _ hlonger
      · rintro (hmem' | hfree | hnone)
        · exact absurd hmem' hin
        · omega
        · rw [← hsmall] at hnone
          exact (hevicted.spares hnone).2.trans hreads'

end CacheSim.S3fifod
