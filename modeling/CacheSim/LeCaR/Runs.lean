import CacheSim.LeCaR.Proofs

/-!
# Every sequence of gets
-/

namespace CacheSim.LeCaR

open Lib List AList

variable {W : Type} (E : Experts W)

def step (s : State W) (req : Request) : Option (State W) := (LeCaR_get E s req).map (·.1)

def hits : State W → List Request → ObjId → Nat
  | _, [], _ => 0
  | s, req :: reqs, id =>
    match LeCaR_get E s req with
    | none => 0
    | some (t, hit) => (if hit ∧ req.obj_id = id then 1 else 0) + hits t reqs id

variable (reqs : List Request)

/-- The number of the last get of an object, 0 if there was none. A resident has the frequency it
reached with that get: it was inserted or hit. -/
def last_get (id : ObjId) : Nat :=
  reqs.length - reqs.reverse.findIdx fun r => r.obj_id == id

theorem last_get_append (r : Request) (id : ObjId) :
    last_get (reqs ++ [r]) id = if r.obj_id = id then reqs.length + 1 else last_get reqs id := by
  unfold last_get
  rw [reverse_concat, findIdx_cons, length_append]
  by_cases h : r.obj_id = id
  · simp [h]
  · rw [if_neg h, beq_false_of_ne h, cond_false, length_singleton]
    omega

structure TwinExperts (reqs : List Request) (s : State W) : Prop where
  nodup : s.q.Nodup
  residents : ∀ x, x ∈ s.q ↔ ∃ o, s.hashtable.lookup x = some o ∧ o.is_ghost = false
  lfu : ∀ x, (∃ f n, s.freq_map f = some n ∧ x ∈ n.objs) ↔ x ∈ s.q
  level : ∀ f n, s.freq_map f = some n →
    (∀ x, x ∈ n.objs ↔ ∃ o, s.hashtable.lookup x = some o ∧ o.is_ghost = false ∧ o.freq = f) ∧
    n.objs.Pairwise (fun x y => last_get reqs x < last_get reqs y) ∧ n.n_obj = n.objs.length
  min_freq : s.q ≠ [] → (∃ n, s.freq_map s.min_freq = some n ∧ n.objs ≠ []) ∧
    ∀ f n, s.freq_map f = some n → n.objs ≠ [] → s.min_freq ≤ f
  ghost_lru : Remembers s.hashtable s.obj_md_size 1 s.ghost_lru ∧ s.ghost_lru.occupied_byte ≤ s.cache_size / 2
  ghost_lfu : Remembers s.hashtable s.obj_md_size 2 s.ghost_lfu ∧ s.ghost_lfu.occupied_byte ≤ s.cache_size / 2
  occupied : s.occupied_byte = s.hashtable.weigh fun _ o => if o.is_ghost then 0 else o.obj_size + s.obj_md_size

variable {E} {s t : State W}

/-! ## The gets so far -/

/-- The LRU list is in the order of the last gets; a frequency counts the hits and the insertion. -/
structure Tracks (reqs : List Request) (count : ObjId → Nat) (s : State W) : Prop where
  recent : s.q.Pairwise fun x y => last_get reqs y < last_get reqs x
  freq : ∀ x ∈ s.q, ∀ o, s.hashtable.lookup x = some o → o.freq ≤ 1 + count x

variable {count : ObjId → Nat} {reqs : List Request} {req : Request}

theorem Tracks.served {hit : Bool} (h : Tracks reqs count s)
    (hs : Served s req t hit) :
    Tracks (reqs ++ [req]) (fun id => count id + if hit ∧ req.obj_id = id then 1 else 0) t := by
  obtain ⟨q, htq, hnot, hsub, hlook⟩ := hs.others
  have hold : ∀ x ∈ q, last_get (reqs ++ [req]) x = last_get reqs x := by
    intro x hx
    rw [last_get_append, if_neg]
    rintro rfl
    exact hnot hx
  have hq : q.Pairwise fun x y => last_get (reqs ++ [req]) y < last_get (reqs ++ [req]) x := by
    refine (h.recent.sublist hsub).imp_of_mem ?_
    intro x y hx hy hlt
    rwa [hold x hx, hold y hy]
  have hqfreq : ∀ x ∈ q, ∀ o, t.hashtable.lookup x = some o →
      o.freq ≤ 1 + ((count x + if hit ∧ req.obj_id = x then 1 else 0 : Nat) : Int) := by
    intro x hx o ho
    have := h.freq x (hsub.mem hx) o ((hlook x hx).symm.trans ho)
    omega
  rcases htq with htq | htq
  · exact ⟨htq ▸ hq, htq ▸ hqfreq⟩
  · constructor
    · rw [htq, pairwise_cons]
      refine ⟨?_, hq⟩
      intro y hy
      rw [hold y hy, last_get_append, if_pos rfl]
      exact Nat.lt_succ_of_le (Nat.sub_le _ _)
    · intro x hx o ho
      rw [htq, mem_cons] at hx
      rcases hx with rfl | hx
      · have hfreq := hs.freq o (by simp [htq]) ho
        split_ifs at hfreq with hhit
        · obtain ⟨o0, ho0, heq⟩ := hfreq
          have := h.freq _ (hs.hit_iff.1 hhit) o0 ho0
          simp only [hhit]
          simp
          omega
        · omega
      · exact hqfreq x hx o ho

theorem runs_track {reqs past : List Request} (hc : Core s) (ho : Ordered s) (ht : Tracks past count s)
    (hsize : ∀ r ∈ reqs, 0 ≤ r.obj_size) (hhits : ∀ id, count id + hits E s reqs id < 2 ^ 23 - 1) :
    ∃ t count', runs (step E) s reqs = some t ∧ Core t ∧ Ordered t ∧ Tracks (past ++ reqs) count' t := by
  induction reqs generalizing s past count with
  | nil => exact ⟨s, count, rfl, hc, ho, by simpa using ht⟩
  | cons req reqs ih =>
    have hfreq : ∀ o, s.hashtable.lookup req.obj_id = some o → o.is_ghost = false → o.freq < 2 ^ 23 - 1 := by
      intro o hlook hr
      obtain ⟨t, hget, -⟩ := LeCaR_get_hit (E := E) hc hlook hr
      have hlt := hhits req.obj_id
      have hle := ht.freq _ ((hc.residents.mem _).2 ⟨o, hlook, hr⟩) o hlook
      simp only [hits, hget] at hlt
      simp at hlt
      omega
    obtain ⟨t, hit, hget, hct, hot, hserved⟩ := LeCaR_get_spec (E := E) hc ho (hsize req (by simp)) hfreq
    have hstep : step E s req = some t := by simp [step, hget]
    have hrest : ∀ id, (count id + if hit ∧ req.obj_id = id then 1 else 0) + hits E t reqs id < 2 ^ 23 - 1 := by
      intro id
      have hlt := hhits id
      simp only [hits, hget] at hlt
      omega
    obtain ⟨u, count', hruns, hcu, hou, htu⟩ := ih hct hot (ht.served hserved) (fun r hr => hsize r (by simp [hr])) hrest
    refine ⟨u, count', by simp [runs_cons, hstep, hruns], hcu, hou, ?_⟩
    rwa [append_assoc, singleton_append] at htu

/-! ## The experts after every get -/

theorem twinExperts_of_tracks (hc : Core s) (ho : Ordered s) (ht : Tracks reqs count s) : TwinExperts reqs s := by
  have hnode : ∀ {f n}, s.freq_map f = some n → n = node s.freq_map f := fun hn => by simp [node, hn]
  have hobjs : ∀ {f n}, s.freq_map f = some n → n.objs = level s.q s.hashtable f :=
    fun hn => by rw [hnode hn, hc.residents.levels.objs]
  have hmem : ∀ f x, x ∈ level s.q s.hashtable f ↔ ∃ o, s.hashtable.lookup x = some o ∧ o.is_ghost = false ∧ o.freq = f := by
    intro f x
    rw [mem_level, hc.residents.mem]
    constructor
    · rintro ⟨⟨o, hlook, hr⟩, o', hlook', hf⟩
      obtain rfl : o = o' := Option.some.inj (hlook.symm.trans hlook')
      exact ⟨o, hlook, hr, hf⟩
    · rintro ⟨o, hlook, hr, hf⟩
      exact ⟨⟨o, hlook, hr⟩, o, hlook, hf⟩
  constructor
  · exact hc.residents.nodup
  · exact hc.residents.mem
  · intro x
    constructor
    · rintro ⟨f, n, hn, hx⟩
      rw [hobjs hn] at hx
      exact (mem_level.1 hx).1
    · intro hx
      obtain ⟨o, hlook, hr⟩ := hc.resident_of_mem hx
      obtain ⟨n, hn⟩ := hc.residents.levels.exists_node hx hlook
      refine ⟨o.freq, n, hn, ?_⟩
      rw [hobjs hn, hmem]
      exact ⟨o, hlook, hr, rfl⟩
  · intro f n hn
    rw [hobjs hn]
    refine ⟨hmem f, ?_, ?_⟩
    · apply List.Pairwise.sublist filter_sublist
      rw [pairwise_reverse]
      exact ht.recent
    · rw [hnode hn, hc.residents.levels.n_obj]
  · intro hne
    obtain ⟨x, hx, hf⟩ := ho.min_freq.attained hne
    obtain ⟨n, hn⟩ := hc.min_node
    refine ⟨⟨n, hn, ?_⟩, ?_⟩
    · rw [hobjs hn]
      exact ne_nil_of_mem (mem_level.2 ⟨hx, has_freq_iff.1 hf⟩)
    · intro f n hn hne
      rw [hobjs hn] at hne
      obtain ⟨y, hy⟩ := exists_mem_of_ne_nil _ hne
      obtain ⟨hyq, o, hlook, rfl⟩ := mem_level.1 hy
      exact ho.min_freq.le y hyq o hlook
  · exact ⟨hc.lru, hc.lru_le⟩
  · exact ⟨hc.lfu, hc.lfu_le⟩
  · exact hc.residents.bytes

/-- For every choice of the weights and the random numbers: gets that hit each object fewer than
`2 ^ 23 - 1` times return, and the experts agree after them. -/
theorem gets_keep_twin_experts (E : Experts W) (cache_size : Nat) (md : Bool) (reqs : List Request)
    (hsize : ∀ r ∈ reqs, 1 ≤ r.obj_size)
    (hhits : ∀ id, hits E (LeCaR_init E cache_size md) reqs id < 2 ^ 23 - 1) :
    ∃ s, runs (step E) (LeCaR_init E cache_size md) reqs = some s ∧ TwinExperts reqs s := by
  have hstart : Tracks [] (fun _ => 0) (LeCaR_init E cache_size md) :=
    ⟨List.Pairwise.nil, by simp [LeCaR_init]⟩
  obtain ⟨t, count, hruns, hc, ho, ht⟩ := runs_track (init_core cache_size md)
    (init_ordered cache_size md) hstart (fun r hr => by have := hsize r hr; omega)
    (fun id => by simpa using hhits id)
  exact ⟨t, hruns, twinExperts_of_tracks hc ho ht⟩

theorem hits_le (s : State W) (reqs : List Request) (id : ObjId) : hits E s reqs id ≤ reqs.countP (·.obj_id = id) := by
  induction reqs generalizing s with
  | nil => exact le_rfl
  | cons req reqs ih =>
    unfold hits
    rw [countP_cons]
    split
    · exact Nat.zero_le _
    · rename_i t hit _
      have := ih t
      by_cases hid : req.obj_id = id
      · simp only [hid, decide_true]
        split_ifs <;> omega
      · simp only [hid, decide_false]
        simpa using this

theorem hits_cons_of_miss (h : LeCaR_get E s req = some (t, false)) (reqs : List Request) (id : ObjId) :
    hits E s (req :: reqs) id = hits E t reqs id := by
  simp [hits, h]

def even_weights : Experts Unit where
  init := ()
  picks_lru r _ := r < 50
  update_lru _ w := w
  update_lfu _ w := w
  next_rand n := 37 * n

theorem gets_keep_twin_experts_of_five : ∃ s, runs (step even_weights) (LeCaR_init even_weights 2 false)
    [{ obj_id := 1 }, { obj_id := 2 }, { obj_id := 1 }, { obj_id := 3 }, { obj_id := 2 }] = some s ∧
      TwinExperts [{ obj_id := 1 }, { obj_id := 2 }, { obj_id := 1 }, { obj_id := 3 }, { obj_id := 2 }] s := by
  apply gets_keep_twin_experts even_weights 2 false _ (by decide)
  intro id
  calc hits even_weights _ _ id ≤ _ := hits_le _ _ id
    _ ≤ 5 := countP_le_length
    _ < 2 ^ 23 - 1 := by decide

theorem runs_hits (req : Request) (n : Nat) {f size : Int} (hc : Core s) (hq : s.q = [req.obj_id])
    (ho : s.hashtable.lookup req.obj_id = some { obj_size := size, freq := f }) (h0 : 0 ≤ f) (hn : f + n < 2 ^ 23) :
    ∃ t, runs (step E) s (List.replicate n req) = some t ∧ Core t ∧ t.q = [req.obj_id] ∧
      t.hashtable.lookup req.obj_id = some { obj_size := size, freq := f + n } ∧ t.obj_md_size = s.obj_md_size ∧
      t.cache_size = s.cache_size ∧ t.occupied_byte = s.occupied_byte ∧ ∀ x ∉ s.hashtable, x ∉ t.hashtable := by
  induction n generalizing s f with
  | zero => exact ⟨s, rfl, hc, hq, by simpa using ho, rfl, rfl, rfl, fun _ h => h⟩
  | succ n ih =>
    obtain ⟨t, hget, hct, htq, htable, hmd, hcap, hocc, -⟩ := LeCaR_get_hit (E := E) hc ho rfl
    have hfreq : bit_field 24 (f + 1) = f + 1 := bit_field_freq (by omega) (by push_cast at hn; omega)
    rw [hq, erase_cons_head] at htq
    have ho' : t.hashtable.lookup req.obj_id = some { obj_size := size, freq := f + 1 } := by
      rw [htable, lookup_insert, hfreq]
    obtain ⟨u, hu, hcu, huq, huo, humd, hucap, huocc, hout⟩ := ih hct htq ho' (by omega) (by push_cast at hn; omega)
    refine ⟨u, ?_, hcu, huq, ?_, humd.trans hmd, hucap.trans hcap, huocc.trans hocc, ?_⟩
    · rw [replicate_succ, runs_cons]
      simp [step, hget, hu]
    · rw [huo]
      push_cast
      rw [add_assoc, add_comm (1 : Int)]
    · intro x hx
      apply hout
      rw [htable]
      intro hmem
      rcases (mem_insert _).1 hmem with rfl | hmem
      · exact hx (Table.mem_of_lookup ho)
      · exact hx hmem

/-- Object 1 is hit `2 ^ 23 - 1` times in a cache of size 2. Its frequency is now the lowest number
of a field of 24 bits, and the insertion of object 2 sets `min_freq` to 1. -/
theorem gets_lose_min_freq : ¬ ∀ reqs : List Request, (∀ r ∈ reqs, 1 ≤ r.obj_size) →
    (∀ id, hits even_weights (LeCaR_init even_weights 2 false) reqs id < 2 ^ 23) →
    ∃ s, runs (step even_weights) (LeCaR_init even_weights 2 false) reqs = some s ∧ TwinExperts reqs s := by
  intro hall
  set r1 : Request := { obj_id := 1 }
  set r2 : Request := { obj_id := 2 }
  set s0 := LeCaR_init even_weights 2 false
  have hc0 : Core s0 := init_core 2 false
  -- the insertion of object 1
  set s1 := LeCaR_insert ((ops even_weights).count_req s0) r1
  have hget1 : LeCaR_get even_weights s0 r1 = some (s1, false) := LeCaR_get_room (notMem_empty _) (by decide) (by decide)
  have hc1 : Core s1 := (LeCaR_insert_spec hc0.count_req (notMem_empty _) (by decide)).1
  -- its hits, up to the largest frequency
  obtain ⟨s2, hruns, hc2, hq2, ho2, hmd2, hcap2, hocc2, hout2⟩ := runs_hits (E := even_weights) r1 (2 ^ 23 - 2) hc1
    rfl (lookup_insert _) (by decide) (by decide)
  -- one more
  obtain ⟨s3, hget3, hc3, hq3, htable3, hmd3, hcap3, hocc3, -⟩ := LeCaR_get_hit (E := even_weights) hc2 ho2 rfl
  have hfreq : bit_field 24 (1 + ((2 ^ 23 - 2 : Nat) : Int) + 1) = -2 ^ 23 := by decide
  have ho3 : s3.hashtable.lookup 1 = some { obj_size := 1, freq := -2 ^ 23 } := by
    rw [htable3]
    exact (lookup_insert _).trans (by rw [hfreq])
  -- the insertion of object 2
  have hmiss : r2.obj_id ∉ s3.hashtable := by
    rw [htable3]
    intro hmem
    rcases (mem_insert _).1 hmem with heq | hmem
    · exact absurd heq (by decide)
    · exact hout2 2 (by decide) hmem
  have hocc : s3.occupied_byte = 1 := hocc3.trans (hocc2.trans rfl)
  have hmd : s3.obj_md_size = 0 := hmd3.trans (hmd2.trans rfl)
  have hcap : s3.cache_size = 2 := hcap3.trans (hcap2.trans rfl)
  have hget4 : LeCaR_get even_weights s3 r2 = some (LeCaR_insert ((ops even_weights).count_req s3) r2, false) :=
    LeCaR_get_room hmiss (by rw [hocc]; decide) (by rw [hocc, hmd, hcap]; decide)
  set s4 := LeCaR_insert ((ops even_weights).count_req s3) r2
  set reqs := r1 :: (List.replicate (2 ^ 23 - 2) r1 ++ [r1, r2]) with hreqs
  have hrun : runs (step even_weights) s0 reqs = some s4 := by
    have h₁ : step even_weights s0 r1 = some s1 := by simp [step, hget1]
    have h3 : step even_weights s2 r1 = some s3 := by simp [step, hget3]
    have h4 : step even_weights s3 r2 = some s4 := by simp [step, hget4]
    rw [runs_cons, h₁, Option.bind_some, runs_append, hruns, Option.bind_some, runs_cons, h3, Option.bind_some, runs_cons, h4]
    rfl
  have hsizes : ∀ r ∈ reqs, 1 ≤ r.obj_size := by
    intro r hr
    simp only [hreqs, mem_cons, mem_append, mem_replicate, not_mem_nil, or_false] at hr
    rcases hr with rfl | ⟨-, rfl⟩ | rfl | rfl <;> decide
  have hhits : ∀ id, hits even_weights s0 reqs id < 2 ^ 23 := by
    intro id
    have hcount : ([r1, r2] : List Request).countP (·.obj_id = id) ≤ 1 := by
      by_cases h1 : (1 : Nat) = id
      · subst h1
        decide
      · by_cases h2 : (2 : Nat) = id
        · subst h2
          decide
        · simp [r1, r2, h1, h2]
    calc hits even_weights s0 reqs id
        = hits even_weights s1 (List.replicate (2 ^ 23 - 2) r1 ++ [r1, r2]) id := hits_cons_of_miss hget1 _ id
      _ ≤ (List.replicate (2 ^ 23 - 2) r1 ++ [r1, r2]).countP (·.obj_id = id) := hits_le _ _ id
      _ ≤ (List.replicate (2 ^ 23 - 2) r1).length + 1 := by
          rw [countP_append]
          exact Nat.add_le_add countP_le_length hcount
      _ < 2 ^ 23 := by
          rw [length_replicate]
          decide
  obtain ⟨s, hs, htwin⟩ := hall reqs hsizes hhits
  obtain rfl : s4 = s := Option.some.inj (hrun.symm.trans hs)
  have ho4 : s4.hashtable.lookup 1 = some { obj_size := 1, freq := -2 ^ 23 } :=
    (lookup_insert_ne (by decide)).trans ho3
  obtain ⟨f, n, hn, hmem⟩ := (htwin.lfu 1).2 ((htwin.residents 1).2 ⟨_, ho4, rfl⟩)
  obtain ⟨o, ho, -, hf⟩ := ((htwin.level f n hn).1 1).1 hmem
  have hle := (htwin.min_freq (cons_ne_nil _ _)).2 f n hn (ne_nil_of_mem hmem)
  rw [← hf, ← Option.some.inj (ho4.symm.trans ho)] at hle
  have hone : (1 : Int) ≤ -2 ^ 23 := hle
  exact absurd hone (by decide)

end CacheSim.LeCaR
