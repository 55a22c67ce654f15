import CacheSim.Merlin.Model

/-!
# The records of Merlin and their histogram
-/

namespace CacheSim.Merlin

open Lib Function

variable {κ : Type} {K : Sketch κ}

def State.md (s : State κ) (t : Tier) (id : ObjId) : Option Md := ((s.queue t).q.lookup id).map (·.md)

/-- Where an id can have records: in one queue only, or in `staging` and in `ghost` if it says so. -/
inductive Placed : (filter staging core ghost : Option Md) → Prop
  | nowhere : Placed none none none none
  | filter {m : Md} : m.freq ≤ kMaxFrequency → Placed (some m) none none none
  | staging {m : Md} : m.freq ≤ kMaxFrequency → Placed none (some m) none none
  | core {m : Md} : m.freq ≤ kMaxFrequency → Placed none none (some m) none
  | ghost {g : Md} : g.freq ≤ kMaxFrequency → Placed none none none (some g)
  | both {m g : Md} : m.inghost = true → m.freq ≤ kMaxFrequency → g.freq ≤ kMaxFrequency →
      Placed none (some m) none (some g)

def reaches (f freq : Nat) : Int := if f ≤ freq then 1 else 0

def countIn (f : Nat) (c : Fifo Md) : Int := c.q.weigh fun _ o => reaches f o.md.freq

def count (s : State κ) (f : Nat) : Int :=
  countIn f (s.queue .filter) + countIn f (s.queue .staging) + countIn f (s.queue .core) + countIn f (s.queue .ghost)

structure Inv (s : State κ) : Prop where
  placed : ∀ x, Placed (s.md .filter x) (s.md .staging x) (s.md .core x) (s.md .ghost x)
  population : ∀ f, s.frequency_population f = count s f

/-! ## One queue changes -/

variable {s : State κ} {t u : Tier} {x y : ObjId} {f : Nat}

theorem md_some {o : FifoObj Md} (h : (s.queue t).q.lookup x = some o) : s.md t x = some o.md := by
  unfold State.md
  rw [h]
  rfl

theorem md_none : s.md t x = none ↔ x ∉ (s.queue t).q := by
  unfold State.md
  rw [Option.map_eq_none_iff, AList.lookup_eq_none]

variable {o i : Nat} {c : Fifo Md} {req : Request} {m : Md} {d : Int}

theorem queue_set : (s.set t c).queue u = if u = t then c else s.queue u := by
  show update s.queue t c u = _
  rcases eq_or_ne u t with rfl | hu
  · rw [update_self, if_pos rfl]
  · rw [update_of_ne hu, if_neg hu]

theorem md_set : (s.set t c).md u y = if u = t then (c.q.lookup y).map (·.md) else s.md u y := by
  unfold State.md
  rw [queue_set]
  split_ifs <;> rfl

@[simp] theorem md_insert :
    (s.insert t req m).md u y = if u = t ∧ y = req.obj_id then some m else s.md u y := by
  unfold State.insert
  rw [md_set]
  rcases eq_or_ne u t with rfl | hu
  · rw [if_pos rfl]
    rcases eq_or_ne y req.obj_id with rfl | hy
    · rw [if_pos ⟨rfl, rfl⟩]
      exact congrArg _ (AList.lookup_insert _)
    · rw [if_neg (fun h => hy h.2)]
      exact congrArg _ (AList.lookup_insert_ne hy)
  · rw [if_neg hu, if_neg (fun h => hu h.1)]

@[simp] theorem md_remove : (s.remove t x).md u y = if u = t ∧ y = x then none else s.md u y := by
  unfold State.remove
  rw [md_set, Fifo.lookup_FIFO_remove]
  rcases eq_or_ne u t with rfl | hu
  · rcases eq_or_ne y x with rfl | hy
    · simp
    · simp [hy, State.md]
  · simp [hu]

theorem countIn_insert (h : req.obj_id ∉ c.q) : countIn f (c.FIFO_insert req m) = countIn f c + reaches f m.freq := by
  rw [Int.add_comm]
  exact Table.weigh_insert_of_notMem (fun _ (o : FifoObj Md) => reaches f o.md.freq) _ h

theorem countIn_remove {o : FifoObj Md} (h : c.q.lookup x = some o) :
    countIn f (c.FIFO_remove x).1 = countIn f c - reaches f o.md.freq := by
  unfold Fifo.FIFO_remove
  rw [h]
  exact Table.weigh_erase (fun _ (o : FifoObj Md) => reaches f o.md.freq) h

theorem countIn_set_md {o : FifoObj Md} (h : c.q.lookup x = some o) :
    countIn f (c.set_md x o m) = countIn f c - reaches f o.md.freq + reaches f m.freq :=
  Table.weigh_replace (fun _ (o : FifoObj Md) => reaches f o.md.freq) h _

theorem count_set (c : Fifo Md) : count (s.set t c) f = count s f - countIn f (s.queue t) + countIn f c := by
  unfold count
  simp only [queue_set]
  cases t <;> simp <;> omega

theorem count_insert (h : s.md t req.obj_id = none) : count (s.insert t req m) f = count s f + reaches f m.freq := by
  unfold State.insert
  rw [count_set, countIn_insert (md_none.1 h)]
  omega

theorem count_remove (h : s.md t x = some m) : count (s.remove t x) f = count s f - reaches f m.freq := by
  obtain ⟨o, ho, rfl⟩ := Option.map_eq_some_iff.1 h
  unfold State.remove
  rw [count_set, countIn_remove ho]
  omega

/-! ## The histogram changes -/

@[simp] theorem md_decrease : (s.decrease o d).md u y = s.md u y := rfl

@[simp] theorem count_decrease : count (s.decrease o d) f = count s f := rfl

@[simp] theorem md_bump : (s.bump i).md u y = s.md u y := rfl

@[simp] theorem count_bump : count (s.bump i) f = count s f := rfl

@[simp] theorem md_sketch_add : (s.sketch_add K x).md u y = s.md u y := rfl

@[simp] theorem count_sketch_add : count (s.sketch_add K x) f = count s f := rfl

@[simp] theorem population_sketch_add : (s.sketch_add K x).frequency_population = s.frequency_population := rfl

@[simp] theorem population_insert :
    (s.insert t req m).frequency_population = s.frequency_population := rfl

@[simp] theorem population_remove : (s.remove t x).frequency_population = s.frequency_population := rfl

theorem decrease_population_apply (p : Nat → Int) (ori_freq : Nat) (dest_freq : Int) (f : Nat) :
    decrease_population p ori_freq dest_freq f = p f - if dest_freq < f ∧ f ≤ ori_freq then 1 else 0 := by
  induction ori_freq generalizing p with
  | zero =>
    unfold decrease_population
    by_cases hgo : ((0 : Nat) : Int) > dest_freq
    · rw [if_pos hgo]
      rcases eq_or_ne f 0 with rfl | hf
      · rw [if_pos ⟨hgo, le_rfl⟩]
        exact update_self ..
      · rw [if_neg (by omega), sub_zero]
        exact update_of_ne hf ..
    · rw [if_neg hgo, if_neg (by omega), sub_zero]
  | succ n ih =>
    unfold decrease_population
    by_cases hgo : ((n + 1 : Nat) : Int) > dest_freq
    · rw [if_pos hgo]
      dsimp only
      rw [ih]
      rcases eq_or_ne f (n + 1) with rfl | hf
      · rw [update_self, if_neg (by omega), if_pos ⟨hgo, le_rfl⟩]
        omega
      · rw [update_of_ne hf]
        congr 2
        simp only [eq_iff_iff]
        omega
    · rw [if_neg hgo, if_neg (by omega), sub_zero]

@[simp] theorem population_decrease : (s.decrease o d).frequency_population f =
    s.frequency_population f - if d < f ∧ f ≤ o then 1 else 0 := decrease_population_apply ..

theorem population_decrease_all : (s.decrease o (-1)).frequency_population f = s.frequency_population f - reaches f o := by
  rw [population_decrease]
  unfold reaches
  simp only [show (-1 : Int) < (f : Int) by omega, true_and]

theorem population_bump : (s.bump i).frequency_population f = s.frequency_population f + if f = i then 1 else 0 := by
  show update s.frequency_population i (s.frequency_population i + 1) f = _
  rcases eq_or_ne f i with rfl | hf
  · rw [update_self, if_pos rfl]
  · rw [update_of_ne hf, if_neg hf]
    omega

theorem population_bump_zero : (s.bump 0).frequency_population f = s.frequency_population f + reaches f 0 := by
  rw [population_bump]
  unfold reaches
  simp only [Nat.le_zero]

end CacheSim.Merlin
