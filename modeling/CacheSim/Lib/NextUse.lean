import Mathlib.Data.List.Basic

/-!
# The next use

Where the element at a position comes again.
-/

namespace CacheSim.Lib

open List Option

variable {α : Type} [DecidableEq α]

def first_use (l : List α) (x : α) : Option Nat := l.idxOf? x

theorem first_use_cons (y : α) (l : List α) (x : α) :
    first_use (y :: l) x = if y = x then some 0 else (first_use l x).map (· + 1) := by
  simp [first_use, idxOf?_cons]

variable {l : List α} {x : α}

theorem first_use_eq_some {k : Nat} (h : first_use l x = some k) : l[k]? = some x := by
  obtain ⟨hlt, hget, -⟩ := idxOf?_eq_some_iff.1 h
  rw [getElem?_eq_getElem hlt, hget]

theorem first_use_eq_some_iff {k : Nat} : first_use l x = some k ↔ l[k]? = some x ∧ x ∉ l.take k := by
  induction l generalizing k with
  | nil => simp [first_use]
  | cons y l ih =>
    rw [first_use_cons]
    cases k with
    | zero => simp
    | succ k =>
      split_ifs with hyx
      · simp [hyx]
      · simp [ih, Ne.symm hyx]

theorem first_use_concat (l : List α) (y x : α) :
    first_use (l ++ [y]) x = (first_use l x).or (if y = x then some l.length else none) := by
  induction l with
  | nil => simp [first_use]
  | cons z l ih =>
    rw [cons_append, first_use_cons, first_use_cons, ih]
    split_ifs <;> simp

theorem first_use_eq_none : first_use l x = none ↔ x ∉ l := idxOf?_eq_none_iff

def next_use (l : List α) (p : Nat) : Option Nat := l[p]?.bind fun x => (first_use (l.drop (p + 1)) x).map (p + 1 + ·)

theorem next_use_split (pre post : List α) (x : α) :
    next_use (pre ++ x :: post) pre.length = (first_use post x).map (pre.length + 1 + ·) := by
  have hdrop : (pre ++ x :: post).drop (pre.length + 1) = post := by simp
  simp [next_use]

variable {p q : Nat}

theorem next_use_bound (h : next_use l p = some q) : p < q ∧ q < l.length := by
  obtain ⟨x, -, h⟩ := bind_eq_some_iff.1 h
  obtain ⟨k, hk, rfl⟩ := map_eq_some_iff.1 h
  have hlt := (List.getElem?_eq_some_iff.1 (first_use_eq_some hk)).1
  rw [length_drop] at hlt
  omega

theorem getElem?_next_use (h : next_use l p = some q) : l[q]? = l[p]? := by
  obtain ⟨x, hx, h⟩ := bind_eq_some_iff.1 h
  obtain ⟨k, hk, rfl⟩ := map_eq_some_iff.1 h
  rw [hx, ← getElem?_drop, first_use_eq_some hk]

section
variable {β : Type} [DecidableEq β] {f : β → α}

def Seen (f : β → α) (l : List α) (base : Int) (seen : β → Option Int) : Prop :=
  ∀ b, seen b = (first_use l (f b)).map fun k : Nat => base + (k : Int)

omit [DecidableEq β] in
theorem seen_nil (f : β → α) (base : Int) : Seen f [] base fun _ => none := fun _ => rfl

theorem map_first_use_cons_ne {x y : α} (h : x ≠ y) (l : List α) (base : Int) :
    (first_use (x :: l) y).map (fun k : Nat => base + (k : Int)) = (first_use l y).map fun k : Nat => base + 1 + (k : Int) := by
  rw [first_use_cons, if_neg h, Option.map_map]
  congr 1
  funext k
  simp only [Function.comp_apply]
  omega

variable {seen : β → Option Int} {base : Int}

theorem Seen.cons (hf : Function.Injective f) {l : List α} (h : Seen f l (base + 1) seen)
    (b : β) : Seen f (f b :: l) base (Function.update seen b (some base)) := by
  intro c
  rw [Function.update_apply]
  rcases eq_or_ne c b with rfl | hne
  · simp [first_use_cons]
  · rw [if_neg hne, h c, map_first_use_cons_ne (hf.ne (Ne.symm hne))]

omit [DecidableEq β] in
theorem Seen.skip {l : List α} (h : Seen f l (base + 1) seen) {x : α} (hx : ∀ b, x ≠ f b) : Seen f (x :: l) base seen := by
  intro c
  rw [h c, map_first_use_cons_ne (hx c)]

end

/-! ## Leaving elements out -/

omit [DecidableEq α] in
def rank (keep : α → Bool) (l : List α) (q : Nat) : Nat := ((l.take q).filter keep).length

variable {keep : α → Bool}

theorem first_use_filter (hx : keep x = true) (l : List α) :
    first_use (l.filter keep) x = (first_use l x).map (rank keep l) := by
  induction l with
  | nil => rfl
  | cons y l ih =>
    rw [filter_cons, first_use_cons]
    rcases eq_or_ne y x with rfl | hne
    · simp [hx, first_use_cons, rank]
    · split_ifs with hy
      · rw [first_use_cons, if_neg hne, ih, Option.map_map, Option.map_map]
        congr 1
        funext k
        simp [rank, hy]
      · rw [ih, Option.map_map]
        congr 1
        funext k
        simp [rank, hy]

theorem next_use_filter (hx : keep x = true) (pre post : List α) :
    next_use ((pre ++ x :: post).filter keep) (pre.filter keep).length =
      (next_use (pre ++ x :: post) pre.length).map (rank keep (pre ++ x :: post)) := by
  rw [filter_append, filter_cons_of_pos hx, next_use_split, next_use_split, first_use_filter hx, Option.map_map,
    Option.map_map]
  congr 1
  funext k
  have htake : (pre ++ x :: post).take (pre.length + 1 + k) = pre ++ x :: post.take k := by
    rw [show pre.length + 1 + k = pre.length + (k + 1) by omega, take_length_add_append, take_succ_cons]
  simp only [Function.comp_apply, rank, htake, filter_append, filter_cons_of_pos hx, length_append,
    length_cons]
  omega

omit [DecidableEq α] in
theorem rank_mono {q r : Nat} (h : q ≤ r) : rank keep l q ≤ rank keep l r :=
  ((take_sublist_take_left h).filter keep).length_le

omit [DecidableEq α] in
theorem rank_lt {q r : Nat} (hq : l[q]? = some x) (hx : keep x = true) (h : q < r) : rank keep l q < rank keep l r := by
  have hsucc : rank keep l (q + 1) = rank keep l q + 1 := by
    unfold rank
    rw [take_add_one, hq]
    simp [hx]
  have hle : rank keep l (q + 1) ≤ rank keep l r := rank_mono (Nat.succ_le_of_lt h)
  omega

end CacheSim.Lib
