import CacheSim.Lib.Text
import Mathlib.Tactic.Ring
import Mathlib.Tactic.Zify

/-!
# Packed structures

Integers as little-endian bytes of a fixed width, one after the other.
-/

namespace CacheSim.Lib

def to_le : Nat → Nat → Bytes
  | 0, _ => []
  | width + 1, v => UInt8.ofNat v :: to_le width (v / 256)

def of_le : Bytes → Nat
  | [] => 0
  | b :: s => b.toNat + 256 * of_le s

def IsInt64 (v : Int) : Prop := -2 ^ 63 ≤ v ∧ v < 2 ^ 63

def IsInt32 (v : Int) : Prop := -2 ^ 31 ≤ v ∧ v < 2 ^ 31

instance (v : Int) : Decidable (IsInt64 v) := inferInstanceAs (Decidable (_ ∧ _))

instance (v : Int) : Decidable (IsInt32 v) := inferInstanceAs (Decidable (_ ∧ _))

def put_int (width : Nat) (v : Int) : Bytes := to_le width (v % 256 ^ width).toNat

def get_int (s : Bytes) : Int := (of_le s : Int).bmod (256 ^ s.length)

def unpack : List Nat → Bytes → List Bytes
  | [], _ => []
  | w :: ws, s => s.take w :: unpack ws (s.drop w)

@[simp] theorem length_to_le (width v : Nat) : (to_le width v).length = width := by
  induction width generalizing v with
  | zero => rfl
  | succ width ih => simp [to_le, ih]

@[simp] theorem length_put_int (width : Nat) (v : Int) : (put_int width v).length = width := length_to_le _ _

theorem of_le_to_le {width v : Nat} (h : v < 256 ^ width) : of_le (to_le width v) = v := by
  induction width generalizing v with
  | zero =>
    simp only [to_le, of_le]
    omega
  | succ width ih =>
    have hdiv : v / 256 < 256 ^ width := by
      exact Nat.div_lt_of_lt_mul (by rwa [mul_comm])
    simp only [to_le, of_le, ih hdiv, UInt8.toNat_ofNat']
    omega

theorem get_int_put_int_bmod (width : Nat) (v : Int) : get_int (put_int width v) = v.bmod (256 ^ width) := by
  have hpos : (0 : Int) < 256 ^ width := pow_pos (by decide) _
  have hlt : (v % 256 ^ width).toNat < 256 ^ width := by
    zify
    omega
  rw [get_int, length_put_int, put_int, of_le_to_le hlt, Int.toNat_of_nonneg (Int.emod_nonneg v hpos.ne')]
  have := Int.emod_bmod (x := v) (n := 256 ^ width)
  exact this

theorem get_int_put_int {width : Nat} {v : Int} (hw : 0 < width) (hlo : -(128 * 256 ^ (width - 1)) ≤ v)
    (hhi : v < 128 * 256 ^ (width - 1)) :
    get_int (put_int width v) = v := by
  obtain ⟨k, rfl⟩ : ∃ k, width = k + 1 := ⟨width - 1, by omega⟩
  rw [get_int_put_int_bmod]
  rw [Nat.add_sub_cancel] at hlo hhi
  apply Int.bmod_eq_of_le
  · push_cast
    omega
  · push_cast
    omega

theorem of_le_put_int {width : Nat} {v : Int} (hlo : 0 ≤ v) (hhi : v < 256 ^ width) : (of_le (put_int width v) : Int) = v := by
  have hlt : v.toNat < 256 ^ width := by
    zify
    omega
  rw [put_int, Int.emod_eq_of_lt hlo hhi, of_le_to_le hlt]
  omega

theorem get_put_int64 {v : Int} (h : IsInt64 v) : get_int (put_int 8 v) = v := by
  obtain ⟨hlo, hhi⟩ := h
  apply get_int_put_int (by decide)
  · omega
  · omega

theorem get_put_int32 {v : Int} (h : IsInt32 v) : get_int (put_int 4 v) = v := by
  obtain ⟨hlo, hhi⟩ := h
  apply get_int_put_int (by decide)
  · omega
  · omega

theorem unpack_flatten (l : List Bytes) (rest : Bytes) : unpack (l.map List.length) (l.flatten ++ rest) = l := by
  induction l with
  | nil => rfl
  | cons s l ih =>
    rw [List.map_cons, unpack, List.flatten_cons, List.append_assoc, List.take_left, List.drop_left, ih]

theorem unpack_all (l : List Bytes) : unpack (l.map List.length) l.flatten = l := by
  rw [← List.append_nil l.flatten, unpack_flatten]

end CacheSim.Lib
