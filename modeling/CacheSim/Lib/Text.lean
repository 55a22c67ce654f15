import Mathlib.Algebra.Order.Ring.Int
import Mathlib.Data.List.Infix
import Mathlib.Data.List.TakeWhile

/-!
# Text as C reads it

A pointer into a string is what is left of it, without the final zero.
-/

namespace CacheSim.Lib

open List

abbrev Bytes := List UInt8

def ch (c : Char) : UInt8 := UInt8.ofNat c.toNat

def ascii (s : String) : Bytes := s.toList.map ch

def c_str (s : Bytes) : Bytes := s.takeWhile (· ≠ 0)

def strstr (needle : Bytes) : Bytes → Option Bytes
  | [] => if needle.isEmpty then some [] else none
  | c :: s => if needle.isPrefixOf (c :: s) then some (c :: s) else strstr needle s

def isspace (c : UInt8) : Bool := c = 32 ∨ (9 ≤ c ∧ c ≤ 13)

def isdigit (c : UInt8) : Bool := 48 ≤ c ∧ c ≤ 57

/-! ## Decimal numbers -/

def digit (d : Nat) : UInt8 := UInt8.ofNat (48 + d)

def digits_of : Nat → Nat → Bytes
  | 0, _ => []
  | fuel + 1, n => if n < 10 then [digit n] else digits_of fuel (n / 10) ++ [digit (n % 10)]

def decimal (n : Nat) : Bytes := digits_of (n + 1) n

def value (s : Bytes) : Nat := s.foldl (fun n c => 10 * n + (c.toNat - 48)) 0

/-- The sign and the digits at the start of a text, and the rest; `none` if there are no digits. -/
def read_number (s : Bytes) : Option (Bool × Nat × Bytes) :=
  let s := s.dropWhile isspace
  let neg := s.head? = some (ch '-')
  let s := if s.head? = some (ch '-') ∨ s.head? = some (ch '+') then s.tail else s
  let digits := s.takeWhile isdigit
  if digits.isEmpty then none else some (neg, value digits, s.drop digits.length)

def strtoull (s : Bytes) : Option (Nat × Bytes) :=
  (read_number s).map fun (neg, n, rest) =>
    (if n ≥ 2 ^ 64 then 2 ^ 64 - 1 else if neg then (2 ^ 64 - n) % 2 ^ 64 else n, rest)

def strtoll (s : Bytes) : Int :=
  match read_number s with
  | none => 0
  | some (false, n, _) => min n (2 ^ 63 - 1)
  | some (true, n, _) => max (-n) (-2 ^ 63)

@[simp] theorem toNat_digit {d : Nat} (h : d < 10) : (digit d).toNat = 48 + d := by
  simp only [digit, UInt8.toNat_ofNat']
  omega

theorem isdigit_digit {d : Nat} (h : d < 10) : isdigit (digit d) = true := by
  have hd := toNat_digit h
  simp only [isdigit, decide_eq_true_eq, UInt8.le_iff_toNat_le, hd]
  exact ⟨Nat.le_add_right _ _, by show 48 + d ≤ 57; omega⟩

theorem digits_of_spec (fuel n : Nat) (h : n < fuel) :
    value (digits_of fuel n) = n ∧ (∀ c ∈ digits_of fuel n, isdigit c = true) ∧ digits_of fuel n ≠ [] := by
  induction fuel generalizing n with
  | zero => omega
  | succ fuel ih =>
    rw [digits_of]
    split_ifs with hn
    · refine ⟨?_, ?_, by simp⟩
      · simp [value, toNat_digit hn]
      · simpa using isdigit_digit hn
    · obtain ⟨hvalue, hdigits, -⟩ := ih (n / 10) (by omega)
      have hmod : n % 10 < 10 := Nat.mod_lt _ (by decide)
      refine ⟨?_, ?_, by simp⟩
      · rw [value, foldl_concat, ← value, hvalue, toNat_digit hmod]
        omega
      · intro c hc
        rcases mem_append.1 hc with hc | hc
        · exact hdigits c hc
        · rw [mem_singleton.1 hc]
          exact isdigit_digit hmod

theorem value_decimal (n : Nat) : value (decimal n) = n := (digits_of_spec _ n n.lt_succ_self).1

variable {c : UInt8}

theorem isdigit_decimal {n : Nat} (h : c ∈ decimal n) : isdigit c = true := (digits_of_spec _ n n.lt_succ_self).2.1 c h

theorem decimal_ne_nil (n : Nat) : decimal n ≠ [] := (digits_of_spec _ n n.lt_succ_self).2.2

theorem decimal_injective : Function.Injective decimal := fun a b h => by rw [← value_decimal a, h, value_decimal]

theorem decimal_head (n : Nat) : ∃ d t, decimal n = d :: t ∧ isdigit d = true := by
  cases h : decimal n with
  | nil => exact absurd h (decimal_ne_nil n)
  | cons d t => exact ⟨d, t, rfl, isdigit_decimal (h ▸ mem_cons_self)⟩

variable {rest : Bytes}

theorem takeWhile_decimal (n : Nat) (h : ∀ c ∈ rest.head?, isdigit c = false) :
    (decimal n ++ rest).takeWhile isdigit = decimal n := by
  rw [takeWhile_append_of_pos fun c hc => isdigit_decimal hc]
  cases rest with
  | nil => simp
  | cons c rest => simp [h c rfl]

theorem ne_of_isdigit {c d : UInt8} (h : isdigit c = true) (hd : isdigit d = false) : c ≠ d := by
  rintro rfl
  rw [h] at hd
  cases hd

theorem isspace_of_isdigit (h : isdigit c = true) : isspace c = false := by
  simp only [isdigit, decide_eq_true_eq, UInt8.le_iff_toNat_le] at h
  have hne : c ≠ 32 := by
    rintro rfl
    exact absurd h.1 (by decide)
  have hle : ¬ c ≤ 13 := by
    rw [UInt8.le_iff_toNat_le]
    have h48 : (48 : UInt8).toNat = 48 := rfl
    have h13 : (13 : UInt8).toNat = 13 := rfl
    omega
  simp [isspace, hne, hle]

def Ends (rest : Bytes) : Prop := ∀ c ∈ rest.head?, isdigit c = false

theorem read_number_decimal (n : Nat) (h : Ends rest) : read_number (decimal n ++ rest) = some (false, n, rest) := by
  obtain ⟨d, t, ht, hd⟩ := decimal_head n
  have hspace : (decimal n ++ rest).dropWhile isspace = decimal n ++ rest := by
    rw [ht, cons_append, dropWhile_cons, isspace_of_isdigit hd]
    rfl
  have hminus : d ≠ ch '-' := ne_of_isdigit hd (by decide)
  have hplus : d ≠ ch '+' := ne_of_isdigit hd (by decide)
  have hhead : (decimal n ++ rest).head? = some d := by rw [ht]; rfl
  unfold read_number
  simp only [hspace, hhead, Option.some.injEq, hminus, hplus, or_self, if_false, takeWhile_decimal n h, value_decimal, drop_left]
  rw [if_neg (by simpa using decimal_ne_nil n)]
  rfl

theorem read_number_minus (n : Nat) (h : Ends rest) : read_number (ch '-' :: decimal n ++ rest) = some (true, n, rest) := by
  unfold read_number
  have hspace : (ch '-' :: decimal n ++ rest).dropWhile isspace = ch '-' :: (decimal n ++ rest) := rfl
  simp only [hspace, head?_cons, true_or, if_true, tail_cons, takeWhile_decimal n h, value_decimal, drop_left]
  rw [if_neg (by simpa using decimal_ne_nil n)]
  rfl

/-!
## Text cut at its quotes

`strstr` of a word in quotes looks at the pieces between one quote and the next, those that a reader
would take for quoted and the others alike.
-/

def quote : UInt8 := ch '"'

def pieces : List Bytes → Bytes
  | [] => []
  | s :: l => quote :: s ++ pieces l

theorem pieces_append (l1 l2 : List Bytes) : pieces (l1 ++ l2) = pieces l1 ++ pieces l2 := by
  induction l1 with
  | nil => rfl
  | cons s l1 ih => simp [pieces, ih]

def quoted (word : Bytes) : Bytes := quote :: word ++ [quote]

theorem eq_of_quote_le {a b : Bytes} (ha : quote ∉ a) (hb : quote ∉ b) {l : List Bytes}
    (h : a ++ [quote] <+: b ++ pieces l) : a = b := by
  induction a generalizing b with
  | nil =>
    cases b with
    | nil => rfl
    | cons c b =>
      have hc : quote = c := (cons_prefix_cons.1 h).1
      exact absurd (hc ▸ mem_cons_self) hb
  | cons x a ih =>
    cases b with
    | nil =>
      cases l with
      | nil => simp [pieces] at h
      | cons s l =>
        have hx : x = quote := (cons_prefix_cons.1 h).1
        exact absurd (hx ▸ mem_cons_self) ha
    | cons y b =>
      obtain ⟨rfl, htail⟩ := cons_prefix_cons.1 (show x :: (a ++ [quote]) <+: y :: (b ++ pieces l) from h)
      rw [ih (fun hmem => ha (by simp [hmem])) (fun hmem => hb (by simp [hmem])) htail]

theorem strstr_skip {s : Bytes} (hs : quote ∉ s) (word rest : Bytes) :
    strstr (quoted word) (s ++ rest) = strstr (quoted word) rest := by
  induction s with
  | nil => rfl
  | cons c s ih =>
    have hc : quote ≠ c := fun h => hs (h ▸ mem_cons_self)
    rw [cons_append, strstr, if_neg, ih fun hmem => hs (by simp [hmem])]
    simp [quoted, hc]

theorem strstr_step {word s : Bytes} (hword : quote ∉ word) (hs : quote ∉ s) (hne : s ≠ word) (l : List Bytes) :
    strstr (quoted word) (pieces (s :: l)) = strstr (quoted word) (pieces l) := by
  rw [pieces, cons_append, strstr, if_neg, strstr_skip hs]
  rw [ isPrefixOf_iff_prefix, quoted, cons_append, cons_prefix_cons]
  rintro ⟨-, h⟩
  exact hne (eq_of_quote_le hword hs h).symm

variable {word : Bytes} {l : List Bytes}

theorem strstr_pieces_of_notMem (hword : quote ∉ word) (hl : ∀ s ∈ l, quote ∉ s) (h : word ∉ l) :
    strstr (quoted word) (pieces l) = none := by
  induction l with
  | nil => rfl
  | cons s l ih =>
    rw [strstr_step hword (hl s (by simp)) (fun hs => h (by simp [hs]))]
    exact ih (fun s hs => hl s (by simp [hs])) fun hmem => h (by simp [hmem])

theorem strstr_pieces (hword : quote ∉ word) {v : Bytes} (hl : ∀ s ∈ l, quote ∉ s) (h : word ∉ l) (post : List Bytes) :
    strstr (quoted word) (pieces (l ++ word :: v :: post)) = some (quoted word ++ (v ++ pieces post)) := by
  induction l with
  | nil =>
    have htext : pieces (word :: v :: post) = quoted word ++ (v ++ pieces post) := by simp [pieces, quoted]
    rw [nil_append, htext, quoted, cons_append, cons_append, strstr, if_pos]
    rw [ isPrefixOf_iff_prefix, ← cons_append]
    exact prefix_append _ _
  | cons s l ih =>
    rw [cons_append, strstr_step hword (hl s (by simp)) (fun hs => h (by simp [hs]))]
    exact ih (fun s hs => hl s (by simp [hs])) fun hmem => h (by simp [hmem])

end CacheSim.Lib
