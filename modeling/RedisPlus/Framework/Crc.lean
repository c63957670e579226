import Mathlib.Data.Nat.Bitwise
import Mathlib.Logic.Function.Iterate

/-!
# Cyclic redundancy checks

A remainder of `w` bits modulo a polynomial, which is a word of the coefficients below the first. A shift
of the remainder multiplies it by `x`: to the left if the first coefficient is the first bit (`shiftLeft`),
to the right if it is the last (`shiftRight`). Reversal takes the one into the other (`reverse_shiftLeft`).

Shifts are linear in exclusive or (`shiftRight_xor`). So bits that are fed to the remainder one by one may
as well all be added first (`foldl_feed`), and of many shifts at once only those of the last bits depend on
the polynomial, the others move down (`iterate_shiftRight`).
-/

namespace Framework.Crc

variable {w : Nat} (poly : BitVec w)

/-- One shift of the register, towards the top. -/
def shiftLeft (c : BitVec w) : BitVec w := if c.msb then (c <<< 1) ^^^ poly else c <<< 1

/-- One shift of the reflected register. -/
def shiftRight (c : BitVec w) : BitVec w := if c.getLsbD 0 then (c >>> 1) ^^^ poly else c >>> 1

/-- One bit of the input, which a shift to the right takes in. -/
def feed (c : BitVec w) (bit : Bool) : BitVec w :=
  if (c.getLsbD 0 ^^ bit) then (c >>> 1) ^^^ poly else c >>> 1

/-- The last `k` bits. -/
def low (k : Nat) (c : BitVec w) : BitVec w := c &&& BitVec.ofNat w (2 ^ k - 1)

/-! ## Reversal -/

theorem reverse_xor (a b : BitVec w) : (a ^^^ b).reverse = a.reverse ^^^ b.reverse := by
  refine BitVec.eq_of_getLsbD_eq fun i _ => ?_
  simp only [BitVec.getLsbD_reverse, BitVec.getLsbD_xor, BitVec.getMsbD_xor]

theorem reverse_shiftLeft_one (c : BitVec w) : (c <<< 1).reverse = c.reverse >>> 1 := by
  refine BitVec.eq_of_getLsbD_eq fun i _ => ?_
  rw [BitVec.getLsbD_reverse, BitVec.getMsbD_shiftLeft, BitVec.getLsbD_ushiftRight, BitVec.getLsbD_reverse,
    Nat.add_comm]

theorem getLsbD_reverse_zero (c : BitVec w) : c.reverse.getLsbD 0 = c.msb := by
  rw [BitVec.getLsbD_reverse]
  rfl

theorem reverse_shiftLeft (c : BitVec w) :
    (shiftLeft poly c).reverse = shiftRight poly.reverse c.reverse := by
  rw [shiftLeft, shiftRight, getLsbD_reverse_zero]
  split
  · rw [reverse_xor, reverse_shiftLeft_one]
  · exact reverse_shiftLeft_one c

theorem reverse_iterate_shiftLeft (n : Nat) (c : BitVec w) :
    ((shiftLeft poly)^[n] c).reverse = (shiftRight poly.reverse)^[n] c.reverse :=
  Function.Semiconj.iterate_right (reverse_shiftLeft poly) n c

/-! ## Shifts are linear -/

theorem shiftRight_xor (a b : BitVec w) :
    shiftRight poly (a ^^^ b) = shiftRight poly a ^^^ shiftRight poly b := by
  unfold shiftRight
  rw [BitVec.getLsbD_xor, BitVec.ushiftRight_xor_distrib]
  cases a.getLsbD 0 with
  | false =>
    cases b.getLsbD 0 with
    | false => rfl
    | true => exact BitVec.xor_assoc ..
  | true =>
    cases b.getLsbD 0 with
    | false =>
      show a >>> 1 ^^^ b >>> 1 ^^^ poly = a >>> 1 ^^^ poly ^^^ b >>> 1
      ac_rfl
    | true =>
      refine BitVec.eq_of_getLsbD_eq fun i _ => ?_
      simp only [Bool.xor_self, Bool.false_eq_true, if_false, if_true, BitVec.getLsbD_xor]
      cases (a >>> 1).getLsbD i <;> cases (b >>> 1).getLsbD i <;> cases poly.getLsbD i <;> rfl

theorem iterate_shiftRight_xor : ∀ (n : Nat) (a b : BitVec w),
    (shiftRight poly)^[n] (a ^^^ b) = (shiftRight poly)^[n] a ^^^ (shiftRight poly)^[n] b
  | 0, _, _ => rfl
  | n + 1, a, b => by
    rw [Function.iterate_succ_apply, shiftRight_xor, iterate_shiftRight_xor n]
    rfl

/-- Zeros fall out, and leave no trace. -/
theorem iterate_shiftRight_of_zeros : ∀ {n : Nat} {c : BitVec w}, (∀ i < n, c.getLsbD i = false) →
    (shiftRight poly)^[n] c = c >>> n
  | 0, c, _ => by simp
  | n + 1, c, h => by
    have hfirst : shiftRight poly c = c >>> 1 := by
      rw [shiftRight, h 0 (Nat.succ_pos n)]
      rfl
    rw [Function.iterate_succ_apply, hfirst, iterate_shiftRight_of_zeros, ← BitVec.shiftRight_add,
      Nat.add_comm]
    intro i hi
    rw [BitVec.getLsbD_ushiftRight]
    exact h _ (by omega)

theorem getLsbD_low (k : Nat) (c : BitVec w) (i : Nat) :
    (low k c).getLsbD i = (c.getLsbD i && decide (i < k)) := by
  rw [low, BitVec.getLsbD_and, BitVec.getLsbD_ofNat, Nat.testBit_two_pow_sub_one]
  cases hc : c.getLsbD i with
  | false => rfl
  | true => simp [BitVec.lt_of_getLsbD hc]

/-- `n` shifts: those of the last `n` bits, and the others moved down. -/
theorem iterate_shiftRight (n : Nat) (c : BitVec w) :
    (shiftRight poly)^[n] c = (shiftRight poly)^[n] (low n c) ^^^ (c >>> n) := by
  have hsplit : c = low n c ^^^ (c ^^^ low n c) := by
    rw [BitVec.xor_comm c, ← BitVec.xor_assoc, BitVec.xor_self, BitVec.zero_xor]
  have hzeros : ∀ i < n, (c ^^^ low n c).getLsbD i = false := by
    intro i hi
    simp [BitVec.getLsbD_xor, getLsbD_low, hi]
  have hhigh : (c ^^^ low n c) >>> n = c >>> n := by
    refine BitVec.eq_of_getLsbD_eq fun i _ => ?_
    simp [BitVec.getLsbD_ushiftRight, BitVec.getLsbD_xor, getLsbD_low, show ¬ n + i < n by omega]
  conv_lhs => rw [hsplit]
  rw [iterate_shiftRight_xor, iterate_shiftRight_of_zeros poly hzeros, hhigh]

/-! ## Feeding bits -/

/-- The bit `k` of `v`, alone. -/
def only (k : Nat) (v : BitVec w) : BitVec w := low (k + 1) v ^^^ low k v

theorem getLsbD_only (k : Nat) (v : BitVec w) (i : Nat) :
    (only k v).getLsbD i = (v.getLsbD i && decide (i = k)) := by
  rw [only, BitVec.getLsbD_xor, getLsbD_low, getLsbD_low]
  cases v.getLsbD i with
  | false => rfl
  | true =>
    rcases Nat.lt_trichotomy i k with h | h | h
    · simp [h, Nat.lt_succ_of_lt h, Nat.ne_of_lt h]
    · simp [h]
    · simp [Nat.not_lt.mpr (Nat.le_of_lt h), Nat.not_lt.mpr h, Nat.ne_of_gt h]

/-- A bit that is fed is added to the last one before the shift. -/
theorem feed_eq (c v : BitVec w) (k : Nat) :
    feed poly c (v.getLsbD k) = shiftRight poly (c ^^^ (only k v) >>> k) := by
  have hbit : (c ^^^ (only k v) >>> k).getLsbD 0 = (c.getLsbD 0 ^^ v.getLsbD k) := by
    simp [BitVec.getLsbD_xor, BitVec.getLsbD_ushiftRight, getLsbD_only]
  have hshift : (c ^^^ (only k v) >>> k) >>> 1 = c >>> 1 := by
    refine BitVec.eq_of_getLsbD_eq fun i _ => ?_
    simp [BitVec.getLsbD_xor, BitVec.getLsbD_ushiftRight, getLsbD_only]
  rw [feed, shiftRight, hbit, hshift]

/-- Feeding the last `k` bits of `v` one by one: all of them are added, and then there are `k` shifts. -/
theorem foldl_feed (c v : BitVec w) : ∀ k : Nat,
    (List.range k).foldl (fun c i => feed poly c (v.getLsbD i)) c = (shiftRight poly)^[k] (c ^^^ low k v)
  | 0 => by simp [low]
  | k + 1 => by
    have hzeros : ∀ i < k, (only k v).getLsbD i = false := by
      intro i hi
      simp [getLsbD_only, Nat.ne_of_lt hi]
    have hlow : low (k + 1) v = low k v ^^^ only k v := by
      rw [only, BitVec.xor_comm (low (k + 1) v), ← BitVec.xor_assoc, BitVec.xor_self, BitVec.zero_xor]
    rw [List.range_succ, List.foldl_append, foldl_feed c v k, List.foldl_cons, List.foldl_nil, feed_eq,
      ← iterate_shiftRight_of_zeros poly hzeros, ← iterate_shiftRight_xor, Function.iterate_succ_apply',
      hlow, BitVec.xor_assoc]

end Framework.Crc
