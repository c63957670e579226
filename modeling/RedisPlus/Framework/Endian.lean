import Mathlib.Data.Nat.Bitwise
import Mathlib.Tactic.Ring

/-!
# Integers as bytes

The `k` low bytes of a number, least or most significant first (`leBytes`, `beBytes`), and
the number that bytes spell (`ofLE`, `ofBE`). Reading back what was written gives the number
modulo `256 ^ k` (`ofLE_leBytes`, `ofBE_beBytes`).
-/

namespace Framework

/-- The `k` low bytes of `n`, least significant first. -/
def leBytes : Nat → Nat → List UInt8
  | 0, _ => []
  | k + 1, n => UInt8.ofNat n :: leBytes k (n / 256)

/-- The `k` low bytes of `n`, most significant first. -/
def beBytes : Nat → Nat → List UInt8
  | 0, _ => []
  | k + 1, n => UInt8.ofNat (n / 256 ^ k) :: beBytes k n

/-- The number that `bs` spell, least significant first. -/
def ofLE : List UInt8 → Nat
  | [] => 0
  | b :: bs => b.toNat + 256 * ofLE bs

/-- The number that `bs` spell after `v`, most significant first. -/
def ofBE : Nat → List UInt8 → Nat
  | v, [] => v
  | v, b :: bs => ofBE (v * 256 + b.toNat) bs

theorem length_leBytes : ∀ k n : Nat, (leBytes k n).length = k
  | 0, _ => rfl
  | k + 1, n => by rw [leBytes, List.length_cons, length_leBytes k]

theorem length_beBytes : ∀ k n : Nat, (beBytes k n).length = k
  | 0, _ => rfl
  | k + 1, n => by rw [beBytes, List.length_cons, length_beBytes k]

theorem toNat_byte (n : Nat) : (UInt8.ofNat n).toNat = n % 256 := UInt8.toNat_ofNat'

theorem ofLE_leBytes : ∀ k n : Nat, ofLE (leBytes k n) = n % 256 ^ k
  | 0, n => by rw [Nat.pow_zero, Nat.mod_one]; rfl
  | k + 1, n => by
    rw [leBytes, ofLE, ofLE_leBytes k, toNat_byte, Nat.pow_succ', Nat.mod_mul]

theorem ofBE_beBytes : ∀ k v n : Nat, ofBE v (beBytes k n) = v * 256 ^ k + n % 256 ^ k
  | 0, v, n => by rw [Nat.pow_zero, Nat.mod_one]; simp [beBytes, ofBE]
  | k + 1, v, n => by
    rw [beBytes, ofBE, ofBE_beBytes k, toNat_byte, Nat.mod_pow_succ, Nat.pow_succ]
    ring

theorem ofLE_lt : ∀ bs : List UInt8, ofLE bs < 256 ^ bs.length
  | [] => Nat.one_pos
  | b :: bs => by
    have := ofLE_lt bs
    have := b.toNat_lt
    rw [ofLE, List.length_cons, Nat.pow_succ]
    omega

theorem ofLE_concat : ∀ (bs : List UInt8) (b : UInt8),
    ofLE (bs ++ [b]) = ofLE bs + 256 ^ bs.length * b.toNat
  | [], b => by simp [ofLE]
  | c :: bs, b => by
    rw [List.cons_append, ofLE, ofLE_concat bs b, ofLE, List.length_cons, Nat.pow_succ]
    ring

/-- Shifting a byte in at the low end. -/
theorem shiftLeft_or_byte (v : Nat) (b : UInt8) : v <<< 8 ||| b.toNat = v * 256 + b.toNat := by
  rw [← Nat.shiftLeft_add_eq_or_of_lt b.toNat_lt, Nat.shiftLeft_eq]

/-- Setting the byte above the low `i`. -/
theorem or_shiftLeft_byte {v i : Nat} (h : v < 256 ^ i) (b : UInt8) :
    v ||| b.toNat <<< (i * 8) = v + 256 ^ i * b.toNat := by
  have hpow : 2 ^ (i * 8) = 256 ^ i := by rw [Nat.mul_comm, Nat.pow_mul]
  rw [Nat.or_comm, ← Nat.shiftLeft_add_eq_or_of_lt (hpow ▸ h), Nat.shiftLeft_eq, hpow]
  ring

/-- Setting bytes from the low end on. -/
theorem foldl_or_bytes (f : Nat → UInt8) (k : Nat) :
    (List.range k).foldl (fun v i => v ||| (f i).toNat <<< (i * 8)) 0 = ofLE ((List.range k).map f) := by
  induction k with
  | zero => rfl
  | succ k ih =>
    have hlen : ((List.range k).map f).length = k := by simp
    have hlt := ofLE_lt ((List.range k).map f)
    rw [hlen] at hlt
    rw [List.range_succ, List.foldl_append, ih, List.map_append, List.map_singleton, ofLE_concat, hlen]
    exact or_shiftLeft_byte hlt (f k)

end Framework
