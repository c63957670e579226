import RedisPlus.Framework.Crc
import RedisPlus.Rdb.Checksum

/-!
# The checksum, bit by bit

`crc64Serial` is the reflected CRC-64 with the polynomial of Jones as it is defined: the bits of the input,
the last one of each byte first, go into the remainder one at a time.

`crc64` takes a byte at a time with a table, which is made by shifts to the left between two reflections.
Its words are eight shifts to the right (`toBitVec_crcTable`), so a step of `crc64` is eight bits of
`crc64Serial` (`crc64_eq_serial`).
-/

namespace RP

open Framework.Crc (shiftLeft shiftRight feed low)

/-- The polynomial of the checksum. -/
def jones : BitVec 64 := 0xad93d23594c935a9

/-- The checksum bit by bit, as its definition has it. -/
def crc64Serial (crc : BitVec 64) (data : Bytes) : BitVec 64 :=
  data.foldl (fun crc b =>
    (List.range 8).foldl (fun crc i => feed jones.reverse crc (b.toNat.testBit i)) crc) crc

/-! ## The table -/

theorem testBit_byte {n i : Nat} (hn : n < 256) (hi : 8 ≤ i) : n.testBit i = false := by
  have hpow : 2 ^ 8 ≤ 2 ^ i := Nat.pow_le_pow_right (by decide) hi
  exact Nat.testBit_lt_two_pow (by omega)

theorem getLsbD_toBitVec (v : UInt64) (i : Nat) : v.toBitVec.getLsbD i = v.toNat.testBit i := rfl

theorem toBitVec_reflect (v : UInt64) : (reflect v 64).toBitVec = v.toBitVec.reverse := by
  refine BitVec.eq_of_getLsbD_eq fun i hi => ?_
  rw [getLsbD_toBitVec, toNat_reflect v (Nat.le_refl 64), testBit_reflectNat, BitVec.getLsbD_reverse]
  rfl

/-- A byte, reflected and moved up. -/
theorem toBitVec_reflect_byte {n : UInt64} (hn : n.toNat < 256) :
    (reflect n 8 <<< 56).toBitVec = n.toBitVec.reverse := by
  refine BitVec.eq_of_getLsbD_eq fun i hi => ?_
  rw [getLsbD_toBitVec, UInt64.toNat_shiftLeft, toNat_reflect n (by decide), BitVec.getLsbD_reverse,
    Nat.testBit_mod_two_pow, Nat.testBit_shiftLeft, testBit_reflectNat, BitVec.getMsbD_eq_getLsbD,
    getLsbD_toBitVec, show (56 : UInt64).toNat % 64 = 56 from rfl]
  by_cases hhigh : 56 ≤ i
  · simp [hhigh, hi, show i - 56 < 8 by omega, show 8 - 1 - (i - 56) = 63 - i by omega]
  · -- The byte has no such bit.
    have hzero : n.toNat.testBit (64 - 1 - i) = false := testBit_byte hn (by omega)
    simp [hhigh, hzero]

theorem toBitVec_shift (crc : UInt64) :
    (if crc &&& 0x8000000000000000 ≠ 0 then (crc <<< 1) ^^^ kPoly else crc <<< 1).toBitVec =
      shiftLeft jones crc.toBitVec := by
  have htop : crc &&& 0x8000000000000000 ≠ 0 ↔ crc.toBitVec.msb = true := by
    rw [and_bit_ne_zero crc (i := 63) (by decide), BitVec.msb_eq_getLsbD_last]
    rfl
  rw [shiftLeft]
  by_cases hbit : crc.toBitVec.msb = true
  · rw [if_pos (htop.mpr hbit), if_pos hbit, UInt64.toBitVec_xor, UInt64.toBitVec_shiftLeft]
    rfl
  · rw [if_neg fun hne => hbit (htop.mp hne), if_neg hbit, UInt64.toBitVec_shiftLeft]
    rfl

/-- A word of the table is eight shifts of its index. -/
theorem toBitVec_crcTable {n : UInt64} (hn : n.toNat < 256) :
    (crcTable n).toBitVec = (shiftRight jones.reverse)^[8] n.toBitVec := by
  have hfold (init : UInt64) : ((List.range 8).foldl (fun (crc : UInt64) _ =>
      if crc &&& 0x8000000000000000 ≠ 0 then (crc <<< 1) ^^^ kPoly else crc <<< 1) init).toBitVec =
        (shiftLeft jones)^[8] init.toBitVec := by
    rw [List.foldl_const]
    exact Function.Semiconj.iterate_right toBitVec_shift 8 init
  rw [crcTable, toBitVec_reflect, hfold, toBitVec_reflect_byte hn,
    Framework.Crc.reverse_iterate_shiftLeft, BitVec.reverse_reverse_eq]

/-! ## A byte at a time -/

theorem low_byte (b : UInt8) : low 8 b.toUInt64.toBitVec = b.toUInt64.toBitVec := by
  refine BitVec.eq_of_getLsbD_eq fun i _ => ?_
  rw [Framework.Crc.getLsbD_low, getLsbD_toBitVec, UInt8.toNat_toUInt64]
  by_cases hi : i < 8
  · simp [hi]
  · rw [testBit_byte b.toNat_lt (Nat.not_lt.mp hi)]
    rfl

/-- A step of `crc64` is eight bits. -/
theorem toBitVec_crc64_step (crc : UInt64) (b : UInt8) :
    (crcTable ((crc ^^^ b.toUInt64) &&& 0xFF) ^^^ (crc >>> 8)).toBitVec =
      (List.range 8).foldl (fun crc i => feed jones.reverse crc (b.toNat.testBit i)) crc.toBitVec := by
  have hindex : ((crc ^^^ b.toUInt64) &&& 0xFF).toNat < 256 := by
    rw [UInt64.toNat_and]
    exact Nat.lt_of_le_of_lt Nat.and_le_right (by decide)
  have hmask : ((crc ^^^ b.toUInt64) &&& 0xFF).toBitVec =
      low 8 (crc.toBitVec ^^^ b.toUInt64.toBitVec) := rfl
  have hdown : (crc >>> 8).toBitVec = (crc.toBitVec ^^^ b.toUInt64.toBitVec) >>> 8 := by
    have hzero : b.toUInt64.toBitVec >>> 8 = 0#64 := by
      refine BitVec.eq_of_getLsbD_eq fun i _ => ?_
      rw [BitVec.getLsbD_ushiftRight, ← low_byte, Framework.Crc.getLsbD_low,
        decide_eq_false (show ¬ 8 + i < 8 by omega), Bool.and_false, BitVec.getLsbD_zero]
    rw [BitVec.ushiftRight_xor_distrib, hzero, BitVec.xor_zero]
    rfl
  have hfeed := Framework.Crc.foldl_feed jones.reverse crc.toBitVec b.toUInt64.toBitVec 8
  simp only [getLsbD_toBitVec, UInt8.toNat_toUInt64] at hfeed
  rw [hfeed, low_byte, Framework.Crc.iterate_shiftRight, UInt64.toBitVec_xor, toBitVec_crcTable hindex,
    hmask, hdown]

/-- `crc64` from any seed is the remainder that the bits of the data leave of it; and it may be computed
in parts. -/
theorem crc64_eq_serial (crc : UInt64) (data more : Bytes) :
    (crc64 crc data).toBitVec = crc64Serial crc.toBitVec data ∧
      crc64 (crc64 crc data) more = crc64 crc (data ++ more) :=
  ⟨(List.foldl_hom UInt64.toBitVec fun crc b => (toBitVec_crc64_step crc b).symm).symm,
    List.foldl_append.symm⟩

/-- The check value of this CRC. -/
example : crc64Serial 0 (str "123456789") = 0xe9c6d914c4b8d9ca := by decide +kernel

end RP
