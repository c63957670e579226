import RedisPlus.Framework.Register
import RedisPlus.Rdb.Failure

/-!
# What the checksum detects

`crc64` is a register of eight bytes (`crcRegister`, `toNat_crc64`): the words of `crc_table` have
different first bytes, which is computed here on natural numbers (`toNat_crcTable`). A change of a
payload within eight bytes before the trailer changes the checksum, and is refused before any opcode is
read (`burst_detected`).
-/

namespace RP

open Framework (Register leBytes)

/-! ## The table -/

/-- `reflect` on natural numbers. -/
def reflectNat (value bits : Nat) : Nat :=
  (List.range bits).foldl (fun out i => if value.testBit i then out ||| 1 <<< (bits - 1 - i) else out) 0

/-- One shift of a table entry, on natural numbers. -/
def crcShift (crc : Nat) : Nat :=
  if crc.testBit 63 then (crc <<< 1 % 2 ^ 64) ^^^ kPoly.toNat else crc <<< 1 % 2 ^ 64

/-- `crc_table` on natural numbers. -/
def crcTableNat (n : Nat) : Nat :=
  reflectNat ((List.range 8).foldl (fun crc _ => crcShift crc) (reflectNat n 8 <<< 56 % 2 ^ 64)) 64

theorem toNat_bit {i : Nat} (h : i < 64) : ((1 : UInt64) <<< UInt64.ofNat i).toNat = 1 <<< i := by
  have hpow : 2 ^ i < 2 ^ 64 := Nat.pow_lt_pow_right (by decide) h
  rw [UInt64.toNat_shiftLeft, UInt64.toNat_ofNat', Nat.mod_eq_of_lt (by omega : i < 2 ^ 64),
    Nat.mod_eq_of_lt h]
  show 1 <<< i % 2 ^ 64 = 1 <<< i
  rw [Nat.one_shiftLeft, Nat.mod_eq_of_lt hpow]

theorem and_bit_ne_zero (v : UInt64) {b : UInt64} {i : Nat} (hb : b.toNat = 1 <<< i) :
    v &&& b ≠ 0 ↔ v.toNat.testBit i = true := by
  rw [ne_eq, ← UInt64.toNat_inj, UInt64.toNat_and, hb, Nat.one_shiftLeft, Nat.and_two_pow]
  cases v.toNat.testBit i <;> simp

theorem toNat_reflect (v : UInt64) {bits : Nat} (h : bits ≤ 64) :
    (reflect v bits).toNat = reflectNat v.toNat bits := by
  have hloop : ∀ (l : List Nat) (out : UInt64), (∀ i ∈ l, i < bits) →
      (l.foldl (fun out i => if v &&& (1 <<< UInt64.ofNat i) ≠ 0 then
        out ||| (1 <<< UInt64.ofNat (bits - 1 - i)) else out) out).toNat =
      l.foldl (fun out i => if v.toNat.testBit i then out ||| 1 <<< (bits - 1 - i) else out) out.toNat := by
    intro l
    induction l with
    | nil => exact fun _ _ => rfl
    | cons i l ih =>
      intro out hl
      have hi : i < bits := hl i List.mem_cons_self
      rw [List.foldl_cons, List.foldl_cons, ih _ fun j hj => hl j (List.mem_cons_of_mem _ hj)]
      congr 1
      by_cases hbit : v.toNat.testBit i = true
      · rw [if_pos ((and_bit_ne_zero v (toNat_bit (by omega))).mpr hbit), if_pos hbit, UInt64.toNat_or,
          toNat_bit (by omega)]
      · rw [if_neg fun hne => hbit ((and_bit_ne_zero v (toNat_bit (by omega))).mp hne), if_neg hbit]
  exact hloop (List.range bits) 0 fun i hi => List.mem_range.mp hi

theorem toNat_crcTable (n : UInt64) : (crcTable n).toNat = crcTableNat n.toNat := by
  have hshift (crc : UInt64) :
      (if crc &&& 0x8000000000000000 ≠ 0 then (crc <<< 1) ^^^ kPoly else crc <<< 1).toNat =
        crcShift crc.toNat := by
    have htop : crc &&& 0x8000000000000000 ≠ 0 ↔ crc.toNat.testBit 63 = true :=
      and_bit_ne_zero crc (by decide)
    unfold crcShift
    by_cases hbit : crc.toNat.testBit 63 = true
    · rw [if_pos (htop.mpr hbit), if_pos hbit, UInt64.toNat_xor, UInt64.toNat_shiftLeft]
      rfl
    · rw [if_neg fun hne => hbit (htop.mp hne), if_neg hbit, UInt64.toNat_shiftLeft]
      rfl
  have hfold (init : UInt64) : ((List.range 8).foldl (fun (crc : UInt64) _ =>
      if crc &&& 0x8000000000000000 ≠ 0 then (crc <<< 1) ^^^ kPoly else crc <<< 1) init).toNat =
        (List.range 8).foldl (fun crc _ => crcShift crc) init.toNat :=
    (List.foldl_hom UInt64.toNat fun crc _ => (hshift crc).symm).symm
  rw [crcTable, toNat_reflect _ (Nat.le_refl 64), hfold, UInt64.toNat_shiftLeft,
    toNat_reflect _ (by decide)]
  rfl

theorem testBit_reflectNat (v bits t : Nat) :
    (reflectNat v bits).testBit t = (decide (t < bits) && v.testBit (bits - 1 - t)) := by
  refine Bool.eq_iff_iff.mpr ?_
  rw [reflectNat, Framework.testBit_foldl_or]
  simp only [Nat.zero_testBit, Bool.false_eq_true, false_or, List.mem_range, Bool.and_eq_true,
    decide_eq_true_eq]
  constructor
  · rintro ⟨i, hi, hbit, rfl⟩
    exact ⟨by omega, by rwa [show bits - 1 - (bits - 1 - i) = i by omega]⟩
  · rintro ⟨ht, hbit⟩
    exact ⟨bits - 1 - t, by omega, hbit, by omega⟩

/-- The first bits of a reflected number are its last ones. -/
theorem reflectNat_div (v : Nat) {a b : Nat} : reflectNat v (a + b) / 2 ^ b = reflectNat v a := by
  refine Nat.eq_of_testBit_eq fun t => ?_
  rw [Nat.testBit_div_two_pow, testBit_reflectNat, testBit_reflectNat,
    show a + b - 1 - (t + b) = a - 1 - t by omega, decide_eq_decide.mpr (Nat.add_lt_add_iff_right)]

/-- The first bytes of the table. -/
theorem crcTableNat_div (n : Nat) : crcTableNat n / 256 ^ 7 =
    reflectNat ((List.range 8).foldl (fun crc _ => crcShift crc) (reflectNat n 8 <<< 56 % 2 ^ 64)) 8 := by
  rw [show (256 : Nat) ^ 7 = 2 ^ 56 by decide, crcTableNat, show (64 : Nat) = 8 + 56 from rfl,
    reflectNat_div]

/-- They are all different. -/
theorem crcTableNat_inj : ∀ i < 256, ∀ j < 256,
    crcTableNat i / 256 ^ 7 = crcTableNat j / 256 ^ 7 → i = j := by
  simp only [crcTableNat_div]
  exact Framework.injective_of_mask (by decide +kernel)

theorem crcTableNat_lt (i : Nat) (hi : i < 256) : crcTableNat i < 256 ^ 8 := by
  have htable := toNat_crcTable (UInt64.ofNat i)
  rw [UInt64.toNat_ofNat', Nat.mod_eq_of_lt (by omega)] at htable
  rw [← htable]
  exact UInt64.toNat_lt _

/-- The table of `crc64`. -/
def crcRegister : Register 8 := ⟨crcTableNat, crcTableNat_lt, crcTableNat_inj⟩

/-- `crc64` runs that register. -/
theorem toNat_crc64 (crc : UInt64) (data : Bytes) :
    (crc64 crc data).toNat = crcRegister.run crc.toNat data := by
  refine (List.foldl_hom UInt64.toNat fun crc b => ?_).symm
  have hindex : ((crc ^^^ b.toUInt64) &&& 0xFF).toNat = Register.index crc.toNat b := by
    rw [UInt64.toNat_and, UInt64.toNat_xor]
    exact Nat.and_two_pow_sub_one_eq_mod _ 8
  rw [UInt64.toNat_xor, toNat_crcTable, hindex, UInt64.toNat_shiftRight]
  show _ = crcTableNat _ ^^^ crc.toNat >>> 8
  rw [Nat.shiftRight_eq_div_pow]
  rfl

/-! ## Payloads -/

/-- A payload whose checksum is not zero, changed within eight bytes before the trailer: parsing it
returns false and leaves the output vector empty. -/
theorem burst_detected {rs : List Record} {before window after trailer : Bytes}
    (hpayload : rdbSerialize rs = before ++ window ++ after ++ trailer) (htrailer : trailer.length = 8)
    (hcrc : storedCrc (rdbSerialize rs) ≠ 0) {window' : Bytes} (hlen : window'.length = window.length)
    (hsize : window.length ≤ 8) (hne : window' ≠ window) (rounds : Nat) (out : List Record) :
    ∃ e, rdbParseInto rounds (before ++ window' ++ after ++ trailer) out = some ⟨.error e, []⟩ := by
  have hcovered : rdbCovered rs = before ++ window ++ after := by
    rw [rdbSerialize_eq] at hpayload
    exact (List.append_inj' hpayload (by rw [Framework.length_leBytes, htrailer])).1
  have hstored : storedCrc (before ++ window' ++ after ++ trailer) =
      (crc64 0 (before ++ window ++ after)).toNat := by
    rw [storedCrc_append htrailer, ← @storedCrc_append (before ++ window ++ after) trailer htrailer,
      ← hpayload, storedCrc_rdbSerialize, hcovered]
  rw [rdbParseInto_eq, rdbParse]
  cases hcheck : rdbCheck (before ++ window' ++ after ++ trailer) with
  | some e => exact ⟨e, rfl⟩
  | none =>
    have hpass := (rdbCheck_eq_none hcheck).2.2
    rw [hstored, ← hcovered, ← storedCrc_rdbSerialize, List.length_append, htrailer, Nat.add_sub_cancel,
      List.take_left] at hpass
    have hsame := hpass hcrc
    rw [storedCrc_rdbSerialize, hcovered, toNat_crc64, toNat_crc64] at hsame
    exact absurd (crcRegister.run_burst (by decide) hlen (by omega) hsame) hne

/-- A snapshot of one key. -/
def oneRecord : List Record := [⟨str "k", str "v", kNoExpiry⟩]

/-- The key and its value are changed in its payload. -/
theorem burst_detected_key : ∃ e, rdbParseInto 5
    ((rdbSerialize oneRecord).take 36 ++ [108, 1, 119] ++ ((rdbSerialize oneRecord).drop 39).take 1 ++
      (rdbSerialize oneRecord).drop 40) oneRecord = some ⟨.error e, []⟩ := by
  have htrailer : ((rdbSerialize oneRecord).drop 40).length = 8 := by
    rw [List.length_drop, length_rdbSerialize]
    decide
  exact @burst_detected oneRecord _ (((rdbSerialize oneRecord).drop 36).take 3) _ _ (by decide +kernel) htrailer
    (by decide +kernel) [108, 1, 119] (by decide +kernel) (by decide +kernel) (by decide +kernel) 5 _

end RP
