import RedisPlus.Bytes

/-!
# Reading integers

`parse_int` and `to_int64` add up the digits in `int64_t`, where an overflow would be undefined. Here each
operation is checked: the outer `none` of `digitLoop` and of the two functions on top of it is a result
that has left `int64_t`. It never comes to that, and what they read is what `parseInt` and `toInt64`, on
natural numbers, read (`digitLoop_eq`). So they accept the numerals within their limits and nothing else
(`integers_exact`).
-/

namespace RP

open Framework (Numeral isDigit digitVal readDigits)

/-- A result in `int64_t`, none if it is not in range. -/
def checked (i : Int) : Option Int64 := if fitsInt64 i then some (Int64.ofInt i) else none

/-- The loop over the digits, with the value so far. -/
def digitLoop : Int64 → Bytes → Option (Option Int64)
  | value, [] => some (some value)
  | value, c :: cs =>
    if ¬ isDigit c then some none
    else do
      let room ← checked (Int64.maxValue.toInt - digitVal c)
      -- no rounding towards zero here: what is divided is not negative
      let bound ← checked (room.toInt / 10)
      if bound < value then return none
      let scaled ← checked (value.toInt * 10)
      let value ← checked (scaled.toInt + digitVal c)
      digitLoop value cs

/-- `parse_int` -/
def parseIntChecked : Bytes → Option (Option Int64)
  | [] => some none
  | c :: cs =>
    if c = 45 ∨ c = 43 then
      if cs = [] then some none
      else do
        let some value ← digitLoop 0 cs | return none
        let out ← if c = 45 then checked (-value.toInt) else some value
        return some out
    else digitLoop 0 (c :: cs)

/-- `to_int64` -/
def toInt64Checked (s : Bytes) : Option (Option Int64) :=
  if s = [] ∨ s.length > 20 then some none else parseIntChecked s

theorem checked_of_natAbs_le {i : Int} (h : i.natAbs ≤ int64Max) :
    checked i = some (Int64.ofInt i) ∧ (Int64.ofInt i).toInt = i := by
  simp only [int64Max] at h
  refine ⟨if_pos ?_, Int64.toInt_ofInt_of_le (by omega) (by omega)⟩
  rw [fitsInt64_iff]
  omega

/-- The loop stays in range, and reads what the reader of numerals does. -/
theorem digitLoop_eq : ∀ (cs : Bytes) {v : Nat}, v ≤ int64Max →
    digitLoop (Int64.ofInt v) cs = some ((readDigits int64Max v cs).map fun w : Nat => Int64.ofInt w)
  | [], v, _ => rfl
  | c :: cs, v, hv => by
    rw [digitLoop, readDigits]
    by_cases hc : isDigit c = true
    · have hd : digitVal c ≤ int64Max := (Framework.digitVal_le hc).trans (by decide)
      have hmax : Int64.maxValue.toInt = int64Max := by decide
      obtain ⟨hroom, hroom'⟩ := @checked_of_natAbs_le (Int64.maxValue.toInt - digitVal c) (by omega)
      obtain ⟨hbound, hbound'⟩ :=
        @checked_of_natAbs_le ((Int64.maxValue.toInt - digitVal c) / 10) (by omega)
      obtain ⟨-, hvalue⟩ := @checked_of_natAbs_le v (by omega)
      have hlt : Int64.ofInt ((Int64.maxValue.toInt - digitVal c) / 10) < Int64.ofInt v ↔
          v > (int64Max - digitVal c) / 10 := by
        rw [Int64.lt_iff_toInt_lt, hbound', hvalue]
        omega
      rw [if_neg (by simp [hc]), if_pos hc, hroom, Option.bind_eq_bind, Option.bind_some, hroom', hbound,
        Option.bind_some]
      by_cases hb : v > (int64Max - digitVal c) / 10
      · rw [if_pos (hlt.mpr hb), if_pos hb]
        rfl
      · have hnext := (Framework.bound_check hd).mp hb
        obtain ⟨hscaled, hscaled'⟩ := @checked_of_natAbs_le ((v : Int) * 10) (by omega)
        obtain ⟨hsum, -⟩ := @checked_of_natAbs_le ((v : Int) * 10 + digitVal c) (by omega)
        have ih := digitLoop_eq cs hnext
        rw [if_neg fun h => hb (hlt.mp h), if_neg hb, hvalue, hscaled, Option.bind_some, hscaled', hsum,
          Option.bind_some]
        exact ih
    · simp [hc]

/-- So does the whole of `parse_int`. -/
theorem parseIntChecked_eq (text : Bytes) :
    parseIntChecked text = some ((parseInt text).map Int64.ofInt) := by
  have hloop (cs : Bytes) :
      digitLoop 0 cs = some ((readDigits int64Max 0 cs).map fun w : Nat => Int64.ofInt w) :=
    digitLoop_eq cs (Nat.zero_le _)
  cases text with
  | nil => rfl
  | cons c cs =>
    rw [parseIntChecked, parseInt, Framework.readSigned, hloop, hloop]
    by_cases hsign : c = 45 ∨ c = 43
    · rw [if_pos hsign, if_pos hsign]
      by_cases hnil : cs = []
      · rw [if_pos hnil, if_pos hnil]
        rfl
      · rw [if_neg hnil, if_neg hnil, Option.map_map]
        cases hread : readDigits int64Max 0 cs with
        | none => rfl
        | some v =>
          have hle : v ≤ int64Max := by
            obtain ⟨-, hle, rfl⟩ := (Framework.readDigits_eq_some (by decide) (Nat.zero_le _)).mp hread
            exact hle
          obtain ⟨-, hv⟩ := @checked_of_natAbs_le v (by omega)
          obtain ⟨hneg, -⟩ := @checked_of_natAbs_le (-v) (by omega)
          by_cases hminus : c = 45
          · simp [hminus, hv, hneg]
          · simp [hminus]
    · rw [if_neg hsign, if_neg hsign, Option.map_map]
      rfl

theorem toInt64Checked_eq (s : Bytes) : toInt64Checked s = some (toInt64 s) := by
  rw [toInt64Checked, toInt64]
  split
  · rfl
  · exact parseIntChecked_eq s

theorem toInt64_eq_some {s : Bytes} {n : Int64} :
    toInt64 s = some n ↔ s.length ≤ 20 ∧ Numeral s n.toInt ∧ n.toInt.natAbs ≤ int64Max := by
  rw [toInt64]
  by_cases hlong : s = [] ∨ s.length > 20
  · rw [if_pos hlong]
    refine iff_of_false (by simp) ?_
    rintro ⟨hlen, hn, -⟩
    exact hlong.elim hn.ne_nil fun h => absurd hlen (by omega)
  · rw [if_neg hlong, Option.map_eq_some_iff]
    rw [not_or, Nat.not_lt] at hlong
    simp only [Framework.readSigned_eq_some (show 9 ≤ int64Max by decide), hlong.2, true_and]
    constructor
    · rintro ⟨i, ⟨hi, hle⟩, rfl⟩
      rw [(checked_of_natAbs_le hle).2]
      exact ⟨hi, hle⟩
    · intro h
      exact ⟨n.toInt, h, Int64.ofInt_toInt n⟩

/-- `parse_int` and `to_int64` read the numerals, with or without a sign, whose magnitude is at most
`2 ^ 63 - 1`, the latter up to 20 bytes of them, and return the number. Nothing they compute on the way
leaves `int64_t`, and `to_int64` reads back what `std::to_string` writes of any number but the least. -/
theorem integers_exact :
    (∀ s n, toInt64 s = some n ↔ s.length ≤ 20 ∧ Numeral s n.toInt ∧ n.toInt.natAbs ≤ 2 ^ 63 - 1) ∧
    (∀ s i, parseInt s = some i ↔ Numeral s i ∧ i.natAbs ≤ 2 ^ 63 - 1) ∧
    (∀ s, toInt64Checked s = some (toInt64 s) ∧
      parseIntChecked s = some ((parseInt s).map Int64.ofInt)) ∧
    ∀ n, n ≠ Int64.minValue → toInt64 (intToString n.toInt) = some n :=
  ⟨fun _ _ => toInt64_eq_some, fun _ _ => Framework.readSigned_eq_some (by decide),
    fun s => ⟨toInt64Checked_eq s, parseIntChecked_eq s⟩, fun _ => toInt64_intToString⟩

end RP
