import RedisPlus.Framework.Decimal

/-!
# Byte strings

Keys, values, requests, replies and files are byte strings (`std::string`), as lists.
`toupper`, `isspace` and `std::to_string` are those of the "C" locale.
-/

namespace RP

open Framework (signed readSigned)

/-- A `std::string`. -/
abbrev Bytes := List UInt8

/-- A request's arguments, the command's name first. -/
abbrev Args := List Bytes

/-- A string literal. -/
def str (s : String) : Bytes := s.toList.map fun c => UInt8.ofNat c.toNat

/-- `"\r\n"` -/
def crlf : Bytes := [13, 10]

/-- `std::toupper` -/
def toupper (c : UInt8) : UInt8 := if 97 ≤ c && c ≤ 122 then c - 32 else c

/-- `std::isspace` -/
def isspace (c : UInt8) : Bool := c == 32 || (9 ≤ c && c ≤ 13)

/-- `upper`, byte by byte. -/
def upper (s : Bytes) : Bytes := s.map toupper

/-- Equality up to case. -/
def iequals (a b : Bytes) : Bool := upper a == upper b

/-- `std::to_string` of an unsigned integer. -/
abbrev natToString (n : Nat) : Bytes := Framework.decimal n

/-- `std::to_string` of a signed integer. -/
abbrev intToString (i : Int) : Bytes := signed i

/-- `std::numeric_limits<std::int64_t>::max()` -/
def int64Max : Nat := 2 ^ 63 - 1

/-- `parse_int`: an optional sign and digits, refused when the magnitude passes the largest
`int64_t`. -/
def parseInt (text : Bytes) : Option Int := readSigned int64Max text

/-- `to_int64`: as `parse_int`, for at most 20 bytes. -/
def toInt64 (s : Bytes) : Option Int64 :=
  if s = [] ∨ s.length > 20 then none else (readSigned int64Max s).map Int64.ofInt

theorem parseInt_natToString {n : Nat} (h : n ≤ int64Max) : parseInt (natToString n) = some (n : Int) :=
  Framework.readSigned_decimal (by decide) h

theorem length_intToString_le (d : Int64) : (intToString d.toInt).length ≤ 20 := by
  have hlt := d.toInt_lt
  have hle := d.le_toInt
  have habs : d.toInt.natAbs < 10 ^ 19 := by omega
  have := Framework.length_decimal_le (by decide) habs
  simp only [intToString, signed]
  split
  · simp only [List.length_cons]; omega
  · omega

theorem intToString_ne_nil (i : Int) : intToString i ≠ [] := by
  simp only [intToString, signed]
  split
  · simp
  · exact Framework.decimal_ne_nil _

/-- `to_int64` reads back every `int64_t` but the least, whose magnitude it refuses. -/
theorem toInt64_intToString {d : Int64} (h : d ≠ Int64.minValue) :
    toInt64 (intToString d.toInt) = some d := by
  have hlt := d.toInt_lt
  have hle := d.le_toInt
  have hne : d.toInt ≠ -2 ^ 63 := fun e => h (Int64.toInt_inj.mp (by rw [e]; decide))
  rw [toInt64, if_neg (by simp [intToString_ne_nil, length_intToString_le]),
    Framework.readSigned_signed (by decide) (by simp only [int64Max]; omega)]
  simp

theorem toInt64_intToString_minValue : toInt64 (intToString Int64.minValue.toInt) = none := by
  decide

/-- A byte of `text` that is no part of a number makes `parse_int` fail. -/
theorem parseInt_eq_none {c : UInt8} (hc : Framework.isDigit c = false) (h45 : c ≠ 45) (h43 : c ≠ 43)
    {text : Bytes} (h : c ∈ text) : parseInt text = none :=
  Framework.readSigned_eq_none hc h45 h43 h

/-- `to_int64` never gives the least `int64_t`. -/
theorem toInt64_ne_minValue {s : Bytes} {n : Int64} (h : toInt64 s = some n) : n ≠ Int64.minValue := by
  unfold toInt64 at h
  split at h
  · cases h
  obtain ⟨i, hi, rfl⟩ := Option.map_eq_some_iff.mp h
  have hle := ((Framework.readSigned_eq_some (by decide)).mp hi).2
  simp only [int64Max] at hle
  intro he
  have := congrArg Int64.toInt he
  rw [Int64.toInt_ofInt_of_le (by omega) (by omega), Int64.toInt_minValue] at this
  omega

/-! ## The range of `int64_t` -/

/-- Is the number an `int64_t`? -/
def fitsInt64 (i : Int) : Bool := decide (-2 ^ 63 ≤ i) && decide (i < 2 ^ 63)

theorem fitsInt64_iff {i : Int} : fitsInt64 i = true ↔ -2 ^ 63 ≤ i ∧ i < 2 ^ 63 := by
  simp only [fitsInt64, Bool.and_eq_true, decide_eq_true_eq]

theorem toInt_add_of_fits {a b : Int64} (h : fitsInt64 (a.toInt + b.toInt) = true) :
    (a + b).toInt = a.toInt + b.toInt := by
  rw [fitsInt64_iff] at h
  rw [Int64.toInt_add]
  exact Int.bmod_eq_of_le (by simpa using h.1) (by simpa using h.2)

theorem toInt_mul_of_fits {a b : Int64} (h : fitsInt64 (a.toInt * b.toInt) = true) :
    (a * b).toInt = a.toInt * b.toInt := by
  rw [fitsInt64_iff] at h
  rw [Int64.toInt_mul]
  exact Int.bmod_eq_of_le (by simpa using h.1) (by simpa using h.2)

end RP
