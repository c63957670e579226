import Mathlib.Data.Nat.Digits.Lemmas

/-!
# Decimal numerals over bytes

The numeral of a natural number (`decimal`) and of an integer (`signed`), and a reader of
numerals that refuses a magnitude above a bound before it is computed (`readDigits`,
`readSigned`). The reader accepts exactly the strings of digits whose value is within the
bound (`readDigits_eq_some`, `readSigned_eq_some`), so it reads back every numeral within it
(`readDigits_decimal`, `readSigned_signed`).
-/

namespace Framework

/-- `'0'` to `'9'`. -/
def isDigit (c : UInt8) : Bool := 48 ≤ c && c ≤ 57

/-- The value of a digit. -/
def digitVal (c : UInt8) : Nat := (c - 48).toNat

/-- The digits `cs`, most significant first, after the value `v` read so far: refused if a
byte is not a digit, or if the value would pass `max`. -/
def readDigits (max : Nat) : Nat → List UInt8 → Option Nat
  | v, [] => some v
  | v, c :: cs =>
    if isDigit c then
      if v > (max - digitVal c) / 10 then none else readDigits max (v * 10 + digitVal c) cs
    else none

/-- The number that the digits `cs` denote after `v`. -/
def digitsVal : Nat → List UInt8 → Nat
  | v, [] => v
  | v, c :: cs => digitsVal (v * 10 + digitVal c) cs

theorem digitVal_le {c : UInt8} (h : isDigit c = true) : digitVal c ≤ 9 := by
  simp only [isDigit, Bool.and_eq_true, decide_eq_true_eq] at h
  have h57 : c.toNat ≤ 57 := UInt8.le_iff_toNat_le.mp h.2
  have h48 : (48 : UInt8).toNat = 48 := rfl
  rw [digitVal, UInt8.toNat_sub_of_le _ _ h.1]
  omega

theorem le_digitsVal : ∀ (cs : List UInt8) (v : Nat), v ≤ digitsVal v cs
  | [], _ => Nat.le_refl _
  | c :: cs, v => by
    have := le_digitsVal cs (v * 10 + digitVal c)
    simp only [digitsVal]; omega

theorem digitsVal_append : ∀ (cs ds : List UInt8) (v : Nat),
    digitsVal v (cs ++ ds) = digitsVal (digitsVal v cs) ds
  | [], _, _ => rfl
  | _ :: cs, ds, _ => digitsVal_append cs ds _

/-- The reader's bound check is exact: it refuses a digit exactly when the next value would
pass `max`. -/
theorem bound_check {max v d : Nat} (hd : d ≤ max) : ¬ v > (max - d) / 10 ↔ v * 10 + d ≤ max := by
  omega

/-- What `readDigits` accepts: digits only, with a value within the bound. -/
theorem readDigits_eq_some {max : Nat} (hm : 9 ≤ max) : ∀ {cs : List UInt8} {v w : Nat}, v ≤ max →
    (readDigits max v cs = some w ↔
      (∀ c ∈ cs, isDigit c = true) ∧ digitsVal v cs ≤ max ∧ w = digitsVal v cs)
  | [], v, w, hv => by simp [readDigits, digitsVal, hv, eq_comm (a := v)]
  | c :: cs, v, w, hv => by
    simp only [readDigits, digitsVal, List.mem_cons, forall_eq_or_imp]
    by_cases hc : isDigit c = true
    · have hd := (digitVal_le hc).trans hm
      by_cases hb : v > (max - digitVal c) / 10
      · have hlt : ¬ digitsVal (v * 10 + digitVal c) cs ≤ max := fun hle =>
          (bound_check hd).mpr ((le_digitsVal cs _).trans hle) hb
        simp [hc, hb, hlt]
      · simp [hc, hb, readDigits_eq_some hm ((bound_check hd).mp hb)]
    · simp [hc]

/-- The reader refuses a string that has a byte other than a digit. -/
theorem readDigits_eq_none {max : Nat} {c : UInt8} (hc : isDigit c = false) :
    ∀ {cs : List UInt8} {v : Nat}, c ∈ cs → readDigits max v cs = none
  | d :: cs, v, h => by
    rcases List.mem_cons.mp h with rfl | h
    · simp [readDigits, hc]
    · simp only [readDigits]
      split
      · split
        · rfl
        · exact readDigits_eq_none hc h
      · rfl

/-! ## Numerals -/

/-- The byte of the digit `d`. -/
def digitByte (d : Nat) : UInt8 := UInt8.ofNat (48 + d)

/-- The numeral of `n`, without leading zeros. -/
def decimal (n : Nat) : List UInt8 :=
  if n = 0 then [48] else (Nat.digits 10 n).reverse.map digitByte

theorem isDigit_digitByte {d : Nat} (h : d < 10) : isDigit (digitByte d) = true := by
  revert d; decide

theorem digitVal_digitByte {d : Nat} (h : d < 10) : digitVal (digitByte d) = d := by
  revert d; decide

theorem decimal_isDigit (n : Nat) : ∀ c ∈ decimal n, isDigit c = true := by
  intro c hc
  simp only [decimal] at hc
  split at hc
  · simp only [List.mem_singleton] at hc; subst hc; decide
  · simp only [List.map_reverse, List.mem_reverse, List.mem_map] at hc
    obtain ⟨d, hd, rfl⟩ := hc
    exact isDigit_digitByte (Nat.digits_lt_base (by decide) hd)

theorem decimal_ne_nil (n : Nat) : decimal n ≠ [] := by
  simp only [decimal]
  split
  · simp
  · rename_i h
    simp [Nat.digits_ne_nil_iff_ne_zero.mpr h]

theorem digitsVal_digits : ∀ (ds : List Nat), (∀ d ∈ ds, d < 10) →
    digitsVal 0 (ds.reverse.map digitByte) = Nat.ofDigits 10 ds
  | [], _ => rfl
  | d :: ds, h => by
    have ih := digitsVal_digits ds fun e he => h e (List.mem_cons_of_mem _ he)
    rw [List.reverse_cons, List.map_append, digitsVal_append, ih, Nat.ofDigits_cons]
    simp only [List.map_cons, List.map_nil, digitsVal, digitVal_digitByte (h d List.mem_cons_self)]
    rw [Nat.mul_comm, Nat.add_comm]

theorem digitsVal_decimal (n : Nat) : digitsVal 0 (decimal n) = n := by
  simp only [decimal]
  split
  · rename_i h; subst h; rfl
  · rw [digitsVal_digits _ fun d hd => Nat.digits_lt_base (by decide) hd, Nat.ofDigits_digits]

/-- Every numeral within the bound is read back. -/
theorem readDigits_decimal {max n : Nat} (hm : 9 ≤ max) (hn : n ≤ max) :
    readDigits max 0 (decimal n) = some n :=
  (readDigits_eq_some hm (Nat.zero_le _)).mpr
    ⟨decimal_isDigit n, by rwa [digitsVal_decimal], (digitsVal_decimal n).symm⟩

/-- A number below `10 ^ k` has at most `k` digits. -/
theorem length_decimal_le {n k : Nat} (hk : 0 < k) (h : n < 10 ^ k) : (decimal n).length ≤ k := by
  simp only [decimal]
  split
  · exact hk
  · rename_i hn
    rw [List.length_map, List.length_reverse, Nat.length_digits 10 n (by decide) hn]
    have := Nat.log_lt_of_lt_pow hn h
    omega

/-! ## Signs -/

/-- The numeral of an integer. -/
def signed (i : Int) : List UInt8 := if i < 0 then 45 :: decimal i.natAbs else decimal i.natAbs

/-- An optional sign, then at least one digit, with a magnitude of at most `max`. -/
def readSigned (max : Nat) : List UInt8 → Option Int
  | [] => none
  | c :: cs =>
    if c = 45 ∨ c = 43 then
      if cs = [] then none
      else (readDigits max 0 cs).map fun (v : Nat) => if c = 45 then -(v : Int) else v
    else (readDigits max 0 (c :: cs)).map fun (v : Nat) => (v : Int)

theorem readSigned_digits {max : Nat} {cs : List UInt8} (hne : cs ≠ [])
    (hd : ∀ c ∈ cs, isDigit c = true) :
    readSigned max cs = (readDigits max 0 cs).map fun (v : Nat) => (v : Int) := by
  cases cs with
  | nil => exact absurd rfl hne
  | cons c cs =>
    have hc := hd c List.mem_cons_self
    have h45 : c ≠ 45 := by rintro rfl; exact absurd hc (by decide)
    have h43 : c ≠ 43 := by rintro rfl; exact absurd hc (by decide)
    simp [readSigned, h45, h43]

theorem readSigned_decimal {max n : Nat} (hm : 9 ≤ max) (hn : n ≤ max) :
    readSigned max (decimal n) = some (n : Int) := by
  rw [readSigned_digits (decimal_ne_nil n) (decimal_isDigit n), readDigits_decimal hm hn]
  rfl

/-- Every integer whose magnitude is within the bound is read back from its numeral. -/
theorem readSigned_signed {max : Nat} {i : Int} (hm : 9 ≤ max) (hi : i.natAbs ≤ max) :
    readSigned max (signed i) = some i := by
  simp only [signed]
  split
  · rename_i h
    simp only [readSigned, decimal_ne_nil, readDigits_decimal hm hi, Option.map_some, true_or,
      if_true, if_false, Option.some.injEq]
    omega
  · rename_i h
    rw [readSigned_decimal hm hi, Option.some.injEq]
    omega

/-- A byte that is neither a sign nor a digit is refused anywhere. -/
theorem readSigned_eq_none {max : Nat} {c : UInt8} (hc : isDigit c = false) (h45 : c ≠ 45)
    (h43 : c ≠ 43) {cs : List UInt8} (h : c ∈ cs) : readSigned max cs = none := by
  cases cs with
  | nil => rfl
  | cons d ds =>
    simp only [readSigned]
    split
    · rename_i hd
      have hmem : c ∈ ds := by
        rcases List.mem_cons.mp h with rfl | h
        · exact absurd hd (by simp [h45, h43])
        · exact h
      rw [readDigits_eq_none hc hmem]; simp
    · rw [readDigits_eq_none hc h]; rfl

/-- The string of digits, possibly after a sign, denotes the integer. -/
inductive Numeral : List UInt8 → Int → Prop where
  | unsigned {ds : List UInt8} (hne : ds ≠ []) (hd : ∀ c ∈ ds, isDigit c = true) :
    Numeral ds (digitsVal 0 ds)
  | plus {ds : List UInt8} (hne : ds ≠ []) (hd : ∀ c ∈ ds, isDigit c = true) :
    Numeral (43 :: ds) (digitsVal 0 ds)
  | minus {ds : List UInt8} (hne : ds ≠ []) (hd : ∀ c ∈ ds, isDigit c = true) :
    Numeral (45 :: ds) (-(digitsVal 0 ds : Nat))

theorem numeral_decimal (n : Nat) : Numeral (decimal n) n := by
  have h := Numeral.unsigned (decimal_ne_nil n) (decimal_isDigit n)
  rwa [digitsVal_decimal] at h

theorem Numeral.ne_nil {cs : List UInt8} {i : Int} (h : Numeral cs i) : cs ≠ [] := by
  cases h with
  | unsigned hne => exact hne
  | plus => exact List.cons_ne_nil _ _
  | minus => exact List.cons_ne_nil _ _

/-- A byte that is neither a sign nor a digit is in no numeral. -/
theorem Numeral.not_mem {cs : List UInt8} {i : Int} (h : Numeral cs i) {c : UInt8}
    (hc : isDigit c = false) (h45 : c ≠ 45) (h43 : c ≠ 43) : c ∉ cs := by
  have hdigits {ds : List UInt8} (hd : ∀ c ∈ ds, isDigit c = true) : c ∉ ds := fun hmem => by
    rw [hd c hmem] at hc
    cases hc
  cases h with
  | unsigned _ hd => exact hdigits hd
  | plus _ hd => simpa [h43] using hdigits hd
  | minus _ hd => simpa [h45] using hdigits hd

/-- What `readSigned` accepts: the numerals whose magnitude is within the bound. -/
theorem readSigned_eq_some {max : Nat} (hm : 9 ≤ max) {cs : List UInt8} {i : Int} :
    readSigned max cs = some i ↔ Numeral cs i ∧ i.natAbs ≤ max := by
  have hread {ds : List UInt8} {v : Nat} : readDigits max 0 ds = some v ↔
      (∀ c ∈ ds, isDigit c = true) ∧ digitsVal 0 ds ≤ max ∧ v = digitsVal 0 ds :=
    readDigits_eq_some hm (Nat.zero_le _)
  constructor
  · intro h
    cases cs with
    | nil => cases h
    | cons c cs =>
      simp only [readSigned] at h
      split at h
      · rename_i hsign
        split at h
        · cases h
        rename_i hne
        obtain ⟨v, hv, rfl⟩ := Option.map_eq_some_iff.mp h
        obtain ⟨hd, hle, rfl⟩ := hread.mp hv
        rcases hsign with rfl | rfl
        · exact ⟨.minus hne hd, by simpa using hle⟩
        · exact ⟨.plus hne hd, by simpa using hle⟩
      · obtain ⟨v, hv, rfl⟩ := Option.map_eq_some_iff.mp h
        obtain ⟨hd, hle, rfl⟩ := hread.mp hv
        exact ⟨.unsigned (List.cons_ne_nil _ _) hd, by simpa using hle⟩
  · rintro ⟨hn, hle⟩
    cases hn with
    | unsigned hne hd =>
      rw [readSigned_digits hne hd, hread.mpr ⟨hd, by simpa using hle, rfl⟩]
      rfl
    | plus hne hd =>
      simp [readSigned, hne, hread.mpr ⟨hd, by simpa using hle, rfl⟩]
    | minus hne hd =>
      simp [readSigned, hne, hread.mpr ⟨hd, by simpa using hle, rfl⟩]

end Framework
