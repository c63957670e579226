import Mathlib.Data.Fintype.EquivFin
import Mathlib.Data.Nat.Bitwise

/-!
# Shift registers that take a byte at a time

A register of `w` bytes moves down by one byte in each step, and the word that a table has for the byte
that falls out, with the next byte of the input in it, is added (`Register.step`). The first bytes of
the table's words are all different. So the first bytes of the register tell which words were added
last (`step_tops`): a step with a given byte loses nothing of the register (`step_inj`), and neither do
up to `w` steps lose anything of the bytes they take (`run_tops`). A change of the input within `w`
bytes changes what the register has at the end (`run_burst`).

That the first bytes are all different can be computed: together they are all bytes
(`injective_of_mask`).
-/

namespace Framework

/-- The table of a register of `w` bytes. -/
structure Register (w : Nat) where
  table : Nat → Nat
  table_lt : ∀ i < 256, table i < 256 ^ w
  table_inj : ∀ i < 256, ∀ j < 256, table i / 256 ^ (w - 1) = table j / 256 ^ (w - 1) → i = j

namespace Register

variable {w : Nat} (R : Register w)

/-- Which word the step with `b` adds. -/
def index (s : Nat) (b : UInt8) : Nat := (s ^^^ b.toNat) % 256

/-- The register after a byte. -/
def step (s : Nat) (b : UInt8) : Nat := R.table (index s b) ^^^ s / 256

/-- The register after some bytes. -/
def run (s : Nat) (bs : List UInt8) : Nat := bs.foldl R.step s

theorem index_lt (s : Nat) (b : UInt8) : index s b < 256 := Nat.mod_lt _ (by decide)

theorem index_eq (s : Nat) (b : UInt8) : index s b = s % 256 ^^^ b.toNat := by
  rw [index, show (256 : Nat) = 2 ^ 8 from rfl, Nat.xor_mod_two_pow, Nat.mod_eq_of_lt b.toNat_lt]

theorem div_lt {s : Nat} (h : s < 256 ^ w) : s / 256 < 256 ^ (w - 1) := by
  cases w with
  | zero => rw [Nat.pow_zero] at h; simp [Nat.lt_one_iff.mp h]
  | succ w => exact Nat.div_lt_of_lt_mul (by rwa [Nat.pow_succ'] at h)

theorem step_lt {s : Nat} (h : s < 256 ^ w) (b : UInt8) : R.step s b < 256 ^ w := by
  have hpow (n : Nat) : 256 ^ n = 2 ^ (8 * n) := by rw [Nat.pow_mul]
  have hs : s / 256 < 256 ^ w := Nat.lt_of_le_of_lt (Nat.div_le_self ..) h
  have ht := R.table_lt _ (index_lt s b)
  rw [hpow] at hs ht ⊢
  exact Nat.xor_lt_two_pow ht hs

theorem run_lt : ∀ {s : Nat} (bs : List UInt8), s < 256 ^ w → R.run s bs < 256 ^ w
  | _, [], h => h
  | _, b :: bs, h => run_lt bs (R.step_lt h b)

theorem xor_div (a b n : Nat) : (a ^^^ b) / 256 ^ n = a / 256 ^ n ^^^ b / 256 ^ n := by
  rw [show (256 : Nat) ^ n = 2 ^ (8 * n) by rw [Nat.pow_mul], Nat.xor_div_two_pow]

/-- The first byte after a step is that of the word it added. -/
theorem step_top {s : Nat} (hs : s < 256 ^ w) (b : UInt8) :
    R.step s b / 256 ^ (w - 1) = R.table (index s b) / 256 ^ (w - 1) := by
  rw [step, xor_div, Nat.div_eq_of_lt (div_lt hs), Nat.xor_zero]

/-- The first `k` bytes of two registers are the same. -/
def SameTop (w k s s' : Nat) : Prop := s / 256 ^ (w - k) = s' / 256 ^ (w - k)

theorem SameTop.mono {s s' k j : Nat} (h : SameTop w k s s') (hj : j ≤ k) (hk : k ≤ w) :
    SameTop w j s s' := by
  have hsplit : 256 ^ (w - j) = 256 ^ (w - k) * 256 ^ (k - j) := by
    rw [← Nat.pow_add]
    congr 1
    omega
  unfold SameTop at h ⊢
  rw [hsplit, ← Nat.div_div_eq_div_mul, ← Nat.div_div_eq_div_mul, h]

theorem sameTop_all {s s' : Nat} : SameTop w w s s' ↔ s = s' := by simp [SameTop]

/-- The first `k + 1` bytes after a step tell which word was added, and the first `k` bytes before. -/
theorem step_tops {s s' : Nat} (hs : s < 256 ^ w) (hs' : s' < 256 ^ w) {b b' : UInt8} {k : Nat}
    (hk : k < w) (h : SameTop w (k + 1) (R.step s b) (R.step s' b')) :
    index s b = index s' b' ∧ SameTop w k s s' := by
  have hfirst := h.mono (j := 1) (by omega) hk
  rw [SameTop, R.step_top hs, R.step_top hs'] at hfirst
  have hindex := R.table_inj _ (index_lt s b) _ (index_lt s' b') hfirst
  refine ⟨hindex, ?_⟩
  have hdown (t : Nat) : t / 256 / 256 ^ (w - (k + 1)) = t / 256 ^ (w - k) := by
    rw [Nat.div_div_eq_div_mul, ← Nat.pow_succ']
    congr 2
    omega
  rw [SameTop, step, step, hindex, xor_div, xor_div, hdown, hdown] at h
  exact Nat.xor_right_injective h

theorem index_inj_byte {s : Nat} {b b' : UInt8} (h : index s b = index s b') : b = b' := by
  rw [index_eq, index_eq] at h
  exact UInt8.toNat_inj.mp (Nat.xor_right_injective h)

theorem index_inj_low {s s' : Nat} {b : UInt8} (h : index s b = index s' b) : s % 256 = s' % 256 := by
  rw [index_eq, index_eq] at h
  exact Nat.xor_left_injective h

/-- A step with a given byte loses nothing of the register. -/
theorem step_inj {s s' : Nat} (hs : s < 256 ^ w) (hs' : s' < 256 ^ w) {b : UInt8}
    (h : R.step s b = R.step s' b) : s = s' := by
  cases w with
  | zero => rw [Nat.pow_zero, Nat.lt_one_iff] at hs hs'; rw [hs, hs']
  | succ w =>
    obtain ⟨hindex, htop⟩ := R.step_tops hs hs' (Nat.lt_succ_self w) (sameTop_all.mpr h)
    have hhigh : s / 256 = s' / 256 := by simpa [SameTop] using htop
    have hlow := index_inj_low hindex
    omega

theorem run_inj : ∀ (bs : List UInt8) {s s' : Nat}, s < 256 ^ w → s' < 256 ^ w →
    R.run s bs = R.run s' bs → s = s'
  | [], _, _, _, _, h => h
  | b :: bs, _, _, hs, hs', h => R.step_inj hs hs' (run_inj bs (R.step_lt hs b) (R.step_lt hs' b) h)

/-- The first `k` bytes after at most `k` steps tell the first bytes before, and with the same register
before, the bytes that the steps took. -/
theorem run_tops : ∀ (bs bs' : List UInt8) {s s' k : Nat}, s < 256 ^ w → s' < 256 ^ w → k ≤ w →
    bs.length ≤ k → bs.length = bs'.length → SameTop w k (R.run s bs) (R.run s' bs') →
    SameTop w (k - bs.length) s s' ∧ (s = s' → bs = bs')
  | [], [], _, _, _, _, _, _, _, _, h => ⟨h, fun _ => rfl⟩
  | [], _ :: _, _, _, _, _, _, _, _, hlen, _ => by cases hlen
  | _ :: _, [], _, _, _, _, _, _, _, hlen, _ => by cases hlen
  | b :: bs, b' :: bs', s, s', k, hs, hs', hk, hle, hlen, h => by
    rw [List.length_cons] at hle
    obtain ⟨htop, hbytes⟩ := run_tops bs bs' (R.step_lt hs b) (R.step_lt hs' b') hk (by omega)
      (Nat.succ.inj hlen) h
    rw [show k - bs.length = k - (b :: bs).length + 1 by rw [List.length_cons]; omega] at htop
    obtain ⟨hindex, htop⟩ := R.step_tops hs hs' (by rw [List.length_cons]; omega) htop
    refine ⟨htop, ?_⟩
    rintro rfl
    obtain rfl := index_inj_byte hindex
    rw [hbytes rfl]

/-- A change within `w` bytes of the input changes the register at the end. -/
theorem run_burst {before bs bs' after : List UInt8} {s : Nat} (hs : s < 256 ^ w)
    (hlen : bs.length = bs'.length)
    (hw : bs.length ≤ w) (h : R.run s (before ++ bs ++ after) = R.run s (before ++ bs' ++ after)) :
    bs = bs' := by
  have hbefore := R.run_lt before hs
  simp only [run, List.foldl_append] at h
  have hmid : R.run (R.run s before) bs = R.run (R.run s before) bs' :=
    R.run_inj after (R.run_lt bs hbefore) (R.run_lt bs' hbefore) h
  exact (R.run_tops bs bs' hbefore hbefore (Nat.le_refl w) hw hlen (sameTop_all.mpr hmid)).2 rfl

end Register

/-! ## Numbers that are all different -/

/-- The bits that are set one after the other. -/
theorem testBit_foldl_or (p : Nat → Bool) (f : Nat → Nat) (t : Nat) : ∀ (l : List Nat) (m : Nat),
    (l.foldl (fun m i => if p i then m ||| 1 <<< f i else m) m).testBit t = true ↔
      m.testBit t = true ∨ ∃ i ∈ l, p i = true ∧ f i = t
  | [], m => by simp
  | i :: l, m => by
    rw [List.foldl_cons, testBit_foldl_or p f t l]
    split
    · rename_i hp
      rw [Nat.testBit_or, Nat.one_shiftLeft, Nat.testBit_two_pow]
      simp [hp, or_assoc]
    · rename_i hp
      simp [hp]

/-- Numbers that together are all below `n` are different from each other. -/
theorem injective_of_mask {f : Nat → Nat} {n : Nat}
    (h : (List.range n).foldl (fun m i => m ||| 1 <<< f i) 0 = 2 ^ n - 1) :
    ∀ i < n, ∀ j < n, f i = f j → i = j := by
  have hmem (t : Nat) : t < n ↔ ∃ i < n, f i = t := by
    have hbit := testBit_foldl_or (fun _ => true) f t (List.range n) 0
    simp only [if_true, h, Nat.testBit_two_pow_sub_one, decide_eq_true_eq] at hbit
    simpa using hbit
  have hsurj : Function.Surjective fun i : Fin n => (⟨f i, (hmem _).mpr ⟨i, i.isLt, rfl⟩⟩ : Fin n) := by
    intro t
    obtain ⟨i, hi, ht⟩ := (hmem t).mp t.isLt
    exact ⟨⟨i, hi⟩, Fin.ext ht⟩
  intro i hi j hj hij
  have hinj := Finite.injective_iff_surjective.mpr hsurj
  exact congrArg Fin.val (@hinj ⟨i, hi⟩ ⟨j, hj⟩ (Fin.ext hij))

end Framework
