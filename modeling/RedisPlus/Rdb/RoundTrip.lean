import RedisPlus.Framework.Endian
import RedisPlus.Rdb.Format

/-!
# Reading back a snapshot

`Reader.after pre s` is a reader that has read `pre` and has `s` left. Each reading operation
takes off the front of `s` what the matching writing operation puts there
(`length_after`, `str_after`, `u64le_after`), so a round of the loop takes off an opcode with its
arguments, and the whole loop the records (`rdbLoop_records`). With the trailer's check
(`rdbCheck_rdbSerialize`), parsing gives back the records that were written
(`rdbParse_rdbSerialize`).
-/

namespace RP

open Framework (leBytes beBytes ofLE ofBE)

namespace Reader

/-- A reader that has read `pre` of `pre ++ s`. -/
def after (pre s : Bytes) : Reader := { data := pre ++ s, pos := pre.length }

theorem addSize_of_lt {a b : Nat} (h : a + b < 2 ^ 64) : addSize a b = a + b := Nat.mod_eq_of_lt h

theorem u8_after {pre s : Bytes} {b : UInt8} (h : (pre ++ b :: s).length < 2 ^ 64) :
    (after pre (b :: s)).u8 = (b, after (pre ++ [b]) s) := by
  simp only [List.length_append, List.length_cons] at h
  have hadd : addSize pre.length 1 = pre.length + 1 := addSize_of_lt (by omega)
  rw [u8, if_neg (by simp only [after, hadd, List.length_append, List.length_cons]; omega)]
  simp [after, hadd]

theorem beLoop_after : ∀ (bs : Bytes) {v : Nat} {pre s : Bytes}, (pre ++ (bs ++ s)).length < 2 ^ 64 →
    beLoop bs.length v (after pre (bs ++ s)) = (ofBE v bs, after (pre ++ bs) s)
  | [], v, pre, s, _ => by simp [beLoop, ofBE]
  | b :: bs, v, pre, s, h => by
    rw [List.length_cons, beLoop, List.cons_append, u8_after (by simpa using h)]
    simp only [Framework.shiftLeft_or_byte]
    rw [beLoop_after bs (by simpa using h), ofBE, List.append_assoc]
    rfl

theorem leLoop_after : ∀ (bs : Bytes) {i v : Nat} {pre s : Bytes}, v < 256 ^ i →
    (pre ++ (bs ++ s)).length < 2 ^ 64 →
    leLoop bs.length i v (after pre (bs ++ s)) = (v + 256 ^ i * ofLE bs, after (pre ++ bs) s)
  | [], i, v, pre, s, _, _ => by simp [leLoop, ofLE]
  | b :: bs, i, v, pre, s, hv, h => by
    have hb := b.toNat_lt
    have hlt : v + 256 ^ i * b.toNat < 256 ^ (i + 1) := by
      have : 256 ^ i * b.toNat ≤ 256 ^ i * 255 := Nat.mul_le_mul_left _ (by omega)
      rw [Nat.pow_succ]
      omega
    rw [List.length_cons, leLoop, List.cons_append, u8_after (by simpa using h)]
    simp only [Framework.or_shiftLeft_byte hv]
    rw [leLoop_after bs hlt (by simpa using h), ofLE, List.append_assoc, Nat.pow_succ]
    refine Prod.ext ?_ rfl
    ring

end Reader

/-! ## Lengths and strings -/

theorem putU64le_eq (v : Nat) : putU64le v = leBytes 8 v := by
  simp [putU64le, List.range_succ, leBytes, Nat.shiftRight_eq_div_pow, Nat.div_div_eq_div_mul]

theorem putLength_32 {len : Nat} (h : ¬ len < 1 <<< 14) (h' : len ≤ 0xFFFFFFFF) :
    putLength len = k32Bit :: beBytes 4 len := by
  have h6 : ¬ len < 1 <<< 6 := by simp only [Nat.shiftLeft_eq] at h ⊢; omega
  rw [putLength, if_neg h6, if_neg h, if_pos h']
  simp [beBytes, Nat.shiftRight_eq_div_pow]

theorem putLength_64 {len : Nat} (h : ¬ len ≤ 0xFFFFFFFF) : putLength len = k64Bit :: beBytes 8 len := by
  have h6 : ¬ len < 1 <<< 6 := by simp only [Nat.shiftLeft_eq]; omega
  have h14 : ¬ len < 1 <<< 14 := by simp only [Nat.shiftLeft_eq]; omega
  rw [putLength, if_neg h6, if_neg h14, if_neg h]
  simp [beBytes, Nat.shiftRight_eq_div_pow]

/-- The first byte of a length of 6 bits, and of one of 14. -/
theorem first_6bit : ∀ len < 64, UInt8.ofNat (k6Bit.toNat ||| len) &&& 0xC0 = k6Bit ∧
    (UInt8.ofNat (k6Bit.toNat ||| len) &&& 0x3F).toNat = len := by decide

theorem first_14bit : ∀ hi < 64, UInt8.ofNat (k14Bit.toNat ||| hi) &&& 0xC0 = k14Bit ∧
    (UInt8.ofNat (k14Bit.toNat ||| hi) &&& 0x3F).toNat = hi := by decide

namespace Reader

theorem ok_after (pre s : Bytes) : (after pre s).ok = true := rfl

theorem length_after {len : Nat} (hlen : len < 2 ^ 64) {pre s : Bytes}
    (h : (pre ++ (putLength len ++ s)).length < 2 ^ 64) :
    (after pre (putLength len ++ s)).length = ((len, none), after (pre ++ putLength len) s) := by
  by_cases h6 : len < 1 <<< 6
  · have hput : putLength len = [UInt8.ofNat (k6Bit.toNat ||| len)] := if_pos h6
    rw [hput] at h ⊢
    obtain ⟨hc, hv⟩ := first_6bit len (by simpa [Nat.shiftLeft_eq] using h6)
    rw [Reader.length, List.singleton_append, u8_after (by simpa using h)]
    simp only [ok_after, not_true_eq_false, if_false, hc, if_true, hv]
  by_cases h14 : len < 1 <<< 14
  · have hput : putLength len =
        [UInt8.ofNat (k14Bit.toNat ||| len >>> 8), UInt8.ofNat (len &&& 0xFF)] := by
      rw [putLength, if_neg h6, if_pos h14]
    rw [hput] at h ⊢
    have hhi : len >>> 8 < 64 := by
      simp only [Nat.shiftLeft_eq, Nat.shiftRight_eq_div_pow] at h14 ⊢; omega
    obtain ⟨hc, hv⟩ := first_14bit (len >>> 8) hhi
    have hlo : (UInt8.ofNat (len &&& 0xFF)).toNat = len % 256 := by
      rw [Framework.toNat_byte, show len &&& 0xFF = len % 256 from Nat.and_two_pow_sub_one_eq_mod len 8,
        Nat.mod_mod]
    have hval : (len >>> 8) <<< 8 ||| (UInt8.ofNat (len &&& 0xFF)).toNat = len := by
      rw [Framework.shiftLeft_or_byte, hlo, Nat.shiftRight_eq_div_pow]; omega
    rw [Reader.length, List.cons_append, List.singleton_append, u8_after (by simpa using h)]
    simp only [ok_after, not_true_eq_false, if_false, hc, show ¬ k14Bit = k6Bit by decide, if_true, hv]
    rw [u8_after (by simpa using h), hval]
    simp
  by_cases h32 : len ≤ 0xFFFFFFFF
  · rw [putLength_32 h14 h32] at h ⊢
    have hbe := @beLoop_after (beBytes 4 len) 0 (pre ++ [k32Bit]) s (by simpa using h)
    rw [Framework.length_beBytes, Framework.ofBE_beBytes, Nat.mod_eq_of_lt (by omega)] at hbe
    rw [Reader.length, List.cons_append, u8_after (by simpa using h)]
    simp only [ok_after, not_true_eq_false, if_false, show ¬ k32Bit &&& 0xC0 = k6Bit by decide,
      show ¬ k32Bit &&& 0xC0 = k14Bit by decide, show ¬ k32Bit &&& 0xC0 = kEncoded by decide, if_true, hbe]
    simp
  · rw [putLength_64 h32] at h ⊢
    have hbe := @beLoop_after (beBytes 8 len) 0 (pre ++ [k64Bit]) s (by simpa using h)
    rw [Framework.length_beBytes, Framework.ofBE_beBytes, Nat.mod_eq_of_lt (by simpa using hlen)] at hbe
    rw [Reader.length, List.cons_append, u8_after (by simpa using h)]
    simp only [ok_after, not_true_eq_false, if_false, show ¬ k64Bit &&& 0xC0 = k6Bit by decide,
      show ¬ k64Bit &&& 0xC0 = k14Bit by decide, show ¬ k64Bit &&& 0xC0 = kEncoded by decide,
      show ¬ k64Bit = k32Bit by decide, if_true, hbe]
    simp

theorem str_after {x pre s : Bytes} (h : (pre ++ (putString x ++ s)).length < 2 ^ 64) :
    (after pre (putString x ++ s)).str = (x, after (pre ++ putString x) s) := by
  have hx : x.length < 2 ^ 64 := by
    simp only [putString, List.length_append] at h; omega
  rw [putString, List.append_assoc] at h ⊢
  rw [Reader.str, length_after hx h]
  simp only [ok_after, not_true_eq_false, if_false]
  have hadd : addSize (pre ++ putLength x.length).length x.length =
      (pre ++ putLength x.length).length + x.length := by
    refine addSize_of_lt ?_
    simp only [List.length_append] at h ⊢; omega
  simp only [plainStr, after, hadd]
  rw [if_neg (by simp only [List.length_append]; omega), List.drop_left, List.take_left]
  simp [Nat.add_assoc]

theorem u64le_after {v : Nat} (hv : v < 2 ^ 64) {pre s : Bytes}
    (h : (pre ++ (putU64le v ++ s)).length < 2 ^ 64) :
    (after pre (putU64le v ++ s)).u64le = (v, after (pre ++ putU64le v) s) := by
  rw [putU64le_eq] at h ⊢
  have hle := @leLoop_after (leBytes 8 v) 0 0 pre s (by decide) h
  rw [Framework.length_leBytes, Framework.ofLE_leBytes, Nat.mod_eq_of_lt (by simpa using hv)] at hle
  rw [u64le, hle]
  simp

end Reader

/-! ## The opcode loop -/

open Reader (after)

/-- A state between two rounds: `pre` read, `s` left, and the records so far. -/
def between (pre s : Bytes) (pending : Int64) (out : List Record) : ParseState :=
  ⟨after pre s, pending, out⟩

theorem rdbRound_opcode {pre s : Bytes} {op : UInt8} (h : (pre ++ op :: s).length < 2 ^ 64)
    (pending : Int64) (out : List Record) :
    rdbRound (between pre (op :: s) pending out) =
      rdbOpcode op (after (pre ++ [op]) s) (between pre (op :: s) pending out) := by
  have heof : (after pre (op :: s)).eof = false := by simp [Reader.eof, after]
  simp only [rdbRound, between, heof, Reader.u8_after h, Reader.ok_after]
  simp

theorem rdbLoop_step {st st' : ParseState} (h : rdbRound st = .inr st') (rounds : Nat) :
    rdbLoop (rounds + 1) st = rdbLoop rounds st' := by
  rw [rdbLoop, h]

theorem check_after (pre s : Bytes) (pending : Int64) (out : List Record) (default : Bytes) :
    (between pre s pending out).check default = .inr (between pre s pending out) := rfl

theorem rdbRound_aux {x y pre s : Bytes} (out : List Record)
    (h : (pre ++ kOpAux :: (putString x ++ (putString y ++ s))).length < 2 ^ 64) :
    rdbRound (between pre (kOpAux :: (putString x ++ (putString y ++ s))) kNoExpiry out) =
      .inr (between (pre ++ [kOpAux] ++ putString x ++ putString y) s kNoExpiry out) := by
  rw [rdbRound_opcode h, rdbOpcode, if_pos rfl, Reader.str_after (by simpa using h),
    Reader.str_after (by simpa using h)]
  exact check_after _ _ _ _ _

theorem rdbRound_selectDb {pre s : Bytes} {db : Nat} (hdb : db < 2 ^ 64) (out : List Record)
    (h : (pre ++ kOpSelectDb :: (putLength db ++ s)).length < 2 ^ 64) :
    rdbRound (between pre (kOpSelectDb :: (putLength db ++ s)) kNoExpiry out) =
      .inr (between (pre ++ [kOpSelectDb] ++ putLength db) s kNoExpiry out) := by
  rw [rdbRound_opcode h, rdbOpcode, if_neg (by decide), if_pos rfl,
    Reader.length_after hdb (by simpa using h)]
  exact check_after _ _ _ _ _

theorem rdbRound_resizeDb {pre s : Bytes} {a b : Nat} (ha : a < 2 ^ 64) (hb : b < 2 ^ 64)
    (out : List Record)
    (h : (pre ++ kOpResizeDb :: (putLength a ++ (putLength b ++ s))).length < 2 ^ 64) :
    rdbRound (between pre (kOpResizeDb :: (putLength a ++ (putLength b ++ s))) kNoExpiry out) =
      .inr (between (pre ++ [kOpResizeDb] ++ putLength a ++ putLength b) s kNoExpiry out) := by
  rw [rdbRound_opcode h, rdbOpcode, if_neg (by decide), if_neg (by decide), if_pos rfl,
    Reader.length_after ha (by simpa using h), Reader.length_after hb (by simpa using h)]
  exact check_after _ _ _ _ _

theorem ofNat_toUInt64 (d : Int64) : Int64.ofNat d.toUInt64.toNat = d := by
  refine Int64.toBitVec_inj.mp ?_
  show BitVec.ofNat 64 d.toBitVec.toNat = d.toBitVec
  rw [BitVec.ofNat_toNat, BitVec.setWidth_eq]

theorem rdbRound_expireMs {pre s : Bytes} (d : Int64) (out : List Record)
    (h : (pre ++ kOpExpireMs :: (putU64le d.toUInt64.toNat ++ s)).length < 2 ^ 64) :
    rdbRound (between pre (kOpExpireMs :: (putU64le d.toUInt64.toNat ++ s)) kNoExpiry out) =
      .inr (between (pre ++ [kOpExpireMs] ++ putU64le d.toUInt64.toNat) s d out) := by
  rw [rdbRound_opcode h, rdbOpcode, if_neg (by decide), if_neg (by decide), if_neg (by decide),
    if_pos rfl, Reader.u64le_after d.toUInt64.toNat_lt (by simpa using h)]
  simp only [ofNat_toUInt64]
  exact check_after _ _ _ _ _

theorem rdbRound_string {k v pre s : Bytes} (d : Int64) (out : List Record)
    (h : (pre ++ kTypeString :: (putString k ++ (putString v ++ s))).length < 2 ^ 64) :
    rdbRound (between pre (kTypeString :: (putString k ++ (putString v ++ s))) d out) =
      .inr (between (pre ++ [kTypeString] ++ putString k ++ putString v) s kNoExpiry (out ++ [⟨k, v, d⟩])) := by
  rw [rdbRound_opcode h, rdbOpcode, if_neg (by decide), if_neg (by decide), if_neg (by decide),
    if_neg (by decide), if_neg (by decide), if_pos rfl, Reader.str_after (by simpa using h),
    Reader.str_after (by simpa using h)]
  exact check_after _ _ _ _ _

/-- The rounds that reading a record takes. -/
def recordRounds (r : Record) : Nat := if r.expireAt ≠ kNoExpiry then 2 else 1

theorem rdbLoop_record {pre s : Bytes} (r : Record) (out : List Record) (rounds : Nat)
    (h : (pre ++ (putRecord r ++ s)).length < 2 ^ 64) :
    rdbLoop (rounds + recordRounds r) (between pre (putRecord r ++ s) kNoExpiry out) =
      rdbLoop rounds (between (pre ++ putRecord r) s kNoExpiry (out ++ [r])) := by
  by_cases hd : r.expireAt = kNoExpiry
  · have hput : putRecord r = kTypeString :: (putString r.key ++ putString r.value) := by
      simp [putRecord, hd]
    have hround := @rdbRound_string r.key r.value pre s kNoExpiry out (by rw [hput] at h; simpa using h)
    rw [show recordRounds r = 1 from if_neg (by simp [hd])]
    rw [hput, List.cons_append, List.append_assoc, rdbLoop_step hround, ← hd]
    simp
  · have hput : putRecord r = kOpExpireMs :: (putU64le r.expireAt.toUInt64.toNat ++
        kTypeString :: (putString r.key ++ putString r.value)) := by
      simp [putRecord, hd]
    have hround₁ := @rdbRound_expireMs pre
      (kTypeString :: (putString r.key ++ (putString r.value ++ s))) r.expireAt out
      (by rw [hput] at h; simpa using h)
    have hround₂ := @rdbRound_string r.key r.value
      (pre ++ [kOpExpireMs] ++ putU64le r.expireAt.toUInt64.toNat) s r.expireAt out
      (by rw [hput] at h; simpa using h)
    rw [show recordRounds r = 2 from if_pos hd, hput]
    simp only [List.cons_append, List.append_assoc]
    rw [show rounds + 2 = rounds + 1 + 1 from rfl, rdbLoop_step hround₁, rdbLoop_step hround₂]
    simp

/-- The loop over the records. -/
theorem rdbLoop_records : ∀ (rs : List Record) {pre s : Bytes} (out : List Record) (rounds : Nat),
    (pre ++ (rs.flatMap putRecord ++ s)).length < 2 ^ 64 →
    rdbLoop (rounds + (rs.map recordRounds).sum) (between pre (rs.flatMap putRecord ++ s) kNoExpiry out) =
      rdbLoop rounds (between (pre ++ rs.flatMap putRecord) s kNoExpiry (out ++ rs))
  | [], pre, s, out, rounds, _ => by simp
  | r :: rs, pre, s, out, rounds, h => by
    rw [List.flatMap_cons, List.append_assoc] at h ⊢
    rw [List.map_cons, List.sum_cons, Nat.add_comm (recordRounds r), ← Nat.add_assoc,
      rdbLoop_record r out _ h, rdbLoop_records rs _ _ (by simpa using h)]
    simp

theorem sum_recordRounds_le : ∀ rs : List Record, (rs.map recordRounds).sum ≤ 2 * rs.length
  | [] => Nat.le_refl 0
  | r :: rs => by
    have := sum_recordRounds_le rs
    have : recordRounds r ≤ 2 := by unfold recordRounds; split <;> omega
    rw [List.map_cons, List.sum_cons, List.length_cons]
    omega

theorem putString_ne_nil (s : Bytes) : putString s ≠ [] := by
  unfold putString putLength
  repeat' split
  all_goals simp

/-- A record takes a byte for its type, and at least one for each of its strings. -/
theorem length_le_flatMap_putRecord : ∀ rs : List Record, 2 * rs.length ≤ (rs.flatMap putRecord).length
  | [] => Nat.le_refl 0
  | r :: rs => by
    have := length_le_flatMap_putRecord rs
    have := List.length_pos_iff.mpr (putString_ne_nil r.key)
    rw [List.flatMap_cons, List.length_append, List.length_cons, putRecord, List.length_append,
      List.length_cons, List.length_append]
    omega

/-- The whole loop. -/
theorem rdbLoop_body {rs : List Record} (h : (rdbBody rs).length < 2 ^ 64) {rounds : Nat}
    (hr : 2 * rs.length + 4 ≤ rounds) :
    rdbLoop rounds { reader := { data := rdbBody rs } } = some ⟨.ok (), rs⟩ := by
  have hsum := sum_recordRounds_le rs
  have hcount := length_le_flatMap_putRecord rs
  have hfilter := List.length_filter_le (fun r : Record => decide (r.expireAt ≠ kNoExpiry)) rs
  obtain ⟨n, rfl⟩ : ∃ n, rounds = n + 1 + (rs.map recordRounds).sum + 1 + 1 + 1 :=
    ⟨rounds - (rs.map recordRounds).sum - 4, by omega⟩
  have hlen : rs.length < 2 ^ 64 := by
    simp only [rdbBody, List.length_append] at h; omega
  show rdbLoop _ (between [] (rdbBody rs) kNoExpiry []) = _
  simp only [rdbBody, List.cons_append, List.append_assoc] at h ⊢
  rw [rdbLoop_step (rdbRound_aux [] (by simpa using h)),
    rdbLoop_step (rdbRound_selectDb (by decide) [] (by simpa using h)),
    rdbLoop_step (rdbRound_resizeDb hlen (by omega) [] (by simpa using h)),
    ← List.append_nil (rs.flatMap putRecord), rdbLoop_records rs [] (n + 1) (by simpa using h)]
  simp [rdbLoop, rdbRound, between, after, Reader.eof]

/-! ## The trailer -/

/-- The trailer of a payload is the number that its last eight bytes spell. -/
theorem storedCrc_append {out bs : Bytes} (h : bs.length = 8) : storedCrc (out ++ bs) = ofLE bs := by
  rw [storedCrc, Framework.foldl_or_bytes fun i => (out ++ bs).getD ((out ++ bs).length - 8 + i) 0]
  congr 1
  refine List.ext_getElem (by simp [h]) fun i hi hi' => ?_
  have hpos : (out ++ bs).length - 8 + i = out.length + i := by rw [List.length_append]; omega
  rw [List.getElem_map, List.getElem_range, hpos, List.getD_append_right _ _ _ _ (by omega),
    Nat.add_sub_cancel_left, List.getD_eq_getElem _ _ hi']

/-- Everything that the trailer covers. -/
def rdbCovered (rs : List Record) : Bytes := kRdbMagic ++ kRdbVersion ++ rdbBody rs ++ [kOpEof]

theorem rdbSerialize_eq (rs : List Record) :
    rdbSerialize rs = rdbCovered rs ++ leBytes 8 (crc64 0 (rdbCovered rs)).toNat := by
  rw [← putU64le_eq]; rfl

theorem length_rdbSerialize (rs : List Record) :
    (rdbSerialize rs).length = rdbHeader + (rdbBody rs).length + 9 := by
  rw [rdbSerialize_eq, rdbCovered]
  simp only [List.length_append, Framework.length_leBytes, List.length_singleton, rdbHeader]

/-- There are at most as many rounds as bytes. -/
theorem rounds_le_length (rs : List Record) : 2 * rs.length + 4 ≤ (rdbSerialize rs).length := by
  have hcount := length_le_flatMap_putRecord rs
  have hheader : rdbHeader = 9 := by decide
  rw [length_rdbSerialize, rdbBody]
  simp only [List.length_append]
  omega

theorem storedCrc_rdbSerialize (rs : List Record) :
    storedCrc (rdbSerialize rs) = (crc64 0 (rdbCovered rs)).toNat := by
  rw [rdbSerialize_eq, storedCrc_append (Framework.length_leBytes 8 _), Framework.ofLE_leBytes]
  exact Nat.mod_eq_of_lt (UInt64.toNat_lt _)

theorem rdbCheck_rdbSerialize (rs : List Record) : rdbCheck (rdbSerialize rs) = none := by
  have hlen := length_rdbSerialize rs
  have hcov : (rdbCovered rs).length = (rdbSerialize rs).length - 8 := by
    rw [rdbSerialize_eq, List.length_append, Framework.length_leBytes]; omega
  have htake : (rdbSerialize rs).take ((rdbSerialize rs).length - 8) = rdbCovered rs := by
    rw [← hcov, rdbSerialize_eq, List.take_left]
  have hsplit : rdbSerialize rs = kRdbMagic ++ (kRdbVersion ++ (rdbBody rs ++ ([kOpEof] ++
      leBytes 8 (crc64 0 (rdbCovered rs)).toNat))) := by
    rw [rdbSerialize_eq]; simp [rdbCovered]
  have hmagic : (rdbSerialize rs).take kRdbMagic.length = kRdbMagic := by
    rw [hsplit, List.take_left]
  have hversion : ((rdbSerialize rs).drop kRdbMagic.length).take 4 = kRdbVersion := by
    rw [hsplit, List.drop_left]; exact List.take_left' rfl
  have heof : (rdbSerialize rs).getD ((rdbSerialize rs).length - 8 - 1) 0 = kOpEof := by
    have : (rdbSerialize rs).length - 8 - 1 = (kRdbMagic ++ kRdbVersion ++ rdbBody rs).length := by
      rw [hlen]; simp only [List.length_append, rdbHeader]; omega
    rw [this, rdbSerialize_eq, rdbCovered, List.append_assoc _ [kOpEof],
      List.getD_append_right _ _ _ _ (Nat.le_refl _), Nat.sub_self]
    rfl
  rw [rdbCheck, if_neg (by omega), if_neg (by simp [hmagic])]
  simp only [hversion, htake, heof, storedCrc_rdbSerialize]
  rw [if_neg (by decide), if_neg (by omega), if_neg (by simp), if_neg (by simp)]

/-- The opcodes of a payload. -/
theorem rdbStart_rdbSerialize (rs : List Record) :
    rdbStart (rdbSerialize rs) = { reader := { data := rdbBody rs } } := by
  have hlen := length_rdbSerialize rs
  have : (rdbSerialize rs).length - 8 - 1 - rdbHeader = (rdbBody rs).length := by omega
  rw [rdbStart, this, rdbSerialize_eq, rdbCovered]
  simp only [List.append_assoc]
  rw [← List.append_assoc kRdbMagic, List.drop_left' (by rfl), List.take_left]

theorem rdbSerialize_ne_nil (rs : List Record) : rdbSerialize rs ≠ [] := by
  intro h
  have := length_rdbSerialize rs
  rw [h, List.length_nil] at this
  omega

/-- Parsing undoes serializing. -/
theorem rdbParse_rdbSerialize {rs : List Record} (h : (rdbSerialize rs).length < 2 ^ 64) {rounds : Nat}
    (hr : 2 * rs.length + 4 ≤ rounds) : rdbParse rounds (rdbSerialize rs) = some ⟨.ok (), rs⟩ := by
  have hlen := length_rdbSerialize rs
  rw [rdbParse, rdbCheck_rdbSerialize, rdbStart_rdbSerialize]
  exact rdbLoop_body (by omega) hr

/-- For every list of records whose payload fits a string: parsing it ends, returns true, and
gives back the records in their order. -/
theorem rdb_round_trip (rs : List Record) (h : (rdbSerialize rs).length < 2 ^ 64) :
    ∃ enough, ∀ rounds ≥ enough, rdbParse rounds (rdbSerialize rs) = some ⟨.ok (), rs⟩ :=
  ⟨2 * rs.length + 4, fun _ hr => rdbParse_rdbSerialize h hr⟩

/-- A key that is gone since before the epoch, and one that stays. -/
theorem rdb_round_trip_two :
    ∃ enough, ∀ rounds ≥ enough,
      rdbParse rounds (rdbSerialize [⟨str "k", str "v", -2⟩, ⟨[], [255, 0], kNoExpiry⟩]) =
        some ⟨.ok (), [⟨str "k", str "v", -2⟩, ⟨[], [255, 0], kNoExpiry⟩]⟩ :=
  rdb_round_trip _ (by rw [length_rdbSerialize]; decide)

end RP
