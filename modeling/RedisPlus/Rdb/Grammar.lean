import RedisPlus.Rdb.RoundTrip
import RedisPlus.Rdb.Truncated

/-!
# What the snapshot reader accepts

The format that `rdb_parse` reads is given by derivations: a `Length`, a `Str`, an `Item` with its
opcode, and `Items` with the records they stand for. It is larger than what `rdb_serialize` writes:
a length may take more bytes than it needs, a string may be an integer, expiries may be in seconds,
and the items may come in any order, so that the expiry of a key may stand some items before it.

A reading operation `Reads` a grammar if it takes off what the grammar derives, and without a
failure nothing else. `rdb_parse` accepts a payload, and no length wraps around, exactly if it is a
`Document`, and returns the records of its items (`rdbParse_iff_document`).
-/

namespace RP

open Framework (ofLE ofBE)
open Reader (after Placed wraps)

/-! ## The grammar -/

/-- A length, or the number of a special encoding. -/
inductive Length : Nat → Option UInt8 → Bytes → Prop where
  | six {b : UInt8} (hb : b &&& 0xC0 = k6Bit) : Length (b &&& 0x3F).toNat none [b]
  | fourteen {b : UInt8} (hb : b &&& 0xC0 = k14Bit) (c : UInt8) :
    Length ((b &&& 0x3F).toNat * 256 + c.toNat) none [b, c]
  | thirtyTwo {bs : Bytes} (hbs : bs.length = 4) : Length (ofBE 0 bs) none (k32Bit :: bs)
  | sixtyFour {bs : Bytes} (hbs : bs.length = 8) : Length (ofBE 0 bs) none (k64Bit :: bs)
  | special {b : UInt8} (hb : b &&& 0xC0 = kEncoded) : Length 0 (some (b &&& 0x3F)) [b]

/-- A string, plain or as an integer. -/
inductive Str : Bytes → Bytes → Prop where
  | plain {x bs : Bytes} (hl : Length x.length none bs) : Str x (bs ++ x)
  | int8 {bs : Bytes} (hl : Length 0 (some kEncInt8) bs) (b : UInt8) :
    Str (intToString b.toInt8.toInt) (bs ++ [b])
  | int16 {bs : Bytes} (hl : Length 0 (some kEncInt16) bs) (lo hi : UInt8) :
    Str (intToString (lo.toUInt16 ||| hi.toUInt16 <<< 8).toInt16.toInt) (bs ++ [lo, hi])
  | int32 {bs v : Bytes} (hl : Length 0 (some kEncInt32) bs) (hv : v.length = 4) :
    Str (intToString (Int32.ofNat (ofLE v)).toInt) (bs ++ v)

/-- An opcode with what belongs to it: the expiry for the next key before and after, and the records
it stands for. -/
inductive Item : Int64 → Int64 → List Record → Bytes → Prop where
  | aux (p : Int64) {x y bs bs' : Bytes} (hx : Str x bs) (hy : Str y bs') : Item p p [] (kOpAux :: (bs ++ bs'))
  | selectDb (p : Int64) {n : Nat} {e : Option UInt8} {bs : Bytes} (hn : Length n e bs) :
    Item p p [] (kOpSelectDb :: bs)
  | resizeDb (p : Int64) {n n' : Nat} {e e' : Option UInt8} {bs bs' : Bytes} (hn : Length n e bs)
    (hn' : Length n' e' bs') : Item p p [] (kOpResizeDb :: (bs ++ bs'))
  | expireMs (p : Int64) {v : Bytes} (hv : v.length = 8) :
    Item p (Int64.ofNat (ofLE v)) [] (kOpExpireMs :: v)
  | expireSec (p : Int64) {v : Bytes} (hv : v.length = 4) :
    Item p (Int64.ofNat (ofLE v) * 1000) [] (kOpExpireSec :: v)
  | key (p : Int64) {k v bs bs' : Bytes} (hk : Str k bs) (hv : Str v bs') :
    Item p kNoExpiry [⟨k, v, p⟩] (kTypeString :: (bs ++ bs'))

/-- Items one after the other. -/
inductive Items : Int64 → List Record → Bytes → Prop where
  | nil (p : Int64) : Items p [] []
  | cons {p p' : Int64} {rs rs' : List Record} {bs bs' : Bytes} (h : Item p p' rs bs)
    (hrest : Items p' rs' bs') : Items p (rs ++ rs') (bs ++ bs')

/-- A snapshot file with the given records. -/
structure Document (payload : Bytes) (out : List Record) : Prop where
  parts : ∃ version body trailer,
    payload = kRdbMagic ++ version ++ body ++ [kOpEof] ++ trailer ∧
      version.length = 4 ∧ ¬ version > kRdbVersion ∧ trailer.length = 8 ∧
      (ofLE trailer = 0 ∨ ofLE trailer = (crc64 0 (kRdbMagic ++ version ++ body ++ [kOpEof])).toNat) ∧
      Items kNoExpiry out body

/-! ## The reading operations -/

namespace Reader

/-- `f` takes off what `G` derives, and if it does not fail nothing else. -/
structure Reads {α : Type} (f : Reader → α × Reader) (G : α → Bytes → Prop) : Prop where
  takes : ∀ {x : α} {bs : Bytes}, G x bs → ∀ {pre s : Bytes}, (pre ++ (bs ++ s)).length < 2 ^ 64 →
    f (after pre (bs ++ s)) = (x, after (pre ++ bs) s)
  leaves : ∀ {pre s : Bytes}, (pre ++ s).length + 1 < 2 ^ 64 → (f (after pre s)).2.ok = true →
    ∃ bs s', s = bs ++ s' ∧ G (f (after pre s)).1 bs

theorem placed_after {pre s : Bytes} (h : (pre ++ s).length + 1 < 2 ^ 64) : Placed (after pre s) :=
  ⟨by simp [after], h⟩

theorem ok_u8_nil {pre : Bytes} (h : pre.length + 1 < 2 ^ 64) : (after pre []).u8.2.ok = false := by
  rw [u8, if_pos]
  · rfl
  · show addSize pre.length 1 > (pre ++ []).length
    rw [addSize_of_lt h, List.append_nil]
    exact Nat.lt_succ_self _

/-- Without enough bytes the loops fail. -/
theorem ok_leLoop_of_short : ∀ (n i v : Nat) {pre s : Bytes}, s.length < n → (pre ++ s).length + 1 < 2 ^ 64 →
    (leLoop n i v (after pre s)).2.ok = false
  | n + 1, i, v, pre, [], _, h => by
    have hp := placed_after h
    have ha := (hp.advance_u8.placed hp).advance_leLoop n (i + 1) (v ||| (after pre []).u8.1.toNat <<< (i * 8))
    refine Bool.eq_false_iff.mpr fun hok => ?_
    exact absurd ((ok_u8_nil (by simpa using h)).symm.trans (ha.ok hok)) (by decide)
  | n + 1, i, v, pre, b :: s, hs, h => by
    rw [leLoop, u8_after (by omega)]
    exact ok_leLoop_of_short n (i + 1) _ (by simpa using hs) (by simpa using h)

theorem ok_beLoop_of_short : ∀ (n v : Nat) {pre s : Bytes}, s.length < n → (pre ++ s).length + 1 < 2 ^ 64 →
    (beLoop n v (after pre s)).2.ok = false
  | n + 1, v, pre, [], _, h => by
    have hp := placed_after h
    have ha := (hp.advance_u8.placed hp).advance_beLoop n (v <<< 8 ||| (after pre []).u8.1.toNat)
    refine Bool.eq_false_iff.mpr fun hok => ?_
    exact absurd ((ok_u8_nil (by simpa using h)).symm.trans (ha.ok hok)) (by decide)
  | n + 1, v, pre, b :: s, hs, h => by
    rw [beLoop, u8_after (by omega)]
    exact ok_beLoop_of_short n _ (by simpa using hs) (by simpa using h)

theorem reads_leLoop (n : Nat) : Reads (leLoop n 0 0) fun v bs => bs.length = n ∧ v = ofLE bs where
  takes := by
    rintro x bs ⟨rfl, rfl⟩ pre s h
    rw [leLoop_after bs (by decide) h, Nat.zero_add, Nat.pow_zero, Nat.one_mul]
  leaves := by
    intro pre s h hok
    by_cases hs : s.length < n
    · rw [ok_leLoop_of_short n 0 0 hs h] at hok
      cases hok
    have hlen : (s.take n).length = n := by rw [List.length_take]; omega
    have hle := @leLoop_after (s.take n) 0 0 pre (s.drop n) (by decide)
      (by rw [List.take_append_drop]; omega)
    rw [hlen, List.take_append_drop] at hle
    exact ⟨s.take n, s.drop n, (List.take_append_drop n s).symm, hlen, by rw [hle]; simp⟩

theorem reads_beLoop (n : Nat) : Reads (beLoop n 0) fun v bs => bs.length = n ∧ v = ofBE 0 bs where
  takes := by
    rintro x bs ⟨rfl, rfl⟩ pre s h
    exact beLoop_after bs h
  leaves := by
    intro pre s h hok
    by_cases hs : s.length < n
    · rw [ok_beLoop_of_short n 0 hs h] at hok
      cases hok
    have hlen : (s.take n).length = n := by rw [List.length_take]; omega
    have hbe := @beLoop_after (s.take n) 0 pre (s.drop n) (by rw [List.take_append_drop]; omega)
    rw [hlen, List.take_append_drop] at hbe
    exact ⟨s.take n, s.drop n, (List.take_append_drop n s).symm, hlen, by rw [hbe]⟩

/-- The first byte of a length decides what it is. -/
theorem length_cons {b : UInt8} {pre s : Bytes} (h : (pre ++ b :: s).length < 2 ^ 64) :
    (after pre (b :: s)).length =
      if b &&& 0xC0 = k6Bit then (((b &&& 0x3F).toNat, none), after (pre ++ [b]) s)
      else if b &&& 0xC0 = k14Bit then
        (((b &&& 0x3F).toNat * 256 + (after (pre ++ [b]) s).u8.1.toNat, none), (after (pre ++ [b]) s).u8.2)
      else if b &&& 0xC0 = kEncoded then ((0, some (b &&& 0x3F)), after (pre ++ [b]) s)
      else if b = k32Bit then
        (((beLoop 4 0 (after (pre ++ [b]) s)).1, none), (beLoop 4 0 (after (pre ++ [b]) s)).2)
      else if b = k64Bit then
        (((beLoop 8 0 (after (pre ++ [b]) s)).1, none), (beLoop 8 0 (after (pre ++ [b]) s)).2)
      else ((0, none), (after (pre ++ [b]) s).fail.2) := by
  rw [Reader.length, u8_after h]
  simp only [ok_after, not_true_eq_false, if_false, Framework.shiftLeft_or_byte]
  rfl

theorem reads_length : Reads Reader.length fun x bs => Length x.1 x.2 bs where
  takes := by
    rintro ⟨n, e⟩ bs hl pre s h
    cases hl with
    | six hb =>
      rw [List.singleton_append, length_cons (by simpa using h), if_pos hb]
      rfl
    | fourteen hb c =>
      rw [List.cons_append, List.singleton_append, length_cons (by simpa using h), if_neg (by rw [hb]; decide),
        if_pos hb, u8_after (by simpa using h)]
      simp
    | thirtyTwo hbs =>
      rw [List.cons_append, length_cons (by simpa using h), if_neg (by decide), if_neg (by decide),
        if_neg (by decide), if_pos rfl, (reads_beLoop 4).takes ⟨hbs, rfl⟩ (by simpa using h)]
      simp
    | sixtyFour hbs =>
      rw [List.cons_append, length_cons (by simpa using h), if_neg (by decide), if_neg (by decide),
        if_neg (by decide), if_neg (by decide), if_pos rfl, (reads_beLoop 8).takes ⟨hbs, rfl⟩ (by simpa using h)]
      simp
    | special hb =>
      rw [List.singleton_append, length_cons (by simpa using h), if_neg (by rw [hb]; decide),
        if_neg (by rw [hb]; decide), if_pos hb]
  leaves := by
    intro pre s h hok
    cases s with
    | nil =>
      have hnil : (after pre []).length = ((0, none), (after pre []).u8.2) := by
        rw [Reader.length]
        simp only [ok_u8_nil (by simpa using h)]
        rfl
      rw [hnil, ok_u8_nil (by simpa using h)] at hok
      cases hok
    | cons b s =>
      have h' : (pre ++ [b] ++ s).length + 1 < 2 ^ 64 := by simpa using h
      -- the loops are named below, so that the unifier does not run them
      rw [length_cons (by omega)] at hok ⊢
      by_cases h6 : b &&& 0xC0 = k6Bit
      · rw [if_pos h6]
        exact ⟨[b], s, rfl, .six h6⟩
      rw [if_neg h6] at hok ⊢
      by_cases h14 : b &&& 0xC0 = k14Bit
      · rw [if_pos h14] at hok ⊢
        cases s with
        | nil =>
          rw [ok_u8_nil (by simpa using h')] at hok
          cases hok
        | cons c s =>
          rw [u8_after (by omega)]
          exact ⟨[b, c], s, rfl, .fourteen h14 c⟩
      rw [if_neg h14] at hok ⊢
      by_cases he : b &&& 0xC0 = kEncoded
      · rw [if_pos he]
        exact ⟨[b], s, rfl, .special he⟩
      rw [if_neg he] at hok ⊢
      by_cases h32 : b = k32Bit
      · rw [if_pos h32] at hok ⊢
        have hbe := (reads_beLoop 4).leaves h'
        generalize beLoop 4 0 (after (pre ++ [b]) s) = q at hok hbe ⊢
        obtain ⟨bs, s', rfl, hbs, hv⟩ := hbe hok
        refine ⟨k32Bit :: bs, s', by rw [h32]; rfl, ?_⟩
        rw [hv]
        exact .thirtyTwo hbs
      rw [if_neg h32] at hok ⊢
      by_cases h64 : b = k64Bit
      · rw [if_pos h64] at hok ⊢
        have hbe := (reads_beLoop 8).leaves h'
        generalize beLoop 8 0 (after (pre ++ [b]) s) = q at hok hbe ⊢
        obtain ⟨bs, s', rfl, hbs, hv⟩ := hbe hok
        refine ⟨k64Bit :: bs, s', by rw [h64]; rfl, ?_⟩
        rw [hv]
        exact .sixtyFour hbs
      rw [if_neg h64] at hok
      cases hok

theorem length_takes {n : Nat} {e : Option UInt8} {bs : Bytes} (hl : Length n e bs) {pre s : Bytes}
    (h : (pre ++ (bs ++ s)).length < 2 ^ 64) :
    (after pre (bs ++ s)).length = ((n, e), after (pre ++ bs) s) :=
  reads_length.takes (x := (n, e)) hl h

theorem plainStr_after {x pre s : Bytes} (h : (pre ++ (x ++ s)).length < 2 ^ 64) :
    (after pre (x ++ s)).plainStr x.length = (x, after (pre ++ x) s) := by
  simp only [List.length_append] at h
  have hadd : addSize pre.length x.length = pre.length + x.length := addSize_of_lt (by omega)
  simp only [plainStr, after, hadd]
  rw [if_neg (by simp only [List.length_append]; omega), List.drop_left, List.take_left]
  simp

theorem str_takes {x bs : Bytes} (hs : Str x bs) {pre s : Bytes} (h : (pre ++ (bs ++ s)).length < 2 ^ 64) :
    (after pre (bs ++ s)).str = (x, after (pre ++ bs) s) := by
  cases hs with
  | plain hl =>
    rw [List.append_assoc] at h ⊢
    rw [Reader.str, length_takes hl h]
    simp only [ok_after, not_true_eq_false, if_false]
    rw [plainStr_after (by simpa using h), List.append_assoc]
  | int8 hl b =>
    rw [List.append_assoc] at h ⊢
    rw [Reader.str, length_takes hl h]
    simp only [ok_after, not_true_eq_false, if_false, encodedStr, if_true]
    rw [List.singleton_append, u8_after (by simpa using h), List.append_assoc]
  | int16 hl lo hi =>
    rw [List.append_assoc] at h ⊢
    rw [Reader.str, length_takes hl h]
    simp only [ok_after, not_true_eq_false, if_false, encodedStr, if_true,
      show ¬ kEncInt16 = kEncInt8 by decide]
    rw [List.cons_append, List.singleton_append, u8_after (by simpa using h)]
    dsimp only
    rw [u8_after (by simpa using h)]
    simp
  | int32 hl hv =>
    rw [List.append_assoc] at h ⊢
    rw [Reader.str, length_takes hl h]
    simp only [ok_after, not_true_eq_false, if_false, encodedStr, if_true,
      show ¬ kEncInt32 = kEncInt8 by decide, show ¬ kEncInt32 = kEncInt16 by decide]
    rw [u32le, (reads_leLoop 4).takes ⟨hv, rfl⟩ (by simpa using h), List.append_assoc]

/-- What the grammar derives does not wrap. -/
theorem not_wraps_of_str {x bs : Bytes} (hs : Str x bs) {pre s : Bytes}
    (h : (pre ++ (bs ++ s)).length < 2 ^ 64) : wraps (after pre (bs ++ s)) = false := by
  have hspecial {e : UInt8} {bs t : Bytes} (hl : Length 0 (some e) bs)
      (h : (pre ++ (bs ++ t)).length < 2 ^ 64) : wraps (after pre (bs ++ t)) = false := by
    rw [wraps, length_takes hl h]
  cases hs with
  | plain hl =>
    rename_i bs
    rw [List.append_assoc] at h ⊢
    have hlt : (pre ++ bs).length + x.length < 2 ^ 64 := by simp only [List.length_append] at h ⊢; omega
    rw [wraps, length_takes hl h]
    show (true && decide (2 ^ 64 ≤ (pre ++ bs).length + x.length) && _) = false
    rw [decide_eq_false (by omega), Bool.and_false, Bool.false_and]
  | int8 hl b => rw [List.append_assoc] at h ⊢; exact hspecial hl h
  | int16 hl lo hi => rw [List.append_assoc] at h ⊢; exact hspecial hl h
  | int32 hl hv => rw [List.append_assoc] at h ⊢; exact hspecial hl h

/-- A special encoding that is read is one of the integers. -/
theorem encodedStr_leaves {pre s : Bytes} (h : (pre ++ s).length + 1 < 2 ^ 64) {e : UInt8} {bs : Bytes}
    (hl : Length 0 (some e) bs) (hok : ((after pre s).encodedStr e).2.ok = true) :
    ∃ v s', s = v ++ s' ∧ Str ((after pre s).encodedStr e).1 (bs ++ v) := by
  unfold encodedStr at hok ⊢
  by_cases h8 : e = kEncInt8
  · subst h8
    simp only [if_true] at hok ⊢
    cases s with
    | nil =>
      rw [ok_u8_nil (by simpa using h)] at hok
      cases hok
    | cons b s =>
      rw [u8_after (by omega)]
      exact ⟨[b], s, rfl, .int8 hl b⟩
  by_cases h16 : e = kEncInt16
  · subst h16
    simp only [h8, if_false, if_true] at hok ⊢
    cases s with
    | nil =>
      have hp := placed_after h
      have hu := (hp.advance_u8.placed hp).advance_u8.ok hok
      rw [ok_u8_nil (by simpa using h)] at hu
      cases hu
    | cons lo s =>
      rw [u8_after (by omega)] at hok ⊢
      dsimp only at hok ⊢
      cases s with
      | nil =>
        rw [ok_u8_nil (by simpa using h)] at hok
        cases hok
      | cons hi s =>
        rw [u8_after (by simp at h ⊢; omega)]
        exact ⟨[lo, hi], s, rfl, .int16 hl lo hi⟩
  by_cases h32 : e = kEncInt32
  · subst h32
    simp only [h8, h16, if_false, if_true, u32le] at hok ⊢
    have hle := (reads_leLoop 4).leaves h
    generalize leLoop 4 0 0 (after pre s) = q at hok hle ⊢
    obtain ⟨v, s', rfl, hv, hq⟩ := hle hok
    refine ⟨v, s', rfl, ?_⟩
    rw [hq]
    exact .int32 hl hv
  simp only [h8, h16, h32, if_false] at hok
  split at hok <;> cases hok

theorem str_leaves {pre s : Bytes} (h : (pre ++ s).length + 1 < 2 ^ 64) (hw : wraps (after pre s) = false)
    (hok : (after pre s).str.2.ok = true) : ∃ bs s', s = bs ++ s' ∧ Str (after pre s).str.1 bs := by
  have hlok : (after pre s).length.2.ok = true := by
    by_contra hn
    rw [str_of_not_ok (by simpa using hn)] at hok
    exact hn hok
  obtain ⟨bs, t, rfl, hl⟩ := reads_length.leaves h hlok
  have hlength := length_takes hl (show (pre ++ (bs ++ t)).length < 2 ^ 64 by omega)
  have h' : (pre ++ bs ++ t).length + 1 < 2 ^ 64 := by simpa using h
  generalize (after pre (bs ++ t)).length.1 = ne at hl hlength
  obtain ⟨n, e⟩ := ne
  cases e with
  | some e =>
    have hstr : (after pre (bs ++ t)).str = (after (pre ++ bs) t).encodedStr e := by
      rw [Reader.str, hlength]; rfl
    have hn : n = 0 := by cases hl; rfl
    subst hn
    rw [hstr] at hok ⊢
    obtain ⟨v, s', rfl, hs⟩ := encodedStr_leaves h' hl hok
    exact ⟨bs ++ v, s', (List.append_assoc ..).symm, hs⟩
  | none =>
    have hstr : (after pre (bs ++ t)).str = (after (pre ++ bs) t).plainStr n := by
      rw [Reader.str, hlength]; rfl
    rw [hstr] at hok ⊢
    have hfit : addSize (pre ++ bs).length n ≤ (pre ++ bs ++ t).length := by
      refine Nat.le_of_not_lt fun hlt => ?_
      have hlt' : addSize (after (pre ++ bs) t).pos n > (after (pre ++ bs) t).data.length := hlt
      rw [plainStr, if_pos hlt'] at hok
      cases hok
    have hlt : (pre ++ bs).length + n < 2 ^ 64 := by
      rw [wraps, hlength] at hw
      refine Nat.lt_of_not_le fun hle => ?_
      have hboth : (true && decide (2 ^ 64 ≤ (pre ++ bs).length + n) &&
          decide (addSize (pre ++ bs).length n ≤ (pre ++ bs ++ t).length)) = false := hw
      rw [decide_eq_true hle, decide_eq_true hfit] at hboth
      cases hboth
    have hlen : n ≤ t.length := by
      rw [addSize_of_lt hlt] at hfit
      simp only [List.length_append] at hfit
      omega
    have hn : (t.take n).length = n := by rw [List.length_take]; omega
    have hplain := @plainStr_after (t.take n) (pre ++ bs) (t.drop n) (by rw [List.take_append_drop]; omega)
    rw [List.take_append_drop, hn] at hplain
    rw [hplain]
    refine ⟨bs ++ t.take n, t.drop n, by rw [List.append_assoc, List.take_append_drop], .plain ?_⟩
    rw [hn]
    exact hl

end Reader

/-! ## Rounds -/

/-- No string that the loop reads from here on wraps. -/
def NoWrap (st : ParseState) : Prop := ∀ st', Rounds st st' → ∀ r ∈ strCalls st', wraps r = false

theorem NoWrap.round {st st' : ParseState} (h : NoWrap st) (hround : rdbRound st = .inr st') : NoWrap st' :=
  fun st'' hrounds => h st'' (.head hround hrounds)

theorem strCalls_between {op : UInt8} {pre s : Bytes} (h : (pre ++ op :: s).length < 2 ^ 64) (p : Int64)
    (out : List Record) : strCalls (between pre (op :: s) p out) =
      if op = kOpAux ∨ op = kTypeString then
        [after (pre ++ [op]) s, (after (pre ++ [op]) s).str.2]
      else [] := by
  have heof : (after pre (op :: s)).eof = false := by simp [Reader.eof, after]
  simp only [strCalls, between, heof, Reader.u8_after h, Reader.ok_after]
  simp

/-- A round takes off an item. -/
theorem rdbRound_item {p p' : Int64} {rs : List Record} {bs pre s : Bytes} (hitem : Item p p' rs bs)
    (h : (pre ++ (bs ++ s)).length < 2 ^ 64) (out : List Record) :
    rdbRound (between pre (bs ++ s) p out) = .inr (between (pre ++ bs) s p' (out ++ rs)) := by
  cases hitem with
  | aux hx hy =>
    rw [List.cons_append, List.append_assoc] at h ⊢
    rw [rdbRound_opcode h, rdbOpcode, if_pos rfl, Reader.str_takes hx (by simpa using h),
      Reader.str_takes hy (by simpa using h), List.append_nil, List.append_assoc (pre ++ _), ← List.append_cons]
    exact check_after _ _ _ _ _
  | selectDb hn =>
    rw [List.cons_append] at h ⊢
    rw [rdbRound_opcode h, rdbOpcode, if_neg (by decide), if_pos rfl,
      Reader.length_takes hn (by simpa using h), List.append_nil, ← List.append_cons]
    exact check_after _ _ _ _ _
  | resizeDb hn hn' =>
    rw [List.cons_append, List.append_assoc] at h ⊢
    rw [rdbRound_opcode h, rdbOpcode, if_neg (by decide), if_neg (by decide), if_pos rfl,
      Reader.length_takes hn (by simpa using h), Reader.length_takes hn' (by simpa using h),
      List.append_nil, List.append_assoc (pre ++ _), ← List.append_cons]
    exact check_after _ _ _ _ _
  | expireMs hv =>
    rw [List.cons_append] at h ⊢
    rw [rdbRound_opcode h, rdbOpcode, if_neg (by decide), if_neg (by decide), if_neg (by decide),
      if_pos rfl, Reader.u64le, (Reader.reads_leLoop 8).takes ⟨hv, rfl⟩ (by simpa using h),
      List.append_nil, ← List.append_cons]
    exact check_after _ _ _ _ _
  | expireSec hv =>
    rw [List.cons_append] at h ⊢
    rw [rdbRound_opcode h, rdbOpcode, if_neg (by decide), if_neg (by decide), if_neg (by decide),
      if_neg (by decide), if_pos rfl, Reader.u32le,
      (Reader.reads_leLoop 4).takes ⟨hv, rfl⟩ (by simpa using h), List.append_nil, ← List.append_cons]
    exact check_after _ _ _ _ _
  | key hk hv =>
    rw [List.cons_append, List.append_assoc] at h ⊢
    rw [rdbRound_opcode h, rdbOpcode, if_neg (by decide), if_neg (by decide), if_neg (by decide),
      if_neg (by decide), if_neg (by decide), if_pos rfl, Reader.str_takes hk (by simpa using h),
      Reader.str_takes hv (by simpa using h)]
    refine (check_after _ _ _ _ _).trans ?_
    simp [between]

/-- The strings of an item do not wrap. -/
theorem not_wraps_of_item {p p' : Int64} {rs : List Record} {bs pre s : Bytes} (hitem : Item p p' rs bs)
    (h : (pre ++ (bs ++ s)).length < 2 ^ 64) (out : List Record) :
    ∀ r ∈ strCalls (between pre (bs ++ s) p out), wraps r = false := by
  have hstrs {op : UInt8} {x y bs bs' : Bytes} (hx : Str x bs) (hy : Str y bs')
      (h : (pre ++ (op :: (bs ++ bs') ++ s)).length < 2 ^ 64) :
      ∀ r ∈ strCalls (between pre (op :: (bs ++ bs') ++ s) p out), wraps r = false := by
    rw [List.cons_append, List.append_assoc] at h ⊢
    rw [strCalls_between h]
    split
    · rw [Reader.str_takes hx (by simpa using h)]
      simp only [List.mem_cons, List.not_mem_nil, or_false, forall_eq_or_imp, forall_eq]
      exact ⟨Reader.not_wraps_of_str hx (by simpa using h), Reader.not_wraps_of_str hy (by simpa using h)⟩
    · simp
  have hskip {op : UInt8} {bs : Bytes} (h : (pre ++ (op :: bs ++ s)).length < 2 ^ 64)
      (hop : ¬ (op = kOpAux ∨ op = kTypeString)) :
      ∀ r ∈ strCalls (between pre (op :: bs ++ s) p out), wraps r = false := by
    rw [List.cons_append] at h ⊢
    rw [strCalls_between h, if_neg hop]
    simp
  cases hitem with
  | aux hx hy => exact hstrs hx hy h
  | key hk hv => exact hstrs hk hv h
  | selectDb | resizeDb | expireMs | expireSec => exact hskip h (by decide)

/-- A round that goes on, and whose strings do not wrap, takes off an item. -/
theorem exists_item {pre s : Bytes} (h : (pre ++ s).length + 1 < 2 ^ 64) {p : Int64} {out : List Record}
    (hw : ∀ r ∈ strCalls (between pre s p out), wraps r = false) {st : ParseState}
    (hround : rdbRound (between pre s p out) = .inr st) :
    ∃ bs s' p' rs, s = bs ++ s' ∧ Item p p' rs bs := by
  cases s with
  | nil =>
    have heof : (after pre []).eof = true := by simp [Reader.eof, after]
    rw [rdbRound, between, heof] at hround
    cases hround
  | cons op s =>
    have h' : (pre ++ [op] ++ s).length + 1 < 2 ^ 64 := by simpa using h
    rw [rdbRound_opcode (by omega)] at hround
    rw [strCalls_between (by omega)] at hw
    -- what is read after the opcode, if it is two strings
    have hstrs (hop : op = kOpAux ∨ op = kTypeString)
        (hok : (after (pre ++ [op]) s).str.2.str.2.ok = true) :
        ∃ x y bs bs' s', s = bs ++ bs' ++ s' ∧ Str x bs ∧ Str y bs' := by
      rw [if_pos hop] at hw
      have hp := Reader.placed_after h'
      have hok₁ := (hp.keeps_str.placed hp).keeps_str.ok hok
      obtain ⟨bs, t, rfl, hx⟩ := Reader.str_leaves h' (hw _ List.mem_cons_self) hok₁
      have htakes := Reader.str_takes hx (show (pre ++ [op] ++ (bs ++ t)).length < 2 ^ 64 by omega)
      have hw₂ := hw _ (List.mem_cons_of_mem _ List.mem_cons_self)
      rw [htakes] at hok hw₂
      obtain ⟨bs', s', rfl, hy⟩ := Reader.str_leaves (by simpa using h') hw₂ hok
      exact ⟨_, _, bs, bs', s', (List.append_assoc ..).symm, hx, hy⟩
    have hlen := Reader.reads_length.leaves h'
    have hms := (Reader.reads_leLoop 8).leaves h'
    have hsec := (Reader.reads_leLoop 4).leaves h'
    unfold rdbOpcode Reader.u64le Reader.u32le at hround
    -- named, so that the unifier does not run the byte loops
    generalize Reader.leLoop 8 0 0 (after (pre ++ [op]) s) = ms at hround hms
    generalize Reader.leLoop 4 0 0 (after (pre ++ [op]) s) = sec at hround hsec
    by_cases haux : op = kOpAux
    · rw [if_pos haux] at hround
      obtain ⟨x, y, bs, bs', s', rfl, hx, hy⟩ := hstrs (.inl haux) (ParseState.check_eq_inr hround).2
      exact ⟨op :: (bs ++ bs'), s', p, [], rfl, by rw [haux]; exact .aux p hx hy⟩
    rw [if_neg haux] at hround
    by_cases hselect : op = kOpSelectDb
    · rw [if_pos hselect] at hround
      obtain ⟨bs, s', rfl, hn⟩ := hlen (ParseState.check_eq_inr hround).2
      exact ⟨op :: bs, s', p, [], rfl, by rw [hselect]; exact .selectDb p hn⟩
    rw [if_neg hselect] at hround
    by_cases hresize : op = kOpResizeDb
    · rw [if_pos hresize] at hround
      have hok := (ParseState.check_eq_inr hround).2
      have hp := Reader.placed_after h'
      obtain ⟨bs, t, rfl, hn⟩ := hlen ((hp.advance_length.placed hp).advance_length.ok hok)
      have htakes := Reader.length_takes hn (show (pre ++ [op] ++ (bs ++ t)).length < 2 ^ 64 by omega)
      rw [htakes] at hok
      obtain ⟨bs', s', rfl, hn'⟩ := Reader.reads_length.leaves (by simpa using h') hok
      exact ⟨op :: (bs ++ bs'), s', p, [], by simp, by rw [hresize]; exact .resizeDb p hn hn'⟩
    rw [if_neg hresize] at hround
    by_cases hexpireMs : op = kOpExpireMs
    · rw [if_pos hexpireMs] at hround
      obtain ⟨v, s', rfl, hv, -⟩ := hms (ParseState.check_eq_inr hround).2
      exact ⟨op :: v, s', _, [], rfl, by rw [hexpireMs]; exact .expireMs p hv⟩
    rw [if_neg hexpireMs] at hround
    by_cases hexpireSec : op = kOpExpireSec
    · rw [if_pos hexpireSec] at hround
      obtain ⟨v, s', rfl, hv, -⟩ := hsec (ParseState.check_eq_inr hround).2
      exact ⟨op :: v, s', _, [], rfl, by rw [hexpireSec]; exact .expireSec p hv⟩
    rw [if_neg hexpireSec] at hround
    by_cases hstring : op = kTypeString
    · rw [if_pos hstring] at hround
      obtain ⟨x, y, bs, bs', s', rfl, hx, hy⟩ := hstrs (.inr hstring) (ParseState.check_eq_inr hround).2
      exact ⟨op :: (bs ++ bs'), s', kNoExpiry, _, rfl, by rw [hstring]; exact .key p hx hy⟩
    rw [if_neg hstring] at hround
    cases hround

theorem Item.length_pos {p p' : Int64} {rs : List Record} {bs : Bytes} (h : Item p p' rs bs) :
    0 < bs.length := by
  cases h <;> exact Nat.succ_pos _

/-! ## The loop -/

/-- The loop takes off items to the end, and none of their strings wraps. -/
theorem rdbLoop_items {p : Int64} {rs : List Record} {bs : Bytes} (hitems : Items p rs bs) :
    ∀ {pre : Bytes}, (pre ++ bs).length < 2 ^ 64 → ∀ (out : List Record) {rounds : Nat}, bs.length < rounds →
      rdbLoop rounds (between pre bs p out) = some ⟨.ok (), out ++ rs⟩ ∧ NoWrap (between pre bs p out) := by
  induction hitems with
  | nil p =>
    intro pre _ out rounds hr
    obtain ⟨n, rfl⟩ : ∃ n, rounds = n + 1 := ⟨rounds - 1, by omega⟩
    have heof : (between pre [] p out).reader.eof = true := by simp [Reader.eof, between, after]
    have hround : rdbRound (between pre [] p out) = .inl ⟨.ok (), out⟩ := by
      rw [rdbRound, if_pos heof]
      rfl
    refine ⟨by rw [rdbLoop, hround, List.append_nil], fun st hrounds => ?_⟩
    rcases Relation.ReflTransGen.cases_head hrounds with rfl | ⟨st', hstep, -⟩
    · rw [strCalls, if_pos heof]
      simp
    · rw [hround] at hstep
      cases hstep
  | cons hitem _ ih =>
    rename_i bs bs' _
    intro pre h out rounds hr
    have hpos := hitem.length_pos
    rw [List.length_append] at hr
    obtain ⟨n, rfl⟩ : ∃ n, rounds = n + 1 := ⟨rounds - 1, by omega⟩
    have hround := rdbRound_item hitem h out
    obtain ⟨hloop, hno⟩ := @ih (pre ++ bs) (by simpa using h) (out ++ _) n (by omega)
    refine ⟨by rw [rdbLoop_step hround, hloop, List.append_assoc], fun st hrounds => ?_⟩
    rcases Relation.ReflTransGen.cases_head hrounds with rfl | ⟨st', hstep, hrounds'⟩
    · exact not_wraps_of_item hitem h out
    · obtain rfl : _ = st' := Sum.inr.inj (hround.symm.trans hstep)
      exact hno st hrounds'

/-- Where no string wraps, a loop that ends well has taken off items. -/
theorem items_of_rdbLoop : ∀ (rounds : Nat) {pre s : Bytes} {p : Int64} {out out' : List Record},
    (pre ++ s).length + 1 < 2 ^ 64 → NoWrap (between pre s p out) →
    rdbLoop rounds (between pre s p out) = some ⟨.ok (), out'⟩ → ∃ rs, out' = out ++ rs ∧ Items p rs s
  | 0, _, _, _, _, _, _, _, h => by cases h
  | rounds + 1, pre, s, p, out, out', hlen, hno, h => by
    cases hround : rdbRound (between pre s p out) with
    | inl res =>
      rw [rdbLoop, hround] at h
      obtain rfl := Option.some.inj h
      have heof := eof_of_rdbRound hround
      rw [rdbRound, if_pos heof] at hround
      have hs : s = [] := by simpa [Reader.eof, between, after] using heof
      refine ⟨[], ?_, by rw [hs]; exact .nil p⟩
      rw [List.append_nil]
      exact (congrArg RdbResult.out (Sum.inl.inj hround)).symm
    | inr st =>
      obtain ⟨bs, s', p', rs, rfl, hitem⟩ := exists_item hlen (hno _ .refl) hround
      have hstep := rdbRound_item hitem (show (pre ++ (bs ++ s')).length < 2 ^ 64 by omega) out
      rw [rdbLoop_step hstep] at h
      obtain ⟨rs', rfl, hitems⟩ := items_of_rdbLoop rounds (by simpa using hlen) (hno.round hstep) h
      exact ⟨rs ++ rs', List.append_assoc .., .cons hitem hitems⟩

/-! ## The checks -/

/-- What passes the checks has the parts of a file. -/
theorem exists_parts {payload : Bytes} (h : rdbCheck payload = none) : ∃ version body trailer,
    payload = kRdbMagic ++ version ++ body ++ [kOpEof] ++ trailer ∧ version.length = 4 ∧ trailer.length = 8 := by
  have hheader : rdbHeader = 9 := by decide
  obtain ⟨hlen, heof, -⟩ := rdbCheck_eq_none h
  have hmagic : payload.take kRdbMagic.length = kRdbMagic := by
    by_contra hne
    rw [rdbCheck, if_neg (by omega), if_pos hne] at h
    cases h
  have hlt : payload.length - 8 - 1 < payload.length := by omega
  rw [List.getD_eq_getElem _ _ hlt] at heof
  refine ⟨(payload.drop 5).take 4, (payload.drop 9).take (payload.length - 18),
    payload.drop (payload.length - 8), ?_, by simp; omega, by simp; omega⟩
  have hend : payload.drop (payload.length - 9) = [kOpEof] ++ payload.drop (payload.length - 8) := by
    rw [show payload.length - 9 = payload.length - 8 - 1 by omega, List.drop_eq_getElem_cons hlt, heof,
      show payload.length - 8 - 1 + 1 = payload.length - 8 by omega]
    rfl
  have hbody : payload.drop 9 =
      (payload.drop 9).take (payload.length - 18) ++ payload.drop (payload.length - 9) := by
    have := (List.take_append_drop (payload.length - 18) (payload.drop 9)).symm
    rwa [List.drop_drop, show 9 + (payload.length - 18) = payload.length - 9 by omega] at this
  have hversion : payload.drop 5 = (payload.drop 5).take 4 ++ payload.drop 9 := by
    have := (List.take_append_drop 4 (payload.drop 5)).symm
    rwa [List.drop_drop] at this
  calc payload = payload.take kRdbMagic.length ++ payload.drop 5 := (List.take_append_drop 5 payload).symm
    _ = kRdbMagic ++ ((payload.drop 5).take 4 ++ ((payload.drop 9).take (payload.length - 18) ++
          ([kOpEof] ++ payload.drop (payload.length - 8)))) := by rw [hmagic, ← hend, ← hbody, ← hversion]
    _ = _ := by simp only [List.append_assoc]

section

variable {version body trailer : Bytes} (hversion : version.length = 4) (htrailer : trailer.length = 8)
include hversion htrailer

/-- The checks of a file with its parts: that of the version, and that of the trailer. -/
theorem rdbCheck_parts : rdbCheck (kRdbMagic ++ version ++ body ++ [kOpEof] ++ trailer) = none ↔
    ¬ version > kRdbVersion ∧ (ofLE trailer = 0 ∨
      ofLE trailer = (crc64 0 (kRdbMagic ++ version ++ body ++ [kOpEof])).toNat) := by
  have hheader : rdbHeader = 9 := by decide
  have hmagic : kRdbMagic.length = 5 := by decide
  have hcover : (kRdbMagic ++ version ++ body ++ [kOpEof]).length = 10 + body.length := by
    simp only [List.length_append, hmagic, hversion, List.length_singleton]; omega
  have hlen : (kRdbMagic ++ version ++ body ++ [kOpEof] ++ trailer).length = 18 + body.length := by
    rw [List.length_append, hcover, htrailer]; omega
  have hstored := @storedCrc_append (kRdbMagic ++ version ++ body ++ [kOpEof]) trailer htrailer
  have htake : (kRdbMagic ++ version ++ body ++ [kOpEof] ++ trailer).take (18 + body.length - 8) =
      kRdbMagic ++ version ++ body ++ [kOpEof] := List.take_left' (by rw [hcover]; omega)
  have heof : (kRdbMagic ++ version ++ body ++ [kOpEof] ++ trailer).getD (18 + body.length - 8 - 1) 0 =
      kOpEof := by
    rw [List.append_assoc _ [kOpEof], List.getD_append_right _ _ _ _ (by
      simp only [List.length_append, hmagic, hversion]; omega)]
    simp only [List.length_append, hmagic, hversion,
      show 18 + body.length - 8 - 1 - (5 + 4 + body.length) = 0 by omega]
    rfl
  have hnumber : ((kRdbMagic ++ version ++ body ++ [kOpEof] ++ trailer).drop kRdbMagic.length).take 4 =
      version := by
    simp only [List.append_assoc, List.drop_left]
    exact List.take_left' hversion
  rw [rdbCheck, hlen, if_neg (by omega), if_neg (by simp)]
  simp only [hnumber, htake, heof, hstored]
  split
  · rename_i hnew
    exact iff_of_false (by simp) fun h => h.1 hnew
  · rename_i hold
    rw [if_neg (by omega), if_neg (by simp)]
    split
    · rename_i hcrc
      exact iff_of_false (by simp) fun h => h.2.elim hcrc.1 fun he => hcrc.2 he.symm
    · rename_i hcrc
      refine iff_of_true rfl ⟨hold, ?_⟩
      by_cases hzero : ofLE trailer = 0
      · exact .inl hzero
      · exact .inr (by_contra fun hne => hcrc ⟨hzero, fun he => hne he.symm⟩)

theorem rdbStart_parts : rdbStart (kRdbMagic ++ version ++ body ++ [kOpEof] ++ trailer) =
    between [] body kNoExpiry [] := by
  have hheader : (kRdbMagic ++ version).length = rdbHeader := by
    rw [List.length_append, hversion]; decide
  have hlen : (kRdbMagic ++ version ++ body ++ [kOpEof] ++ trailer).length - 8 - 1 - rdbHeader =
      body.length := by
    rw [← hheader]
    simp only [List.length_append, htrailer, List.length_singleton]
    omega
  rw [rdbStart, hlen]
  simp only [List.append_assoc]
  rw [← List.append_assoc kRdbMagic, List.drop_left' hheader, List.take_left]
  rfl

end

/-- For every payload that fits a string: the reader accepts it without a wrapped length exactly if it
is a document, and then returns the records of its items. -/
theorem rdbParse_iff_document {payload : Bytes} (h : payload.length < 2 ^ 64) {rounds : Nat}
    (hr : payload.length ≤ rounds) {out : List Record} :
    (rdbParse rounds payload = some ⟨.ok (), out⟩ ∧
      ∀ st, Reached payload st → ∀ r ∈ strCalls st, wraps r = false) ↔ Document payload out := by
  constructor
  · rintro ⟨hparse, hno⟩
    cases hcheck : rdbCheck payload with
    | some e =>
      rw [rdbParse, hcheck] at hparse
      cases hparse
    | none =>
      obtain ⟨version, body, trailer, rfl, hversion, htrailer⟩ := exists_parts hcheck
      have hstart := @rdbStart_parts version body trailer hversion htrailer
      have hno' : NoWrap (between [] body kNoExpiry []) := fun st hst => hno st ⟨hcheck, by rwa [hstart]⟩
      rw [rdbParse, hcheck] at hparse
      simp only [hstart] at hparse
      have hbody : ([] ++ body).length + 1 < 2 ^ 64 := by
        simp only [List.length_append, List.nil_append] at h ⊢; omega
      obtain ⟨rs, rfl, hitems⟩ := items_of_rdbLoop rounds hbody hno' hparse
      obtain ⟨hold, hcrc⟩ := (rdbCheck_parts hversion htrailer).mp hcheck
      exact ⟨version, body, trailer, rfl, hversion, hold, htrailer, hcrc, hitems⟩
  · rintro ⟨version, body, trailer, rfl, hversion, hold, htrailer, hcrc, hitems⟩
    have hcheck := (@rdbCheck_parts version body trailer hversion htrailer).mpr ⟨hold, hcrc⟩
    have hstart := @rdbStart_parts version body trailer hversion htrailer
    have hbody : body.length < (kRdbMagic ++ version ++ body ++ [kOpEof] ++ trailer).length := by
      simp only [List.length_append, htrailer]; omega
    obtain ⟨hloop, hno⟩ := @rdbLoop_items _ _ _ hitems [] (by rw [List.nil_append]; omega) [] rounds (by omega)
    refine ⟨?_, fun st hst => hno st (by rw [← hstart]; exact hst.2)⟩
    rw [rdbParse, hcheck]
    simp only [hstart]
    exact hloop

/-- The number of a database between an expiry in seconds and its key, whose value is an integer. -/
def oddBody : Bytes :=
  [kOpExpireSec, 1, 0, 0, 0] ++ ([kOpSelectDb, 0] ++ ([kTypeString, 1, 107, 0xC0, 251] ++ []))

theorem document_oddBody : Document (unchecked oddBody) [⟨str "k", str "-5", 1000⟩] := by
  have hone : Length (str "k").length none [1] := @Length.six 1 (by decide)
  have hkey : Str (str "k") [1, 107] := .plain hone
  have hspecial : Length 0 (some kEncInt8) [0xC0] := @Length.special 0xC0 (by decide)
  have hvalue : Str (str "-5") [0xC0, 251] := .int8 hspecial 251
  refine ⟨kRdbVersion, oddBody, List.replicate 8 0, by decide, by decide, by decide, by decide, by decide, ?_⟩
  exact .cons (.expireSec kNoExpiry rfl) (.cons (.selectDb _ (.six (b := 0) (by decide)))
    (.cons (.key _ hkey hvalue) (.nil _)))

theorem rdbParse_oddBody : (unchecked oddBody).length < 2 ^ 64 ∧ Document (unchecked oddBody)
    [⟨str "k", str "-5", 1000⟩] ∧
    rdbParse 40 (unchecked oddBody) = some ⟨.ok (), [⟨str "k", str "-5", 1000⟩]⟩ :=
  ⟨by decide, document_oddBody, ((rdbParse_iff_document (by decide) (by decide)).mpr document_oddBody).1⟩

end RP
