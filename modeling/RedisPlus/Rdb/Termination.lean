import Mathlib.Logic.Relation
import RedisPlus.Rdb.Format

/-!
# Where the snapshot reader goes

Every reading operation keeps the reader's position within its data, and moves it forward
(`Advance`), with one exception: a plain string whose length, added to the position, passes
`2 ^ 64` and comes out within the data again (`wraps`). It takes the position back, and
`rdb_parse` may then not end. A payload is parsed soundly (`Sound`) exactly when no string it
is made to read wraps (`sound_iff_no_wrap`).
-/

namespace RP

namespace Reader

/-- The position is within the data, with room for one more in `size_t`. -/
structure Placed (r : Reader) : Prop where
  pos : r.pos ≤ r.data.length
  size : r.data.length + 1 < 2 ^ 64

/-- The same data, and a position in it; a failed reader stays failed. -/
structure Keeps (r r' : Reader) : Prop where
  data : r'.data = r.data
  ok : r'.ok = true → r.ok = true
  bound : r'.pos ≤ r.data.length

/-- And the position does not go back. -/
structure Advance (r r' : Reader) : Prop extends Keeps r r' where
  le : r.pos ≤ r'.pos

theorem Keeps.placed {r r' : Reader} (h : Keeps r r') (hr : Placed r) : Placed r' :=
  ⟨by rw [h.data]; exact h.bound, by rw [h.data]; exact hr.size⟩

theorem Keeps.trans {r r' r'' : Reader} (h : Keeps r r') (h' : Keeps r' r'') : Keeps r r'' :=
  ⟨h'.data.trans h.data, fun ho => h.ok (h'.ok ho), by rw [← h.data]; exact h'.bound⟩

theorem Advance.refl {r : Reader} (hr : Placed r) : Advance r r :=
  ⟨⟨rfl, id, hr.pos⟩, Nat.le_refl _⟩

theorem Advance.trans {r r' r'' : Reader} (h : Advance r r') (h' : Advance r' r'') : Advance r r'' :=
  ⟨h.toKeeps.trans h'.toKeeps, Nat.le_trans h.le h'.le⟩

theorem Placed.advance_fail {r : Reader} (hr : Placed r) : Advance r r.fail.2 :=
  ⟨⟨rfl, fun h => absurd h (by simp [fail]), Nat.le_refl _⟩, hr.pos⟩

theorem Placed.addSize_one {r : Reader} (hr : Placed r) : addSize r.pos 1 = r.pos + 1 := by
  have := hr.pos
  have := hr.size
  exact Nat.mod_eq_of_lt (by omega)

theorem Placed.advance_u8 {r : Reader} (hr : Placed r) : Advance r r.u8.2 := by
  unfold u8
  split
  · exact hr.advance_fail
  · rename_i h
    exact ⟨⟨rfl, id, Nat.le_of_not_lt h⟩, by simp only [hr.addSize_one]; omega⟩

theorem Placed.advance_peek {r : Reader} (hr : Placed r) : Advance r r.peek.2 := by
  unfold peek
  split
  · exact hr.advance_fail
  · exact .refl hr

theorem Placed.advance_leLoop : ∀ (n i v : Nat) {r : Reader}, Placed r → Advance r (leLoop n i v r).2
  | 0, _, _, _, hr => .refl hr
  | n + 1, i, _, _, hr =>
    hr.advance_u8.trans (Placed.advance_leLoop n (i + 1) _ (hr.advance_u8.placed hr))

theorem Placed.advance_beLoop : ∀ (n v : Nat) {r : Reader}, Placed r → Advance r (beLoop n v r).2
  | 0, _, _, hr => .refl hr
  | n + 1, _, _, hr => hr.advance_u8.trans (Placed.advance_beLoop n _ (hr.advance_u8.placed hr))

theorem Placed.advance_u64le {r : Reader} (hr : Placed r) : Advance r r.u64le.2 :=
  Placed.advance_leLoop 8 0 0 hr

theorem Placed.advance_u32le {r : Reader} (hr : Placed r) : Advance r r.u32le.2 :=
  Placed.advance_leLoop 4 0 0 hr

theorem Placed.advance_length {r : Reader} (hr : Placed r) : Advance r r.length.2 := by
  have h := hr.advance_u8
  have hu := h.placed hr
  unfold Reader.length
  simp only
  split
  · exact h
  split
  · exact h
  split
  · exact h.trans hu.advance_u8
  split
  · exact h
  split
  · dsimp only
    exact h.trans (Placed.advance_beLoop 4 0 hu)
  split
  · dsimp only
    exact h.trans (Placed.advance_beLoop 8 0 hu)
  · exact h.trans hu.advance_fail

theorem Placed.advance_encodedStr {r : Reader} (hr : Placed r) (encoding : UInt8) :
    Advance r (r.encodedStr encoding).2 := by
  have h := hr.advance_u8
  unfold encodedStr
  split
  · exact h
  split
  · exact h.trans (h.placed hr).advance_u8
  split
  · dsimp only
    exact hr.advance_u32le
  split
  all_goals exact ⟨⟨rfl, fun h => absurd h (by simp), hr.pos⟩, Nat.le_refl _⟩

/-! ## Strings -/

/-- The string at `r` has a plain length which, added to the position, passes `2 ^ 64` and
comes out within the data. -/
def wraps (r : Reader) : Bool :=
  match r.length with
  | ((len, none), r) =>
    r.ok && decide (2 ^ 64 ≤ r.pos + len) && decide (addSize r.pos len ≤ r.data.length)
  | _ => false

/-- If the reader is still ok after `str()`, it has not gone back and is within its data, and a
plain string is as long as its length says. -/
def StrSound (r : Reader) : Prop :=
  r.str.2.ok = true →
    r.pos ≤ r.str.2.pos ∧ r.str.2.pos ≤ r.data.length ∧
    ∀ len, r.length.1 = (len, none) → r.str.1.length = len

theorem str_of_not_ok {r : Reader} (h : r.length.2.ok = false) : r.str = ([], r.length.2) := by
  unfold Reader.str
  simp [h]

theorem str_of_encoding {r : Reader} {e : UInt8} (hok : r.length.2.ok = true)
    (h : r.length.1.2 = some e) : r.str = r.length.2.encodedStr e := by
  unfold Reader.str
  simp [hok, h]

theorem str_of_plain {r : Reader} (hok : r.length.2.ok = true) (h : r.length.1.2 = none) :
    r.str = r.length.2.plainStr r.length.1.1 := by
  unfold Reader.str
  simp [hok, h]

theorem keeps_plainStr {r : Reader} (len : Nat) : Keeps r (r.plainStr len).2 := by
  unfold plainStr
  split
  · exact ⟨rfl, fun h => absurd h (by simp [fail]), Nat.le_refl _⟩
  · rename_i h
    exact ⟨rfl, id, Nat.le_of_not_lt h⟩

/-- The position stays within the data even where it wraps. -/
theorem Placed.keeps_str {r : Reader} (hr : Placed r) : Keeps r r.str.2 := by
  have hl := hr.advance_length
  cases hok : r.length.2.ok with
  | false => rw [str_of_not_ok hok]; exact hl.toKeeps
  | true =>
    cases he : r.length.1.2 with
    | some e =>
      rw [str_of_encoding hok he]
      exact (hl.trans ((hl.placed hr).advance_encodedStr e)).toKeeps
    | none =>
      rw [str_of_plain hok he]
      exact hl.toKeeps.trans (keeps_plainStr _)

theorem wraps_of_plain {r : Reader} (hok : r.length.2.ok = true) (h : r.length.1.2 = none) :
    wraps r = (decide (2 ^ 64 ≤ r.length.2.pos + r.length.1.1) &&
      decide (addSize r.length.2.pos r.length.1.1 ≤ r.length.2.data.length)) := by
  have heq : r.length = ((r.length.1.1, none), r.length.2) := Prod.ext (Prod.ext rfl h) rfl
  unfold wraps
  rw [heq]
  simp [hok]

/-- A string is read soundly exactly when it does not wrap. -/
theorem Placed.strSound_iff {r : Reader} (hr : Placed r) : StrSound r ↔ wraps r = false := by
  have hl := hr.advance_length
  have hpl := hl.placed hr
  have hpos := hpl.pos
  have hsize := hpl.size
  cases hok : r.length.2.ok with
  | false =>
    refine iff_of_true (fun h => ?_) ?_
    · rw [str_of_not_ok hok, hok] at h; cases h
    · unfold wraps
      split
      · rename_i heq; rw [heq] at hok; simp_all
      · rfl
  | true =>
    cases he : r.length.1.2 with
    | some e =>
      refine iff_of_true (fun _ => ?_) ?_
      · have hs := hl.trans (hpl.advance_encodedStr e)
        rw [str_of_encoding hok he]
        exact ⟨hs.le, hs.bound, fun len hlen => by rw [hlen] at he; cases he⟩
      · unfold wraps
        split
        · rename_i heq; rw [heq] at he; cases he
        · rfl
    | none =>
      rw [wraps_of_plain hok he, StrSound, str_of_plain hok he, plainStr]
      by_cases hbig : addSize r.length.2.pos r.length.1.1 > r.length.2.data.length
      · rw [if_pos hbig]
        refine iff_of_true (fun h => absurd h (by simp [fail])) ?_
        simp only [Bool.and_eq_false_iff, decide_eq_false_iff_not]
        exact .inr (by omega)
      · rw [if_neg hbig]
        simp only [hok, forall_const, Bool.and_eq_false_iff, decide_eq_false_iff_not,
          List.length_take, List.length_drop]
        by_cases hwrap : 2 ^ 64 ≤ r.length.2.pos + r.length.1.1
        · refine iff_of_false (fun h => ?_) (by rw [not_or, not_not, not_not]; exact ⟨hwrap, by omega⟩)
          have := h.2.2 r.length.1.1 (Prod.ext rfl he)
          omega
        · have hadd : addSize r.length.2.pos r.length.1.1 = r.length.2.pos + r.length.1.1 :=
            Nat.mod_eq_of_lt (by omega)
          refine iff_of_true ⟨?_, ?_, fun len hlen => ?_⟩ (.inl hwrap)
          · have := hl.le; omega
          · have := hl.data; rw [← this]; omega
          · rw [hlen] at hadd hbig ⊢
            simp only at hadd hbig ⊢
            omega

end Reader

/-! ## Rounds -/

open Reader (Placed Keeps Advance StrSound wraps)

theorem ParseState.check_eq_inr {st st' : ParseState} {default : Bytes} (h : st.check default = .inr st') :
    st' = st ∧ st.reader.ok = true := by
  unfold ParseState.check at h
  split at h
  · cases h
  · rename_i hok
    exact ⟨(Sum.inr.inj h).symm, by simpa using hok⟩

/-- Where an opcode that does not fail leaves the reader. -/
theorem rdbOpcode_eq_inr {op : UInt8} {r : Reader} {st st' : ParseState} (hr : Placed r)
    (h : rdbOpcode op r st = .inr st') :
    st'.reader.ok = true ∧
      ((op = kOpAux ∨ op = kTypeString) ∧ st'.reader = r.str.2.str.2 ∨ Advance r st'.reader) := by
  have hstr {out : ParseState} {default : Bytes} (hc : out.check default = .inr st')
      (hop : op = kOpAux ∨ op = kTypeString) (he : out.reader = r.str.2.str.2) :
      st'.reader.ok = true ∧
        ((op = kOpAux ∨ op = kTypeString) ∧ st'.reader = r.str.2.str.2 ∨ Advance r st'.reader) := by
    obtain ⟨rfl, hok⟩ := ParseState.check_eq_inr hc
    exact ⟨hok, .inl ⟨hop, he⟩⟩
  have hskip {out : ParseState} {default : Bytes} (hc : out.check default = .inr st')
      (ha : Advance r out.reader) :
      st'.reader.ok = true ∧
        ((op = kOpAux ∨ op = kTypeString) ∧ st'.reader = r.str.2.str.2 ∨ Advance r st'.reader) := by
    obtain ⟨rfl, hok⟩ := ParseState.check_eq_inr hc
    exact ⟨hok, .inr ha⟩
  have hl := hr.advance_length
  have h64 := hr.advance_u64le
  have h32 := hr.advance_u32le
  unfold rdbOpcode at h
  -- named, so that the unifier does not run the byte loops
  generalize r.u64le = p64 at h h64
  generalize r.u32le = p32 at h h32
  split at h
  · rename_i hop
    exact hstr h (.inl hop) rfl
  split at h
  · exact hskip h hl
  split at h
  · exact hskip h (hl.trans (hl.placed hr).advance_length)
  split at h
  · exact hskip h h64
  split at h
  · exact hskip h h32
  split at h
  · rename_i hop
    exact hstr h (.inr hop) rfl
  · cases h

theorem rdbRound_eq_inr {st st' : ParseState} (h : rdbRound st = .inr st') :
    st.reader.eof = false ∧ st.reader.u8.2.ok = true ∧
      rdbOpcode st.reader.u8.1 st.reader.u8.2 st = .inr st' := by
  unfold rdbRound at h
  split at h
  · cases h
  · rename_i heof
    simp only at h
    split at h
    · cases h
    · rename_i hok
      exact ⟨by simpa using heof, by simpa using hok, h⟩

/-- The readers at which a round calls `str()`. -/
def strCalls (st : ParseState) : List Reader :=
  if st.reader.eof then []
  else if st.reader.u8.2.ok ∧ (st.reader.u8.1 = kOpAux ∨ st.reader.u8.1 = kTypeString) then
    [st.reader.u8.2, st.reader.u8.2.str.2]
  else []

theorem placed_strCalls {st : ParseState} (hr : Placed st.reader) {r : Reader} (h : r ∈ strCalls st) :
    Placed r := by
  have hu := hr.advance_u8.placed hr
  unfold strCalls at h
  split at h
  · cases h
  split at h
  · rcases List.mem_cons.mp h with rfl | h
    · exact hu
    · rw [List.mem_singleton.mp h]
      exact hu.keeps_str.placed hu
  · cases h

/-- A round keeps the position within the data. -/
theorem keeps_rdbRound {st st' : ParseState} (hr : Placed st.reader) (h : rdbRound st = .inr st') :
    Keeps st.reader st'.reader := by
  obtain ⟨-, -, hop⟩ := rdbRound_eq_inr h
  have hu := hr.advance_u8.placed hr
  refine hr.advance_u8.toKeeps.trans ?_
  rcases (rdbOpcode_eq_inr hu hop).2 with ⟨-, he⟩ | ha
  · rw [he]
    exact hu.keeps_str.trans (hu.keeps_str.placed hu).keeps_str
  · exact ha.toKeeps

/-- A round whose strings do not wrap takes the position forward. -/
theorem pos_lt_rdbRound {st st' : ParseState} (hr : Placed st.reader)
    (hw : ∀ r ∈ strCalls st, wraps r = false) (h : rdbRound st = .inr st') :
    st.reader.pos < st'.reader.pos := by
  obtain ⟨heof, hok, hop⟩ := rdbRound_eq_inr h
  have hu := hr.advance_u8.placed hr
  have hpos : st.reader.u8.2.pos = st.reader.pos + 1 := by
    simp only [Reader.eof, decide_eq_false_iff_not, not_le] at heof
    rw [Reader.u8, if_neg (by rw [hr.addSize_one]; omega)]
    exact hr.addSize_one
  obtain ⟨hok', hcase⟩ := rdbOpcode_eq_inr hu hop
  suffices hle : st.reader.u8.2.pos ≤ st'.reader.pos by omega
  rcases hcase with ⟨hstr, he⟩ | ha
  · have hcalls : strCalls st = [st.reader.u8.2, st.reader.u8.2.str.2] := by
      rw [strCalls, if_neg (by simp [heof]), if_pos ⟨hok, hstr⟩]
    rw [hcalls] at hw
    have hu' := hu.keeps_str.placed hu
    have h₁ := hu.strSound_iff.mpr (hw _ List.mem_cons_self)
    have h₂ := hu'.strSound_iff.mpr (hw _ (by simp))
    rw [he] at hok' ⊢
    exact Nat.le_trans (h₁ (hu'.keeps_str.ok hok')).1 (h₂ hok').1
  · exact ha.le

/-! ## Runs -/

/-- One round after another. -/
def Rounds : ParseState → ParseState → Prop := Relation.ReflTransGen fun st st' => rdbRound st = .inr st'

/-- The states of the loop that parsing `payload` gets to. -/
def Reached (payload : Bytes) (st : ParseState) : Prop :=
  rdbCheck payload = none ∧ Rounds (rdbStart payload) st

theorem Rounds.placed {st st' : ParseState} (h : Rounds st st') (hr : Placed st.reader) :
    Placed st'.reader := by
  induction h with
  | refl => exact hr
  | tail _ hround ih => exact (keeps_rdbRound ih hround).placed ih

theorem placed_rdbStart {payload : Bytes} (h : payload.length < 2 ^ 64) :
    Placed (rdbStart payload).reader := by
  refine ⟨Nat.zero_le _, ?_⟩
  have hh : rdbHeader = 9 := by decide
  simp only [rdbStart, List.length_take, List.length_drop, hh]
  omega

/-- Where no string wraps, the loop ends. -/
theorem rdbLoop_isSome : ∀ (k : Nat) {st : ParseState}, Placed st.reader →
    (∀ st', Rounds st st' → ∀ r ∈ strCalls st', wraps r = false) →
    st.reader.data.length - st.reader.pos ≤ k → (rdbLoop (k + 1) st).isSome = true := by
  intro k
  induction k with
  | zero =>
    intro st hr _ hk
    have heof : st.reader.eof = true := by
      simp only [Reader.eof, decide_eq_true_eq]; omega
    simp [rdbLoop, rdbRound, heof]
  | succ k ih =>
    intro st hr hw hk
    rw [rdbLoop]
    cases hround : rdbRound st with
    | inl result => rfl
    | inr st' =>
      have hkeeps := keeps_rdbRound hr hround
      have hlt := pos_lt_rdbRound hr (hw st .refl) hround
      refine ih (hkeeps.placed hr) (fun st'' h => hw st'' (.head hround h)) ?_
      rw [hkeeps.data]
      omega

/-- What is asked of parsing `payload`: it ends; each round of the loop fails or takes the
position forward; each reading operation stays within the data and does not go back, as long
as it does not fail; and a plain string has the length it declares. -/
structure Sound (payload : Bytes) : Prop where
  ends : ∃ rounds, (rdbParse rounds payload).isSome = true
  forward : ∀ st st', Reached payload st → rdbRound st = .inr st' → st.reader.pos < st'.reader.pos
  reads : ∀ st, Reached payload st → ∀ r, Keeps st.reader r →
    Advance r r.u8.2 ∧ Advance r r.peek.2 ∧ Advance r r.u64le.2 ∧ Advance r r.u32le.2 ∧ Advance r r.length.2
  strs : ∀ st, Reached payload st → ∀ r ∈ strCalls st, StrSound r

/-- Parsing is sound exactly when no string that it reads wraps. -/
theorem sound_iff_no_wrap {payload : Bytes} (h : payload.length < 2 ^ 64) :
    Sound payload ↔ ∀ st, Reached payload st → ∀ r ∈ strCalls st, wraps r = false := by
  have hstart := placed_rdbStart h
  have hplaced (st : ParseState) (hst : Reached payload st) : Placed st.reader := hst.2.placed hstart
  constructor
  · intro hs st hst r hr
    exact (placed_strCalls (hplaced st hst) hr).strSound_iff.mp (hs.strs st hst r hr)
  · intro hw
    refine ⟨?_, ?_, ?_, ?_⟩
    · refine ⟨(rdbStart payload).reader.data.length + 1, ?_⟩
      rw [rdbParse]
      cases hc : rdbCheck payload with
      | some e => rfl
      | none => exact rdbLoop_isSome _ hstart (fun st hst => hw st ⟨hc, hst⟩) (Nat.sub_le _ _)
    · intro st st' hst hround
      exact pos_lt_rdbRound (hplaced st hst) (hw st hst) hround
    · intro st hst r hk
      have hr := hk.placed (hplaced st hst)
      exact ⟨hr.advance_u8, hr.advance_peek, hr.advance_u64le, hr.advance_u32le, hr.advance_length⟩
    · intro st hst r hr
      exact (placed_strCalls (hplaced st hst) hr).strSound_iff.mpr (hw st hst r hr)

/-- A payload with a zero checksum around the given opcodes. -/
def unchecked (body : Bytes) : Bytes := kRdbMagic ++ kRdbVersion ++ body ++ kOpEof :: List.replicate 8 0

/-- One key, `k` with the value `v`. -/
theorem sound_one_key : Sound (unchecked [0, 1, 107, 1, 118]) := by
  refine (sound_iff_no_wrap (by decide)).mpr ?_
  rintro st ⟨-, hst⟩
  rcases Relation.ReflTransGen.cases_head hst with rfl | ⟨st₁, h₁, hst₁⟩
  · decide
  · obtain rfl : _ = st₁ := Sum.inr.inj h₁
    rcases Relation.ReflTransGen.cases_head hst₁ with rfl | ⟨st₂, h₂, -⟩
    · decide
    · cases h₂

/-- An auxiliary field whose value's length is `2 ^ 64 - 11`, at position 11: reading it takes
the position back to 0, where the opcode is read again. -/
def loopingPayload : Bytes := unchecked (kOpAux :: 0 :: k64Bit :: [255, 255, 255, 255, 255, 255, 255, 245])

theorem loopingPayload_does_not_end :
    loopingPayload.length < 2 ^ 64 ∧ ∀ rounds, rdbParse rounds loopingPayload = none := by
  refine ⟨by decide, fun rounds => ?_⟩
  have hcheck : rdbCheck loopingPayload = none := by decide
  have hround : rdbRound (rdbStart loopingPayload) = .inr (rdbStart loopingPayload) := by rfl
  rw [rdbParse, hcheck]
  induction rounds with
  | zero => rfl
  | succ rounds ih =>
    show rdbLoop (rounds + 1) (rdbStart loopingPayload) = none
    rw [rdbLoop, hround]
    exact ih

end RP
