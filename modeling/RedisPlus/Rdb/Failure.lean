import RedisPlus.Rdb.Grammar

/-!
# What a failed parse hands back

`rdb_parse` clears the output vector before anything else, and again where the reader has failed at
the end of a round. An opcode that it does not support is the one exit that does neither: the records
of the rounds before are handed back (`rdbRound_error`). So every failure hands back nothing exactly if
no unsupported opcode comes after a key (`failure_hands_back_nothing_iff`). Where no string wraps, the
states of the loop are the beginnings of the payload that are items (`exists_items`, `Items.rounds`), and
this is said of the payload.
-/

namespace RP

open Reader (after)

/-- `rdb_parse` with a vector that may have records in it. -/
def rdbParseInto (rounds : Nat) (payload : Bytes) (_out : List Record) : Option RdbResult :=
  let out : List Record := [] -- `out->clear()`
  match rdbCheck payload with
  | some e => some ⟨.error e, out⟩
  | none => rdbLoop rounds { rdbStart payload with out }

theorem rdbParseInto_eq (rounds : Nat) (payload : Bytes) (out : List Record) :
    rdbParseInto rounds payload out = rdbParse rounds payload := rfl

/-- Every failure leaves the vector empty, whatever it held before. -/
def HandsBackNothing (payload : Bytes) : Prop :=
  ∀ rounds before e out, rdbParseInto rounds payload before = some ⟨.error e, out⟩ → out = []

/-- The loop goes on reading opcodes, and does not support the next one. -/
def Unsupported (st : ParseState) : Prop :=
  st.reader.eof = false ∧ opcodeReads st.reader.u8.1 = none

/-! ## One round -/

theorem check_eq_inl {st : ParseState} {default : Bytes} {res : RdbResult}
    (h : st.check default = .inl res) : res.out = [] := by
  unfold ParseState.check at h
  split at h
  · rw [← Sum.inl.inj h]
  · cases h

/-- An opcode that ends the loop clears the output, or is not supported. -/
theorem rdbOpcode_eq_inl {op : UInt8} {r : Reader} {st : ParseState} {res : RdbResult}
    (h : rdbOpcode op r st = .inl res) : (opcodeReads op).isSome = true ∧ res.out = [] ∨
      opcodeReads op = none ∧ res = ⟨.error (unsupportedOpcode op), st.out⟩ := by
  unfold rdbOpcode at h
  unfold opcodeReads
  split_ifs at h ⊢
  case neg => exact .inr ⟨rfl, (Sum.inl.inj h).symm⟩
  all_goals exact .inl ⟨rfl, check_eq_inl h⟩

/-- Before the end of the data there is a byte to read. -/
theorem Reader.ok_u8 {r : Reader} (h : r.eof = false) : r.u8.2.ok = r.ok := by
  simp only [Reader.eof, decide_eq_false_iff_not, not_le] at h
  have hadd : addSize r.pos 1 ≤ r.pos + 1 := Nat.mod_le _ _
  rw [Reader.u8, if_neg (by omega)]

/-- A round that fails has cleared the output, or come to an unsupported opcode. -/
theorem rdbRound_error {st : ParseState} (hok : st.reader.ok = true) {e : Bytes} {out : List Record}
    (h : rdbRound st = .inl ⟨.error e, out⟩) : out = [] ∨ Unsupported st ∧ out = st.out := by
  unfold rdbRound at h
  split at h
  · cases h
  rename_i heof
  rw [Bool.not_eq_true] at heof
  have hu : st.reader.u8.2.ok = true := by rw [Reader.ok_u8 heof, hok]
  simp only [hu, not_true_eq_false, if_false] at h
  rcases rdbOpcode_eq_inl h with ⟨-, hout⟩ | ⟨hop, hres⟩
  · exact .inl hout
  · exact .inr ⟨⟨heof, hop⟩, congrArg RdbResult.out hres⟩

/-- And at an unsupported opcode it fails with the records so far. -/
theorem rdbRound_unsupported {st : ParseState} (hok : st.reader.ok = true) (h : Unsupported st) :
    ∃ e, rdbRound st = .inl ⟨.error e, st.out⟩ := by
  have hu : st.reader.u8.2.ok = true := by rw [Reader.ok_u8 h.1, hok]
  refine ⟨unsupportedOpcode st.reader.u8.1, ?_⟩
  rw [rdbRound, if_neg (by simp [h.1])]
  simp only [hu, not_true_eq_false, if_false]
  cases hround : rdbOpcode st.reader.u8.1 st.reader.u8.2 st with
  | inr st' =>
    obtain ⟨f, hf, -⟩ := rdbOpcode_eq_inr_iff.mp ⟨st', hround, rfl⟩
    rw [h.2] at hf
    cases hf
  | inl res =>
    rcases rdbOpcode_eq_inl hround with ⟨hsome, -⟩ | ⟨-, rfl⟩
    · rw [h.2] at hsome
      cases hsome
    · rfl

/-! ## The loop -/

/-- A state that the loop goes on from has a reader that has not failed. -/
theorem Rounds.ok {st st' : ParseState} (h : Rounds st st') (hok : st.reader.ok = true) :
    st'.reader.ok = true := by
  induction h with
  | refl => exact hok
  | tail _ hround _ =>
    obtain ⟨f, -, -, hok'⟩ := rdbOpcode_eq_inr_iff.mp ⟨_, (rdbRound_eq_inr hround).2.2, rfl⟩
    exact hok'

/-- Rounds that go on, and one that does not, make up the loop. -/
theorem exists_rdbLoop_iff {st : ParseState} {res : RdbResult} :
    (∃ rounds, rdbLoop rounds st = some res) ↔ ∃ st', Rounds st st' ∧ rdbRound st' = .inl res := by
  constructor
  · rintro ⟨rounds, h⟩
    induction rounds generalizing st with
    | zero => cases h
    | succ rounds ih =>
      rw [rdbLoop] at h
      cases hround : rdbRound st with
      | inl res' =>
        rw [hround] at h
        exact ⟨st, .refl, by rw [hround, Option.some.inj h]⟩
      | inr st' =>
        rw [hround] at h
        obtain ⟨st'', hrounds, hend⟩ := ih h
        exact ⟨st'', .head hround hrounds, hend⟩
  · rintro ⟨st', hrounds, hend⟩
    induction hrounds using Relation.ReflTransGen.head_induction_on with
    | refl => exact ⟨1, by rw [rdbLoop, hend]⟩
    | head hround _ ih =>
      obtain ⟨rounds, h⟩ := ih
      exact ⟨rounds + 1, by rw [rdbLoop_step hround, h]⟩

theorem handsBackNothing_iff (payload : Bytes) :
    HandsBackNothing payload ↔ ∀ st, Reached payload st → Unsupported st → st.out = [] := by
  simp only [HandsBackNothing, rdbParseInto_eq, rdbParse]
  constructor
  · rintro h st ⟨hcheck, hrounds⟩ hunsupported
    obtain ⟨e, hround⟩ := rdbRound_unsupported (hrounds.ok rfl) hunsupported
    obtain ⟨rounds, hloop⟩ := exists_rdbLoop_iff.mpr ⟨st, hrounds, hround⟩
    exact h rounds [] e st.out (by rw [hcheck]; exact hloop)
  · intro h rounds before e out hparse
    cases hcheck : rdbCheck payload with
    | some e' =>
      rw [hcheck] at hparse
      exact (congrArg RdbResult.out (Option.some.inj hparse)).symm
    | none =>
      rw [hcheck] at hparse
      obtain ⟨st, hrounds, hround⟩ := exists_rdbLoop_iff.mp ⟨rounds, hparse⟩
      rcases rdbRound_error (hrounds.ok rfl) hround with hout | ⟨hunsupported, hout⟩
      · exact hout
      · rw [hout, h st ⟨hcheck, hrounds⟩ hunsupported]

/-! ## The payload -/

/-- What stands between the version and the end marker. -/
def rdbOpcodes (payload : Bytes) : Bytes := (rdbStart payload).reader.data

theorem rdbStart_eq (payload : Bytes) : rdbStart payload = between [] (rdbOpcodes payload) kNoExpiry [] := by
  simp only [rdbStart, rdbOpcodes, between, after, List.nil_append, List.length_nil]

theorem length_rdbOpcodes {payload : Bytes} (h : payload.length < 2 ^ 64) (hcheck : rdbCheck payload = none) :
    ([] ++ rdbOpcodes payload).length + 1 < 2 ^ 64 := by
  have hlen := (rdbCheck_eq_none hcheck).1
  simp only [rdbOpcodes, rdbStart, List.nil_append, List.length_take, List.length_drop]
  omega

/-- An unsupported opcode comes after items with the given records. -/
structure StopsAfter (payload : Bytes) (rs : List Record) : Prop where
  check : rdbCheck payload = none
  body : ∃ bs op rest, rdbOpcodes payload = bs ++ op :: rest ∧ Items kNoExpiry rs bs ∧ opcodeReads op = none

/-- Where no string wraps, the rounds up to a state take off items. -/
theorem exists_items {st st' : ParseState} (h : Rounds st st') :
    ∀ {pre s : Bytes} {p : Int64} {out : List Record}, st = between pre s p out →
      (pre ++ s).length + 1 < 2 ^ 64 → NoWrap st →
      ∃ bs s' p' rs, s = bs ++ s' ∧ Items p rs bs ∧ st' = between (pre ++ bs) s' p' (out ++ rs) := by
  induction h using Relation.ReflTransGen.head_induction_on with
  | refl =>
    intro pre s p out hst _ _
    exact ⟨[], s, p, [], rfl, .nil p, by rw [hst, List.append_nil, List.append_nil]⟩
  | head hround _ ih =>
    rintro pre s p out rfl hlen hno
    obtain ⟨bs, s', p', rs, rfl, hitem⟩ := exists_item hlen (hno _ .refl) hround
    have hstep := rdbRound_item hitem (show (pre ++ (bs ++ s')).length < 2 ^ 64 by omega) out
    obtain ⟨bs', s'', p'', rs', rfl, hitems, hst'⟩ :=
      ih (Sum.inr.inj (hround.symm.trans hstep)) (by simpa using hlen) (hno.round hround)
    refine ⟨bs ++ bs', s'', p'', rs ++ rs', (List.append_assoc ..).symm, .cons hitem hitems, ?_⟩
    rw [hst', List.append_assoc, List.append_assoc]

/-- Items at the beginning of what is left are taken off by rounds that go on. -/
theorem Items.rounds {p : Int64} {rs : List Record} {bs : Bytes} (hitems : Items p rs bs) :
    ∀ {pre s : Bytes}, (pre ++ (bs ++ s)).length < 2 ^ 64 → ∀ out, ∃ p',
      Rounds (between pre (bs ++ s) p out) (between (pre ++ bs) s p' (out ++ rs)) := by
  induction hitems with
  | nil p =>
    intro pre s _ out
    exact ⟨p, by rw [List.append_nil, List.append_nil]; exact .refl⟩
  | cons hitem _ ih =>
    intro pre s h out
    rename_i bs bs' _
    rw [List.append_assoc] at h ⊢
    obtain ⟨p', hrounds⟩ := @ih (pre ++ bs) s (by simpa using h) (out ++ _)
    refine ⟨p', .head (rdbRound_item hitem h out) ?_⟩
    rwa [← List.append_assoc, ← List.append_assoc]

theorem unsupported_between_iff {pre s : Bytes} (h : (pre ++ s).length < 2 ^ 64) {p : Int64}
    {out : List Record} :
    Unsupported (between pre s p out) ↔ ∃ op rest, s = op :: rest ∧ opcodeReads op = none := by
  cases s with
  | nil => simp [Unsupported, between, Reader.eof, after]
  | cons op rest =>
    rw [Unsupported, between, Reader.u8_after h]
    simp [Reader.eof, after]

/-- Where no string wraps, the loop comes to an unsupported opcode exactly after items. -/
theorem stopsAfter_iff {payload : Bytes} (h : payload.length < 2 ^ 64) (hsound : Sound payload)
    {rs : List Record} :
    StopsAfter payload rs ↔ ∃ st, Reached payload st ∧ Unsupported st ∧ st.out = rs := by
  constructor
  · rintro ⟨hcheck, bs, op, rest, heq, hitems, hop⟩
    have hlen := length_rdbOpcodes h hcheck
    rw [heq] at hlen
    obtain ⟨p, hrounds⟩ := @Items.rounds _ _ _ hitems [] (op :: rest) (by omega) []
    rw [← heq, ← rdbStart_eq] at hrounds
    refine ⟨_, ⟨hcheck, hrounds⟩, ?_, rfl⟩
    exact (unsupported_between_iff (by simpa using Nat.lt_of_succ_lt hlen)).mpr ⟨op, rest, rfl, hop⟩
  · rintro ⟨st, ⟨hcheck, hrounds⟩, hunsupported, rfl⟩
    have hno : NoWrap (rdbStart payload) := fun st hst => (sound_iff_no_wrap h).mp hsound st ⟨hcheck, hst⟩
    have hlen := length_rdbOpcodes h hcheck
    obtain ⟨bs, s, p, rs, heq, hitems, rfl⟩ := exists_items hrounds (rdbStart_eq payload) hlen hno
    rw [heq] at hlen
    obtain ⟨op, rest, rfl, hop⟩ :=
      (unsupported_between_iff (by simpa using Nat.lt_of_succ_lt hlen)).mp hunsupported
    exact ⟨hcheck, bs, op, rest, heq, hitems, hop⟩

/-- Whatever the vector holds before, every failure of `rdb_parse` leaves it empty exactly if no
unsupported opcode comes after a key: in the rounds of the loop, and if no string wraps, in the items
of the payload. -/
theorem failure_hands_back_nothing_iff (payload : Bytes) :
    (HandsBackNothing payload ↔ ∀ st, Reached payload st → Unsupported st → st.out = []) ∧
    (payload.length < 2 ^ 64 → Sound payload →
      (HandsBackNothing payload ↔ ∀ rs, StopsAfter payload rs → rs = [])) := by
  refine ⟨handsBackNothing_iff payload, fun h hsound => (handsBackNothing_iff payload).trans ?_⟩
  simp only [stopsAfter_iff h hsound]
  constructor
  · rintro hall rs ⟨st, hst, hunsupported, rfl⟩
    exact hall st hst hunsupported
  · intro hall st hst hunsupported
    exact hall _ ⟨st, hst, hunsupported, rfl⟩

/-- One key, and then a list, which is not supported: the key is handed back. -/
theorem failure_hands_back_key : (rdbParseInto 5 (unchecked [0, 1, 107, 1, 118, 1]) []).map (·.out) =
    some [⟨str "k", str "v", kNoExpiry⟩] ∧
    ∃ e out, rdbParseInto 5 (unchecked [0, 1, 107, 1, 118, 1]) [] = some ⟨.error e, out⟩ := by
  exact ⟨by decide, _, _, rfl⟩

/-- No string of that payload wraps, and the key is an item before the opcode of the list. -/
theorem failure_hands_back_item :
    StopsAfter (unchecked [0, 1, 107, 1, 118, 1]) [⟨str "k", str "v", kNoExpiry⟩] ∧
    ¬ HandsBackNothing (unchecked [0, 1, 107, 1, 118, 1]) := by
  have hsound : Sound (unchecked [0, 1, 107, 1, 118, 1]) := by
    refine (sound_iff_no_wrap (by decide)).mpr ?_
    rintro st ⟨-, hst⟩
    rcases Relation.ReflTransGen.cases_head hst with rfl | ⟨st₁, h₁, hst₁⟩
    · decide
    · obtain rfl : _ = st₁ := Sum.inr.inj h₁
      rcases Relation.ReflTransGen.cases_head hst₁ with rfl | ⟨st₂, h₂, -⟩
      · decide
      · cases h₂
  have hone : Length 1 none [1] := .six (b := 1) rfl
  have hkey : Items kNoExpiry [⟨str "k", str "v", kNoExpiry⟩] [0, 1, 107, 1, 118] :=
    .cons (.key kNoExpiry (@Str.plain (str "k") _ hone) (@Str.plain (str "v") _ hone)) (.nil kNoExpiry)
  have hstops : StopsAfter (unchecked [0, 1, 107, 1, 118, 1]) [⟨str "k", str "v", kNoExpiry⟩] :=
    ⟨by decide, [0, 1, 107, 1, 118], 1, [], by decide, hkey, by decide⟩
  refine ⟨hstops, fun h => ?_⟩
  have hnone := ((failure_hands_back_nothing_iff _).2 (by decide) hsound).mp h _ hstops
  cases hnone

end RP
