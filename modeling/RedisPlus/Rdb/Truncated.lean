import RedisPlus.Rdb.RoundTrip
import RedisPlus.Rdb.Termination

/-!
# Snapshots that are cut short

A reader on the front of some data does what a reader on all of it does, or fails
(`Extends.u8`, `Extends.length`, `Extends.str`). So the opcode loop on a cut body goes the way
of the loop on the whole body and, if it does not fail, stops where the whole body goes on. At
that place the check for the end marker wants `kOpEof`, which no opcode is: a proper prefix of a
payload is never parsed (`rdbParse_take`). It does not take more rounds than the whole payload
either, so parsing it ends and returns false (`truncated_rejected`).
-/

namespace RP

namespace Reader

/-- `R` has the data of `r` and possibly more, and is where `r` is. -/
structure Extends (r R : Reader) : Prop where
  data : r.data <+: R.data
  pos : R.pos = r.pos
  ok : R.ok = r.ok

variable {r R : Reader}

theorem Extends.u8 (h : Extends r R) (hr : Placed r) (hR : Placed R) (hok : r.u8.2.ok = true) :
    R.u8.1 = r.u8.1 ∧ Extends r.u8.2 R.u8.2 := by
  have hle := h.data.length_le
  have hadd := hr.addSize_one
  have hadd' := hR.addSize_one
  rw [h.pos] at hadd'
  by_cases hn : addSize r.pos 1 > r.data.length
  · rw [Reader.u8, if_pos hn] at hok
    exact absurd hok (by simp [fail])
  · have hn' : ¬ addSize R.pos 1 > R.data.length := by rw [h.pos]; omega
    obtain ⟨q, hq⟩ := h.data
    rw [Reader.u8, Reader.u8, if_neg hn, if_neg hn']
    refine ⟨?_, h.data, by simp only [h.pos], h.ok⟩
    simp only [h.pos]
    rw [← hq, List.getD_append _ _ _ _ (by omega)]

theorem Extends.leLoop : ∀ (n i v : Nat) {r R : Reader}, Extends r R → Placed r → Placed R →
    (leLoop n i v r).2.ok = true →
    (Reader.leLoop n i v R).1 = (Reader.leLoop n i v r).1 ∧
      Extends (Reader.leLoop n i v r).2 (Reader.leLoop n i v R).2
  | 0, _, _, _, _, h, _, _, _ => ⟨rfl, h⟩
  | n + 1, i, v, r, R, h, hr, hR, hok => by
    have hr' := hr.advance_u8.placed hr
    obtain ⟨hv, hu⟩ := h.u8 hr hR ((Placed.advance_leLoop n (i + 1) _ hr').ok hok)
    simp only [Reader.leLoop, hv]
    exact Extends.leLoop n (i + 1) _ hu hr' (hR.advance_u8.placed hR) hok

theorem Extends.u64le (h : Extends r R) (hr : Placed r) (hR : Placed R) (hok : r.u64le.2.ok = true) :
    Extends r.u64le.2 R.u64le.2 := by
  unfold Reader.u64le at hok ⊢
  exact (Extends.leLoop 8 0 0 h hr hR hok).2

theorem Extends.u32le (h : Extends r R) (hr : Placed r) (hR : Placed R) (hok : r.u32le.2.ok = true) :
    Extends r.u32le.2 R.u32le.2 := by
  unfold Reader.u32le at hok ⊢
  exact (Extends.leLoop 4 0 0 h hr hR hok).2

theorem Extends.beLoop : ∀ (n v : Nat) {r R : Reader}, Extends r R → Placed r → Placed R →
    (beLoop n v r).2.ok = true →
    (Reader.beLoop n v R).1 = (Reader.beLoop n v r).1 ∧
      Extends (Reader.beLoop n v r).2 (Reader.beLoop n v R).2
  | 0, _, _, _, h, _, _, _ => ⟨rfl, h⟩
  | n + 1, v, r, R, h, hr, hR, hok => by
    have hr' := hr.advance_u8.placed hr
    obtain ⟨hv, hu⟩ := h.u8 hr hR ((Placed.advance_beLoop n _ hr').ok hok)
    simp only [Reader.beLoop, hv]
    exact Extends.beLoop n _ hu hr' (hR.advance_u8.placed hR) hok

theorem Extends.length (h : Extends r R) (hr : Placed r) (hR : Placed R)
    (hok : r.length.2.ok = true) :
    R.length.1 = r.length.1 ∧ Extends r.length.2 R.length.2 := by
  have hr' := hr.advance_u8.placed hr
  have hR' := hR.advance_u8.placed hR
  have hu8 : r.u8.2.ok = true := by
    by_contra hn
    simp only [Reader.length, if_pos hn] at hok
    exact hn hok
  obtain ⟨hv, hu⟩ := h.u8 hr hR hu8
  have hu8' : R.u8.2.ok = true := hu.ok.trans hu8
  unfold Reader.length at hok ⊢
  simp only [hv, hu8, hu8', not_true_eq_false, if_false] at hok ⊢
  generalize r.u8.1 = first at hok ⊢
  by_cases h6 : first &&& 0xC0 = k6Bit
  · simp only [if_pos h6]
    exact ⟨trivial, hu⟩
  by_cases h14 : first &&& 0xC0 = k14Bit
  · simp only [if_neg h6, if_pos h14] at hok ⊢
    obtain ⟨hv', hu'⟩ := hu.u8 hr' hR' hok
    exact ⟨by rw [hv'], hu'⟩
  by_cases henc : first &&& 0xC0 = kEncoded
  · simp only [if_neg h6, if_neg h14, if_pos henc]
    exact ⟨trivial, hu⟩
  by_cases h32 : first = k32Bit
  · simp only [if_neg h6, if_neg h14, if_neg henc, if_pos h32] at hok ⊢
    obtain ⟨hv', hu'⟩ := hu.beLoop 4 0 hr' hR' hok
    exact ⟨by rw [hv'], hu'⟩
  by_cases h64 : first = k64Bit
  · simp only [if_neg h6, if_neg h14, if_neg henc, if_neg h32, if_pos h64] at hok ⊢
    obtain ⟨hv', hu'⟩ := hu.beLoop 8 0 hr' hR' hok
    exact ⟨by rw [hv'], hu'⟩
  · simp only [if_neg h6, if_neg h14, if_neg henc, if_neg h32, if_neg h64] at hok
    exact absurd hok (by simp [fail])

theorem Extends.encodedStr (h : Extends r R) (hr : Placed r) (hR : Placed R) (encoding : UInt8)
    (hok : (r.encodedStr encoding).2.ok = true) :
    Extends (r.encodedStr encoding).2 (R.encodedStr encoding).2 := by
  have hr' := hr.advance_u8.placed hr
  have hR' := hR.advance_u8.placed hR
  unfold Reader.encodedStr at hok ⊢
  by_cases h8 : encoding = kEncInt8
  · simp only [if_pos h8] at hok ⊢
    exact (h.u8 hr hR hok).2
  by_cases h16 : encoding = kEncInt16
  · simp only [if_neg h8, if_pos h16] at hok ⊢
    have hu := (h.u8 hr hR (hr'.advance_u8.ok hok)).2
    exact (hu.u8 hr' hR' hok).2
  by_cases h32 : encoding = kEncInt32
  · simp only [if_neg h8, if_neg h16, if_pos h32] at hok ⊢
    exact h.u32le hr hR hok
  by_cases hlzf : encoding = kEncLzf
  · simp only [if_neg h8, if_neg h16, if_neg h32, if_pos hlzf] at hok
    exact absurd hok (by decide)
  · simp only [if_neg h8, if_neg h16, if_neg h32, if_neg hlzf] at hok
    exact absurd hok (by decide)

/-- What the string is may differ, if its length wraps; where it ends does not. -/
theorem Extends.plainStr (h : Extends r R) (len : Nat) (hok : (r.plainStr len).2.ok = true) :
    Extends (r.plainStr len).2 (R.plainStr len).2 := by
  have hle := h.data.length_le
  unfold Reader.plainStr at hok ⊢
  by_cases hn : addSize r.pos len > r.data.length
  · rw [if_pos hn] at hok
    exact absurd hok (by simp [fail])
  · rw [if_neg hn, if_neg (by rw [h.pos]; omega)]
    exact ⟨h.data, by simp only [h.pos], h.ok⟩

theorem Extends.str (h : Extends r R) (hr : Placed r) (hR : Placed R) (hok : r.str.2.ok = true) :
    Extends r.str.2 R.str.2 := by
  have hl : r.length.2.ok = true := by
    by_contra hn
    rw [str_of_not_ok (by simpa using hn)] at hok
    exact hn hok
  obtain ⟨hv, hlen⟩ := h.length hr hR hl
  have hl' : R.length.2.ok = true := hlen.ok.trans hl
  cases he : r.length.1.2 with
  | some e =>
    rw [str_of_encoding hl he] at hok ⊢
    rw [str_of_encoding hl' (by rw [hv, he])]
    exact hlen.encodedStr (hr.advance_length.placed hr) (hR.advance_length.placed hR) e hok
  | none =>
    rw [str_of_plain hl he] at hok ⊢
    rw [str_of_plain hl' (by rw [hv, he]), hv]
    exact hlen.plainStr _ hok

end Reader

/-! ## Rounds -/

open Reader (Placed Extends)

/-- What is read after an opcode, none for an unsupported one. -/
def opcodeReads (op : UInt8) : Option (Reader → Reader) :=
  if op = kOpAux then some fun r => r.str.2.str.2
  else if op = kOpSelectDb then some fun r => r.length.2
  else if op = kOpResizeDb then some fun r => r.length.2.length.2
  else if op = kOpExpireMs then some fun r => r.u64le.2
  else if op = kOpExpireSec then some fun r => r.u32le.2
  else if op = kTypeString then some fun r => r.str.2.str.2
  else none

theorem check_eq_inr_iff {st : ParseState} {default : Bytes} {r' : Reader} :
    (∃ st', st.check default = .inr st' ∧ st'.reader = r') ↔ st.reader = r' ∧ r'.ok = true := by
  constructor
  · rintro ⟨st', h, rfl⟩
    obtain ⟨rfl, hok⟩ := ParseState.check_eq_inr h
    exact ⟨rfl, hok⟩
  · rintro ⟨rfl, hok⟩
    exact ⟨st, by simp [ParseState.check, hok], rfl⟩

/-- The loop goes on after a supported opcode on which the reader does not fail. -/
theorem rdbOpcode_eq_inr_iff {op : UInt8} {r r' : Reader} {st : ParseState} :
    (∃ st', rdbOpcode op r st = .inr st' ∧ st'.reader = r') ↔
      ∃ f, opcodeReads op = some f ∧ f r = r' ∧ r'.ok = true := by
  unfold rdbOpcode opcodeReads
  repeat' split
  all_goals simp [check_eq_inr_iff]

theorem Reader.Extends.opcodeReads {op : UInt8} {f : Reader → Reader} {r R : Reader}
    (hop : opcodeReads op = some f) (h : Extends r R) (hr : Placed r) (hR : Placed R)
    (hok : (f r).ok = true) : Extends (f r) (f R) := by
  have hstr (hok : r.str.2.str.2.ok = true) : Extends r.str.2.str.2 R.str.2.str.2 := by
    have hr' := hr.keeps_str.placed hr
    have hR' := hR.keeps_str.placed hR
    exact (h.str hr hR (hr'.keeps_str.ok hok)).str hr' hR' hok
  have hl := hr.advance_length.placed hr
  have hL := hR.advance_length.placed hR
  unfold RP.opcodeReads at hop
  split at hop
  · obtain rfl := Option.some.inj hop
    exact hstr hok
  split at hop
  · obtain rfl := Option.some.inj hop
    exact (h.length hr hR hok).2
  split at hop
  · obtain rfl := Option.some.inj hop
    exact ((h.length hr hR (hl.advance_length.ok hok)).2.length hl hL hok).2
  split at hop
  · obtain rfl := Option.some.inj hop
    exact h.u64le hr hR hok
  split at hop
  · obtain rfl := Option.some.inj hop
    exact h.u32le hr hR hok
  split at hop
  · obtain rfl := Option.some.inj hop
    exact hstr hok
  · cases hop

/-- A round on the front of some data that does not end the loop is a round on all of it. -/
theorem rdbRound_extends {st st' st₁ : ParseState} (h : Extends st.reader st₁.reader)
    (hr : Placed st.reader) (hR : Placed st₁.reader) (hst : rdbRound st = .inr st') :
    ∃ st₁', rdbRound st₁ = .inr st₁' ∧ Extends st'.reader st₁'.reader := by
  obtain ⟨heof, hok, hop⟩ := rdbRound_eq_inr hst
  obtain ⟨hv, hu⟩ := h.u8 hr hR hok
  obtain ⟨f, hf, he, hok'⟩ := rdbOpcode_eq_inr_iff.mp ⟨st', hop, rfl⟩
  have hx := Reader.Extends.opcodeReads hf hu (hr.advance_u8.placed hr) (hR.advance_u8.placed hR)
    (by rw [he]; exact hok')
  rw [he] at hx
  obtain ⟨st₁', hop₁, he₁⟩ : ∃ st₁', rdbOpcode st₁.reader.u8.1 st₁.reader.u8.2 st₁ = .inr st₁' ∧
      st₁'.reader = f st₁.reader.u8.2 :=
    rdbOpcode_eq_inr_iff.mpr ⟨f, by rw [hv]; exact hf, rfl, hx.ok.trans hok'⟩
  refine ⟨st₁', ?_, by rw [he₁]; exact hx⟩
  have heof₁ : st₁.reader.eof = false := by
    have := h.data.length_le
    have := h.pos
    simp only [Reader.eof, decide_eq_false_iff_not, not_le] at heof ⊢
    omega
  rw [rdbRound, if_neg (by simp [heof₁])]
  simp only [hu.ok, hok, not_true_eq_false, if_false, hop₁]

theorem check_ne_ok {st : ParseState} {default : Bytes} {out : List Record} :
    st.check default ≠ .inl ⟨.ok (), out⟩ := by
  unfold ParseState.check
  split <;> simp

theorem rdbOpcode_ne_ok {op : UInt8} {r : Reader} {st : ParseState} {out : List Record} :
    rdbOpcode op r st ≠ .inl ⟨.ok (), out⟩ := by
  unfold rdbOpcode
  repeat' split
  all_goals first
    | exact check_ne_ok
    | simp

/-- The loop ends well at the end of the data only. -/
theorem eof_of_rdbRound {st : ParseState} {out : List Record}
    (h : rdbRound st = .inl ⟨.ok (), out⟩) : st.reader.eof = true := by
  by_contra hn
  rw [rdbRound, if_neg hn] at h
  simp only at h
  split at h
  · simp at h
  · exact rdbOpcode_ne_ok h

theorem rdbRound_kOpEof {st : ParseState} (hr : Placed st.reader)
    (hlt : st.reader.pos < st.reader.data.length)
    (hop : st.reader.data.getD st.reader.pos 0 = kOpEof) :
    ∃ e out, rdbRound st = .inl ⟨.error e, out⟩ := by
  have hu : st.reader.u8 = (kOpEof, { st.reader with pos := st.reader.pos + 1 }) := by
    rw [Reader.u8, hr.addSize_one, if_neg (by omega), hop]
  rw [rdbRound, if_neg (by simp [Reader.eof]; omega), hu]
  simp only
  split
  · exact ⟨_, _, rfl⟩
  · exact ⟨_, _, rfl⟩

/-- If the data is followed by an end marker, the loop on the data and the loop on more of it do
not both end well. -/
theorem rdbLoop_extends : ∀ (n m : Nat) {st st₁ : ParseState} {out out₁ : List Record},
    Extends st.reader st₁.reader → Placed st.reader → Placed st₁.reader →
    st.reader.data.length < st₁.reader.data.length →
    st₁.reader.data.getD st.reader.data.length 0 = kOpEof →
    rdbLoop n st = some ⟨.ok (), out⟩ → rdbLoop m st₁ ≠ some ⟨.ok (), out₁⟩
  | 0, _, _, _, _, _, _, _, _, _, _, h => by cases h
  | _ + 1, 0, _, _, _, _, _, _, _, _, _, _ => by simp [rdbLoop]
  | n + 1, m + 1, st, st₁, out, out₁, hx, hr, hR, hlt, hop, h => by
    rw [rdbLoop] at h ⊢
    cases hst : rdbRound st with
    | inl res =>
      rw [hst] at h
      have heof := eof_of_rdbRound (hst.trans (congrArg Sum.inl (Option.some.inj h)))
      have hpos : st₁.reader.pos = st.reader.data.length := by
        have := hr.pos
        rw [hx.pos]
        simp only [Reader.eof, decide_eq_true_eq] at heof
        omega
      obtain ⟨e, out', he⟩ := rdbRound_kOpEof hR (by omega) (by rw [hpos]; exact hop)
      rw [he]
      simp
    | inr st' =>
      rw [hst] at h
      obtain ⟨st₁', hst₁, hx'⟩ := rdbRound_extends hx hr hR hst
      have hk := keeps_rdbRound hr hst
      have hk₁ := keeps_rdbRound hR hst₁
      rw [hst₁]
      exact rdbLoop_extends n m hx' (hk.placed hr) (hk₁.placed hR)
        (by rw [hk.data, hk₁.data]; exact hlt) (by rw [hk.data, hk₁.data]; exact hop) h

/-! ## Payloads -/

theorem rdbCheck_eq_none {payload : Bytes} (h : rdbCheck payload = none) :
    rdbHeader + 9 ≤ payload.length ∧ payload.getD (payload.length - 8 - 1) 0 = kOpEof ∧
      (storedCrc payload ≠ 0 →
        (crc64 0 (payload.take (payload.length - 8))).toNat = storedCrc payload) := by
  unfold rdbCheck at h
  simp only at h
  split at h
  · cases h
  split at h
  · cases h
  split at h
  · cases h
  split at h
  · cases h
  rename_i hlen
  split at h
  · cases h
  rename_i heof
  split at h
  · cases h
  rename_i hcrc
  exact ⟨by omega, by simpa using heof, fun hne => by_contra fun hdiff => hcrc ⟨hne, hdiff⟩⟩

/-- Of a payload that is cut short and passes the check, the opcodes are the front of those of the
whole, and what follows them there is an end marker. -/
theorem rdbStart_take {rs : List Record} {k : Nat} (hk : k < (rdbSerialize rs).length)
    (hcheck : rdbCheck ((rdbSerialize rs).take k) = none) : ∃ m < (rdbBody rs).length,
      (rdbStart ((rdbSerialize rs).take k)).reader.data = (rdbBody rs).take m ∧
      (rdbBody rs).getD m 0 = kOpEof := by
  have hlen := length_rdbSerialize rs
  have hheader : rdbHeader = 9 := by decide
  have hpay : ((rdbSerialize rs).take k).length = k := List.length_take_of_le (by omega)
  obtain ⟨hmin, heof, -⟩ := rdbCheck_eq_none hcheck
  rw [hpay] at hmin heof
  have hbody := congrArg (fun st => st.reader.data) (rdbStart_rdbSerialize rs)
  simp only [rdbStart] at hbody
  obtain ⟨m, rfl⟩ : ∃ m, k = rdbHeader + m + 9 := ⟨k - rdbHeader - 9, by omega⟩
  refine ⟨m, by omega, ?_, ?_⟩
  · simp only [rdbStart]
    rw [← hbody, hpay, List.drop_take, List.take_take, List.take_take]
    congr 1
    omega
  · rw [← heof, ← hbody]
    simp only [List.getD_eq_getElem?_getD]
    rw [List.getElem?_take_of_lt (by omega), List.getElem?_drop, List.getElem?_take_of_lt (by omega)]
    congr 2

/-- So the loop on them starts as the loop on the whole does. -/
theorem extends_rdbStart {rs : List Record} (h : (rdbSerialize rs).length < 2 ^ 64) {payload : Bytes}
    {m : Nat} (hm : m < (rdbBody rs).length)
    (hdata : (rdbStart payload).reader.data = (rdbBody rs).take m) :
    Extends (rdbStart payload).reader { data := rdbBody rs } ∧ Placed (rdbStart payload).reader ∧
      Placed { data := rdbBody rs } := by
  have hlen := length_rdbSerialize rs
  refine ⟨⟨?_, rfl, rfl⟩, ⟨Nat.zero_le _, ?_⟩, ⟨Nat.zero_le _, ?_⟩⟩
  · rw [hdata]
    exact List.take_prefix m _
  · rw [hdata, List.length_take_of_le (Nat.le_of_lt hm)]
    omega
  · show (rdbBody rs).length + 1 < _
    omega

/-- A payload that is cut short is not parsed, whatever its values hold. -/
theorem rdbParse_take {rs : List Record} (h : (rdbSerialize rs).length < 2 ^ 64) {k : Nat}
    (hk : k < (rdbSerialize rs).length) (rounds : Nat) (out : List Record) :
    rdbParse rounds ((rdbSerialize rs).take k) ≠ some ⟨.ok (), out⟩ := by
  have hlen := length_rdbSerialize rs
  intro hp
  unfold rdbParse at hp
  split at hp
  · simp at hp
  rename_i hcheck
  obtain ⟨m, hm, hdata, hmark⟩ := rdbStart_take hk hcheck
  obtain ⟨hx, hr, hR⟩ := extends_rdbStart h hm hdata
  have hcut : ((rdbBody rs).take m).length = m := List.length_take_of_le (Nat.le_of_lt hm)
  refine @rdbLoop_extends rounds (2 * rs.length + 4) (rdbStart _) { reader := { data := rdbBody rs } }
    _ _ hx hr hR ?_ ?_ hp (rdbLoop_body (by omega) (Nat.le_refl _))
  · rw [hdata, hcut]
    exact hm
  · rw [hdata, hcut]
    exact hmark

/-- The loop on the front of some data ends if the loop on all of it does. -/
theorem rdbLoop_isSome_of_extends : ∀ (n : Nat) {st st₁ : ParseState}, Extends st.reader st₁.reader →
    Placed st.reader → Placed st₁.reader → (rdbLoop n st₁).isSome = true → (rdbLoop n st).isSome = true
  | 0, _, _, _, _, _, h => by cases h
  | n + 1, st, st₁, hx, hr, hR, h => by
    rw [rdbLoop] at h ⊢
    cases hst : rdbRound st with
    | inl res => rfl
    | inr st' =>
      obtain ⟨st₁', hst₁, hx'⟩ := rdbRound_extends hx hr hR hst
      rw [hst₁] at h
      exact rdbLoop_isSome_of_extends n hx' ((keeps_rdbRound hr hst).placed hr)
        ((keeps_rdbRound hR hst₁).placed hR) h

/-- For every list of records whose payload fits a string: parsing what is cut off anywhere ends, and
returns false. -/
theorem truncated_rejected (rs : List Record) (h : (rdbSerialize rs).length < 2 ^ 64) {payload : Bytes}
    (hcut : payload <+: rdbSerialize rs) (hne : payload ≠ rdbSerialize rs) :
    ∃ enough, ∀ rounds ≥ enough, ∃ e out, rdbParse rounds payload = some ⟨.error e, out⟩ := by
  have hlen := length_rdbSerialize rs
  obtain ⟨n, hk, rfl⟩ : ∃ n < (rdbSerialize rs).length, payload = (rdbSerialize rs).take n :=
    ⟨payload.length, Nat.lt_of_le_of_ne hcut.length_le fun he => hne (hcut.eq_of_length he),
      List.prefix_iff_eq_take.mp hcut⟩
  refine ⟨2 * rs.length + 4, fun rounds hrounds => ?_⟩
  have hends : (rdbParse rounds ((rdbSerialize rs).take n)).isSome = true := by
    rw [rdbParse]
    cases hcheck : rdbCheck ((rdbSerialize rs).take n) with
    | some e => rfl
    | none =>
      obtain ⟨m, hm, hdata, -⟩ := rdbStart_take hk hcheck
      obtain ⟨hx, hr, hR⟩ := extends_rdbStart h hm hdata
      refine @rdbLoop_isSome_of_extends rounds (rdbStart _) { reader := { data := rdbBody rs } } hx hr hR ?_
      rw [rdbLoop_body (by omega) hrounds]
      rfl
  obtain ⟨⟨result, out⟩, hparse⟩ := Option.isSome_iff_exists.mp hends
  cases result with
  | error e => exact ⟨e, out, hparse⟩
  | ok u => exact absurd hparse (rdbParse_take h hk rounds out)

/-- A value that ends like a payload without a checksum, cut there. -/
theorem truncated_rejected_at_marker :
    ∃ enough, ∀ rounds ≥ enough, ∃ e out,
      rdbParse rounds ((rdbSerialize [⟨str "k", kOpEof :: List.replicate 8 0, kNoExpiry⟩]).take 47) =
        some ⟨.error e, out⟩ :=
  truncated_rejected [⟨str "k", kOpEof :: List.replicate 8 0, kNoExpiry⟩]
    (by rw [length_rdbSerialize]; decide) (List.take_prefix _ _) fun he => by
      have := congrArg List.length he
      rw [List.length_take, length_rdbSerialize] at this
      exact absurd this (by decide)

end RP
