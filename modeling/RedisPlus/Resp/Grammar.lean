import RedisPlus.Resp.Parse

/-!
# The grammar of requests

`Request` says which byte strings are one request, and of which arguments, without a parser: a
multibulk array of bulk strings, an array of no elements, or an inline line. `parse_request`
takes off a request wherever one stands at the front of its input, whatever follows it
(`parseRequest_of_request`), and nothing else (`request_of_parseRequest`).
-/

namespace RP

open Framework (find2 Outcome Numeral)

/-! ## Requests -/

/-- `$<length>\r\n<body>\r\n` -/
inductive BulkString : Bytes → Bytes → Prop where
  | mk {ds arg : Bytes} (hlen : Numeral ds arg.length) (hmax : arg.length ≤ kMaxBulkLength) :
    BulkString (36 :: ds ++ crlf ++ arg ++ crlf) arg

/-- Bulk strings, one after the other. -/
inductive BulkStrings : Bytes → Args → Prop where
  | nil : BulkStrings [] []
  | cons {b bs arg : Bytes} {args : Args} (h : BulkString b arg) (hs : BulkStrings bs args) :
    BulkStrings (b ++ bs) (arg :: args)

/-- The maximal runs of bytes that are not white space. -/
def runs (line : Bytes) : Args := (line.splitOnP isspace).filter (· ≠ [])

/-- The bytes of one request, and its arguments. -/
inductive Request : Bytes → Args → Prop where
  | empty {ds : Bytes} {argc : Int} (hargc : Numeral ds argc) (hmax : argc.natAbs ≤ int64Max)
    (hle : argc ≤ 0) : Request (42 :: ds ++ crlf) []
  | array {ds bs : Bytes} {args : Args} (hargc : Numeral ds args.length) (hpos : 1 ≤ args.length)
    (hmax : args.length ≤ kMaxMultibulkLength) (hbs : BulkStrings bs args) :
    Request (42 :: ds ++ crlf ++ bs) args
  | inline {line : Bytes} (hhead : line.head? ≠ some 42) (hcrlf : ¬ crlf <:+: line)
    (hmax : line.length ≤ kMaxInlineLength) : Request (line ++ crlf) (runs line)

/-! ## What is a request is parsed -/

theorem parseInt_eq_some {ds : Bytes} {i : Int} :
    parseInt ds = some i ↔ Numeral ds i ∧ i.natAbs ≤ int64Max :=
  Framework.readSigned_eq_some (by decide)

/-- A line of a number ends at its first CRLF. -/
theorem findCrlf_numeral {c : UInt8} (hc : c ≠ 13) {ds : Bytes} {i : Int} (h : Numeral ds i) (t : Bytes) :
    findCrlf (c :: ds ++ 13 :: 10 :: t) = some (ds.length + 1) := by
  refine Framework.find2_of_not_mem t ?_
  rw [List.mem_cons, not_or]
  exact ⟨Ne.symm hc, h.not_mem (by decide) (by decide) (by decide)⟩

/-- A line without its first byte and its end. -/
theorem take_line (c : UInt8) (ds t : Bytes) :
    ((c :: ds ++ t).take (ds.length + 1)).drop 1 = ds := by
  rw [List.take_left' (by simp)]; rfl

theorem drop_line (c : UInt8) (ds t : Bytes) :
    (c :: ds ++ 13 :: 10 :: t).drop (ds.length + 1 + 2) = t := by
  rw [← List.drop_drop, List.drop_left' (by simp)]; rfl

theorem parseBulk_of_bulkString {b arg : Bytes} (h : BulkString b arg) (t : Bytes) :
    parseBulk (b ++ t) = .ok arg b.length := by
  obtain ⟨hlen, hmax⟩ := h
  rename_i ds
  have hparse : parseInt ds = some (arg.length : Int) := by
    refine parseInt_eq_some.mpr ⟨hlen, ?_⟩
    simp only [kMaxBulkLength, int64Max] at hmax ⊢
    omega
  have hb : 36 :: ds ++ crlf ++ arg ++ crlf ++ t = 36 :: ds ++ 13 :: 10 :: (arg ++ 13 :: 10 :: t) := by
    simp [crlf]
  have hl : (36 :: ds ++ crlf ++ arg ++ crlf).length = ds.length + 1 + 2 + arg.length + 2 := by
    simp only [List.length_append, List.length_cons, show crlf.length = 2 from rfl]
  have htotal : (36 :: ds ++ 13 :: 10 :: (arg ++ 13 :: 10 :: t)).length =
      ds.length + 1 + 2 + arg.length + 2 + t.length := by
    rw [← hb, List.length_append, hl]
  have hdrop (k : Nat) : (36 :: ds ++ 13 :: 10 :: (arg ++ 13 :: 10 :: t)).drop (ds.length + 1 + 2 + k) =
      (arg ++ 13 :: 10 :: t).drop k := by
    rw [← List.drop_drop, drop_line]
  rw [hl, hb, parseBulk_of_some rfl (findCrlf_numeral (by decide) hlen _), parseBulkBody, take_line,
    hparse]
  simp only [Int.toNat_natCast]
  rw [if_neg (by omega), if_neg (by omega), hdrop, drop_line, List.drop_left, List.take_left,
    if_neg (by simp [crlf])]

theorem parseBulks_of_bulkStrings {bs : Bytes} {new : Args} (h : BulkStrings bs new) (t : Bytes) :
    ∀ (pos : Nat) (args : Args),
      parseBulks new.length pos (bs ++ t) args = .ok (args ++ new) (pos + bs.length) := by
  induction h with
  | nil => simp [parseBulks]
  | cons hb _ ih =>
    intro pos args
    rw [List.length_cons, parseBulks, List.append_assoc, parseBulk_of_bulkString hb]
    simp only [List.drop_left, ih, List.length_append, List.append_assoc, List.singleton_append,
      Nat.add_assoc]

theorem words_eq : ∀ (cs cur : Bytes),
    words cur cs = (List.splitOnPPrepend isspace cs cur.reverse).filter (· ≠ [])
  | [], cur => by
    rw [words, List.splitOnPPrepend_nil, List.reverse_reverse]
    by_cases hcur : cur = [] <;> simp [hcur]
  | c :: cs, cur => by
    have hnil : words [] cs = (cs.splitOnP isspace).filter (· ≠ []) := words_eq cs []
    rw [words, List.splitOnPPrepend_cons_eq_if]
    by_cases hc : isspace c = true
    · rw [if_pos hc, if_pos hc, List.reverse_reverse, hnil]
      by_cases hcur : cur = [] <;> simp [hcur]
    · rw [if_neg hc, if_neg hc, words_eq cs (cur ++ [c]), List.reverse_append]
      rfl

/-- The words of a line are its runs. -/
theorem words_eq_runs (line : Bytes) : words [] line = runs line := words_eq line []

/-- A request at the front of the input is taken off, whatever follows. -/
theorem parseRequest_of_request {req : Bytes} {args : Args} (h : Request req args) (t : Bytes) :
    parseRequest (req ++ t) = .ok args req.length := by
  have hline (ds t : Bytes) : 42 :: ds ++ crlf ++ t = 42 :: ds ++ 13 :: 10 :: t := by simp [crlf]
  cases h with
  | @empty ds argc hargc hmax hle =>
    rw [hline, parseRequest_of_some rfl (findCrlf_numeral (by decide) hargc t), parseArray, take_line,
      parseInt_eq_some.mpr ⟨hargc, hmax⟩]
    simp only
    rw [if_neg (by omega), if_pos hle]
    simp [crlf]
  | @array ds bs _ hargc hpos hmax hbs =>
    have hparse : parseInt ds = some (args.length : Int) := by
      refine parseInt_eq_some.mpr ⟨hargc, ?_⟩
      simp only [kMaxMultibulkLength, int64Max] at hmax ⊢
      omega
    rw [List.append_assoc, hline, parseRequest_of_some rfl (findCrlf_numeral (by decide) hargc _), parseArray,
      take_line, hparse]
    simp only [Int.toNat_natCast]
    rw [if_neg (by omega), if_neg (by omega), drop_line, parseBulks_of_bulkStrings hbs]
    simp only [List.length_append, List.length_cons, show crlf.length = 2 from rfl, List.nil_append]
  | @inline line hhead hcrlf hmax =>
    have hfind : findCrlf (line ++ 13 :: 10 :: t) = some line.length :=
      Framework.find2_append_delimiter (by decide) t (Framework.find2_eq_none_iff.mpr hcrlf)
    have hinput : line ++ crlf ++ t = line ++ 13 :: 10 :: t := by simp [crlf]
    have hinline : parseRequest (line ++ 13 :: 10 :: t) = parseInline (line ++ 13 :: 10 :: t) := by
      cases line with
      | nil => exact parseRequest_of_head rfl (by decide)
      | cons c line => exact parseRequest_of_head rfl (by simpa using hhead)
    rw [hinput, hinline, parseInline, hfind]
    simp only
    rw [if_neg (by omega), List.take_left, words_eq_runs, List.length_append]
    rfl

/-! ## What is parsed is a request -/

/-- The first line of an input that does not start with its end. -/
theorem take_firstLine {input : Bytes} {c : UInt8} {e : Nat} (hh : input.head? = some c) (hc : c ≠ 13)
    (hf : findCrlf input = some e) : input.take (e + 2) = c :: (input.take e).drop 1 ++ crlf := by
  obtain ⟨cs, rfl⟩ := List.head?_eq_some_iff.mp hh
  cases e with
  | zero =>
    have hd := Framework.drop_find2 hf
    rw [List.drop_zero] at hd
    exact absurd (List.cons.inj hd).1 hc
  | succ e =>
    rw [Framework.take_find2 hf]
    rfl

theorem bulkString_of_parseBulk {rest arg : Bytes} {k : Nat} (h : parseBulk rest = .ok arg k) :
    BulkString (rest.take k) arg := by
  obtain ⟨e, hh, hf, hb⟩ := parseBulk_eq_ok h
  obtain ⟨len, hint, hmax, hk, hle, harg, hcrlf⟩ := parseBulkBody_eq_ok hb
  have harglen : arg.length = len := by
    rw [harg, List.length_take, List.length_drop]
    omega
  have htake : rest.take k = 36 :: (rest.take e).drop 1 ++ crlf ++ arg ++ crlf := by
    rw [hk, List.take_add, List.take_add, take_firstLine hh (by decide) hf, ← harg, hcrlf]
  rw [htake]
  rw [← harglen] at hint hmax
  exact .mk (parseInt_eq_some.mp hint).1 hmax

theorem bulkStrings_of_parseBulks : ∀ {n pos : Nat} {rest : Bytes} {args as : Args} {m : Nat},
    parseBulks n pos rest args = .ok as m →
    ∃ new : Args, as = args ++ new ∧ new.length = n ∧ BulkStrings (rest.take (m - pos)) new
  | 0, pos, rest, args, as, m, h => by
    cases h
    refine ⟨[], (List.append_nil _).symm, rfl, ?_⟩
    rw [Nat.sub_self, List.take_zero]
    exact .nil
  | n + 1, pos, rest, args, as, m, h => by
    simp only [parseBulks] at h
    split at h
    · rename_i arg k hb
      obtain ⟨new, rfl, rfl, hnew⟩ := bulkStrings_of_parseBulks h
      have hle := (parseBulks_consumes h).1
      refine ⟨arg :: new, by simp, rfl, ?_⟩
      rw [show m - pos = k + (m - (pos + k)) by omega, List.take_add]
      exact .cons (bulkString_of_parseBulk hb) hnew
    · cases h
    · cases h

theorem request_of_parseArray {input : Bytes} {args : Args} {e m : Nat} (hh : input.head? = some 42)
    (hf : findCrlf input = some e) (h : parseArray input e = .ok args m) : Request (input.take m) args := by
  have hfront := take_firstLine hh (by decide) hf
  unfold parseArray at h
  split at h
  · cases h
  rename_i argc hargc
  obtain ⟨hnum, habs⟩ := parseInt_eq_some.mp hargc
  split at h
  · cases h
  rename_i hmax
  split at h
  · rename_i hle
    cases h
    rw [hfront]
    exact .empty hnum habs hle
  · rename_i hpos
    obtain ⟨new, rfl, hcount, hbs⟩ := bulkStrings_of_parseBulks h
    have hm := (parseBulks_consumes h).1
    rw [show m = e + 2 + (m - (e + 2)) by omega, List.take_add, hfront]
    refine .array ?_ (by omega) (by omega) hbs
    rwa [hcount, Int.toNat_of_nonneg (by omega)]

theorem request_of_parseInline {input : Bytes} {args : Args} {c : UInt8} {m : Nat}
    (hh : input.head? = some c) (hc : c ≠ 42) (h : parseInline input = .ok args m) :
    Request (input.take m) args := by
  unfold parseInline at h
  cases hf : findCrlf input with
  | none =>
    simp only [hf] at h
    split at h <;> cases h
  | some e =>
    simp only [hf] at h
    split at h
    · cases h
    rename_i hmax
    cases h
    have hlen := (Framework.find2_eq_some hf).2
    rw [Framework.take_find2 hf, words_eq_runs]
    refine .inline ?_ ?_ ?_
    · rw [List.head?_take, hh]
      split
      · simp
      · simpa using hc
    · refine Framework.find2_eq_none_iff.mp (Framework.find2_left_none (m := input.drop e) (i := e) ?_ ?_)
      · rwa [List.take_append_drop]
      · rw [List.length_take]
        omega
    · rw [List.length_take]
      omega

/-- What is taken off the input is a request. -/
theorem request_of_parseRequest {input : Bytes} {args : Args} {m : Nat}
    (h : parseRequest input = .ok args m) : Request (input.take m) args := by
  cases hh : input.head? with
  | none =>
    rw [List.head?_eq_none_iff.mp hh] at h
    cases h
  | some c =>
    by_cases hc : c = 42
    · subst hc
      cases hf : findCrlf input with
      | none =>
        rw [parseRequest_of_none hh hf] at h
        split at h <;> cases h
      | some e =>
        rw [parseRequest_of_some hh hf] at h
        exact request_of_parseArray hh hf h
    · rw [parseRequest_of_head hh hc] at h
      exact request_of_parseInline hh hc h

/-- A request that is taken off is taken off whatever follows. -/
theorem parseRequest_append {input : Bytes} {args : Args} {c : Nat} (h : parseRequest input = .ok args c)
    (more : Bytes) : parseRequest (input ++ more) = .ok args c := by
  have hreq := parseRequest_of_request (request_of_parseRequest h) (input.drop c ++ more)
  rwa [← List.append_assoc, List.take_append_drop,
    List.length_take_of_le (parseRequest_consumes h).2] at hreq

theorem parseRequest_eq_ok_iff {input : Bytes} {args : Args} {c : Nat} :
    parseRequest input = .ok args c ↔ 0 < c ∧ c ≤ input.length ∧ Request (input.take c) args := by
  constructor
  · intro h
    obtain ⟨hpos, hle⟩ := parseRequest_consumes h
    exact ⟨hpos, hle, request_of_parseRequest h⟩
  · rintro ⟨-, hle, hreq⟩
    have h := parseRequest_of_request hreq (input.drop c)
    rwa [List.take_append_drop, List.length_take_of_le hle] at h

/-! ## The fields of a result -/

/-- `ParseStatus` -/
inductive ParseStatus where
  | ok | incomplete | error
deriving DecidableEq

/-- The fields of a `ParseResult`, as `parse_request`, `incomplete` and `protocol_error` fill
them. -/
structure ParseFields where
  status : ParseStatus := .incomplete
  consumed : Nat := 0
  args : Args := []
  error : Bytes := []

/-- The fields that a result has in the source. -/
def parseFields : ParseResult → ParseFields
  | .ok args consumed => { status := .ok, consumed, args }
  | .incomplete => {}
  | .error error => { status := .error, error }

/-- `parse_request` accepts exactly the requests: it returns arguments and a number of consumed
bytes where these bytes are a request of these arguments. Otherwise it consumes nothing and
returns no arguments. A request that it accepts it accepts whatever follows. -/
theorem parse_request_grammar (input : Bytes) :
    (∀ args c, (parseFields (parseRequest input)).status = .ok ∧
        (parseFields (parseRequest input)).args = args ∧
        (parseFields (parseRequest input)).consumed = c ↔
      0 < c ∧ c ≤ input.length ∧ Request (input.take c) args) ∧
    ((parseFields (parseRequest input)).status ≠ .ok →
      (parseFields (parseRequest input)).consumed = 0 ∧ (parseFields (parseRequest input)).args = []) ∧
    ∀ more, (parseFields (parseRequest input)).status = .ok →
      parseFields (parseRequest (input ++ more)) = parseFields (parseRequest input) := by
  refine ⟨fun args c => ?_, ?_, fun more => ?_⟩
  · rw [← parseRequest_eq_ok_iff]
    cases parseRequest input with
    | ok args' c' => simp [parseFields]
    | incomplete => simp [parseFields]
    | error e => simp [parseFields]
  · cases parseRequest input with
    | ok args' c' => exact fun h => absurd rfl h
    | incomplete => exact fun _ => ⟨rfl, rfl⟩
    | error e => exact fun _ => ⟨rfl, rfl⟩
  · cases h : parseRequest input with
    | ok args' c' => exact fun _ => by rw [parseRequest_append h]
    | incomplete => exact fun hs => absurd hs (by decide)
    | error e => exact fun hs => absurd hs (by simp [parseFields])

end RP
