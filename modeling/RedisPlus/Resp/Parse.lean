import RedisPlus.Bytes
import RedisPlus.Framework.Delimiter
import RedisPlus.Framework.Incremental

/-!
# RESP requests

`parse_request` takes one request off the front of a byte string: an inline line
(`parseInline`) or a multibulk array (`parseBulks`, of `parseBulk`s). It consumes at least
one byte, and none that is not there (`parseRequest_consumes`), so it is an incremental
parser (`requestParser`).
-/

namespace RP

open Framework (find2 Outcome Parser)

/-- `ParseResult`: `kOk` with `args` and `consumed`, `kIncomplete`, or `kError` with `error`. -/
abbrev ParseResult := Outcome Args Bytes

/-- The highest number of arguments. -/
def kMaxMultibulkLength : Nat := 1024 * 1024

/-- The longest argument. -/
def kMaxBulkLength : Nat := 512 * 1024 * 1024

/-- The longest line. -/
def kMaxInlineLength : Nat := 64 * 1024

/-- The longest unfinished `*<count>` or `$<length>` line that is not refused. -/
def kMaxCountLine : Nat := 64

/-- The error for an inline request that is too long. -/
def tooBigInline : Bytes := str "ERR Protocol error: too big inline request"

/-- The error for a number of arguments whose line is too long. -/
def tooBigMbulkCount : Bytes := str "ERR Protocol error: too big mbulk count string"

/-- The error for a number of arguments that is none, or too high. -/
def invalidMultibulk : Bytes := str "ERR Protocol error: invalid multibulk length"

/-- The error for a length whose line is too long. -/
def tooBigBulkCount : Bytes := str "ERR Protocol error: too big bulk count string"

/-- The error for a length that is none, negative, or too high. -/
def invalidBulk : Bytes := str "ERR Protocol error: invalid bulk length"

/-- The error for an argument that does not end after its length. -/
def unbalancedBulk : Bytes := str "ERR Protocol error: unbalanced bulk payload"

/-- The message for a byte other than `'$'` where a bulk string should start. -/
def expectedDollar (c : UInt8) : Bytes := str "ERR Protocol error: expected '$', got '" ++ [c] ++ str "'"

/-- `in.find(kCrlf)` -/
abbrev findCrlf (input : Bytes) : Option Nat := find2 13 10 input

/-- The words of a line, of which `cur` is the one being read. -/
def words : Bytes → Bytes → Args
  | cur, [] => if cur = [] then [] else [cur]
  | cur, c :: cs =>
    if isspace c then if cur = [] then words [] cs else cur :: words [] cs
    else words (cur ++ [c]) cs

/-- `parse_inline` -/
def parseInline (input : Bytes) : ParseResult :=
  match findCrlf input with
  | none => if input.length > kMaxInlineLength then .error tooBigInline else .incomplete
  | some eol =>
    if eol > kMaxInlineLength then .error tooBigInline
    else .ok (words [] (input.take eol)) (eol + 2)

/-- A bulk string whose length line ends at `lenEnd`. -/
def parseBulkBody (rest : Bytes) (lenEnd : Nat) : Outcome Bytes Bytes :=
  match parseInt ((rest.take lenEnd).drop 1) with
  | none => .error invalidBulk
  | some len =>
    if len < 0 ∨ len > kMaxBulkLength then .error invalidBulk
    else if rest.length < lenEnd + 2 + len.toNat + 2 then .incomplete
    else if (rest.drop (lenEnd + 2 + len.toNat)).take 2 ≠ crlf then .error unbalancedBulk
    else .ok ((rest.drop (lenEnd + 2)).take len.toNat) (lenEnd + 2 + len.toNat + 2)

/-- One `$<length>\r\n<body>\r\n` off the front of what is left of the input: the body of the
loop of `parse_request`. -/
def parseBulk (rest : Bytes) : Outcome Bytes Bytes :=
  match rest with
  | [] => .incomplete
  | c :: _ =>
    if c ≠ 36 then .error (expectedDollar c)
    else match findCrlf rest with
      | none => if rest.length > kMaxCountLine then .error tooBigBulkCount else .incomplete
      | some lenEnd => parseBulkBody rest lenEnd

/-- The loop of `parse_request`: `n` more bulk strings, from position `pos`. -/
def parseBulks : Nat → Nat → Bytes → Args → ParseResult
  | 0, pos, _, args => .ok args pos
  | n + 1, pos, rest, args =>
    match parseBulk rest with
    | .ok arg k => parseBulks n (pos + k) (rest.drop k) (args ++ [arg])
    | .incomplete => .incomplete
    | .error e => .error e

/-- A multibulk array whose count line ends at `headerEnd`. -/
def parseArray (input : Bytes) (headerEnd : Nat) : ParseResult :=
  match parseInt ((input.take headerEnd).drop 1) with
  | none => .error invalidMultibulk
  | some argc =>
    if argc > kMaxMultibulkLength then .error invalidMultibulk
    else if argc ≤ 0 then .ok [] (headerEnd + 2)
    else parseBulks argc.toNat (headerEnd + 2) (input.drop (headerEnd + 2)) []

/-- `parse_request` -/
def parseRequest (input : Bytes) : ParseResult :=
  match input with
  | [] => .incomplete
  | c :: _ =>
    if c ≠ 42 then parseInline input
    else match findCrlf input with
      | none => if input.length > kMaxCountLine then .error tooBigMbulkCount else .incomplete
      | some headerEnd => parseArray input headerEnd

/-! ## Lines with and without their CRLF -/

theorem parseBulk_of_none {rest : Bytes} (hh : rest.head? = some 36) (hf : findCrlf rest = none) :
    parseBulk rest =
      if rest.length > kMaxCountLine then .error tooBigBulkCount else .incomplete := by
  obtain ⟨cs, rfl⟩ := List.head?_eq_some_iff.mp hh
  simp only [parseBulk, hf]; rfl

theorem parseBulk_of_some {rest : Bytes} {e : Nat} (hh : rest.head? = some 36)
    (hf : findCrlf rest = some e) : parseBulk rest = parseBulkBody rest e := by
  obtain ⟨cs, rfl⟩ := List.head?_eq_some_iff.mp hh
  simp only [parseBulk, hf]; rfl

/-- A bulk string starts with `'$'`. -/
theorem parseBulk_of_head {rest : Bytes} {c : UInt8} (hh : rest.head? = some c) (hc : c ≠ 36) :
    parseBulk rest = .error (expectedDollar c) := by
  obtain ⟨cs, rfl⟩ := List.head?_eq_some_iff.mp hh
  simp only [parseBulk, if_pos hc]

theorem parseRequest_of_none {input : Bytes} (hh : input.head? = some 42)
    (hf : findCrlf input = none) :
    parseRequest input =
      if input.length > kMaxCountLine then .error tooBigMbulkCount else .incomplete := by
  obtain ⟨cs, rfl⟩ := List.head?_eq_some_iff.mp hh
  simp only [parseRequest, hf]; rfl

theorem parseRequest_of_some {input : Bytes} {e : Nat} (hh : input.head? = some 42)
    (hf : findCrlf input = some e) : parseRequest input = parseArray input e := by
  obtain ⟨cs, rfl⟩ := List.head?_eq_some_iff.mp hh
  simp only [parseRequest, hf]; rfl

theorem parseRequest_of_head {input : Bytes} {c : UInt8} (hh : input.head? = some c)
    (hc : c ≠ 42) : parseRequest input = parseInline input := by
  obtain ⟨cs, rfl⟩ := List.head?_eq_some_iff.mp hh
  simp only [parseRequest, if_pos hc]

/-! ## What is consumed -/

/-- What a complete bulk string with its length line ending at `e` is. -/
theorem parseBulkBody_eq_ok {rest a : Bytes} {e k : Nat} (h : parseBulkBody rest e = .ok a k) :
    ∃ len : Nat, parseInt ((rest.take e).drop 1) = some (len : Int) ∧ len ≤ kMaxBulkLength ∧
      k = e + 2 + len + 2 ∧ k ≤ rest.length ∧ a = (rest.drop (e + 2)).take len ∧
      (rest.drop (e + 2 + len)).take 2 = crlf := by
  unfold parseBulkBody at h
  split at h
  · cases h
  · rename_i len hlen
    split at h
    · cases h
    · rename_i hr
      split at h
      · cases h
      · split at h
        · cases h
        · rename_i hneed hcr
          cases h
          rw [not_or] at hr
          refine ⟨len.toNat, ?_, by omega, rfl, by omega, rfl, by simpa using hcr⟩
          rw [hlen, Int.toNat_of_nonneg (by omega)]

theorem parseBulk_eq_ok {rest a : Bytes} {k : Nat} (h : parseBulk rest = .ok a k) :
    ∃ e, rest.head? = some 36 ∧ findCrlf rest = some e ∧ parseBulkBody rest e = .ok a k := by
  cases rest with
  | nil => cases h
  | cons c cs =>
    by_cases hc : c = 36
    · subst hc
      cases hf : findCrlf (36 :: cs) with
      | none =>
        rw [parseBulk_of_none rfl hf] at h
        split at h <;> cases h
      | some e => exact ⟨e, rfl, rfl, (parseBulk_of_some rfl hf).symm.trans h⟩
    · rw [parseBulk_of_head rfl hc] at h; cases h

theorem parseBulk_consumes {rest a : Bytes} {k : Nat} (h : parseBulk rest = .ok a k) :
    0 < k ∧ k ≤ rest.length := by
  obtain ⟨e, -, -, hb⟩ := parseBulk_eq_ok h
  obtain ⟨len, -, -, hk, hle, -⟩ := parseBulkBody_eq_ok hb
  omega

theorem parseBulks_consumes : ∀ {n pos : Nat} {rest : Bytes} {args as : Args} {m : Nat},
    parseBulks n pos rest args = .ok as m → pos ≤ m ∧ m ≤ pos + rest.length
  | 0, pos, rest, args, as, m, h => by
    cases h; omega
  | n + 1, pos, rest, args, as, m, h => by
    simp only [parseBulks] at h
    split at h
    · rename_i a k hb
      obtain ⟨hk, hle⟩ := parseBulk_consumes hb
      have := parseBulks_consumes h
      rw [List.length_drop] at this
      omega
    · cases h
    · cases h

theorem parseInline_consumes {input : Bytes} {as : Args} {m : Nat}
    (h : parseInline input = .ok as m) : 0 < m ∧ m ≤ input.length := by
  unfold parseInline at h
  split at h
  · split at h <;> cases h
  · rename_i e he
    have := (Framework.find2_eq_some he).2
    split at h
    · cases h
    · cases h; omega

theorem parseArray_consumes {input : Bytes} {e : Nat} {as : Args} {m : Nat}
    (he : e + 2 ≤ input.length) (h : parseArray input e = .ok as m) :
    e + 2 ≤ m ∧ m ≤ input.length := by
  unfold parseArray at h
  split at h
  · cases h
  · split at h
    · cases h
    · split at h
      · cases h; omega
      · have := parseBulks_consumes h
        rw [List.length_drop] at this
        omega

/-- A request is at least one byte, and within the input. -/
theorem parseRequest_consumes {input : Bytes} {as : Args} {m : Nat}
    (h : parseRequest input = .ok as m) : 0 < m ∧ m ≤ input.length := by
  cases input with
  | nil => cases h
  | cons c cs =>
    by_cases hc : c = 42
    · subst hc
      cases hf : findCrlf (42 :: cs) with
      | none =>
        rw [parseRequest_of_none rfl hf] at h
        split at h <;> cases h
      | some e =>
        rw [parseRequest_of_some rfl hf] at h
        have := parseArray_consumes (Framework.find2_eq_some hf).2 h
        omega
    · rw [parseRequest_of_head rfl hc] at h
      exact parseInline_consumes h

/-- `parse_request` as an incremental parser. -/
def requestParser : Parser UInt8 Args Bytes := ⟨parseRequest, parseRequest_consumes⟩

@[simp] theorem requestParser_parse (input : Bytes) :
    requestParser.parse input = parseRequest input := rfl

end RP
