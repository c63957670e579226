import RedisPlus.Resp.Chunks
import RedisPlus.Resp.Grammar

/-!
# Replies, and commands as requests

The reply encodings of `rp::reply`, and `Aof::encode`, the RESP array that the AOF and the
replication stream hold for a command. `parse_request` reads a command within its limits
back from its encoding, whatever follows (`parseRequest_encode`), and a proper prefix of an
encoding asks for more, so the encodings are a code (`commandCode`). A stream of them is parsed
back one at a time (`parse_stream`).
-/

namespace RP

open Framework (find2 Outcome Stable Code)

namespace Reply

/-- `reply::simple` -/
def simple (s : Bytes) : Bytes := str "+" ++ s ++ crlf

/-- `reply::error` -/
def error (s : Bytes) : Bytes := str "-" ++ s ++ crlf

/-- `reply::integer` -/
def integer (v : Int) : Bytes := str ":" ++ intToString v ++ crlf

/-- `reply::bulk` -/
def bulk (s : Bytes) : Bytes := str "$" ++ natToString s.length ++ crlf ++ s ++ crlf

/-- `reply::null_bulk` -/
def nullBulk : Bytes := str "$-1\r\n"

/-- `reply::array_header` -/
def arrayHeader (n : Nat) : Bytes := str "*" ++ natToString n ++ crlf

/-- `reply::empty_array` -/
def emptyArray : Bytes := str "*0\r\n"

/-- `reply::ok` -/
def ok : Bytes := str "+OK\r\n"

/-- `reply::wrong_arity` -/
def wrongArity (command : Bytes) : Bytes :=
  error (str "ERR wrong number of arguments for '" ++ command ++ str "' command")

end Reply

/-- `Aof::encode` -/
def encode (args : Args) : Bytes := Reply.arrayHeader args.length ++ args.flatMap Reply.bulk

/-- The parser's limits on a command. -/
structure Within (args : Args) : Prop where
  count : args.length ≤ kMaxMultibulkLength
  size : ∀ a ∈ args, a.length ≤ kMaxBulkLength

instance (args : Args) : Decidable (Within args) :=
  decidable_of_iff (args.length ≤ kMaxMultibulkLength ∧ ∀ a ∈ args, a.length ≤ kMaxBulkLength)
    ⟨fun h => ⟨h.1, h.2⟩, fun h => ⟨h.count, h.size⟩⟩

/-! ## What the parser returns is within its limits -/

theorem length_words_le : ∀ (cs cur : Bytes), (words cur cs).length ≤ cs.length + 1
  | [], cur => by
    rw [words]
    split <;> simp
  | c :: cs, cur => by
    have h := length_words_le cs []
    rw [words, List.length_cons]
    split
    · split
      · omega
      · rw [List.length_cons]
        omega
    · exact Nat.le_succ_of_le (length_words_le cs _)

theorem length_le_of_mem_words {a : Bytes} : ∀ {cs cur : Bytes}, a ∈ words cur cs →
    a.length ≤ cur.length + cs.length
  | [], cur, h => by
    rw [words] at h
    split at h
    · cases h
    · rw [List.mem_singleton.mp h]
      exact Nat.le_refl _
  | c :: cs, cur, h => by
    rw [words] at h
    rw [List.length_cons]
    split at h
    · split at h
      · have := length_le_of_mem_words h
        rw [List.length_nil] at this
        omega
      · rcases List.mem_cons.mp h with rfl | h
        · omega
        · have := length_le_of_mem_words h
          rw [List.length_nil] at this
          omega
    · have := length_le_of_mem_words h
      rw [List.length_append, List.length_singleton] at this
      omega

theorem BulkStrings.length_le {bs : Bytes} {args : Args} (h : BulkStrings bs args) :
    ∀ a ∈ args, a.length ≤ kMaxBulkLength := by
  induction h with
  | nil => exact fun a ha => absurd ha List.not_mem_nil
  | cons h _ ih =>
    cases h with
    | mk _ hmax => exact List.forall_mem_cons.mpr ⟨hmax, ih⟩

theorem Request.within {req : Bytes} {args : Args} (h : Request req args) : Within args := by
  cases h with
  | empty => exact ⟨Nat.zero_le _, fun a ha => absurd ha List.not_mem_nil⟩
  | array _ _ hmax hbs => exact ⟨hmax, hbs.length_le⟩
  | @inline line _ _ hmax =>
    rw [← words_eq_runs]
    have hcount := length_words_le line []
    refine ⟨?_, fun a ha => ?_⟩
    · simp only [kMaxMultibulkLength, kMaxInlineLength] at hmax ⊢
      omega
    · have := length_le_of_mem_words ha
      simp only [kMaxBulkLength, kMaxInlineLength, List.length_nil] at hmax this ⊢
      omega

/-! ## Commands as requests -/

theorem findCrlf_natToString {c : UInt8} (hc : c ≠ 13) (n : Nat) (t : Bytes) :
    findCrlf (c :: natToString n ++ 13 :: 10 :: t) = some ((natToString n).length + 1) :=
  findCrlf_numeral hc (Framework.numeral_decimal n) t

theorem bulk_eq (a t : Bytes) : Reply.bulk a ++ t =
    36 :: natToString a.length ++ 13 :: 10 :: (a ++ 13 :: 10 :: t) := by
  simp [Reply.bulk, crlf, show str "$" = [36] by decide]

theorem arrayHeader_eq (n : Nat) (t : Bytes) : Reply.arrayHeader n ++ t =
    42 :: natToString n ++ 13 :: 10 :: t := by
  simp [Reply.arrayHeader, crlf, show str "*" = [42] by decide]

theorem length_arrayHeader (n : Nat) :
    (Reply.arrayHeader n).length = (natToString n).length + 3 := by
  simp only [Reply.arrayHeader, List.length_append, show (str "*").length = 1 by decide,
    show crlf.length = 2 from rfl]
  omega

theorem length_encode_pos (args : Args) : 0 < (encode args).length := by
  rw [encode, List.length_append, length_arrayHeader]
  omega

/-! ## Reading an encoding back -/

theorem bulkString_bulk {a : Bytes} (ha : a.length ≤ kMaxBulkLength) : BulkString (Reply.bulk a) a :=
  .mk (Framework.numeral_decimal a.length) ha

theorem parseBulk_bulk {a : Bytes} (t : Bytes) (ha : a.length ≤ kMaxBulkLength) :
    parseBulk (Reply.bulk a ++ t) = .ok a (Reply.bulk a).length :=
  parseBulk_of_bulkString (bulkString_bulk ha) t

theorem bulkStrings_flatMap : ∀ {as : Args}, (∀ a ∈ as, a.length ≤ kMaxBulkLength) →
    BulkStrings (as.flatMap Reply.bulk) as
  | [], _ => .nil
  | a :: as, h => by
    rw [List.flatMap_cons]
    exact .cons (bulkString_bulk (h a List.mem_cons_self))
      (bulkStrings_flatMap fun b hb => h b (List.mem_cons_of_mem _ hb))

/-- The encoding of a command within the limits is a request of its arguments. -/
theorem request_encode {args : Args} (h : Within args) : Request (encode args) args := by
  cases args with
  | nil => exact .empty (Framework.numeral_decimal 0) (by decide) (by decide)
  | cons a as =>
    exact .array (Framework.numeral_decimal _) (by simp) h.count (bulkStrings_flatMap h.size)

/-- A command within the limits is read back from its encoding, whatever follows. -/
theorem parseRequest_encode {args : Args} (t : Bytes) (h : Within args) :
    parseRequest (encode args ++ t) = .ok args (encode args).length :=
  parseRequest_of_request (request_encode h) t

/-! ## Encodings have short lines -/

theorem length_count_line {n : Nat} (h : n ≤ kMaxBulkLength) : (natToString n).length ≤ 9 := by
  refine Framework.length_decimal_le (by decide) ?_
  simp only [kMaxBulkLength] at h
  omega

theorem shortLine_natToString {c : UInt8} (hc : c ≠ 13) {n : Nat} (h : n ≤ kMaxBulkLength) (t : Bytes) :
    ShortLine kMaxCountLine (c :: natToString n ++ 13 :: 10 :: t) := by
  intro e he
  rw [findCrlf_natToString hc] at he
  have := length_count_line h
  simp only [Option.some.injEq] at he
  simp only [kMaxCountLine]
  omega

theorem shortBulks_bulks : ∀ (as : Args), (∀ a ∈ as, a.length ≤ kMaxBulkLength) →
    ShortBulks as.length (as.flatMap Reply.bulk)
  | [], _ => trivial
  | a :: as, h => by
    have ha := h a List.mem_cons_self
    rw [List.flatMap_cons]
    refine ⟨?_, fun b k hb => ?_⟩
    · rw [bulk_eq]
      exact shortLine_natToString (by decide) ha _
    · rw [parseBulk_bulk _ ha] at hb
      cases hb
      rw [List.drop_left]
      exact shortBulks_bulks as fun b hb => h b (List.mem_cons_of_mem _ hb)

theorem shortRequest_encode {args : Args} (h : Within args) : ShortRequest (encode args) := by
  have hcount := h.count
  have hbulk : args.length ≤ kMaxBulkLength := by
    simp only [kMaxMultibulkLength, kMaxBulkLength] at hcount ⊢; omega
  have hmax : args.length ≤ int64Max := by simp only [kMaxMultibulkLength, int64Max] at hcount ⊢; omega
  rw [encode, arrayHeader_eq]
  rw [ShortRequest, if_pos (by rfl)]
  refine ⟨shortLine_natToString (by decide) hbulk _, fun e argc he ha => ?_⟩
  rw [findCrlf_natToString (by decide)] at he
  cases he
  rw [take_line, parseInt_natToString hmax] at ha
  cases ha
  rw [drop_line, Int.toNat_natCast]
  exact shortBulks_bulks args h.size

/-- An encoding without its end asks for more. -/
theorem parseRequest_of_torn {args : Args} (h : Within args) {p q : Bytes} (he : encode args = p ++ q)
    (hq : q ≠ []) : parseRequest p = .incomplete := by
  have hs := parseRequest_stable (shortRequest_encode h) p q he
  have hp := parseRequest_encode [] h
  rw [List.append_nil] at hp
  have hlen := congrArg List.length he
  have := List.length_pos_iff.mpr hq
  rw [List.length_append] at hlen
  rw [requestParser_parse, hp, Outcome.cut_ok, if_neg (by omega)] at hs
  exact hs

/-- Commands within the limits, encoded one after the other, are a code for `parse_request`. -/
def commandCode : Code requestParser where
  enc := encode
  ok := Within
  parse_nil := rfl
  parse_enc t h := parseRequest_encode t h
  parse_torn h he hq := parseRequest_of_torn h he hq

@[simp] theorem commandCode_enc : commandCode.enc = encode := rfl

/-- Commands, encoded one after the other. -/
def encs (cmds : List Args) : Bytes := commandCode.encs cmds

theorem encs_cons (cmd : Args) (cmds : List Args) : encs (cmd :: cmds) = encode cmd ++ encs cmds :=
  commandCode.encs_cons cmd cmds

theorem encs_append (cmds cmds' : List Args) : encs (cmds ++ cmds') = encs cmds ++ encs cmds' :=
  commandCode.encs_append cmds cmds'

theorem encs_singleton (cmd : Args) : encs [cmd] = encode cmd := by
  rw [encs_cons]; exact List.append_nil _

/-! ## Streams of commands -/

/-- `parse_request`, `n` times, each time on what the last one left: the arguments and the number
of bytes consumed each time, and what is left in the end. -/
def parseRequests : Nat → Bytes → Option (List (Args × Nat) × Bytes)
  | 0, s => some ([], s)
  | n + 1, s =>
    match parseRequest s with
    | .ok args k => (parseRequests n (s.drop k)).map fun r => ((args, k) :: r.1, r.2)
    | _ => none

/-- A stream of encoded commands is parsed back into them, one at a time, whatever follows. -/
theorem parse_stream {cmds : List Args} (h : ∀ cmd ∈ cmds, Within cmd) (t : Bytes) :
    parseRequests cmds.length (encs cmds ++ t) =
      some (cmds.map fun cmd => (cmd, (encode cmd).length), t) := by
  induction cmds with
  | nil => rfl
  | cons cmd cmds ih =>
    have hcmd := parseRequest_encode (encs cmds ++ t) (h cmd List.mem_cons_self)
    rw [encs_cons, List.append_assoc, List.length_cons, parseRequests, hcmd]
    simp only [List.drop_left]
    rw [ih fun cmd' h' => h cmd' (List.mem_cons_of_mem _ h')]
    rfl

/-- Arguments that look like the protocol. -/
def binaryCommands : List Args := [[str "SET", str "*1\r\n", [0, 13, 10]], [str "DEL", []]]

theorem parse_stream_binary :
    parseRequests 2 (encs binaryCommands ++ str "QUIT\r\n") =
      some ([([str "SET", str "*1\r\n", [0, 13, 10]], 32), ([str "DEL", []], 19)], str "QUIT\r\n") := by
  have h := parse_stream (show ∀ cmd ∈ binaryCommands, Within cmd by decide) (str "QUIT\r\n")
  exact h.trans (by decide)

end RP
