import Mathlib.Data.List.TakeWhile
import RedisPlus.Rdb.Format
import RedisPlus.Replication.Basic

/-!
# Replication, on the replica's side

The replica's thread reads its master's bytes from a blocking socket: the replies of the
handshake, the `+FULLRESYNC` line, the length line and the snapshot, and then the commands, one
after the other. What it has read and not used stays in its buffer, so that the stream's first
bytes, which may come with the snapshot's last ones, are not lost. It changes the store and
applies commands by posting tasks to the event loop.

`act` is what the thread does next with what it has read, if that is enough. The numbers in the
lines are read by `strtoll` and `strtoull`, which read back what `std::to_string` writes
(`strtoll_intToString`, `strtoull_natToString`).
-/

namespace RP

open Framework (digitsVal isDigit)

/-! ## Numbers -/

/-- The number that `s` starts with, after white space: is there a minus sign, and the
magnitude. -/
def leadingNumber (s : Bytes) : Bool × Nat :=
  match s.dropWhile isspace with
  | [] => (false, 0)
  | c :: s =>
    if c = 45 then (true, digitsVal 0 (s.takeWhile isDigit))
    else if c = 43 then (false, digitsVal 0 (s.takeWhile isDigit))
    else (false, digitsVal 0 ((c :: s).takeWhile isDigit))

/-- `std::strtoll` in base 10. -/
def strtoll (s : Bytes) : Int64 :=
  match leadingNumber s with
  | (true, v) => if int64Max + 1 < v then Int64.minValue else Int64.ofInt (-(v : Int))
  | (false, v) => if int64Max < v then Int64.maxValue else Int64.ofInt v

/-- `std::strtoull` in base 10. -/
def strtoull (s : Bytes) : Nat :=
  match leadingNumber s with
  | (negative, v) => if 2 ^ 64 ≤ v then 2 ^ 64 - 1 else if negative then (2 ^ 64 - v) % 2 ^ 64 else v

theorem isspace_of_isDigit {c : UInt8} (h : isDigit c = true) : isspace c = false := by
  simp only [isDigit, Bool.and_eq_true, decide_eq_true_eq, UInt8.le_iff_toNat_le] at h
  have h48 : (48 : UInt8).toNat = 48 := rfl
  have h13 : (13 : UInt8).toNat = 13 := rfl
  have h32 : c ≠ 32 := by rintro rfl; exact absurd h.1 (by decide)
  simp only [isspace, Bool.or_eq_false_iff, beq_eq_false_iff_ne, Bool.and_eq_false_iff,
    decide_eq_false_iff_not, UInt8.le_iff_toNat_le]
  exact ⟨h32, .inr (by omega)⟩

theorem leadingNumber_natToString (n : Nat) : leadingNumber (natToString n) = (false, n) := by
  have hdigits : ∀ c ∈ natToString n, isDigit c = true := Framework.decimal_isDigit n
  have htake : (natToString n).takeWhile isDigit = natToString n :=
    List.takeWhile_eq_self_iff.mpr hdigits
  have hval : digitsVal 0 (natToString n) = n := Framework.digitsVal_decimal n
  cases hn : natToString n with
  | nil => exact absurd hn (Framework.decimal_ne_nil n)
  | cons c s =>
    rw [hn] at hdigits htake hval
    have hc := hdigits c List.mem_cons_self
    have hspace : isspace c = false := isspace_of_isDigit hc
    have h45 : c ≠ 45 := by rintro rfl; exact absurd hc (by decide)
    have h43 : c ≠ 43 := by rintro rfl; exact absurd hc (by decide)
    rw [leadingNumber, List.dropWhile_cons_of_neg (by simp [hspace])]
    dsimp only
    rw [if_neg h45, if_neg h43, htake, hval]

theorem strtoull_natToString {n : Nat} (h : n < 2 ^ 64) : strtoull (natToString n) = n := by
  rw [strtoull, leadingNumber_natToString]
  dsimp only
  rw [if_neg (by omega)]
  rfl

theorem leadingNumber_intToString (i : Int) :
    leadingNumber (intToString i) = (decide (i < 0), i.natAbs) := by
  by_cases hi : i < 0
  · rw [intToString, Framework.signed, if_pos hi, leadingNumber,
      List.dropWhile_cons_of_neg (by decide)]
    dsimp only
    rw [if_pos rfl, List.takeWhile_eq_self_iff.mpr (Framework.decimal_isDigit _),
      Framework.digitsVal_decimal, decide_eq_true hi]
  · rw [intToString, Framework.signed, if_neg hi, decide_eq_false hi]
    exact leadingNumber_natToString _

theorem strtoll_intToString (d : Int64) : strtoll (intToString d.toInt) = d := by
  have hlt := d.toInt_lt
  have hle := d.le_toInt
  rw [strtoll, leadingNumber_intToString]
  by_cases hd : d.toInt < 0
  · rw [decide_eq_true hd]
    dsimp only
    rw [if_neg (by simp only [int64Max]; omega), show -(d.toInt.natAbs : Int) = d.toInt by omega]
    exact Int64.ofInt_toInt d
  · rw [decide_eq_false hd]
    dsimp only
    rw [if_neg (by simp only [int64Max]; omega), show (d.toInt.natAbs : Int) = d.toInt by omega]
    exact Int64.ofInt_toInt d

/-- What follows the last space of a line. -/
def afterLastSpace (line : Bytes) : Option Bytes :=
  if 32 ∈ line then some (line.reverse.takeWhile (· ≠ 32)).reverse else none

theorem afterLastSpace_append {a b : Bytes} (h : 32 ∉ b) : afterLastSpace (a ++ 32 :: b) = some b := by
  have htake : (a ++ 32 :: b).reverse.takeWhile (· ≠ 32) = b.reverse := by
    rw [List.reverse_append, List.reverse_cons, List.append_assoc,
      List.takeWhile_append_of_pos (by intro c hc; simp; rintro rfl; exact h (by simpa using hc))]
    simp
  rw [afterLastSpace, if_pos (by simp), htake, List.reverse_reverse]

/-! ## The thread -/

/-- `SyncReader::read_line`, none if the line has not been read yet. -/
def readLine (buffer : Bytes) : Option (Bytes × Bytes) :=
  (findCrlf buffer).map fun eol => (buffer.take eol, buffer.drop (eol + 2))

/-- A line that is the next thing to come: either it has not been read whole, or it is read,
and what is left then comes next. -/
theorem readLine_of_line {line buffer flight rest : Bytes} (hl : 13 ∉ line)
    (he : buffer ++ flight = line ++ (crlf ++ rest)) :
    readLine buffer = none ∨
      ∃ buffer', readLine buffer = some (line, buffer') ∧ buffer' ++ flight = rest := by
  cases hf : findCrlf buffer with
  | none => exact .inl (by rw [readLine, hf]; rfl)
  | some eol =>
    obtain ⟨-, hle⟩ := Framework.find2_eq_some hf
    have hwhole : findCrlf (line ++ (crlf ++ rest)) = some line.length :=
      Framework.find2_of_not_mem rest hl
    have happ : findCrlf (buffer ++ flight) = some eol := Framework.find2_append flight hf
    rw [he, hwhole] at happ
    cases happ
    refine .inr ⟨buffer.drop (line.length + 2), ?_, ?_⟩
    · rw [readLine, hf, Option.map_some]
      have htake : (buffer ++ flight).take line.length = buffer.take line.length :=
        List.take_append_of_le_length (by omega)
      rw [← htake, he, List.take_left]
    · rw [← List.drop_append_of_le_length (by omega), he, ← List.drop_drop, List.drop_left]
      rfl

theorem mem_intToString {c : UInt8} {i : Int} (h : c ∈ intToString i) : isDigit c = true ∨ c = 45 := by
  rw [intToString, Framework.signed] at h
  split at h
  · rcases List.mem_cons.mp h with rfl | h
    · exact .inr rfl
    · exact .inl (Framework.decimal_isDigit _ c h)
  · exact .inl (Framework.decimal_isDigit _ c h)

/-- What the thread waits for. -/
inductive Phase where
  | pong
  | portOk
  | capaOk
  | fullresync
  | rdbHeader (offset : Int64)
  | rdbPayload (offset : Int64) (len : Nat)
  | streaming
  /-- In `rdb_parse`, which does not return. -/
  | hung
  /-- An error, after which the thread connects anew. -/
  | failed
deriving DecidableEq

/-- A task for the event loop. -/
inductive Task where
  /-- Replace the keyspace. -/
  | reload (records : List Record)
  | apply (args : Args)
deriving DecidableEq

/-- Where `replica_thread` is on one connection. -/
structure ReplicaThread where
  phase : Phase := .pong
  /-- The buffer of `SyncReader`, then `stream`. -/
  buffer : Bytes := []
  linkState : LinkState := .handshaking
  /-- `replica_offset_` -/
  offset : Int64 := 0
  linkError : Bytes := []
  /-- What `rdb_parse` was called on. -/
  rdb : Option Bytes := none
  posted : List Task := []

/-- The first command of the handshake. -/
def pingCommand : Args := [str "PING"]

/-- The second, which tells the replica's own port. -/
def portCommand (listeningPort : UInt16) : Args :=
  [str "REPLCONF", str "listening-port", natToString listeningPort.toNat]

/-- The third. -/
def capaCommand : Args := [str "REPLCONF", str "capa", str "psync2"]

/-- The last, which asks for a full resynchronisation. -/
def psyncCommand : Args := [str "PSYNC", str "?", str "-1"]

/-- What the replica sends about once a second. -/
def ackCommand (offset : Int64) : Args := [str "REPLCONF", str "ACK", intToString offset.toInt]

/-- Does the replica apply this command? It answers REPLCONF itself, and PING is a keepalive. -/
def handedOn : Args → Bool
  | [] => false
  | name :: rest => !(upper name == str "REPLCONF" && !rest.isEmpty) && upper name != str "PING"

namespace ReplicaThread

/-- The attempt is over. -/
def fail (error : Bytes) (T : ReplicaThread) : ReplicaThread :=
  { T with phase := .failed, linkError := error }

/-- A step of the handshake: the line is to start with `expected`, and then the next step's
command is sent. -/
def expect (expected error : Bytes) (next : Phase) (command : Args) (T : ReplicaThread) :
    ReplicaThread × List Args :=
  match readLine T.buffer with
  | none => (T, [])
  | some (line, rest) =>
    if expected.isPrefixOf line then ({ T with buffer := rest, phase := next }, [command])
    else ({ T with buffer := rest }.fail error, [])

/-- The answer to PSYNC, with the id and the offset. -/
def onFullresync (T : ReplicaThread) : ReplicaThread :=
  match readLine T.buffer with
  | none => T
  | some (line, rest) =>
    if (str "+FULLRESYNC").isPrefixOf line then
      { T with
        buffer := rest
        phase := .rdbHeader (((afterLastSpace line).map strtoll).getD 0)
        linkState := .syncing }
    else { T with buffer := rest }.fail (str "master refused PSYNC")

/-- The line with the length of the snapshot. -/
def onRdbHeader (offset : Int64) (T : ReplicaThread) : ReplicaThread :=
  match readLine T.buffer with
  | none => T
  | some (line, rest) =>
    if line.head? = some 36 then
      { T with buffer := rest, phase := .rdbPayload offset (strtoull line.tail) }
    else { T with buffer := rest }.fail (str "bad RDB header from master")

/-- A round of `rdb_parse` takes at least a byte, unless it goes on for ever. -/
def onRdbPayload (offset : Int64) (len : Nat) (T : ReplicaThread) : ReplicaThread :=
  if T.buffer.length < len then T
  else
    let payload := T.buffer.take len
    let T := { T with buffer := T.buffer.drop len, rdb := some payload }
    match rdbParse payload.length payload with
    | none => { T with phase := .hung }
    | some ⟨.error e, _⟩ => T.fail (str "corrupt RDB from master: " ++ e)
    | some ⟨.ok _, records⟩ =>
      { T with
        posted := T.posted ++ [.reload records]
        offset := offset
        linkState := .connected
        linkError := []
        phase := .streaming }

/-- The body of the loop over the commands in `stream`. -/
def onStream (T : ReplicaThread) : ReplicaThread × List Args :=
  match parseRequest T.buffer with
  | .ok args n =>
    let T := { T with buffer := T.buffer.drop n, offset := T.offset + Int64.ofNat n }
    match args with
    | [] => (T, [])
    | name :: rest =>
      if upper name = str "REPLCONF" ∧ rest ≠ [] then (T, [ackCommand T.offset])
      else if upper name = str "PING" then (T, [])
      else ({ T with posted := T.posted ++ [.apply args] }, [])
  | _ => (T, [])

/-- The thread's next step on what it has read, with the commands it sends. -/
def act (listeningPort : UInt16) (T : ReplicaThread) : ReplicaThread × List Args :=
  match T.phase with
  | .pong =>
    T.expect (str "+PONG") (str "handshake rejected by master") .portOk (portCommand listeningPort)
  | .portOk => T.expect (str "+OK") (str "handshake rejected by master") .capaOk capaCommand
  | .capaOk => T.expect (str "+OK") (str "handshake rejected by master") .fullresync psyncCommand
  | .fullresync => (T.onFullresync, [])
  | .rdbHeader offset => (T.onRdbHeader offset, [])
  | .rdbPayload offset len => (T.onRdbPayload offset len, [])
  | .streaming => T.onStream
  | .hung => (T, [])
  | .failed => (T, [])

/-- The periodic acknowledgement. -/
def tick (T : ReplicaThread) : List Args :=
  if T.phase = .streaming then [ackCommand T.offset] else []

/-- The commands that were handed to `apply_`. -/
def applied (T : ReplicaThread) : List Args :=
  T.posted.filterMap fun
    | .apply args => some args
    | .reload _ => none

end ReplicaThread

end RP
