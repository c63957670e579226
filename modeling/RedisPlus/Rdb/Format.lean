import RedisPlus.Bytes
import RedisPlus.Store.Basic

/-!
# The RDB snapshot format

`rdbSerialize` writes records with their expiries, an end marker and a CRC64 trailer;
`rdbParse` checks the trailer and then reads opcodes through a `Reader`, which keeps a
position and a flag that a failed read clears.

Positions are `size_t`: `addSize` is modulo `2 ^ 64`. A round of the opcode loop is
`rdbRound`, and `rdbLoop` runs a given number of rounds at most, since nothing in the loop
bounds it.
-/

namespace RP

/-- The first bytes of a snapshot. -/
def kRdbMagic : Bytes := str "REDIS"

/-- The version that is written, and the highest that is read. -/
def kRdbVersion : Bytes := str "0011"

/-- An auxiliary field: two strings. -/
def kOpAux : UInt8 := 0xFA

/-- The sizes of the tables: two lengths. -/
def kOpResizeDb : UInt8 := 0xFB

/-- The next key's deadline in milliseconds. -/
def kOpExpireMs : UInt8 := 0xFC

/-- The next key's deadline in seconds. -/
def kOpExpireSec : UInt8 := 0xFD

/-- The number of the database: a length. -/
def kOpSelectDb : UInt8 := 0xFE

/-- The end marker. -/
def kOpEof : UInt8 := 0xFF

/-- A key with a string value: two strings. -/
def kTypeString : UInt8 := 0x00

/-- The two upper bits of a length of 6 bits. -/
def k6Bit : UInt8 := 0x00

/-- Those of a length of 14 bits, in two bytes. -/
def k14Bit : UInt8 := 0x40

/-- Those of a special encoding. -/
def kEncoded : UInt8 := 0xC0

/-- The byte before a length of four bytes. -/
def k32Bit : UInt8 := 0x80

/-- The byte before a length of eight bytes. -/
def k64Bit : UInt8 := 0x81

/-- A string that is an integer of one byte. -/
def kEncInt8 : UInt8 := 0

/-- A string that is an integer of two bytes. -/
def kEncInt16 : UInt8 := 1

/-- A string that is an integer of four bytes. -/
def kEncInt32 : UInt8 := 2

/-- A compressed string, which is not supported. -/
def kEncLzf : UInt8 := 3

/-! ## CRC64 -/

/-- The polynomial of the checksum. -/
def kPoly : UInt64 := 0xad93d23594c935a9

/-- `reflect`: the lowest `bits` bits in the other order. -/
def reflect (value : UInt64) (bits : Nat) : UInt64 :=
  (List.range bits).foldl (fun out i =>
    if value &&& (1 <<< UInt64.ofNat i) ≠ 0 then out ||| (1 <<< UInt64.ofNat (bits - 1 - i)) else out) 0

/-- Entry `n` of `crc_table`. -/
def crcTable (n : UInt64) : UInt64 :=
  let crc := (List.range 8).foldl (fun (crc : UInt64) _ =>
    if crc &&& 0x8000000000000000 ≠ 0 then (crc <<< 1) ^^^ kPoly else crc <<< 1) (reflect n 8 <<< 56)
  reflect crc 64

/-- `crc64` -/
def crc64 (crc : UInt64) (data : Bytes) : UInt64 :=
  data.foldl (fun crc b => crcTable ((crc ^^^ b.toUInt64) &&& 0xFF) ^^^ (crc >>> 8)) crc

/-! ## Writing -/

/-- `put_u64le` -/
def putU64le (v : Nat) : Bytes := (List.range 8).map fun i => UInt8.ofNat (v >>> (i * 8))

/-- `put_length`, in as few bytes as there are forms for. -/
def putLength (len : Nat) : Bytes :=
  if len < 1 <<< 6 then [UInt8.ofNat (k6Bit.toNat ||| len)]
  else if len < 1 <<< 14 then [UInt8.ofNat (k14Bit.toNat ||| len >>> 8), UInt8.ofNat (len &&& 0xFF)]
  else if len ≤ 0xFFFFFFFF then k32Bit :: [3, 2, 1, 0].map fun i => UInt8.ofNat (len >>> (i * 8))
  else k64Bit :: [7, 6, 5, 4, 3, 2, 1, 0].map fun i => UInt8.ofNat (len >>> (i * 8))

/-- `put_string` -/
def putString (s : Bytes) : Bytes := putLength s.length ++ s

/-- A record, as the loop of `rdb_serialize` writes it. -/
def putRecord (r : Record) : Bytes :=
  (if r.expireAt ≠ kNoExpiry then kOpExpireMs :: putU64le r.expireAt.toUInt64.toNat else [])
    ++ kTypeString :: (putString r.key ++ putString r.value)

/-- Everything before the end marker. -/
def rdbBody (records : List Record) : Bytes :=
  (kOpAux :: (putString (str "redis-ver") ++ putString (str "7.0.0-rp")))
    ++ (kOpSelectDb :: putLength 0)
    ++ (kOpResizeDb :: (putLength records.length
      ++ putLength (records.filter fun r => r.expireAt ≠ kNoExpiry).length))
    ++ records.flatMap putRecord

/-- `rdb_serialize` -/
def rdbSerialize (records : List Record) : Bytes :=
  let out := kRdbMagic ++ kRdbVersion ++ rdbBody records ++ [kOpEof]
  out ++ putU64le (crc64 0 out).toNat

/-! ## Reading -/

/-- `size_t` addition. -/
def addSize (a b : Nat) : Nat := (a + b) % 2 ^ 64

/-- `Reader`: the data, the position in it, and whether reading has failed. -/
structure Reader where
  data : Bytes
  pos : Nat := 0
  ok : Bool := true
  error : Bytes := []
deriving DecidableEq

namespace Reader

/-- `Reader::eof` -/
def eof (r : Reader) : Bool := decide (r.data.length ≤ r.pos)

/-- `Reader::fail`: nothing more is read. -/
def fail (r : Reader) : UInt8 × Reader := (0, { r with ok := false, pos := r.data.length })

/-- `Reader::u8` -/
def u8 (r : Reader) : UInt8 × Reader :=
  if addSize r.pos 1 > r.data.length then r.fail
  else (r.data.getD r.pos 0, { r with pos := addSize r.pos 1 })

/-- `Reader::peek` -/
def peek (r : Reader) : UInt8 × Reader :=
  if r.pos ≥ r.data.length then r.fail else (r.data.getD r.pos 0, r)

/-- `n` bytes, of which the first is byte `i` of a little-endian number. -/
def leLoop : Nat → Nat → Nat → Reader → Nat × Reader
  | 0, _, v, r => (v, r)
  | n + 1, i, v, r =>
    let (b, r) := r.u8
    leLoop n (i + 1) (v ||| b.toNat <<< (i * 8)) r

/-- `Reader::u64le` -/
def u64le (r : Reader) : Nat × Reader := leLoop 8 0 0 r

/-- `Reader::u32le` -/
def u32le (r : Reader) : Nat × Reader := leLoop 4 0 0 r

/-- `n` bytes of a big-endian number. -/
def beLoop : Nat → Nat → Reader → Nat × Reader
  | 0, v, r => (v, r)
  | n + 1, v, r =>
    let (b, r) := r.u8
    beLoop n (v <<< 8 ||| b.toNat) r

/-- A length, or a special string encoding. -/
def length (r : Reader) : (Nat × Option UInt8) × Reader :=
  let (first, r) := r.u8
  if ¬ r.ok then ((0, none), r)
  else if first &&& 0xC0 = k6Bit then (((first &&& 0x3F).toNat, none), r)
  else if first &&& 0xC0 = k14Bit then
    let (second, r) := r.u8
    (((first &&& 0x3F).toNat <<< 8 ||| second.toNat, none), r)
  else if first &&& 0xC0 = kEncoded then ((0, some (first &&& 0x3F)), r)
  else if first = k32Bit then
    let (v, r) := beLoop 4 0 r
    ((v, none), r)
  else if first = k64Bit then
    let (v, r) := beLoop 8 0 r
    ((v, none), r)
  else
    let (v, r) := r.fail
    ((v.toNat, none), r)

/-- The error for a compressed string. -/
def lzfMessage : Bytes :=
  str "LZF-compressed strings are not supported; re-save with rdbcompression no"

/-- A string in one of the special encodings. -/
def encodedStr (r : Reader) (encoding : UInt8) : Bytes × Reader :=
  if encoding = kEncInt8 then
    let (b, r) := r.u8
    (intToString b.toInt8.toInt, r)
  else if encoding = kEncInt16 then
    let (lo, r) := r.u8
    let (hi, r) := r.u8
    (intToString (lo.toUInt16 ||| hi.toUInt16 <<< 8).toInt16.toInt, r)
  else if encoding = kEncInt32 then
    let (v, r) := r.u32le
    (intToString (Int32.ofNat v).toInt, r)
  else if encoding = kEncLzf then ([], { r with error := lzfMessage, ok := false })
  else
    ([], { r with error := str "unknown string encoding " ++ natToString encoding.toNat, ok := false })

/-- A string of a plain length. -/
def plainStr (r : Reader) (len : Nat) : Bytes × Reader :=
  if addSize r.pos len > r.data.length then ([], r.fail.2)
  else ((r.data.drop r.pos).take len, { r with pos := addSize r.pos len })

/-- `Reader::str`: a plain string, or an integer in a special encoding. -/
def str (r : Reader) : Bytes × Reader :=
  let ((len, encoding), r) := r.length
  if ¬ r.ok then ([], r)
  else match encoding with
    | some encoding => r.encodedStr encoding
    | none => r.plainStr len

end Reader

/-- The reader, the expiry read for the next key, and the output vector. -/
structure ParseState where
  reader : Reader
  pending : Int64 := kNoExpiry
  out : List Record := []
deriving DecidableEq

/-- What `rdb_parse` returns, and its output vector. -/
structure RdbResult where
  result : Except Bytes Unit
  out : List Record

/-- A failed reader's own message, if it has one. -/
def Reader.message (r : Reader) (default : Bytes) : Bytes := if r.error = [] then default else r.error

/-- The error for an opcode that is not known, which gives its number in decimal. -/
def unsupportedOpcode (opcode : UInt8) : Bytes :=
  str "unsupported opcode 0x" ++ natToString opcode.toNat ++ str " (only string values are supported)"

/-- The end of a round: a reader that is not ok clears the output. -/
def ParseState.check (st : ParseState) (default : Bytes) : RdbResult ⊕ ParseState :=
  if ¬ st.reader.ok then .inl ⟨.error (st.reader.message default), []⟩ else .inr st

/-- One opcode. -/
def rdbOpcode (opcode : UInt8) (r : Reader) (st : ParseState) : RdbResult ⊕ ParseState :=
  if opcode = kOpAux then
    { st with reader := r.str.2.str.2 }.check (str "truncated payload")
  else if opcode = kOpSelectDb then
    { st with reader := r.length.2 }.check (str "truncated payload")
  else if opcode = kOpResizeDb then
    { st with reader := r.length.2.length.2 }.check (str "truncated payload")
  else if opcode = kOpExpireMs then
    { st with reader := r.u64le.2, pending := Int64.ofNat r.u64le.1 }.check (str "truncated payload")
  else if opcode = kOpExpireSec then
    { st with reader := r.u32le.2, pending := Int64.ofNat r.u32le.1 * 1000 }.check
      (str "truncated payload")
  else if opcode = kTypeString then
    let record : Record := ⟨r.str.1, r.str.2.str.1, st.pending⟩
    { reader := r.str.2.str.2, pending := kNoExpiry, out := st.out ++ [record] : ParseState }.check
      (str "truncated while reading a key")
  else .inl ⟨.error (unsupportedOpcode opcode), st.out⟩

/-- One round of the loop of `rdb_parse`. -/
def rdbRound (st : ParseState) : RdbResult ⊕ ParseState :=
  if st.reader.eof then .inl ⟨.ok (), st.out⟩
  else
    let (opcode, r) := st.reader.u8
    if ¬ r.ok then .inl ⟨.error (str "truncated while reading opcode"), st.out⟩
    else rdbOpcode opcode r st

/-- At most `rounds` rounds, none if they are not enough. -/
def rdbLoop : Nat → ParseState → Option RdbResult
  | 0, _ => none
  | rounds + 1, st =>
    match rdbRound st with
    | .inl result => some result
    | .inr st => rdbLoop rounds st

/-- The length of the magic with the version. -/
def rdbHeader : Nat := kRdbMagic.length + kRdbVersion.length

/-- The stored checksum. -/
def storedCrc (payload : Bytes) : Nat :=
  (List.range 8).foldl (fun stored i =>
    stored ||| (payload.getD (payload.length - 8 + i) 0).toNat <<< (i * 8)) 0

/-- The checks before the first opcode. -/
def rdbCheck (payload : Bytes) : Option Bytes :=
  if payload.length < rdbHeader then some (str "file too short")
  else if payload.take kRdbMagic.length ≠ kRdbMagic then some (str "bad magic: not an RDB file")
  else
    let version := (payload.drop kRdbMagic.length).take 4
    if version > kRdbVersion then
      some (str "RDB version " ++ version ++ str " is newer than supported " ++ kRdbVersion)
    else if payload.length < rdbHeader + 9 then some (str "truncated: no EOF marker")
    else
      let crcOffset := payload.length - 8
      if payload.getD (crcOffset - 1) 0 ≠ kOpEof then some (str "truncated: EOF marker missing")
      else if storedCrc payload ≠ 0 ∧ (crc64 0 (payload.take crcOffset)).toNat ≠ storedCrc payload then
        some (str "checksum mismatch: file corrupt")
      else none

/-- Where the opcodes start. -/
def rdbStart (payload : Bytes) : ParseState :=
  { reader := { data := (payload.drop rdbHeader).take (payload.length - 8 - 1 - rdbHeader) } }

/-- `rdb_parse`, none if the loop does not end in `rounds` rounds. -/
def rdbParse (rounds : Nat) (payload : Bytes) : Option RdbResult :=
  match rdbCheck payload with
  | some e => some ⟨.error e, []⟩
  | none => rdbLoop rounds (rdbStart payload)

end RP
