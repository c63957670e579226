import RedisPlus.Resp.Encode

/-!
# RESP values

What a client reads: simple strings and errors, which are lines, integers, bulk strings, the null
bulk string and arrays. A `Value` is well formed by construction, since a `Line` has no line end in
it. `Value.decode` reads one value off the front of a byte string, and gives back the value that
was written, whatever follows (`decode_bytes`), so a stream of values is read back one at a time
(`decodeAll_bytesAll`).
-/

namespace RP

open Framework (digitsVal isDigit)

/-- No CR and no LF. -/
def Plain (s : Bytes) : Prop := 13 ∉ s ∧ 10 ∉ s

instance (s : Bytes) : Decidable (Plain s) := instDecidableAnd

theorem plain_append {s t : Bytes} : Plain (s ++ t) ↔ Plain s ∧ Plain t := by
  simp only [Plain, List.mem_append, not_or]
  exact and_and_and_comm

theorem plain_flatten {l : List Bytes} : Plain l.flatten ↔ ∀ s ∈ l, Plain s := by
  induction l with
  | nil => simp [Plain]
  | cons s l ih => rw [List.flatten_cons, plain_append, ih, List.forall_mem_cons]

/-- A text without line ends. -/
structure Line where
  text : Bytes
  plain : Plain text

/-- A value of the protocol, as a client reads it. -/
inductive Value where
  | simple (line : Line)
  | error (line : Line)
  | integer (n : Int)
  | bulk (v : Bytes)
  | null
  | array (vs : List Value)

mutual

/-- A value on the wire. -/
def Value.bytes : Value → Bytes
  | .simple line => Reply.simple line.text
  | .error line => Reply.error line.text
  | .integer n => Reply.integer n
  | .bulk v => Reply.bulk v
  | .null => Reply.nullBulk
  | .array vs => Reply.arrayHeader vs.length ++ Value.bytesAll vs

/-- Values one after the other. -/
def Value.bytesAll : List Value → Bytes
  | [] => []
  | v :: vs => v.bytes ++ Value.bytesAll vs

end

/-! ## Reading -/

/-- A number without a sign. -/
def readNat (s : Bytes) : Option Nat :=
  if s ≠ [] ∧ s.all isDigit then some (digitsVal 0 s) else none

/-- A number that may have a minus before it. -/
def readInt (s : Bytes) : Option Int :=
  if s.head? = some 45 then (readNat s.tail).map fun n : Nat => -(n : Int) else (readNat s).map Int.ofNat

namespace Value

/-- `n` values, each read by `read`. -/
def decodeMany (read : Bytes → Option (Value × Bytes)) : Nat → Bytes → Option (List Value × Bytes)
  | 0, s => some ([], s)
  | n + 1, s =>
    match read s with
    | none => none
    | some (v, s) => (decodeMany read n s).map fun (vs, s) => (v :: vs, s)

/-- A value whose first line is `c :: text`, which `s` follows. -/
def decodeLine (read : Bytes → Option (Value × Bytes)) (c : UInt8) (text s : Bytes) :
    Option (Value × Bytes) :=
  if c = 43 then if h : Plain text then some (.simple ⟨text, h⟩, s) else none
  else if c = 45 then if h : Plain text then some (.error ⟨text, h⟩, s) else none
  else if c = 58 then (readInt text).map fun n => (.integer n, s)
  else if c = 36 then
    if text = str "-1" then some (.null, s)
    else match readNat text with
      | none => none
      | some n => if (s.drop n).take 2 = crlf then some (.bulk (s.take n), s.drop (n + 2)) else none
  else if c = 42 then
    match readNat text with
    | none => none
    | some n => (decodeMany read n s).map fun (vs, s) => (.array vs, s)
  else none

/-- The first value of `s`, and what follows it. An array takes one unit of `fuel`. -/
def decode : Nat → Bytes → Option (Value × Bytes)
  | 0, _ => none
  | fuel + 1, s =>
    match findCrlf s with
    | none => none
    | some eol =>
      match s.take eol with
      | [] => none
      | c :: text => decodeLine (decode fuel) c text (s.drop (eol + 2))

/-- All of `s` as values; each of them takes a byte. -/
def decodeAll : Nat → Bytes → Option (List Value)
  | 0, s => if s = [] then some [] else none
  | fuel + 1, s =>
    if s = [] then some []
    else match decode s.length s with
      | none => none
      | some (v, s) => (decodeAll fuel s).map (v :: ·)

end Value

/-! ## Reading back what was written -/

theorem readNat_natToString (n : Nat) : readNat (natToString n) = some n := by
  have hdigits : (natToString n).all isDigit = true := List.all_eq_true.mpr (Framework.decimal_isDigit n)
  rw [readNat, if_pos ⟨Framework.decimal_ne_nil n, hdigits⟩, Framework.digitsVal_decimal]

theorem not_mem_natToString {c : UInt8} (hc : isDigit c = false) (n : Nat) : c ∉ natToString n := by
  intro h
  rw [Framework.decimal_isDigit n c h] at hc
  cases hc

theorem not_mem_intToString {c : UInt8} (hc : isDigit c = false) (h45 : c ≠ 45) (i : Int) :
    c ∉ intToString i := by
  rw [intToString, Framework.signed]
  split
  · exact List.not_mem_cons_of_ne_of_not_mem h45 (not_mem_natToString hc _)
  · exact not_mem_natToString hc _

theorem readInt_intToString (i : Int) : readInt (intToString i) = some i := by
  rw [intToString, Framework.signed]
  split
  · rename_i hi
    rw [readInt, if_pos (List.head?_cons ..), List.tail_cons, readNat_natToString, Option.map_some]
    exact congrArg some (by omega)
  · rename_i hi
    have hhead : (natToString i.natAbs).head? ≠ some 45 := fun h =>
      not_mem_natToString (by decide) _ (List.mem_of_mem_head? h)
    rw [readInt, if_neg hhead, readNat_natToString, Option.map_some]
    exact congrArg some (by show (i.natAbs : Int) = i; omega)

namespace Value

/-- A value's first line is read whole. -/
theorem decode_line {c : UInt8} {text : Bytes} (hc : c ≠ 13) (ht : 13 ∉ text) (fuel : Nat) (t : Bytes) :
    decode (fuel + 1) (c :: text ++ (crlf ++ t)) = decodeLine (decode fuel) c text t := by
  have hline : 13 ∉ c :: text := List.not_mem_cons_of_ne_of_not_mem hc.symm ht
  have hfind : findCrlf (c :: text ++ (crlf ++ t)) = some (c :: text).length :=
    Framework.find2_of_not_mem t hline
  rw [decode, hfind]
  dsimp only
  rw [List.take_left, ← List.drop_drop, List.drop_left]
  rfl

theorem decode_simple (line : Line) (fuel : Nat) (t : Bytes) :
    decode (fuel + 1) ((simple line).bytes ++ t) = some (simple line, t) := by
  have he : (simple line).bytes ++ t = 43 :: line.text ++ (crlf ++ t) := by
    simp [Value.bytes, Reply.simple, show str "+" = [43] by decide]
  rw [he, decode_line (by decide) line.plain.1, decodeLine, if_pos rfl, dif_pos line.plain]

theorem decode_error (line : Line) (fuel : Nat) (t : Bytes) :
    decode (fuel + 1) ((error line).bytes ++ t) = some (error line, t) := by
  have he : (error line).bytes ++ t = 45 :: line.text ++ (crlf ++ t) := by
    simp [Value.bytes, Reply.error, show str "-" = [45] by decide]
  rw [he, decode_line (by decide) line.plain.1, decodeLine, if_neg (by decide), if_pos rfl,
    dif_pos line.plain]

theorem decode_integer (n : Int) (fuel : Nat) (t : Bytes) :
    decode (fuel + 1) ((integer n).bytes ++ t) = some (integer n, t) := by
  have he : (integer n).bytes ++ t = 58 :: intToString n ++ (crlf ++ t) := by
    simp [Value.bytes, Reply.integer, show str ":" = [58] by decide]
  rw [he, decode_line (by decide) (not_mem_intToString (by decide) (by decide) n), decodeLine,
    if_neg (by decide), if_neg (by decide), if_pos rfl, readInt_intToString]
  rfl

theorem decode_null (fuel : Nat) (t : Bytes) : decode (fuel + 1) (null.bytes ++ t) = some (null, t) := by
  have he : null.bytes ++ t = 36 :: str "-1" ++ (crlf ++ t) := by
    rw [Value.bytes, show Reply.nullBulk = 36 :: str "-1" ++ crlf by decide, List.append_assoc]
  rw [he, decode_line (by decide) (by decide)]
  rfl

theorem decode_bulk (v : Bytes) (fuel : Nat) (t : Bytes) :
    decode (fuel + 1) ((bulk v).bytes ++ t) = some (bulk v, t) := by
  have he : (bulk v).bytes ++ t = 36 :: natToString v.length ++ (crlf ++ (v ++ (crlf ++ t))) := by
    simp [Value.bytes, Reply.bulk, show str "$" = [36] by decide]
  have hnull : natToString v.length ≠ str "-1" := fun h =>
    not_mem_natToString (c := 45) (by decide) v.length (by rw [h]; decide)
  rw [he, decode_line (by decide) (not_mem_natToString (by decide) _), decodeLine, if_neg (by decide),
    if_neg (by decide), if_neg (by decide), if_pos rfl, if_neg hnull, readNat_natToString]
  dsimp only
  rw [List.drop_left, List.take_left' (by rfl), if_pos rfl, List.take_left, ← List.drop_drop,
    List.drop_left]
  rfl

theorem length_bytes_pos (v : Value) : 0 < v.bytes.length := by
  cases v with
  | simple line => simp [Value.bytes, Reply.simple, str]
  | error line => simp [Value.bytes, Reply.error, str]
  | integer n => simp [Value.bytes, Reply.integer, str]
  | bulk v => simp [Value.bytes, Reply.bulk, str]
  | null => decide
  | array vs => simp [Value.bytes, Reply.arrayHeader, str]

mutual

/-- A value is read back, whatever follows. -/
theorem decode_bytes : ∀ (v : Value) {fuel : Nat}, v.bytes.length ≤ fuel → ∀ t : Bytes,
    decode fuel (v.bytes ++ t) = some (v, t)
  | v, 0, h, _ => absurd h (Nat.not_le.mpr (length_bytes_pos v))
  | .simple line, fuel + 1, _, t => decode_simple line fuel t
  | .error line, fuel + 1, _, t => decode_error line fuel t
  | .integer n, fuel + 1, _, t => decode_integer n fuel t
  | .bulk v, fuel + 1, _, t => decode_bulk v fuel t
  | .null, fuel + 1, _, t => decode_null fuel t
  | .array vs, fuel + 1, h, t => by
    have hlen : (bytesAll vs).length ≤ fuel := by
      simp only [Value.bytes, List.length_append, length_arrayHeader] at h
      omega
    have he : (array vs).bytes ++ t = 42 :: natToString vs.length ++ (crlf ++ (bytesAll vs ++ t)) := by
      simp [Value.bytes, Reply.arrayHeader, show str "*" = [42] by decide]
    rw [he, decode_line (by decide) (not_mem_natToString (by decide) _), decodeLine, if_neg (by decide),
      if_neg (by decide), if_neg (by decide), if_neg (by decide), if_pos rfl, readNat_natToString]
    dsimp only
    rw [decodeMany_bytesAll vs hlen t]
    rfl

theorem decodeMany_bytesAll : ∀ (vs : List Value) {fuel : Nat}, (bytesAll vs).length ≤ fuel → ∀ t : Bytes,
    decodeMany (decode fuel) vs.length (bytesAll vs ++ t) = some (vs, t)
  | [], _, _, _ => rfl
  | v :: vs, fuel, h, t => by
    rw [bytesAll, List.length_append] at h
    rw [bytesAll, List.append_assoc, List.length_cons, decodeMany, decode_bytes v (by omega)]
    dsimp only
    rw [decodeMany_bytesAll vs (by omega) t]
    rfl

end

/-- A stream of values is read back. -/
theorem decodeAll_bytesAll : ∀ (vs : List Value) {fuel : Nat}, vs.length ≤ fuel →
    decodeAll fuel (bytesAll vs) = some vs
  | [], 0, _ => rfl
  | [], _ + 1, _ => rfl
  | v :: vs, fuel + 1, h => by
    have hne : bytesAll (v :: vs) ≠ [] := by
      rw [bytesAll]
      exact List.append_ne_nil_of_left_ne_nil (List.length_pos_iff.mp (length_bytes_pos v)) _
    have hlen : v.bytes.length ≤ (bytesAll (v :: vs)).length := by
      rw [bytesAll, List.length_append]
      omega
    have hdecode : decode (bytesAll (v :: vs)).length (bytesAll (v :: vs)) = some (v, bytesAll vs) :=
      decode_bytes v hlen (bytesAll vs)
    rw [List.length_cons] at h
    rw [decodeAll, if_neg hne, hdecode]
    dsimp only
    rw [decodeAll_bytesAll vs (by omega)]
    rfl

theorem bytesAll_eq_flatten (vs : List Value) : bytesAll vs = (vs.map bytes).flatten := by
  induction vs with
  | nil => rfl
  | cons v vs ih => rw [bytesAll, ih, List.map_cons, List.flatten_cons]

end Value

/-! ## Replies that are values -/

/-- Exactly one value. -/
def Framed (s : Bytes) : Prop := ∃ v : Value, s = v.bytes

theorem framed_simple {s : Bytes} (h : Plain s) : Framed (Reply.simple s) := ⟨.simple ⟨s, h⟩, rfl⟩

theorem framed_integer (n : Int) : Framed (Reply.integer n) := ⟨.integer n, rfl⟩

theorem framed_bulk (v : Bytes) : Framed (Reply.bulk v) := ⟨.bulk v, rfl⟩

theorem framed_nullBulk : Framed Reply.nullBulk := ⟨.null, rfl⟩

theorem framed_ok : Framed Reply.ok := framed_simple (s := str "OK") (by decide)

theorem framed_emptyArray : Framed Reply.emptyArray := ⟨.array [], by decide⟩

theorem framed_bulks (vs : List Bytes) : Framed (Reply.arrayHeader vs.length ++ vs.flatMap Reply.bulk) := by
  refine ⟨.array (vs.map .bulk), ?_⟩
  rw [Value.bytes, List.length_map, Value.bytesAll_eq_flatten, List.map_map, List.flatMap_def]
  rfl

/-- An error is one value exactly if its text is a line. -/
theorem framed_error {s : Bytes} : Framed (Reply.error s) ↔ Plain s := by
  refine ⟨fun ⟨v, hv⟩ => ?_, fun h => ⟨.error ⟨s, h⟩, rfl⟩⟩
  have herror : Reply.error s = 45 :: (s ++ crlf) := by
    simp [Reply.error, show str "-" = [45] by decide]
  rw [herror] at hv
  -- the other kinds of value start with another byte
  cases v with
  | error line =>
    have hline : s ++ crlf = line.text ++ crlf := by
      simpa [Value.bytes, Reply.error, show str "-" = [45] by decide] using hv
    rw [List.append_cancel_right hline]
    exact line.plain
  | simple line => simp [Value.bytes, Reply.simple, show str "+" = [43] by decide] at hv
  | integer n => simp [Value.bytes, Reply.integer, show str ":" = [58] by decide] at hv
  | bulk v => simp [Value.bytes, Reply.bulk, show str "$" = [36] by decide] at hv
  | null => simp [Value.bytes, Reply.nullBulk, show str "$-1\r\n" = [36, 45, 49, 13, 10] by decide] at hv
  | array vs => simp [Value.bytes, Reply.arrayHeader, show str "*" = [42] by decide] at hv

end RP
