import Mathlib.Data.List.AList
import RedisPlus.Resp.Glob

/-!
# The keyspace

`Store`: the values, the index of deadlines, and the operations on them, each at the time
`now` that the store's clock reads. A key is expired from its deadline on; operations that
find an expired key remove it and count it.

The two hash tables are association lists without duplicate keys. Their order stands for
the iteration order of `std::unordered_map`, which is unspecified.
-/

namespace RP

/-- No deadline. -/
def kNoExpiry : Int64 := -1

/-- `ExpiryStats`. The counters are `uint64_t` in the source: they are taken to count fewer than `2 ^
64` events. -/
structure ExpiryStats where
  expiredLazy : Nat := 0
  expiredActive : Nat := 0
  cycles : Nat := 0
  passes : Nat := 0
deriving DecidableEq

/-- One key as it crosses a persistence or replication boundary. -/
structure Record where
  key : Bytes
  value : Bytes
  expireAt : Int64 := kNoExpiry
deriving DecidableEq

/-- `std::unordered_map<std::string, V>` -/
abbrev Table (V : Type) := AList fun _ : Bytes => V

/-- The keys with their values, the deadlines, and where the sampling goes on. -/
structure Store where
  map : Table Bytes := ∅
  expires : Table Int64 := ∅
  cursor : Nat := 0
  stats : ExpiryStats := {}

namespace Store

/-- Is the key's deadline there, and has it come? -/
def isExpired (S : Store) (now : Int64) (key : Bytes) : Bool :=
  match S.expires.lookup key with
  | some deadline => decide (deadline ≤ now)
  | none => false

/-- A key goes out of both tables. -/
def remove (S : Store) (key : Bytes) : Store :=
  { S with map := S.map.erase key, expires := S.expires.erase key }

/-- Remove an expired key that an operation came across. -/
def reap (S : Store) (key : Bytes) : Store :=
  { S.remove key with stats := { S.stats with expiredLazy := S.stats.expiredLazy + 1 } }

/-- `Store::get`, which removes the key if it has expired. -/
def get (S : Store) (now : Int64) (key : Bytes) : Option Bytes × Store :=
  match S.map.lookup key with
  | none => (none, S)
  | some value => if S.isExpired now key then (none, S.reap key) else (some value, S)

/-- `Store::set` -/
def set (S : Store) (key value : Bytes) (expireAt : Int64) : Store :=
  { S with
    map := S.map.insert key value
    expires := if expireAt = kNoExpiry then S.expires.erase key else S.expires.insert key expireAt }

/-- `Store::erase` -/
def erase (S : Store) (now : Int64) (key : Bytes) : Bool × Store :=
  match S.map.lookup key with
  | none => (false, S)
  | some _ => if S.isExpired now key then (false, S.reap key) else (true, S.remove key)

/-- `Store::contains` -/
def contains (S : Store) (now : Int64) (key : Bytes) : Bool × Store :=
  let (value, S) := S.get now key
  (value.isSome, S)

/-- -2 for no key, -1 for no deadline, else the milliseconds left. -/
def pttl (S : Store) (now : Int64) (key : Bytes) : Int64 × Store :=
  match S.map.lookup key with
  | none => (-2, S)
  | some _ =>
    if S.isExpired now key then (-2, S.reap key)
    else match S.expires.lookup key with
      | none => (-1, S)
      | some deadline => (deadline - now, S)

/-- `Store::expire_at`; a deadline that has come removes the key. -/
def expireAt (S : Store) (now : Int64) (key : Bytes) (deadline : Int64) : Bool × Store :=
  match S.map.lookup key with
  | none => (false, S)
  | some _ =>
    if S.isExpired now key then (false, S.reap key)
    else if deadline ≤ now then (true, S.remove key)
    else (true, { S with expires := S.expires.insert key deadline })

/-- `Store::persist` -/
def persist (S : Store) (now : Int64) (key : Bytes) : Bool × Store :=
  match S.map.lookup key with
  | none => (false, S)
  | some _ =>
    if S.isExpired now key then (false, S.reap key)
    else ((S.expires.lookup key).isSome, { S with expires := S.expires.erase key })

/-- The live keys that match, in iteration order; the expired ones are removed. -/
def keys (S : Store) (now : Int64) (pattern : Bytes) : List Bytes × Store :=
  let dead := S.map.keys.filter fun key => S.isExpired now key
  let found := S.map.keys.filter fun key => !S.isExpired now key && globMatch pattern key
  (found, dead.foldl reap S)

/-- `size_t` arithmetic: the number of keys less that of expired ones. -/
def size (S : Store) (now : Int64) : Nat :=
  let expired := (S.expires.entries.filter fun e => decide (e.2 ≤ now)).length
  (S.map.entries.length + 2 ^ 64 - expired) % 2 ^ 64

/-- `Store::raw_size` -/
def rawSize (S : Store) : Nat := S.map.entries.length

/-- `Store::expires_size` -/
def expiresSize (S : Store) : Nat := S.expires.entries.length

/-- `Store::clear` -/
def clear (S : Store) : Store := { S with map := ∅, expires := ∅, cursor := 0 }

/-- The record of an entry of `map_`, unless it has expired. -/
def record (S : Store) (now : Int64) (key value : Bytes) : Option Record :=
  let deadline := (S.expires.lookup key).getD kNoExpiry
  if deadline ≠ kNoExpiry ∧ deadline ≤ now then none else some ⟨key, value, deadline⟩

/-- All live keys, with absolute deadlines. -/
def snapshot (S : Store) (now : Int64) : List Record :=
  S.map.entries.filterMap fun e => S.record now e.1 e.2

/-- `Store::load_record`: a record that has expired is left out. -/
def loadRecord (S : Store) (now : Int64) (r : Record) : Store :=
  if r.expireAt ≠ kNoExpiry ∧ r.expireAt ≤ now then S else S.set r.key r.value r.expireAt

end Store

end RP
