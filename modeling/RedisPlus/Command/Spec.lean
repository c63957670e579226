import RedisPlus.Command.Operations
import RedisPlus.Command.Reaping
import RedisPlus.Resp.Tokens
import RedisPlus.Store.Snapshot

/-!
# What the commands are for

To its clients the server is a keyspace in which every key has a value and perhaps a deadline, and is
gone when the deadline has come. A `Query` asks of it, or changes it, and is given an `Answer`; nothing
is said there of hash tables, of an index of deadlines, or of when an expired key is removed.

A command that can be read as a query gives the query's answer, and does to what is live what the query
does (`dispatch_refines`). So a run of commands, with upkeep of the store anywhere in it, gives the
answers of the keyspace, which never holds an expired key (`commands_refine`).
-/

namespace RP

open Framework (Keyspace Write run collect Along)
open Framework.Wildcard (Matches)

/-- The keyspace as clients see it. -/
abbrev Database := Keyspace Bytes Bytes Int64

/-- What can be asked of the keyspace. -/
inductive Query where
  | get (k : Bytes)
  | set (k v : Bytes) (o : SetOptions)
  | del (ks : List Bytes)
  | exists' (ks : List Bytes)
  | type (k : Bytes)
  | keys (pattern : Bytes)
  | expire (k : Bytes) (d : Int64)
  | ttl (seconds : Bool) (k : Bytes)
  | persist (k : Bytes)
  | dbsize
  | flush

/-- What the keyspace answers. -/
inductive Answer where
  | value (v : Option Bytes)
  | integer (n : Int)
  /-- A `size_t`. -/
  | count (n : Nat)
  | status (s : Bytes)
  | keys (ks : Set Bytes)
  | error

/-- The bytes of a reply that gives the answer. Keys may be listed in any order. -/
inductive Answer.Shown : Answer → Bytes → Prop where
  | value (v : Option Bytes) : Shown (.value v) (bulkOrNull v)
  | integer (n : Int) : Shown (.integer n) (Reply.integer n)
  | count (n : Nat) : Shown (.count n) (Reply.integer (Int64.ofNat n).toInt)
  | status (s : Bytes) : Shown (.status s) (Reply.simple s)
  | keys {found : List Bytes} (h : found.Nodup) : Shown (.keys {k | k ∈ found}) (keysReply found)
  | error (e : Bytes) : Shown .error (Reply.error e)

/-! ## The keyspace -/

namespace Query

/-- Whether SET's condition on the key holds. -/
def allowed (o : SetOptions) (old : Option (Bytes × Option Int64)) : Bool :=
  !(o.nx && old.isSome || o.xx && old.isNone)

/-- The deadline that a key has after SET. -/
def newDeadline (o : SetOptions) (old : Option (Bytes × Option Int64)) : Option Int64 :=
  if o.keepttl then old.bind Prod.snd else Store.deadline o.expireAt

/-- How long a key has to live at `T`, in milliseconds or in seconds rounded up; -1 if for ever, and -2
if there is no such key. -/
def timeLeft (T : Int64) (seconds : Bool) : Option (Bytes × Option Int64) → Int
  | none => -2
  | some (_, none) => -1
  | some (_, some d) => if seconds then -((T.toInt - d.toInt) / 1000) else d.toInt - T.toInt

/-- The answer of a keyspace that holds what is live at `T`. -/
noncomputable def answer (T : Int64) (K : Database) : Query → Answer
  | .get k => .value ((K k).map Prod.fst)
  | .set k _ o =>
    if o.get then .value ((K k).map Prod.fst)
    else if allowed o (K k) then .status (str "OK") else .value none
  | .del ks => .integer (ks.toFinset.filter fun k => (K k).isSome).card
  | .exists' ks => .integer (ks.countP fun k => (K k).isSome)
  | .type k => .status (if (K k).isSome then str "string" else str "none")
  | .keys pattern => .keys {k | (K k).isSome ∧ Matches (globTokens pattern) k}
  | .expire k _ => .integer (if (K k).isSome then 1 else 0)
  | .ttl seconds k => .integer (timeLeft T seconds (K k))
  | .persist k => .integer (if ((K k).bind Prod.snd).isSome then 1 else 0)
  | .dbsize => .count (Set.ncard {k | (K k).isSome})
  | .flush => .status (str "OK")

/-- What a query does to a keyspace that holds what is live at `T`. -/
def next (T : Int64) (K : Database) : Query → Database
  | .set k v o => if allowed o (K k) then (Write.set k v (newDeadline o (K k))).run T K else K
  | .del ks => (Write.del ks).run T K
  | .expire k d => (Write.expire k d).run T K
  | .persist k => (Write.persist k).run T K
  | .flush => Write.flush.run T K
  | _ => K

end Query

/-! ## Requests -/

/-- What a request is to the keyspace. -/
inductive Asked where
  | query (q : Query)
  /-- A query's name with arguments that it cannot have. -/
  | malformed
  | other

namespace Asked

/-- A query of one key. -/
def one (f : Bytes → Query) : Args → Asked
  | [k] => .query (f k)
  | _ => .malformed

/-- A query of at least one key. -/
def several (f : List Bytes → Query) : Args → Asked
  | k :: ks => .query (f (k :: ks))
  | [] => .malformed

/-- The query of EXPIRE and its relatives. -/
def expiry (now : Int64) (seconds absolute : Bool) : Args → Asked
  | [k, time] =>
    (((toInt64 time).bind fun n => expireDeadline now n seconds absolute).map fun d => .query (.expire k d)).getD
      .malformed
  | _ => .malformed

/-- The query of SET. -/
def assignment (now : Int64) : Args → Asked
  | k :: v :: rest =>
    match setOptions now {} rest with
    | .ok o => .query (.set k v o)
    | .error _ => .malformed
  | _ => .malformed

/-- What the command named `name` asks at `now`, with arguments. -/
def named (now : Int64) (name : CommandName) (a : Args) : Asked :=
  match name with
  | .get => one .get a
  | .set => assignment now a
  | .del => several .del a
  | .exists' => several .exists' a
  | .type => one .type a
  | .keys => one .keys a
  | .expire => expiry now true false a
  | .pexpire => expiry now false false a
  | .expireat => expiry now true true a
  | .pexpireat => expiry now false true a
  | .ttl => one (.ttl true) a
  | .pttl => one (.ttl false) a
  | .persist => one .persist a
  | .dbsize => if a = [] then .query .dbsize else .malformed
  | .flushall => .query .flush
  | _ => .other

/-- How a command is read as a query at `now`. -/
def of (now : Int64) : Args → Asked
  | [] => .other
  | c :: a => ((commandName c).map fun name => named now name a).getD .other

/-- The answer, if the request is a matter of the keyspace. -/
noncomputable def answer (T : Int64) (K : Database) : Asked → Option Answer
  | .query q => some (q.answer T K)
  | .malformed => some .error
  | .other => none

/-- What the keyspace becomes. -/
def next (T : Int64) (K : Database) : Asked → Database
  | .query q => q.next T K
  | _ => K

end Asked

/-- The reply gives the answer if there is one, and what is live afterwards is what is asked for. -/
structure Refines (now : Int64) (S : Store) (asked : Asked) (reply : Bytes) (S' : Store) : Prop where
  shown : ∀ a ∈ asked.answer now (S.live now), a.Shown reply
  live : S'.live now = asked.next now (S.live now)

theorem Refines.query {now : Int64} {S S' : Store} {q : Query} {reply : Bytes}
    (hshown : (q.answer now (S.live now)).Shown reply) (hlive : S'.live now = q.next now (S.live now)) :
    Refines now S (.query q) reply S' := by
  refine ⟨fun a ha => ?_, hlive⟩
  obtain rfl : q.answer now (S.live now) = a := Option.some.inj ha
  exact hshown

theorem Refines.malformed (now : Int64) (S : Store) (e : Bytes) :
    Refines now S .malformed (Reply.error e) S := by
  refine ⟨fun a ha => ?_, rfl⟩
  obtain rfl : Answer.error = a := Option.some.inj ha
  exact .error e

theorem Refines.other {now : Int64} {S S' : Store} (reply : Bytes) (h : S'.live now = S.live now) :
    Refines now S .other reply S' where
  shown _ ha := by cases ha
  live := h

/-! ## The commands -/

section

variable {now : Int64} (S : Store)

theorem cmdGet_refines (c : Bytes) : ∀ a, Refines now S (.one .get a) (cmdGet now S (c :: a)).1
    (cmdGet now S (c :: a)).2
  | [k] => by
    refine .query ?_ (Store.live_get S now k)
    rw [cmdGet, Store.get_fst]
    exact .value _
  | [] | _ :: _ :: _ => .malformed now S _

theorem contains_fst (k : Bytes) : (S.contains now k).1 = (S.live now k).isSome := by
  show (S.get now k).1.isSome = _
  rw [Store.get_fst, Option.isSome_map]

theorem countExisting_fst : ∀ (ks : List Bytes) (S : Store),
    (countExisting now ks S).1 = ks.countP fun k => (S.live now k).isSome
  | [], _ => rfl
  | k :: ks, S => by
    show (if (S.contains now k).1 then (countExisting now ks (S.contains now k).2).1 + 1
      else (countExisting now ks (S.contains now k).2).1) = _
    rw [List.countP_cons, countExisting_fst ks, Store.live_contains, contains_fst]
    split <;> rfl

theorem cmdExists_refines (c : Bytes) : ∀ a, Refines now S (.several .exists' a) (cmdExists now S (c :: a)).1
    (cmdExists now S (c :: a)).2
  | k :: ks => by
    refine .query ?_ (live_countExisting (k :: ks) S)
    show Answer.Shown _ (Reply.integer (countExisting now (k :: ks) S).1)
    rw [countExisting_fst]
    exact .integer _
  | [] => .malformed now S _

theorem cmdType_refines (c : Bytes) : ∀ a, Refines now S (.one .type a) (cmdType now S (c :: a)).1
    (cmdType now S (c :: a)).2
  | [k] => by
    refine .query ?_ (Store.live_contains S now k)
    show Answer.Shown _ (Reply.simple (if (S.contains now k).1 then _ else _))
    rw [contains_fst]
    exact .status _
  | [] | _ :: _ :: _ => .malformed now S _

theorem cmdKeys_refines (c : Bytes) : ∀ a, Refines now S (.one .keys a) (cmdKeys now S (c :: a)).1
    (cmdKeys now S (c :: a)).2
  | [pattern] => by
    refine .query ?_ (Store.live_keys S now pattern)
    have hset : {k | (S.live now k).isSome ∧ Matches (globTokens pattern) k} =
        {k | k ∈ (S.keys now pattern).1} := by
      ext k
      rw [Store.keys_fst]
      simp only [Set.mem_ofPred_eq, List.mem_filter, Store.mem_liveKeys, globMatch_iff_matches]
    rw [Query.answer, hset]
    exact .keys (by rw [Store.keys_fst]; exact (Store.nodup_liveKeys S now).filter _)
  | [] | _ :: _ :: _ => .malformed now S _

theorem cmdDbsize_refines (hS : S.Indexed) (c : Bytes) (a : Args) :
    Refines now S (if a = [] then .query .dbsize else .malformed) (cmdDbsize now S (c :: a)) S := by
  cases a with
  | cons _ _ => exact .malformed now S _
  | nil =>
    have hcount : Set.ncard {k | (S.live now k).isSome} = (S.liveKeys now).length := by
      have hset : {k | (S.live now k).isSome} = ((S.liveKeys now).toFinset : Set Bytes) := by
        ext k
        rw [Set.mem_ofPred_eq, Finset.mem_coe, List.mem_toFinset, Store.mem_liveKeys]
      rw [hset, Set.ncard_coe_finset, List.toFinset_card_of_nodup (Store.nodup_liveKeys S now)]
    refine .query ?_ rfl
    have hmod : (Int64.ofNat ((S.liveKeys now).length % 2 ^ 64)).toInt =
        (Int64.ofNat (S.liveKeys now).length).toInt := by
      rw [Int64.toInt_ofNat', Int64.toInt_ofNat', show (2 : Nat) ^ 64 = Int64.size by rfl, Int.natCast_mod,
        Int.emod_bmod]
    rw [Query.answer, hcount, cmdDbsize, hS.size_eq, hmod]
    exact .count _

/-- What is left of a deadline that is ahead is in range. -/
theorem toInt_remaining {d : Int64} (hnow : 0 ≤ now) (hd : now < d) :
    (d - now).toInt = d.toInt - now.toInt ∧ 0 < (d - now).toInt := by
  rw [Int64.le_iff_toInt_le, Int64.toInt_zero] at hnow
  rw [Int64.lt_iff_toInt_lt] at hd
  have hlt := d.toInt_lt
  have hsub : (d - now).toInt = d.toInt - now.toInt := by
    rw [Int64.toInt_sub]
    exact Int.bmod_eq_of_le (by omega) (by omega)
  exact ⟨hsub, by omega⟩

/-- Seconds are rounded up. -/
theorem toInt_seconds {d : Int64} (hnow : 999 ≤ now) (hd : now < d) :
    ((d - now + 999) / 1000).toInt = -((now.toInt - d.toInt) / 1000) := by
  have h999 : (999 : Int64).toInt = 999 := by decide
  have h1000 : (1000 : Int64).toInt = 1000 := by decide
  have hnow' := Int64.le_iff_toInt_le.mp hnow
  rw [h999] at hnow'
  obtain ⟨hsub, hpos⟩ := toInt_remaining (Int64.le_trans (by decide) hnow) hd
  have hlt := d.toInt_lt
  have hadd : (d - now + 999).toInt = d.toInt - now.toInt + 999 := by
    rw [toInt_add_of_fits (by rw [fitsInt64_iff, h999, hsub]; omega), hsub, h999]
  have hne : d - now + 999 ≠ Int64.minValue := by
    intro he
    have := congrArg Int64.toInt he
    rw [hadd, Int64.toInt_minValue] at this
    omega
  rw [Int64.toInt_div_of_ne_left _ _ hne, hadd, h1000, Int.tdiv_eq_ediv_of_nonneg (by omega)]
  omega

theorem cmdTtl_fst (seconds : Bool) (name c k : Bytes) : (cmdTtl now S seconds name [c, k]).1 =
    Reply.integer (if (S.pttl now k).1 < 0 then (S.pttl now k).1
      else if seconds then ((S.pttl now k).1 + 999) / 1000 else (S.pttl now k).1).toInt := by
  simp only [cmdTtl]
  split <;> rfl

theorem cmdTtl_refines (hnow : 999 ≤ now) (seconds : Bool) (name c : Bytes) : ∀ a,
    Refines now S (.one (.ttl seconds) a) (cmdTtl now S seconds name (c :: a)).1
      (cmdTtl now S seconds name (c :: a)).2
  | [k] => by
    have h0 : (0 : Int64) ≤ now := Int64.le_trans (by decide) hnow
    refine .query ?_ (live_cmdTtl now S seconds name [c, k])
    rw [cmdTtl_fst, Store.pttl_fst, Query.answer]
    rcases hk : S.live now k with _ | ⟨v, _ | d⟩
    · exact .integer (-2)
    · exact .integer (-1)
    · have hd : now < d := by simpa using (Keyspace.eq_some_of_live hk).2
      obtain ⟨hsub, hpos⟩ := toInt_remaining h0 hd
      have hneg : ¬ d - now < 0 := by
        rw [Int64.lt_iff_toInt_lt, Int64.toInt_zero]
        omega
      dsimp only
      rw [if_neg hneg]
      cases seconds with
      | true =>
        rw [Query.timeLeft, if_pos rfl, ← toInt_seconds hnow hd]
        exact .integer _
      | false =>
        rw [Query.timeLeft, if_neg (by decide), ← hsub]
        exact .integer _
  | [] | _ :: _ :: _ => .malformed now S _

/-! ## The commands that write -/

/-- With KEEPTTL the deadline stays what it is. -/
theorem deadline_keep (hnow : 0 ≤ now) (k : Bytes) :
    Store.deadline (if 0 ≤ (S.pttl now k).1 then now + (S.pttl now k).1 else kNoExpiry) =
      (S.live now k).bind Prod.snd := by
  rw [Store.pttl_fst]
  rcases hk : S.live now k with _ | ⟨v, _ | d⟩
  · rfl
  · rfl
  · have hd : now < d := by simpa using (Keyspace.eq_some_of_live hk).2
    obtain ⟨-, hpos⟩ := toInt_remaining hnow hd
    have hle : 0 ≤ d - now := by
      rw [Int64.le_iff_toInt_le, Int64.toInt_zero]
      omega
    have hsum : now + (d - now) = d := by rw [Int64.add_comm, Int64.sub_add_cancel]
    have hne : d ≠ kNoExpiry := by
      rintro rfl
      exact absurd (Int64.lt_of_le_of_lt hnow hd) (by decide)
    dsimp only
    rw [if_pos hle, hsum, Store.deadline, if_neg hne]
    rfl

theorem cmdSet_refines (hnow : 0 ≤ now) (c : Bytes) : ∀ a,
    Refines now S (.assignment now a) (cmdSet now S (c :: a)).1.reply (cmdSet now S (c :: a)).2
  | k :: v :: rest => by
    cases ho : setOptions now {} rest with
    | error e =>
      simp only [Asked.assignment, cmdSet, ho]
      exact .malformed now S e
    | ok o =>
      simp only [Asked.assignment, cmdSet, ho]
      have hprevious := Store.get_fst S now k
      have hlive := Store.live_get S now k
      have hkeep := deadline_keep (S.get now k).2 hnow k
      have hpttl := Store.live_pttl (S.get now k).2 now k
      rw [hlive] at hkeep hpttl
      generalize (S.get now k).2 = S₁ at hlive hkeep hpttl ⊢
      have hallowed : ((o.nx = true ∧ (S.get now k).1.isSome = true) ∨
          (o.xx = true ∧ (S.get now k).1.isNone = true)) ↔ Query.allowed o (S.live now k) = false := by
        rw [hprevious, Query.allowed]
        cases o.nx <;> cases o.xx <;> cases S.live now k <;> simp
      by_cases hno : Query.allowed o (S.live now k) = false
      · rw [if_pos (hallowed.mpr hno)]
        refine .query ?_ ?_
        · simp only [Query.answer, hno, ← hprevious]
          cases o.get with
          | true => exact .value _
          | false => exact .value none
        · simp only [Query.next, hno, hlive]
          rfl
      · rw [if_neg fun h => hno (hallowed.mp h)]
        rw [Bool.not_eq_false] at hno
        refine .query ?_ ?_
        · simp only [Query.answer, hno, ← hprevious]
          cases o.get with
          | true => exact .value _
          | false => exact .status _
        · simp only [Query.next, hno, if_true, Query.newDeadline]
          cases o.keepttl with
          | true => rw [if_pos rfl, if_pos rfl, ← hkeep, Store.live_set, hpttl]
          | false => rw [if_neg (by decide), if_neg (by decide), Store.live_set, hlive]
  | [] | [_] => .malformed now S _

/-- A key that is there is counted once, however often it is named. -/
theorem eraseAll_fst : ∀ (ks : List Bytes) (S : Store),
    (eraseAll now ks S).1 = (ks.toFinset.filter fun k => (S.live now k).isSome).card
  | [], _ => rfl
  | k :: ks, S => by
    show (if (S.erase now k).1 then (eraseAll now ks (S.erase now k).2).1 + 1
      else (eraseAll now ks (S.erase now k).2).1) = _
    rw [eraseAll_fst ks, Store.live_erase, Store.erase_fst]
    have hrest : (ks.toFinset.filter fun k' => ((Write.del [k]).run now (S.live now) k').isSome) =
        (ks.toFinset.filter fun k' => (S.live now k').isSome).erase k := by
      ext k'
      simp only [Finset.mem_filter, Finset.mem_erase, Write.run, List.mem_singleton]
      by_cases hk : k' = k <;> simp [hk]
    rw [hrest, List.toFinset_cons, Finset.filter_insert]
    split
    · rw [← Finset.card_erase_add_one (Finset.mem_insert_self k _), Finset.erase_insert_eq_erase]
    · rw [Finset.erase_eq_of_notMem]
      simp_all

theorem cmdDel_refines (c : Bytes) : ∀ a,
    Refines now S (.several .del a) (cmdDel now S (c :: a)).1.reply (cmdDel now S (c :: a)).2
  | k :: ks => by
    refine .query ?_ (live_eraseAll (k :: ks) S)
    show Answer.Shown _ (Reply.integer (eraseAll now (k :: ks) S).1)
    rw [eraseAll_fst]
    exact .integer _
  | [] => .malformed now S _

theorem cmdExpire_refines (seconds absolute : Bool) (name c : Bytes) : ∀ a,
    Refines now S (.expiry now seconds absolute a) (cmdExpire now S seconds absolute name (c :: a)).1.reply
      (cmdExpire now S seconds absolute name (c :: a)).2
  | [k, time] => by
    simp only [Asked.expiry, cmdExpire]
    cases toInt64 time with
    | none => exact .malformed now S _
    | some n =>
      simp only [Option.bind_some]
      cases expireDeadline now n seconds absolute with
      | none => exact .malformed now S _
      | some d =>
        refine .query ?_ (Store.live_expireAt S now k d)
        simp only [Query.answer, Store.expireAt_fst]
        split <;> exact .integer _
  | [] | [_] | _ :: _ :: _ :: _ => .malformed now S _

theorem cmdPersist_refines (c : Bytes) : ∀ a,
    Refines now S (.one .persist a) (cmdPersist now S (c :: a)).1.reply (cmdPersist now S (c :: a)).2
  | [k] => by
    refine .query ?_ (Store.live_persist S now k)
    have happlied : (S.persist now k).1 = ((S.live now k).bind Prod.snd).isSome := by
      rw [Store.persist_fst]
      rcases S.live now k with _ | ⟨v, _ | d⟩ <;> rfl
    simp only [Query.answer, cmdPersist, happlied]
    split <;> exact .integer _
  | [] | _ :: _ :: _ => .malformed now S _

end

/-! ## Dispatch -/

section

variable {π ρ : Type} (table : CommandTable π ρ) {amb : Ambient} (link : Option ClientLink) {N : Node π ρ}

theorem runCommand_refines (hnow : 999 ≤ amb.now) (hN : N.store.Indexed) (name : CommandName) (c : Bytes)
    (a : Args) : Refines amb.now N.store (.named amb.now name a)
      (runCommand table amb (some name) link (c :: a) N).1.reply
      (runCommand table amb (some name) link (c :: a) N).2.store := by
  have h0 : (0 : Int64) ≤ amb.now := Int64.le_trans (by decide) hnow
  cases name with
  | set => exact cmdSet_refines N.store h0 c a
  | get => exact cmdGet_refines N.store c a
  | del => exact cmdDel_refines N.store c a
  | exists' => exact cmdExists_refines N.store c a
  | type => exact cmdType_refines N.store c a
  | keys => exact cmdKeys_refines N.store c a
  | expire | pexpire | expireat | pexpireat => exact cmdExpire_refines N.store _ _ _ c a
  | ttl | pttl => exact cmdTtl_refines N.store hnow _ _ c a
  | persist => exact cmdPersist_refines N.store c a
  | dbsize => exact cmdDbsize_refines N.store hN c a
  | flushall => exact .query (.status _) (Store.live_clear N.store amb.now)
  | replconf =>
    obtain ⟨reply, repl, he, -⟩ := cmdReplconf_cases table link (c :: a) N
    exact .other _ (by rw [runCommand, he])
  | psync =>
    obtain ⟨reply, repl, he, -⟩ := cmdPsync_cases table link N
    exact .other _ (by rw [runCommand, he])
  | replicaof =>
    obtain ⟨reply, repl, he, -⟩ := cmdReplicaof_cases table (c :: a) N
    exact .other _ (by rw [runCommand, he])
  | save | bgsave | bgrewriteaof =>
    rw [runCommand]
    obtain ⟨reply, pers, he, -⟩ := cmdPersistence_cases table N _ _
    exact .other _ (by rw [he])
  | ping | echo | config | info | command | select | quit => exact .other _ rfl

/-- The request is not refused for being a write to a read-only replica. -/
def Admitted (args : Args) (N : Node π ρ) : Prop :=
  ¬ (link.isSome = true ∧ (table.replication.any fun ops => ops.isReplica N.repl) = true ∧
    isWriteCommand (args.head?.bind commandName) = true)

/-- A dispatch does what is asked for, and replies with the answer. -/
theorem dispatch_refines (hnow : 999 ≤ amb.now) (hN : N.store.Indexed) {args : Args}
    (h : Admitted table link args N) : Refines amb.now N.store (.of amb.now args)
      (dispatch table amb link args N).1.reply (dispatch table amb link args N).2.store := by
  cases args with
  | nil => exact .other _ rfl
  | cons c a =>
    have hdispatch : (dispatch table amb link (c :: a) N).1.reply =
          (runCommand table amb (commandName c) link (c :: a) N).1.reply ∧
        (dispatch table amb link (c :: a) N).2 = (runCommand table amb (commandName c) link (c :: a) N).2 := by
      simp only [dispatch]
      rw [if_neg (by simpa [Admitted] using h)]
      dsimp only
      split <;> exact ⟨rfl, rfl⟩
    rw [hdispatch.1, hdispatch.2, Asked.of]
    cases commandName c with
    | none => exact .other _ rfl
    | some name => exact runCommand_refines table link hnow hN name c a

end

/-! ## Runs -/

namespace Reaping

variable (setup : Setup)

/-- A call's request, as the keyspace takes it. Upkeep is nothing to it. -/
def specStep (e : Event) (K : Database) : Database :=
  match e with
  | .call c => (Asked.of c.amb.now c.args).next c.amb.now (K.live c.amb.now)
  | _ => K

/-- The answer that a call's request is given by the keyspace, if it is a matter of the keyspace. -/
noncomputable def specAnswer (e : Event) (K : Database) : List (Option Answer) :=
  match e with
  | .call c => [(Asked.of c.amb.now c.args).answer c.amb.now (K.live c.amb.now)]
  | _ => []

/-- A call is not refused for being a write to a read-only replica. -/
def Heard (e : Event) (N : Node Persistence Net) : Prop :=
  match e with
  | .call c => Admitted (setup.table c) c.link c.args N
  | _ => True

/-- The server's store has the keyspace's keys. -/
structure Holds (t : Int64) (N : Node Persistence Net) (K : Database) : Prop where
  indexed : N.store.Indexed
  live : N.store.live t = K.live t

/-- The reply to a call shows the answer, if there is one. -/
def Told (x : Args × CommandResult) (a : Option Answer) : Prop := ∀ a' ∈ a, a'.Shown x.2.reply

theorem holds_step {e : Event} {N : Node Persistence Net} {K : Database} (hnow : 999 ≤ e.time)
    (hheard : Heard setup e N) (h : Holds e.time N K) :
    List.Forall₂ Told (answer setup e N) (specAnswer e K) ∧
      Holds e.time (step setup e N) (specStep e K) := by
  cases e with
  | call c =>
    obtain ⟨hshown, hlive⟩ := dispatch_refines (setup.table c) c.link hnow h.indexed hheard
    have hK : N.store.live c.amb.now = K.live c.amb.now := h.live
    rw [hK] at hshown hlive
    have hindexed := (dispatch_operates (setup.table c) c.amb c.link c.args N).indexed h.indexed
    refine ⟨.cons hshown .nil, hindexed, ?_⟩
    show _ = Keyspace.live _ (Asked.next _ _ _)
    rw [← hlive]
    exact (Keyspace.live_live (Int64.le_refl _) _).symm
  | cycle now layout cfg =>
    refine ⟨.nil, h.indexed.run now (.activeExpireCycle layout cfg), ?_⟩
    exact (Store.live_activeExpireCycle layout cfg now N.store).trans h.live
  | reap now limit =>
    refine ⟨.nil, h.indexed.run now (.reapExpired limit), ?_⟩
    exact (Store.live_reapExpired limit now N.store).trans h.live

/-- A key whose deadline outlives its first value, and which is reaped when it has come. -/
def lifetime : List Event :=
  [.call { amb := ⟨1000, []⟩, args := [str "SET", str "k", str "v", str "PX", str "1500"] },
    .call { amb := ⟨1000, []⟩, args := [str "TTL", str "k"] },
    .cycle 2000 (fun index => [index.keys]) {},
    .call { amb := ⟨2400, []⟩, args := [str "SET", str "k", str "w", str "KEEPTTL", str "GET"] },
    .call { amb := ⟨2400, []⟩, args := [str "PTTL", str "k"] }, .reap 2500 10,
    .call { amb := ⟨2600, []⟩, args := [str "GET", str "k"] }]

theorem heard_alone (e : Event) (N : Node Persistence Net) : Heard {} e N := by
  cases e with
  | call c => simp [Heard, Admitted, Setup.table]
  | cycle => trivial
  | reap => trivial

end Reaping

end RP
