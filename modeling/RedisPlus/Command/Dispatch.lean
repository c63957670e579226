import RedisPlus.Resp.Encode
import RedisPlus.Store.Basic

/-!
# The command table

`dispatch` runs one parsed command: it replies, changes the store, and for a command that
changed the keyspace says in `propagate` what the AOF and the replicas are to be given. What
it needs of persistence and replication it calls through `PersistenceOps` and
`ReplicationOps`, whose states `π` and `ρ` it passes on.
-/

namespace RP

/-- A connection's handle. -/
abbrev ClientLink := Nat

/-- `CommandResult`: the reply, and what the handler hands to persistence and replication. -/
structure CommandResult where
  reply : Bytes := []
  /-- Did this command change the keyspace? -/
  dirty : Bool := false
  propagate : Args := []
deriving DecidableEq

/-- What SAVE, BGSAVE, BGREWRITEAOF and INFO need. A failure gives its error text. -/
structure PersistenceOps (π : Type) where
  save : Store → π → Except Bytes Unit × π
  backgroundSave : Store → π → Except Bytes Unit × π
  rewriteAof : Store → π → Except Bytes Unit × π
  infoSection : π → Bytes

/-- What the command table and the handler need of replication. The link is none for
`nullptr`. -/
structure ReplicationOps (ρ : Type) where
  startFullResync : Store → Option ClientLink → ρ → ρ
  onReplicaAck : Option ClientLink → Int64 → ρ → ρ
  setReplicaPort : Option ClientLink → Int64 → ρ → ρ
  onDisconnect : Option ClientLink → ρ → ρ
  replicaof : Bytes → Int64 → ρ → Except Bytes Unit × ρ
  stopReplication : ρ → ρ
  isReplica : ρ → Bool
  infoSection : ρ → Bytes

/-- The table's pointers, which may be null. -/
structure CommandTable (π ρ : Type) where
  persistence : Option (PersistenceOps π) := none
  replication : Option (ReplicationOps ρ) := none

/-- What a dispatch reads from outside: the clock, and the text of `Stats::to_info`. -/
structure Ambient where
  now : Int64
  statsInfo : Bytes := []

/-- The state a dispatch may change. -/
structure Node (π ρ : Type) where
  store : Store
  pers : π
  repl : ρ

/-- The error for an argument that is no `int64_t`. -/
def kNotInteger : Bytes := str "ERR value is not an integer or out of range"

/-- The error for options of SET that do not parse. -/
def kSyntaxError : Bytes := str "ERR syntax error"

/-- The error for an expiry of SET that is not accepted. -/
def kInvalidExpire : Bytes := str "ERR invalid expire time in 'set' command"

/-! ## Commands that only read -/

/-- `cmd_ping` -/
def cmdPing : Args → Bytes
  | [_] => Reply.simple (str "PONG")
  | [_, a] => Reply.bulk a
  | _ => Reply.wrongArity (str "ping")

/-- `cmd_echo` -/
def cmdEcho : Args → Bytes
  | [_, a] => Reply.bulk a
  | _ => Reply.wrongArity (str "echo")

/-- A bulk reply, null for none. -/
def bulkOrNull : Option Bytes → Bytes
  | some v => Reply.bulk v
  | none => Reply.nullBulk

/-- `cmd_get` -/
def cmdGet (now : Int64) (S : Store) : Args → Bytes × Store
  | [_, key] => (bulkOrNull (S.get now key).1, (S.get now key).2)
  | _ => (Reply.wrongArity (str "get"), S)

/-- How many of `keys` exist, duplicates counted. -/
def countExisting (now : Int64) : List Bytes → Store → Nat × Store
  | [], S => (0, S)
  | key :: keys, S =>
    let (found, S) := S.contains now key
    let (count, S) := countExisting now keys S
    (if found then count + 1 else count, S)

/-- `cmd_exists` -/
def cmdExists (now : Int64) (S : Store) : Args → Bytes × Store
  | _ :: key :: keys =>
    let (found, S) := countExisting now (key :: keys) S
    (Reply.integer found, S)
  | _ => (Reply.wrongArity (str "exists"), S)

/-- `cmd_type`: every value is a string. -/
def cmdType (now : Int64) (S : Store) : Args → Bytes × Store
  | [_, key] =>
    let (found, S) := S.contains now key
    (Reply.simple (if found then str "string" else str "none"), S)
  | _ => (Reply.wrongArity (str "type"), S)

/-- `cmd_keys` -/
def cmdKeys (now : Int64) (S : Store) : Args → Bytes × Store
  | [_, pattern] =>
    let (found, S) := S.keys now pattern
    (Reply.arrayHeader found.length ++ found.flatMap Reply.bulk, S)
  | _ => (Reply.wrongArity (str "keys"), S)

/-- TTL and PTTL; seconds are rounded up. -/
def cmdTtl (now : Int64) (S : Store) (seconds : Bool) (name : Bytes) : Args → Bytes × Store
  | [_, key] =>
    let (ms, S) := S.pttl now key
    if ms < 0 then (Reply.integer ms.toInt, S)
    else (Reply.integer (if seconds then (ms + 999) / 1000 else ms).toInt, S)
  | _ => (Reply.wrongArity name, S)

/-- The parameters that CONFIG GET knows of. -/
def configParams : List (Bytes × Bytes) :=
  [(str "save", str ""), (str "appendonly", str "no"), (str "maxmemory", str "0")]

/-- `cmd_config`: GET answers from `configParams`, SET does nothing. -/
def cmdConfig (a : Args) : Bytes :=
  match a with
  | _ :: sub :: rest =>
    if iequals sub (str "GET") then
      match rest with
      | [pattern] =>
        let found := configParams.filter fun p => globMatch pattern p.1
        Reply.arrayHeader (2 * found.length) ++ found.flatMap fun p => Reply.bulk p.1 ++ Reply.bulk p.2
      | _ => Reply.wrongArity (str "config|get")
    else if iequals sub (str "SET") then Reply.ok
    else Reply.error (str "ERR Unknown CONFIG subcommand")
  | _ => Reply.error (str "ERR Unknown CONFIG subcommand")

/-- The reply is signed: `size_t` is cast to `int64_t`. -/
def cmdDbsize (now : Int64) (S : Store) : Args → Bytes
  | [_] => Reply.integer (Int64.ofNat (S.size now)).toInt
  | _ => Reply.wrongArity (str "dbsize")

/-- One `name:value` line of INFO. -/
def infoField (name : String) (value : Bytes) : Bytes := str name ++ value ++ crlf

/-- `cmd_info`, with the sections of persistence and replication if there are any. -/
def cmdInfo (amb : Ambient) (S : Store) (persistence replication : Option Bytes) : Bytes :=
  let expiry := S.stats
  Reply.bulk <|
    amb.statsInfo
    ++ infoField "expired_keys:" (natToString (expiry.expiredLazy + expiry.expiredActive))
    ++ infoField "expired_keys_lazy:" (natToString expiry.expiredLazy)
    ++ infoField "expired_keys_active:" (natToString expiry.expiredActive)
    ++ infoField "active_expire_cycles:" (natToString expiry.cycles)
    ++ infoField "active_expire_passes:" (natToString expiry.passes)
    ++ (persistence.elim [] fun text => str "\r\n# Persistence\r\n" ++ text)
    ++ (replication.elim [] fun text => str "\r\n# Replication\r\n" ++ text)
    ++ str "\r\n# Keyspace\r\n"
    ++ str "db0:keys=" ++ natToString (S.size amb.now)
    ++ str ",expires=" ++ natToString S.expiresSize
    ++ str ",tracked=" ++ natToString S.rawSize ++ crlf

/-! ## Commands that write -/

/-- What `cmd_set` has read of its options. -/
structure SetOptions where
  expireAt : Int64 := kNoExpiry
  keepttl : Bool := false
  nx : Bool := false
  xx : Bool := false
  get : Bool := false
deriving DecidableEq

/-- EX, PX, EXAT and PXAT: whether the time is relative, and whether it is in seconds. -/
def expiryOption (opt : Bytes) : Option (Bool × Bool) :=
  if opt = str "EX" then some (true, true)
  else if opt = str "PX" then some (true, false)
  else if opt = str "EXAT" then some (false, true)
  else if opt = str "PXAT" then some (false, false)
  else none

/-- The deadline that an option of SET gives. -/
def setDeadline (now : Int64) (relative seconds : Bool) (arg : Bytes) : Except Bytes Int64 :=
  match toInt64 arg with
  | none => .error kNotInteger
  | some n =>
    if seconds ∧ Int64.maxValue / 1000 < n then .error kInvalidExpire
    else
      let n := if seconds then n * 1000 else n
      if relative ∧ n ≤ 0 then .error kInvalidExpire
      else .ok (if relative then now + n else n)

/-- An option of SET that takes no argument. -/
def setFlag (o : SetOptions) (opt : Bytes) : Except Bytes SetOptions :=
  if opt = str "KEEPTTL" then
    if o.expireAt ≠ kNoExpiry then .error kSyntaxError else .ok { o with keepttl := true }
  else if opt = str "NX" then
    if o.xx then .error kSyntaxError else .ok { o with nx := true }
  else if opt = str "XX" then
    if o.nx then .error kSyntaxError else .ok { o with xx := true }
  else if opt = str "GET" then .ok { o with get := true }
  else .error kSyntaxError

/-- The loop over the options of SET. -/
def setOptions (now : Int64) : SetOptions → List Bytes → Except Bytes SetOptions
  | o, [] => .ok o
  | o, [arg] =>
    if (expiryOption (upper arg)).isSome then .error kSyntaxError
    else setFlag o (upper arg)
  | o, opt :: arg :: rest =>
    match expiryOption (upper opt) with
    | some (relative, seconds) =>
      if o.expireAt ≠ kNoExpiry ∨ o.keepttl then .error kSyntaxError
      else match setDeadline now relative seconds arg with
        | .error e => .error e
        | .ok expireAt => setOptions now { o with expireAt } rest
    | none =>
      match setFlag o (upper opt) with
      | .error e => .error e
      | .ok o => setOptions now o (arg :: rest)

/-- The canonical form of a write of `key`. -/
def setCanonical (key value : Bytes) (expireAt : Int64) : Args :=
  [str "SET", key, value] ++
    if expireAt ≠ kNoExpiry then [str "PXAT", intToString expireAt.toInt] else []

/-- `cmd_set`; what it propagates is SET with an absolute deadline. -/
def cmdSet (now : Int64) (S : Store) : Args → CommandResult × Store
  | _ :: key :: value :: rest =>
    match setOptions now {} rest with
    | .error e => ({ reply := Reply.error e }, S)
    | .ok o =>
      let (previous, S) := S.get now key
      if (o.nx ∧ previous.isSome) ∨ (o.xx ∧ previous.isNone) then
        ({ reply := if o.get then bulkOrNull previous else Reply.nullBulk }, S)
      else
        let (expireAt, S) :=
          if o.keepttl then
            let (remaining, S) := S.pttl now key
            (if 0 ≤ remaining then now + remaining else kNoExpiry, S)
          else (o.expireAt, S)
        ({ reply := if o.get then bulkOrNull previous else Reply.ok
           dirty := true
           propagate := setCanonical key value expireAt }, S.set key value expireAt)
  | _ => ({ reply := Reply.wrongArity (str "set") }, S)

/-- Erase each key; how many were there. -/
def eraseAll (now : Int64) : List Bytes → Store → Nat × Store
  | [], S => (0, S)
  | key :: keys, S =>
    let (erased, S) := S.erase now key
    let (removed, S) := eraseAll now keys S
    (if erased then removed + 1 else removed, S)

/-- `cmd_del`, dirty if a key was removed. -/
def cmdDel (now : Int64) (S : Store) (a : Args) : CommandResult × Store :=
  match a with
  | _ :: key :: keys =>
    let (removed, S) := eraseAll now (key :: keys) S
    ({ reply := Reply.integer removed
       dirty := 0 < removed
       propagate := if 0 < removed then a else [] }, S)
  | _ => ({ reply := Reply.wrongArity (str "del") }, S)

/-- The absolute deadline that EXPIRE and its variants give, none when it is out of range. -/
def expireDeadline (now n : Int64) (seconds absolute : Bool) : Option Int64 :=
  if seconds ∧ (Int64.maxValue / 1000 < n ∨ n < Int64.minValue / 1000) then none
  else
    let n := if seconds then n * 1000 else n
    some (if absolute then n else now + n)

/-- `cmd_expire`, for the four commands that set a deadline. -/
def cmdExpire (now : Int64) (S : Store) (seconds absolute : Bool) (name : Bytes) :
    Args → CommandResult × Store
  | [_, key, time] =>
    match toInt64 time with
    | none => ({ reply := Reply.error kNotInteger }, S)
    | some n =>
      match expireDeadline now n seconds absolute with
      | none => ({ reply := Reply.error kInvalidExpire }, S)
      | some deadline =>
        let (applied, S) := S.expireAt now key deadline
        ({ reply := Reply.integer (if applied then 1 else 0)
           dirty := applied
           propagate := if applied then [str "PEXPIREAT", key, intToString deadline.toInt] else [] }, S)
  | _ => ({ reply := Reply.wrongArity name }, S)

/-- `cmd_persist` -/
def cmdPersist (now : Int64) (S : Store) (a : Args) : CommandResult × Store :=
  match a with
  | [_, key] =>
    let (applied, S) := S.persist now key
    ({ reply := Reply.integer (if applied then 1 else 0)
       dirty := applied
       propagate := if applied then a else [] }, S)
  | _ => ({ reply := Reply.wrongArity (str "persist") }, S)

/-- `cmd_flushall`, which is always dirty. -/
def cmdFlushall (S : Store) (a : Args) : CommandResult × Store :=
  ({ reply := Reply.ok, dirty := true, propagate := a }, S.clear)

/-! ## Dispatch -/

/-- The commands that `dispatch` compares the upper-case name with. -/
inductive CommandName where
  | replconf | psync | replicaof
  | ping | echo | set | get | del | exists' | type | keys
  | expire | pexpire | expireat | pexpireat | ttl | pttl | persist
  | config | dbsize | flushall | save | bgsave | bgrewriteaof | info | command | select | quit
deriving DecidableEq

/-- The names `dispatch` compares with, aliases included. -/
def commandNames : List (Bytes × CommandName) :=
  [(str "REPLCONF", .replconf), (str "PSYNC", .psync), (str "REPLICAOF", .replicaof),
    (str "SLAVEOF", .replicaof), (str "PING", .ping), (str "ECHO", .echo), (str "SET", .set),
    (str "GET", .get), (str "DEL", .del), (str "UNLINK", .del), (str "EXISTS", .exists'),
    (str "TYPE", .type), (str "KEYS", .keys), (str "EXPIRE", .expire), (str "PEXPIRE", .pexpire),
    (str "EXPIREAT", .expireat), (str "PEXPIREAT", .pexpireat), (str "TTL", .ttl),
    (str "PTTL", .pttl), (str "PERSIST", .persist), (str "CONFIG", .config),
    (str "DBSIZE", .dbsize), (str "FLUSHALL", .flushall), (str "FLUSHDB", .flushall),
    (str "SAVE", .save), (str "BGSAVE", .bgsave), (str "BGREWRITEAOF", .bgrewriteaof),
    (str "INFO", .info), (str "COMMAND", .command), (str "SELECT", .select), (str "QUIT", .quit)]

/-- The command a request's first argument names, in any case. -/
def commandName (arg : Bytes) : Option CommandName := commandNames.lookup (upper arg)

/-- Commands a read-only replica must refuse from ordinary clients. -/
def isWriteCommand : Option CommandName → Bool
  | some .set | some .del | some .expire | some .pexpire | some .expireat | some .pexpireat
  | some .persist | some .flushall => true
  | _ => false

/-- The reply to any other name, with its first arguments as they are. -/
def unknownCommand (args : Args) : Bytes :=
  Reply.error <| str "ERR unknown command '" ++ args.headD [] ++ str "', with args beginning with: "
    ++ (args.tail.take 3).flatMap fun a => str "'" ++ a ++ str "' "

/-- The reply of a server without replication. -/
def replicationDisabled : Bytes := Reply.error (str "ERR replication is not enabled")

section

variable {π ρ : Type}

/-- REPLCONF: an ACK is not replied to. -/
def cmdReplconf (table : CommandTable π ρ) (link : Option ClientLink) (args : Args) (N : Node π ρ) :
    CommandResult × Node π ρ :=
  match table.replication, args with
  | some ops, _ :: sub :: value :: _ =>
    if upper sub = str "ACK" then
      -- the one command that gets no reply
      ({}, { N with repl := ops.onReplicaAck link ((toInt64 value).getD 0) N.repl })
    else if upper sub = str "LISTENING-PORT" then
      match toInt64 value with
      | some port =>
        if 0 < port ∧ port ≤ 65535 then
          ({ reply := Reply.ok }, { N with repl := ops.setReplicaPort link port N.repl })
        else ({ reply := Reply.ok }, N)
      | none => ({ reply := Reply.ok }, N)
    else ({ reply := Reply.ok }, N)
  | _, _ => ({ reply := Reply.ok }, N)

/-- PSYNC: the reply is sent by replication itself. -/
def cmdPsync (table : CommandTable π ρ) (link : Option ClientLink) (N : Node π ρ) :
    CommandResult × Node π ρ :=
  match table.replication with
  | none => ({ reply := replicationDisabled }, N)
  | some ops => ({}, { N with repl := ops.startFullResync N.store link N.repl })

/-- REPLICAOF: `NO ONE` stops following, anything else starts it. -/
def cmdReplicaof (table : CommandTable π ρ) (args : Args) (N : Node π ρ) :
    CommandResult × Node π ρ :=
  match args with
  | [_, host, port] =>
    match table.replication with
    | none => ({ reply := replicationDisabled }, N)
    | some ops =>
      if iequals host (str "NO") ∧ iequals port (str "ONE") then
        ({ reply := Reply.ok }, { N with repl := ops.stopReplication N.repl })
      else match toInt64 port with
        | none => ({ reply := Reply.error (str "ERR Invalid master port") }, N)
        | some p =>
          if p ≤ 0 ∨ 65535 < p then ({ reply := Reply.error (str "ERR Invalid master port") }, N)
          else match ops.replicaof host p N.repl with
            | (.ok _, repl) => ({ reply := Reply.ok }, { N with repl })
            | (.error e, repl) => ({ reply := Reply.error (str "ERR " ++ e) }, { N with repl })
  | _ => ({ reply := Reply.wrongArity (str "replicaof") }, N)

/-- SAVE, BGSAVE and BGREWRITEAOF: `op` is the operation, `started` the reply to its success. -/
def cmdPersistence (table : CommandTable π ρ)
    (op : PersistenceOps π → Store → π → Except Bytes Unit × π) (started : Bytes) (N : Node π ρ) :
    CommandResult × Node π ρ :=
  match table.persistence with
  | none => ({ reply := Reply.error (str "ERR persistence is disabled on this server") }, N)
  | some ops =>
    match op ops N.store N.pers with
    | (.ok _, pers) => ({ reply := started }, { N with pers })
    | (.error e, pers) => ({ reply := Reply.error (str "ERR " ++ e) }, { N with pers })

/-- A command that only reads. -/
def Node.reads (r : Bytes × Store) (N : Node π ρ) : CommandResult × Node π ρ :=
  ({ reply := r.1 }, { N with store := r.2 })

/-- A command on the store that may write. -/
def Node.writes (r : CommandResult × Store) (N : Node π ρ) : CommandResult × Node π ρ :=
  (r.1, { N with store := r.2 })

/-- The commands, by name. -/
def runCommand (table : CommandTable π ρ) (amb : Ambient) (name : Option CommandName)
    (link : Option ClientLink) (args : Args) (N : Node π ρ) : CommandResult × Node π ρ :=
  match name with
  | some .replconf => cmdReplconf table link args N
  | some .psync => cmdPsync table link N
  | some .replicaof => cmdReplicaof table args N
  | some .ping => ({ reply := cmdPing args }, N)
  | some .echo => ({ reply := cmdEcho args }, N)
  | some .set => N.writes (cmdSet amb.now N.store args)
  | some .get => N.reads (cmdGet amb.now N.store args)
  | some .del => N.writes (cmdDel amb.now N.store args)
  | some .exists' => N.reads (cmdExists amb.now N.store args)
  | some .type => N.reads (cmdType amb.now N.store args)
  | some .keys => N.reads (cmdKeys amb.now N.store args)
  | some .expire => N.writes (cmdExpire amb.now N.store true false (str "expire") args)
  | some .pexpire => N.writes (cmdExpire amb.now N.store false false (str "pexpire") args)
  | some .expireat => N.writes (cmdExpire amb.now N.store true true (str "expireat") args)
  | some .pexpireat => N.writes (cmdExpire amb.now N.store false true (str "pexpireat") args)
  | some .ttl => N.reads (cmdTtl amb.now N.store true (str "ttl") args)
  | some .pttl => N.reads (cmdTtl amb.now N.store false (str "pttl") args)
  | some .persist => N.writes (cmdPersist amb.now N.store args)
  | some .config => ({ reply := cmdConfig args }, N)
  | some .dbsize => ({ reply := cmdDbsize amb.now N.store args }, N)
  | some .flushall => N.writes (cmdFlushall N.store args)
  | some .save => cmdPersistence table PersistenceOps.save Reply.ok N
  | some .bgsave =>
    cmdPersistence table PersistenceOps.backgroundSave
      (Reply.simple (str "Background saving started")) N
  | some .bgrewriteaof =>
    cmdPersistence table PersistenceOps.rewriteAof
      (Reply.simple (str "Background append only file rewriting started")) N
  | some .info =>
    ({ reply := cmdInfo amb N.store (table.persistence.map fun ops => ops.infoSection N.pers)
        (table.replication.map fun ops => ops.infoSection N.repl) }, N)
  | some .command => ({ reply := Reply.emptyArray }, N)
  | some .select => ({ reply := Reply.ok }, N)
  | some .quit => ({ reply := Reply.ok }, N)
  | none => ({ reply := unknownCommand args }, N)

/-- The reply to a client's write on a replica. -/
def readOnlyReplica : Bytes :=
  Reply.error (str "READONLY You can't write against a read only replica.")

/-- `CommandTable::dispatch` -/
def dispatch (table : CommandTable π ρ) (amb : Ambient) (link : Option ClientLink) (args : Args)
    (N : Node π ρ) : CommandResult × Node π ρ :=
  match args with
  | [] => ({}, N)
  | arg :: _ =>
    let name := commandName arg
    let replica := table.replication.any fun ops => ops.isReplica N.repl
    if link.isSome ∧ replica ∧ isWriteCommand name then ({ reply := readOnlyReplica }, N)
    else
      let (result, N) := runCommand table amb name link args N
      (if result.dirty ∧ result.propagate = [] then { result with propagate := args } else result, N)

/-- `RespHandler::apply_silently` -/
def applySilently (table : CommandTable π ρ) (amb : Ambient) (args : Args) (N : Node π ρ) : Node π ρ :=
  (dispatch table amb none args N).2

end

/-- A server without persistence or replication, with an empty store. -/
def bareNode : Node Unit Unit := ⟨{}, (), ()⟩

end RP
