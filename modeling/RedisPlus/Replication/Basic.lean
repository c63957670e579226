import RedisPlus.Buffer
import RedisPlus.Command.Dispatch
import RedisPlus.Rdb.Format

/-!
# Replication, on the master's side, and the sessions it writes to

`Session` is a connection of the asio backend. Everything it puts out goes through `pending`
and `out`, and a connection whose output passes the cap is closed from within `send`. Closing
calls back into `Replication::on_disconnect`, which erases the connection's replicas, so the
operations are on `Net`: the replication object together with the sessions.

`propagate` sends to each replica in a range-for over `replicas_`, whose end is taken at the
start (`fanOut`). A `send` that closes its session makes `replicas_` shorter during that loop.
-/

namespace RP

/-- What a session reads of its configuration. -/
structure ServerConfig where
  maxOutputBuffer : UInt64 := 64 * 1024 * 1024

/-! ## Sessions -/

/-- `Session` of the asio backend. -/
structure Session where
  input : Buffer := Buffer.empty
  out : Bytes := []
  pending : Bytes := []
  /-- The size of the `async_write` of `out` that is in flight. -/
  writing : Option Nat := none
  closed : Bool := false
  peer : Bytes := []
  /-- The bytes of the writes that completed. -/
  written : Bytes := []
  /-- An `async_read_some` is under way, or has completed and its callback is due. -/
  reading : Bool := true

namespace Session

/-- Everything that was put out on this connection. -/
def sent (s : Session) : Bytes := s.written ++ s.out ++ s.pending

/-- What the cap is on. -/
def load (s : Session) : Nat := s.out.length + s.pending.length

/-- `pending_.append` -/
def append (data : Bytes) (s : Session) : Session := { s with pending := s.pending ++ data }

/-- Start a write, unless one is in flight or there is nothing to write. -/
def flush (s : Session) : Session :=
  if s.writing.isSome then s
  else
    let s := { s with out := s.out ++ s.pending, pending := [] }
    if s.out = [] then s else { s with writing := some s.out.length }

/-- The write in flight completed without an error. -/
def onWritten (s : Session) : Session :=
  match s.writing with
  | none => s
  | some n =>
    { s with writing := none, written := s.written ++ s.out.take n, out := s.out.drop n : Session }.flush

@[simp] theorem sent_append (data : Bytes) (s : Session) : (s.append data).sent = s.sent ++ data := by
  simp [sent, append]

@[simp] theorem load_append (data : Bytes) (s : Session) :
    (s.append data).load = s.load + data.length := by
  simp [load, append, Nat.add_assoc]

@[simp] theorem closed_append (data : Bytes) (s : Session) : (s.append data).closed = s.closed := rfl

@[simp] theorem sent_flush (s : Session) : s.flush.sent = s.sent := by
  simp only [flush]
  split
  · rfl
  · split <;> simp [sent]

@[simp] theorem load_flush (s : Session) : s.flush.load = s.load := by
  simp only [flush]
  split
  · rfl
  · split <;> simp [load]

@[simp] theorem closed_flush (s : Session) : s.flush.closed = s.closed := by
  simp only [flush]
  split
  · rfl
  · split <;> rfl

@[simp] theorem sent_onWritten (s : Session) : s.onWritten.sent = s.sent := by
  simp only [onWritten]
  split
  · rfl
  · rw [sent_flush, sent, List.append_assoc s.written, List.take_append_drop]
    rfl

@[simp] theorem closed_onWritten (s : Session) : s.onWritten.closed = s.closed := by
  simp only [onWritten]
  split
  · rfl
  · simp

end Session

/-! ## Replication -/

/-- A replication id: 40 hexadecimal digits. -/
structure Replid where
  bytes : Bytes
  length_eq : bytes.length = 40
  hex : ∀ c ∈ bytes, c ∈ str "0123456789abcdef"

/-- What the master knows of a replica. -/
structure Replica where
  link : ClientLink
  address : Bytes
  listeningPort : UInt16 := 0
  ackOffset : Int64 := 0

/-- `LinkState`, the replica's link to its master. -/
inductive LinkState where
  | none | connecting | handshaking | syncing | connected
deriving DecidableEq

/-- Its name in INFO. -/
def linkStateName : LinkState → Bytes
  | .connecting => str "connect"
  | .handshaking => str "handshake"
  | .syncing => str "sync"
  | .connected => str "up"
  | .none => str "down"

/-- The state of `Replication`, as master and as replica. -/
structure Replication where
  replid : Replid
  /-- `server_` is set. -/
  attached : Bool := true
  -- the master's side
  masterOffset : Int64 := 0
  replicas : List Replica := []
  pendingPorts : Option ClientLink → Option UInt16 := fun _ => none
  -- the replica's side
  replicaOfHost : Bytes := []
  replicaOfPort : UInt16 := 0
  linkState : LinkState := .none
  replicaOffset : Int64 := 0
  linkError : Bytes := []

namespace Replication

/-- The links in `replicas_`. -/
def links (R : Replication) : List ClientLink := R.replicas.map Replica.link

/-- `Replication::set_replica_port`, which may come before the replica is one. -/
def setReplicaPort (link : Option ClientLink) (port : UInt16) (R : Replication) : Replication :=
  { R with
    replicas := R.replicas.map fun r => if some r.link = link then { r with listeningPort := port } else r
    pendingPorts := Function.update R.pendingPorts link (some port) }

/-- `Replication::on_replica_ack` -/
def onReplicaAck (link : Option ClientLink) (offset : Int64) (R : Replication) : Replication :=
  { R with
    replicas := R.replicas.map fun r => if some r.link = link then { r with ackOffset := offset } else r }

/-- `Replication::on_disconnect` -/
def onDisconnect (link : Option ClientLink) (R : Replication) : Replication :=
  { R with
    replicas := R.replicas.filter fun r => some r.link ≠ link
    pendingPorts := Function.update R.pendingPorts link none }

/-- `Replication::stop_replication` -/
def stopReplication (R : Replication) : Replication :=
  { R with replicaOfHost := [], replicaOfPort := 0, linkState := .none }

/-- `Replication::replicaof` -/
def replicaof (host : Bytes) (port : UInt16) (R : Replication) : Except Bytes Unit × Replication :=
  if R.attached then
    (.ok (), { R.stopReplication with
      replicaOfHost := host, replicaOfPort := port, linkState := .connecting, replicaOffset := 0 })
  else (.error (str "replication is not attached to a server"), R)

/-- `Replication::is_replica` -/
def isReplica (R : Replication) : Bool := R.replicaOfPort ≠ 0

/-- The line of a replica in INFO. -/
def infoReplica (R : Replication) (i : Nat) (r : Replica) : Bytes :=
  str "slave" ++ natToString i ++ str ":addr=" ++ r.address ++ str ",port="
    ++ natToString r.listeningPort.toNat ++ str ",state=online,offset=" ++ intToString r.ackOffset.toInt
    ++ str ",lag=" ++ intToString (R.masterOffset - r.ackOffset).toInt ++ crlf

/-- `Replication::info_section` -/
def infoSection (R : Replication) : Bytes :=
  (if R.isReplica then
    infoField "role:" (str "slave")
    ++ infoField "master_host:" R.replicaOfHost
    ++ infoField "master_port:" (natToString R.replicaOfPort.toNat)
    ++ infoField "master_link_status:" (if R.linkState = .connected then str "up" else str "down")
    ++ infoField "master_link_state:" (linkStateName R.linkState)
    ++ infoField "slave_read_only:" (str "1")
    ++ infoField "slave_repl_offset:" (intToString R.replicaOffset.toInt)
    ++ (if R.linkError = [] then [] else infoField "master_link_error:" R.linkError)
  else infoField "role:" (str "master"))
  ++ infoField "connected_slaves:" (natToString R.replicas.length)
  ++ (R.replicas.mapIdx (infoReplica R)).flatten
  ++ infoField "master_replid:" R.replid.bytes
  ++ infoField "master_repl_offset:" (intToString R.masterOffset.toInt)

@[simp] theorem links_setReplicaPort (link : Option ClientLink) (port : UInt16) (R : Replication) :
    (R.setReplicaPort link port).links = R.links := by
  simp only [links, setReplicaPort, List.map_map]
  exact List.map_congr_left fun r _ => by simp only [Function.comp]; split <;> rfl

@[simp] theorem links_onReplicaAck (link : Option ClientLink) (offset : Int64) (R : Replication) :
    (R.onReplicaAck link offset).links = R.links := by
  simp only [links, onReplicaAck, List.map_map]
  exact List.map_congr_left fun r _ => by simp only [Function.comp]; split <;> rfl

theorem links_onDisconnect (link : ClientLink) (R : Replication) :
    (R.onDisconnect (some link)).links = R.links.filter (· ≠ link) := by
  simp only [links, onDisconnect, List.filter_map]
  congr 1
  exact List.filter_congr fun r _ => by simp

end Replication

/-- The replication object and the sessions. A link that no connection has is as one that is
closed. -/
structure Net where
  repl : Replication
  sessions : ClientLink → Session := fun _ => { closed := true, reading := false }
  /-- A position outside `replicas_` was accessed. -/
  outside : Bool := false

namespace Net

/-- The connections that are replicas. -/
def links (N : Net) : List ClientLink := N.repl.links

/-- Is the session closed? -/
def closed (N : Net) (link : ClientLink) : Bool := (N.sessions link).closed

/-- What the session's peer has been sent. -/
def sent (N : Net) (link : ClientLink) : Bytes := (N.sessions link).sent

/-- Another state for a session. -/
def put (link : ClientLink) (s : Session) (N : Net) : Net :=
  { N with sessions := Function.update N.sessions link s }

/-- `Session::do_close` -/
def doClose (link : ClientLink) (N : Net) : Net :=
  if N.closed link then N
  else
    let N := N.put link { N.sessions link with closed := true }
    { N with repl := N.repl.onDisconnect (some link) }

section

variable (cfg : ServerConfig)

/-- Is the session's output over the cap? -/
def overCap (s : Session) : Bool := cfg.maxOutputBuffer.toNat < s.load

/-- `Session::send` -/
def send (link : ClientLink) (data : Bytes) (N : Net) : Net :=
  if N.closed link then N
  else
    let s := (N.sessions link).append data
    if overCap cfg s then (N.put link s).doClose link else N.put link s.flush

/-- The first line of the answer to PSYNC. -/
def fullresyncLine (R : Replication) : Bytes :=
  str "+FULLRESYNC " ++ R.replid.bytes ++ str " " ++ intToString R.masterOffset.toInt ++ crlf

/-- The line before the snapshot. -/
def rdbLengthLine (payload : Bytes) : Bytes := str "$" ++ natToString payload.length ++ crlf

/-- What the snapshot is sent as: no CRLF follows it. -/
def rdbTransfer (payload : Bytes) : Bytes := rdbLengthLine payload ++ payload

/-- `replicas_.push_back` -/
def pushReplica (link : ClientLink) (N : Net) : Net :=
  let replica : Replica :=
    { link
      address := (N.sessions link).peer
      listeningPort := (N.repl.pendingPorts (some link)).getD 0 }
  { N with repl := { N.repl with replicas := N.repl.replicas ++ [replica] } }

/-- `Replication::start_full_resync` -/
def startFullResync (now : Int64) (S : Store) (link : Option ClientLink) (N : Net) : Net :=
  match link with
  | none => N
  | some link =>
    let N := N.send cfg link (fullresyncLine N.repl)
    let payload := rdbSerialize (S.snapshot now)
    let N := N.send cfg link (rdbLengthLine payload)
    let N := N.send cfg link payload
    N.pushReplica link

/-- The range-for of `propagate`, with `n` positions from `i` to the end as it was at the
start. Past an access outside the vector nothing is defined, and the loop stops here. -/
def fanOut (encoded : Bytes) : Nat → Nat → Net → Net
  | 0, _, N => N
  | n + 1, i, N =>
    match N.links[i]? with
    | some link => fanOut encoded n (i + 1) (N.send cfg link encoded)
    | none => { N with outside := true }

/-- `master_offset_ +=` -/
def advance (n : Nat) (N : Net) : Net :=
  { N with repl := { N.repl with masterOffset := N.repl.masterOffset + Int64.ofNat n } }

/-- `Replication::propagate` -/
def propagate (args : Args) (N : Net) : Net :=
  if N.links = [] then N.advance (encode args).length
  else
    let encoded := encode args
    let N := N.advance encoded.length
    N.fanOut cfg encoded N.links.length 0

/-- What a dispatch at `now` sees of replication. -/
def ops (now : Int64) : ReplicationOps Net where
  startFullResync := startFullResync cfg now
  onReplicaAck link offset N := { N with repl := N.repl.onReplicaAck link offset }
  setReplicaPort link port N := { N with repl := N.repl.setReplicaPort link port.toUInt64.toUInt16 }
  onDisconnect link N := { N with repl := N.repl.onDisconnect link }
  replicaof host port N :=
    let (result, repl) := N.repl.replicaof host port.toUInt64.toUInt16
    (result, { N with repl })
  stopReplication N := { N with repl := N.repl.stopReplication }
  isReplica N := N.repl.isReplica
  infoSection N := N.repl.infoSection

end

/-! ## What the operations do to links, sessions and offsets -/

theorem sessions_put (link l : ClientLink) (s : Session) (N : Net) :
    (N.put link s).sessions l = if l = link then s else N.sessions l := Function.update_apply ..

@[simp] theorem links_put (link : ClientLink) (s : Session) (N : Net) : (N.put link s).links = N.links := rfl

@[simp] theorem closed_doClose (link l : ClientLink) (N : Net) :
    (N.doClose link).closed l = (N.closed l || l == link) := by
  unfold doClose
  by_cases h : N.closed link = true
  · rw [if_pos h]
    by_cases hl : l = link
    · simp [hl, h]
    · simp [hl]
  · rw [if_neg h]
    simp only [closed, sessions_put]
    by_cases hl : l = link
    · simp [hl]
    · simp [hl]

@[simp] theorem sent_doClose (link l : ClientLink) (N : Net) : (N.doClose link).sent l = N.sent l := by
  unfold doClose
  split
  · rfl
  · simp only [sent, sessions_put]
    split
    · rename_i hl; subst hl; rfl
    · rfl

theorem links_doClose {link : ClientLink} {N : Net} (h : N.closed link = false) :
    (N.doClose link).links = N.links.filter (· ≠ link) := by
  rw [doClose, if_neg (by simp [h])]
  exact N.repl.links_onDisconnect link

@[simp] theorem masterOffset_doClose (link : ClientLink) (N : Net) :
    (N.doClose link).repl.masterOffset = N.repl.masterOffset := by
  unfold doClose
  split <;> rfl

@[simp] theorem outside_doClose (link : ClientLink) (N : Net) : (N.doClose link).outside = N.outside := by
  unfold doClose
  split <;> rfl

section

variable (cfg : ServerConfig)

/-- Does sending `data` close the link? -/
def overflows (link : ClientLink) (data : Bytes) (N : Net) : Bool :=
  !N.closed link && overCap cfg ((N.sessions link).append data)

variable {cfg}

theorem send_of_closed {link : ClientLink} {N : Net} (h : N.closed link = true) (data : Bytes) :
    N.send cfg link data = N := if_pos h

theorem send_of_overflows {link : ClientLink} {data : Bytes} {N : Net}
    (h : N.overflows cfg link data = true) :
    N.send cfg link data = (N.put link ((N.sessions link).append data)).doClose link := by
  simp only [overflows, Bool.and_eq_true, Bool.not_eq_true'] at h
  rw [send, if_neg (by simp [h.1])]
  exact if_pos h.2

theorem send_of_fits {link : ClientLink} {data : Bytes} {N : Net} (hc : N.closed link = false)
    (h : N.overflows cfg link data = false) :
    N.send cfg link data = N.put link ((N.sessions link).append data).flush := by
  simp only [overflows, hc, Bool.not_false, Bool.true_and] at h
  rw [send, if_neg (by simp [hc])]
  exact if_neg (by simp [h])

theorem closed_of_overflows {link : ClientLink} {data : Bytes} {N : Net}
    (h : N.overflows cfg link data = true) : N.closed link = false := by
  simp only [overflows, Bool.and_eq_true, Bool.not_eq_true'] at h
  exact h.1

/-- A send in one of its three cases: the link is closed, the send closes it, or it fits. -/
theorem send_cases (link : ClientLink) (data : Bytes) (N : Net) :
    N.closed link = true ∨ N.overflows cfg link data = true ∨
      N.closed link = false ∧ N.overflows cfg link data = false := by
  cases hc : N.closed link
  · cases ho : N.overflows cfg link data
    · exact .inr (.inr ⟨rfl, rfl⟩)
    · exact .inr (.inl rfl)
  · exact .inl rfl

theorem links_send (link : ClientLink) (data : Bytes) (N : Net) : (N.send cfg link data).links =
    if N.overflows cfg link data then N.links.filter (· ≠ link) else N.links := by
  rcases send_cases link data N with hc | ho | ⟨hc, ho⟩
  · rw [send_of_closed hc, if_neg (by simp [overflows, hc])]
  · rw [send_of_overflows ho, if_pos ho]
    refine links_doClose ?_
    simpa [closed, sessions_put] using closed_of_overflows ho
  · rw [send_of_fits hc ho, if_neg (by simp [ho]), links_put]

theorem closed_send (link l : ClientLink) (data : Bytes) (N : Net) :
    (N.send cfg link data).closed l = (N.closed l || (l == link && N.overflows cfg link data)) := by
  have hput (s : Session) (hs : s.closed = N.closed link) : (N.put link s).closed l = N.closed l := by
    simp only [closed, sessions_put]
    split
    · rename_i hl; rw [hl]; exact hs
    · rfl
  rcases send_cases link data N with hc | ho | ⟨hc, ho⟩
  · rw [send_of_closed hc]
    simp [overflows, hc]
  · rw [send_of_overflows ho, closed_doClose, hput _ (by simp [closed]), ho, Bool.and_true]
  · rw [send_of_fits hc ho, hput _ (by simp [closed]), ho, Bool.and_false, Bool.or_false]

theorem sent_send (link l : ClientLink) (data : Bytes) (N : Net) : (N.send cfg link data).sent l =
    if l = link ∧ N.closed link = false then N.sent l ++ data else N.sent l := by
  have hput (s : Session) (hs : s.sent = N.sent link ++ data) :
      (N.put link s).sent l = if l = link then N.sent l ++ data else N.sent l := by
    simp only [sent, sessions_put]
    split
    · rename_i hl; rw [hl]; exact hs
    · rfl
  rcases send_cases link data N with hc | ho | ⟨hc, ho⟩
  · rw [send_of_closed hc, if_neg (by simp [hc])]
  · rw [send_of_overflows ho, sent_doClose, hput _ (by simp [sent])]
    simp [closed_of_overflows ho]
  · rw [send_of_fits hc ho, hput _ (by simp [sent])]
    simp [hc]

@[simp] theorem masterOffset_send (link : ClientLink) (data : Bytes) (N : Net) :
    (N.send cfg link data).repl.masterOffset = N.repl.masterOffset := by
  unfold send
  split
  · rfl
  · dsimp only
    split
    · rw [masterOffset_doClose]; rfl
    · rfl

@[simp] theorem outside_send (link : ClientLink) (data : Bytes) (N : Net) :
    (N.send cfg link data).outside = N.outside := by
  unfold send
  split
  · rfl
  · dsimp only
    split
    · rw [outside_doClose]; rfl
    · rfl

/-- Other sessions are not touched. -/
theorem sessions_send_of_ne {link l : ClientLink} (h : l ≠ link) (data : Bytes) (N : Net) :
    (N.send cfg link data).sessions l = N.sessions l := by
  rcases send_cases link data N with hc | ho | ⟨hc, ho⟩
  · rw [send_of_closed hc]
  · rw [send_of_overflows ho, doClose]
    split <;> simp [sessions_put, h]
  · rw [send_of_fits hc ho, sessions_put, if_neg h]

theorem overflows_send_of_ne {link l : ClientLink} (h : l ≠ link) (data data' : Bytes) (N : Net) :
    (N.send cfg link data).overflows cfg l data' = N.overflows cfg l data' := by
  simp only [overflows, closed, sessions_send_of_ne h]

end

end Net

end RP
