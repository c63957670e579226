import RedisPlus.Handler.Abstraction
import RedisPlus.Server.Asio

/-!
# A server without buffers

What the two backends are for: a connection has what arrived on it and was not taken yet, and
everything that was put out on it, whoever has it by now. There is no cap, no write in flight, nothing
that is to be closed later. Replication and the handler are those of the source.
-/

namespace RP

open Asio (Moment)

/-- A connection, by the bytes in both directions. -/
structure Wire.Conn where
  unread : Bytes := []
  sent : Bytes := []
  peer : Bytes := []

/-- What the clients of a server can see of it. -/
structure Wire where
  repl : Replication
  conns : ClientLink → Option Wire.Conn := fun _ => none

namespace Wire

/-- Another state for a connection, if it is there. -/
def modify (link : ClientLink) (f : Conn → Conn) (W : Wire) : Wire :=
  { W with conns := Function.update W.conns link ((W.conns link).map f) }

theorem modify_of_none {link : ClientLink} {W : Wire} (h : W.conns link = none) (f : Conn → Conn) :
    W.modify link f = W := by
  rw [modify, h, Option.map_none, ← h, Function.update_eq_self]

/-- Bytes for a connection. -/
def send (link : ClientLink) (data : Bytes) (W : Wire) : Wire :=
  W.modify link fun c => { c with sent := c.sent ++ data }

/-- A connection becomes a replica. -/
def pushReplica (link : ClientLink) (W : Wire) : Wire :=
  let replica : Replica :=
    { link
      address := ((W.conns link).map Conn.peer).getD []
      listeningPort := (W.repl.pendingPorts (some link)).getD 0 }
  { W with repl := { W.repl with replicas := W.repl.replicas ++ [replica] } }

/-- `start_full_resync`, without an output cap. -/
def startFullResync (now : Int64) (S : Store) (link : Option ClientLink) (W : Wire) : Wire :=
  match link with
  | none => W
  | some link =>
    let payload := rdbSerialize (S.snapshot now)
    let W := W.send link (Net.fullresyncLine W.repl)
    let W := W.send link (Net.rdbLengthLine payload)
    let W := W.send link payload
    W.pushReplica link

/-- Every link in `replicas_` is sent the write. -/
def propagate (args : Args) (W : Wire) : Wire :=
  let encoded := encode args
  let repl := { W.repl with masterOffset := W.repl.masterOffset + Int64.ofNat encoded.length }
  W.repl.links.foldl (fun W link => W.send link encoded) { W with repl }

/-- What a dispatch sees of replication. -/
def ops (now : Int64) : ReplicationOps Wire where
  startFullResync := startFullResync now
  onReplicaAck link offset W := { W with repl := W.repl.onReplicaAck link offset }
  setReplicaPort link port W := { W with repl := W.repl.setReplicaPort link port.toUInt64.toUInt16 }
  onDisconnect link W := { W with repl := W.repl.onDisconnect link }
  replicaof host port W :=
    let (result, repl) := W.repl.replicaof host port.toUInt64.toUInt16
    (result, { W with repl })
  stopReplication W := { W with repl := W.repl.stopReplication }
  isReplica W := W.repl.isReplica
  infoSection W := W.repl.infoSection

/-- A connection is gone. -/
def close (link : ClientLink) (W : Wire) : Wire :=
  match W.conns link with
  | none => W
  | some _ => ⟨W.repl.onDisconnect (some link), Function.update W.conns link none⟩

variable {π : Type}

/-- The command table that a request meets. -/
def table (m : Moment π) : CommandTable π Wire := ⟨m.persistence, some (ops m.amb.now)⟩

/-- The handler of a connection. -/
def host (m : Moment π) (link : ClientLink) : Host (Node π Wire) where
  dispatch := dispatch (table m) m.amb (some link)
  reply r N := { N with repl := N.repl.send link r }
  propagate args N := { N with pers := m.onWrite args N.pers, repl := N.repl.propagate args }

/-- Bytes arrive: the requests that are complete with them are handled. -/
def data (m : Moment π) (link : ClientLink) (bytes : Bytes) (N : Node π Wire) : Node π Wire :=
  match N.repl.conns link with
  | none => N
  | some c =>
    let r := onData (host m link) (Buffer.empty.append (c.unread ++ bytes)) N
    { r.state with repl := r.state.repl.modify link fun c => { c with unread := r.input.readable } }

/-- What a server's clients, and its master, do. -/
inductive Event (π : Type) where
  | accept (link : ClientLink) (peer : Bytes)
  | data (m : Moment π) (link : ClientLink) (bytes : Bytes)
  | close (link : ClientLink)
  | apply (m : Moment π) (args : Args)
  | cron (store : Store) (pers : π)

/-- An event. -/
def step (e : Event π) (N : Node π Wire) : Node π Wire :=
  match e with
  | .accept link peer =>
    if (N.repl.conns link).isSome then N
    else { N with repl := { N.repl with conns := Function.update N.repl.conns link (some { peer }) } }
  | .data m link bytes => data m link bytes N
  | .close link => { N with repl := N.repl.close link }
  | .apply m args => applySilently (table m) m.amb args N
  | .cron store pers => { N with store, pers }

end Wire

end RP
