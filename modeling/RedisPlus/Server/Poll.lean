import RedisPlus.Command.Frame
import RedisPlus.Server.Asio

/-!
# The poll event loop

A `Conn` has one buffer for all its output and no cap inside `send`, so nothing that a request
does can take a connection away during the request. `poll` reports which sockets are ready; each
is read and written as far as the system lets it (`handleRead`, `handleWrite`), and those that
fail are dropped at the end of the sweep. A run is any sequence of `Event`s.

What a connection has unread is changed by its own `handleRead` only, which leaves what `on_data`
leaves (`inputs_step_read`, `inputs_step`).
-/

namespace RP.Poll

open Asio (Moment)

variable {π : Type}

/-- What the server reads of its configuration. -/
structure Config extends ServerConfig where
  readChunk : Nat := 16 * 1024

/-- `Conn` of the poll backend. -/
structure Conn where
  input : Buffer := Buffer.empty
  out : Bytes := []
  closeAfterFlush : Bool := false
  peer : Bytes := []

/-- The replication object, the connections in `conns_`, and those to be dropped at the end of the
sweep. -/
structure Net where
  repl : Replication
  conns : ClientLink → Option Conn := fun _ => none
  dead : List ClientLink := []

namespace Net

/-- Another state for a connection, if it is there. -/
def modify (link : ClientLink) (f : Conn → Conn) (N : Net) : Net :=
  { N with conns := Function.update N.conns link ((N.conns link).map f) }

/-- `Conn::send` -/
def send (link : ClientLink) (data : Bytes) (N : Net) : Net :=
  N.modify link fun c => { c with out := c.out ++ data }

/-- `replicas_.push_back` -/
def pushReplica (link : ClientLink) (N : Net) : Net :=
  let replica : Replica :=
    { link
      address := ((N.conns link).map Conn.peer).getD []
      listeningPort := (N.repl.pendingPorts (some link)).getD 0 }
  { N with repl := { N.repl with replicas := N.repl.replicas ++ [replica] } }

/-- `Replication::start_full_resync` -/
def startFullResync (now : Int64) (S : Store) (link : Option ClientLink) (N : Net) : Net :=
  match link with
  | none => N
  | some link =>
    let N := N.send link (RP.Net.fullresyncLine N.repl)
    let payload := rdbSerialize (S.snapshot now)
    let N := N.send link (RP.Net.rdbLengthLine payload)
    let N := N.send link payload
    N.pushReplica link

/-- `Replication::propagate` -/
def propagate (args : Args) (N : Net) : Net :=
  let encoded := encode args
  let N := { N with repl :=
    { N.repl with masterOffset := N.repl.masterOffset + Int64.ofNat encoded.length } }
  N.repl.links.foldl (fun N link => N.send link encoded) N

/-- What a dispatch at `now` sees of replication. -/
def ops (now : Int64) : ReplicationOps Net where
  startFullResync := startFullResync now
  onReplicaAck link offset N := { N with repl := N.repl.onReplicaAck link offset }
  setReplicaPort link port N := { N with repl := N.repl.setReplicaPort link port.toUInt64.toUInt16 }
  onDisconnect link N := { N with repl := N.repl.onDisconnect link }
  replicaof host port N :=
    let (result, repl) := N.repl.replicaof host port.toUInt64.toUInt16
    (result, { N with repl })
  stopReplication N := { N with repl := N.repl.stopReplication }
  isReplica N := N.repl.isReplica
  infoSection N := N.repl.infoSection

/-- `PollServer::drop` -/
def drop (link : ClientLink) (N : Net) : Net :=
  match N.conns link with
  | none => N
  | some _ =>
    { N with repl := N.repl.onDisconnect (some link), conns := Function.update N.conns link none }

end Net

/-! ## Reading and writing -/

/-- The command table that a call meets. -/
def table (m : Moment π) : CommandTable π Net := ⟨m.persistence, some (Net.ops m.amb.now)⟩

/-- The handler in `handle_read`, whose replies land in the connection's `out`. -/
def connHost (m : Moment π) (link : ClientLink) : Host (Node π Net) where
  dispatch := dispatch (table m) m.amb (some link)
  reply r N := { N with repl := N.repl.send link r }
  propagate args N := { N with pers := m.onWrite args N.pers, repl := N.repl.propagate args }

/-- What `recv` answers. -/
inductive Recv where
  | data (bytes : Bytes)
  | closed
  | wouldBlock
  | interrupted
  | failed

/-- The loop of `recv`: what it appends to the input, or `none` where the connection is dropped.
No answer left is as if the socket had nothing more. -/
def recvLoop (readChunk : Nat) : List Recv → Option (List Bytes)
  | [] => some []
  | .data bytes :: recvs =>
    if bytes.length < readChunk then some [bytes] else (recvLoop readChunk recvs).map (bytes :: ·)
  | .closed :: _ => none
  | .wouldBlock :: _ => some []
  | .interrupted :: recvs => recvLoop readChunk recvs
  | .failed :: _ => none

/-- What `send` answers. -/
inductive Sent where
  | sent (n : Nat)
  | wouldBlock
  | interrupted
  | failed

/-- The loop of `send`: whether the connection is kept, and what is left to send. No answer left
is as if the socket were full. -/
def sendLoop (closeAfterFlush : Bool) : List Sent → Bytes → Bool × Bytes
  | [], out => (if out = [] then !closeAfterFlush else true, out)
  | s :: sends, out =>
    if out = [] then (!closeAfterFlush, out)
    else
      match s with
      | .sent n => if 0 < n then sendLoop closeAfterFlush sends (out.drop n) else (false, out)
      | .wouldBlock => (true, out)
      | .interrupted => sendLoop closeAfterFlush sends out
      | .failed => (false, out)

/-- `PollServer::handle_write` -/
def handleWrite (link : ClientLink) (sends : List Sent) (N : Net) : Bool × Net :=
  match N.conns link with
  | none => (false, N)
  | some c =>
    let (keep, out) := sendLoop c.closeAfterFlush sends c.out
    (keep, N.modify link fun c => { c with out })

/-- The input that `handle_read` calls `on_data` with, unless the connection is dropped before. -/
def inputRead (cfg : Config) (link : ClientLink) (recvs : List Recv) (N : Net) : Option Buffer :=
  match N.conns link, recvLoop cfg.readChunk recvs with
  | some c, some chunks => some (chunks.foldl (fun b bytes => b.append bytes) c.input)
  | _, _ => none

/-- `PollServer::handle_read` -/
def handleRead (cfg : Config) (m : Moment π) (link : ClientLink) (recvs : List Recv) (sends : List Sent)
    (N : Node π Net) : Bool × Node π Net :=
  match inputRead cfg link recvs N.repl with
  | none => (false, N)
  | some input =>
    let r := onData (connHost m link) input N
    let net := r.state.repl.modify link fun c => { c with input := r.input }
    let size := ((net.conns link).map fun c => c.out.length).getD 0
    if cfg.maxOutputBuffer.toNat < size then (false, { r.state with repl := net })
    else
      let (keep, net) := handleWrite link sends net
      (keep, { r.state with repl := net })

/-! ## Runs -/

/-- What happens in a sweep. -/
inductive Event (π : Type) where
  /-- `accept_ready`, for one connection. -/
  | accept (link : ClientLink) (peer : Bytes)
  /-- The socket is readable. -/
  | read (m : Moment π) (link : ClientLink) (recvs : List Recv) (sends : List Sent)
  /-- The socket is writable. -/
  | write (link : ClientLink) (sends : List Sent)
  /-- The socket is in error or the peer has hung up. -/
  | hangup (link : ClientLink)
  /-- The connections that failed in this sweep are dropped. -/
  | sweepEnd
  /-- A command of this server's own master, posted by the replica thread. -/
  | apply (m : Moment π) (args : Args)
  /-- The cron, which does not come near the connections. -/
  | cron (store : Store) (pers : π)

/-- `dead.push_back`, unless the connection is kept. -/
def bury (link : ClientLink) (keep : Bool) (N : Net) : Net :=
  if keep then N else { N with dead := N.dead ++ [link] }

/-- An event. -/
def step (cfg : Config) (e : Event π) (N : Node π Net) : Node π Net :=
  match e with
  | .accept link peer =>
    -- a live connection's address is not given to another one
    if (N.repl.conns link).isSome then N
    else { N with repl := { N.repl with conns := Function.update N.repl.conns link (some { peer }) } }
  | .read m link recvs sends =>
    -- a socket that failed is not looked at again in this sweep
    if link ∈ N.repl.dead then N
    else
      let (keep, N) := handleRead cfg m link recvs sends N
      { N with repl := bury link keep N.repl }
  | .write link sends =>
    if link ∈ N.repl.dead then N
    else
      let (keep, net) := handleWrite link sends N.repl
      { N with repl := bury link keep net }
  | .hangup link => { N with repl := bury link false N.repl }
  | .sweepEnd =>
    { N with repl := { N.repl.dead.foldl (fun N link => N.drop link) N.repl with dead := [] } }
  | .apply m args => applySilently (table m) m.amb args N
  | .cron store pers => { N with store, pers }

/-! ## What the connections have unread -/

namespace Net

/-- The input buffers of the connections that are read. One that failed in this sweep is not. -/
def inputs (N : Net) : ClientLink → Option Buffer :=
  fun l => if l ∈ N.dead then none else (N.conns l).map Conn.input

theorem inputs_modify {f : Conn → Conn} (hf : ∀ c, (f c).input = c.input) (link : ClientLink) (N : Net) :
    (N.modify link f).inputs = N.inputs := by
  funext l
  simp only [inputs, modify, Function.update_apply]
  congr 1
  split
  · rename_i hl
    rw [Option.map_map, hl]
    exact congrArg (Option.map · _) (funext hf)
  · rfl

@[simp] theorem inputs_send (link : ClientLink) (data : Bytes) (N : Net) :
    (N.send link data).inputs = N.inputs := inputs_modify (fun _ => by rfl) link N

@[simp] theorem inputs_pushReplica (link : ClientLink) (N : Net) : (N.pushReplica link).inputs = N.inputs := rfl

theorem inputs_startFullResync (now : Int64) (S : Store) (link : Option ClientLink) (N : Net) :
    (N.startFullResync now S link).inputs = N.inputs := by
  rcases link with _ | link
  · rfl
  · simp only [startFullResync, inputs_pushReplica, inputs_send]

theorem inputs_foldl_send (data : Bytes) : ∀ (links : List ClientLink) (N : Net),
    (links.foldl (fun N link => N.send link data) N).inputs = N.inputs
  | [], _ => rfl
  | link :: links, N => (inputs_foldl_send data links _).trans (inputs_send link data N)

theorem inputs_propagate (args : Args) (N : Net) : (N.propagate args).inputs = N.inputs :=
  inputs_foldl_send ..

theorem keeps_inputs (now : Int64) (inputs : ClientLink → Option Buffer) :
    (ops now).Keeps fun N => N.inputs = inputs where
  startFullResync S link N h := (inputs_startFullResync now S link N).trans h
  onReplicaAck _ _ _ h := h
  setReplicaPort _ _ _ h := h
  replicaof _ _ _ h := h
  stopReplication _ h := h

theorem conns_foldl_drop (l : ClientLink) : ∀ (links : List ClientLink) (N : Net),
    (links.foldl (fun N link => N.drop link) N).conns l = if l ∈ links then none else N.conns l
  | [], _ => rfl
  | link :: links, N => by
    have hdrop : (N.drop link).conns l = if l = link then none else N.conns l := by
      unfold drop
      split
      · rename_i hnone
        split
        · rename_i hl
          rw [hl, hnone]
        · rfl
      · exact Function.update_apply ..
    rw [List.foldl_cons, conns_foldl_drop l links, hdrop]
    by_cases hl : l = link
    · simp [hl]
    · simp [hl]

/-- The end of a sweep drops those that are not read any more. -/
theorem inputs_sweep (N : Net) :
    { N.dead.foldl (fun N link => N.drop link) N with dead := [] : Net }.inputs = N.inputs := by
  funext l
  simp only [inputs, List.not_mem_nil, if_false, conns_foldl_drop]
  split <;> rfl

end Net

theorem inputs_dispatch (m : Moment π) (link : Option ClientLink) (args : Args) (N : Node π Net) :
    (dispatch (table m) m.amb link args N).2.repl.inputs = N.repl.inputs := by
  refine dispatch_keeps (table m) m.amb link args N (I := fun net => net.inputs = N.repl.inputs) ?_ rfl
  intro ops hops
  obtain rfl : Net.ops m.amb.now = ops := Option.some.inj hops
  exact Net.keeps_inputs ..

theorem inputs_onData (m : Moment π) (link : ClientLink) (b : Buffer) (N : Node π Net) :
    (onData (connHost m link) b N).state.repl.inputs = N.repl.inputs := by
  refine onData_keeps (I := fun N' : Node π Net => N'.repl.inputs = N.repl.inputs) _ ?_ ?_ ?_ b rfl
  · exact fun args N' h => (inputs_dispatch m (some link) args N').trans h
  · exact fun r N' h => (Net.inputs_send ..).trans h
  · exact fun args N' h => (Net.inputs_propagate ..).trans h

theorem inputs_handleWrite (link : ClientLink) (sends : List Sent) (N : Net) :
    (handleWrite link sends N).2.inputs = N.inputs := by
  unfold handleWrite
  split
  · rfl
  · exact Net.inputs_modify (fun _ => by rfl) link N

theorem readable_inputRead {cfg : Config} {link : ClientLink} {recvs : List Recv} {N : Net} {b : Buffer}
    (h : inputRead cfg link recvs N = some b) : ∃ c chunks, N.conns link = some c ∧
      recvLoop cfg.readChunk recvs = some chunks ∧ b.readable = c.input.readable ++ chunks.flatten := by
  have happend (chunks : List Bytes) (b₀ : Buffer) :
      (chunks.foldl (fun b bytes => b.append bytes) b₀).readable = b₀.readable ++ chunks.flatten := by
    induction chunks generalizing b₀ with
    | nil => simp
    | cons c cs ih => rw [List.foldl_cons, ih, Buffer.readable_append, List.flatten_cons, List.append_assoc]
  unfold inputRead at h
  split at h
  · rename_i c chunks hc hchunks
    obtain rfl := Option.some.inj h
    exact ⟨c, chunks, hc, hchunks, happend chunks c.input⟩
  · cases h

/-- What `handle_read` leaves unread is what `on_data` leaves. -/
theorem inputs_handleRead {cfg : Config} {link : ClientLink} {recvs : List Recv} {N : Node π Net}
    {b : Buffer} (hdead : link ∉ N.repl.dead) (h : inputRead cfg link recvs N.repl = some b) (m : Moment π)
    (sends : List Sent) : (handleRead cfg m link recvs sends N).2.repl.inputs =
      Function.update N.repl.inputs link (some (onData (connHost m link) b N).input) := by
  obtain ⟨c, -, hc, -⟩ := readable_inputRead h
  have hread : N.repl.inputs link = some c.input := by rw [Net.inputs, if_neg hdead, hc]; rfl
  have hmodify : ((onData (connHost m link) b N).state.repl.modify link fun c =>
      { c with input := (onData (connHost m link) b N).input }).inputs =
      Function.update N.repl.inputs link (some (onData (connHost m link) b N).input) := by
    rw [← inputs_onData m link b N] at hread ⊢
    funext l
    simp only [Net.inputs, Net.modify, Function.update_apply] at hread ⊢
    by_cases hl : l = link
    · subst hl
      split at hread
      · cases hread
      · rename_i hdead
        obtain ⟨c', hc', -⟩ := Option.map_eq_some_iff.1 hread
        simp only [if_neg hdead, if_true, hc']
        rfl
    · simp only [if_neg hl]
  unfold handleRead
  rw [h]
  dsimp only
  split
  · exact hmodify
  · exact (inputs_handleWrite ..).trans hmodify

theorem mem_dead_bury {l link : ClientLink} {keep : Bool} {N : Net} :
    l ∈ (bury link keep N).dead ↔ l ∈ N.dead ∨ l = link ∧ keep = false := by
  unfold bury
  cases keep <;> simp

theorem inputs_bury (link : ClientLink) (keep : Bool) (N : Net) :
    (bury link keep N).inputs = if keep then N.inputs else Function.update N.inputs link none := by
  unfold bury
  cases keep with
  | true => rfl
  | false =>
    funext l
    simp only [Net.inputs, Bool.false_eq_true, if_false, Function.update_apply, List.mem_append,
      List.mem_singleton]
    by_cases hl : l = link <;> simp [hl]

theorem inputs_bury_cases (link l : ClientLink) (keep : Bool) (N : Net) :
    (bury link keep N).inputs l = N.inputs l ∨ (bury link keep N).inputs l = none := by
  rw [inputs_bury]
  cases keep with
  | true => exact .inl rfl
  | false =>
    rw [if_neg Bool.false_ne_true, Function.update_apply]
    split
    · exact .inr rfl
    · exact .inl rfl

/-- The connection that an event starts. -/
def Event.accepts : Event π → Option ClientLink
  | .accept link _ => some link
  | _ => none

/-- The input that the event calls `on_data` for this connection with, if it does. -/
def Event.reads (cfg : Config) (link : ClientLink) (e : Event π) (N : Net) : Option Buffer :=
  match e with
  | .read _ l recvs _ => if l = link ∧ l ∉ N.dead then inputRead cfg l recvs N else none
  | _ => none

/-- What the system's answers add to the input. -/
def received (cfg : Config) (recvs : List Recv) : Bytes := ((recvLoop cfg.readChunk recvs).getD []).flatten

/-- A read leaves what `on_data` leaves, unless the connection is dropped. -/
theorem inputs_step_read {cfg : Config} {link : ClientLink} {recvs : List Recv} {N : Node π Net}
    {b : Buffer} (hdead : link ∉ N.repl.dead) (h : inputRead cfg link recvs N.repl = some b) (m : Moment π)
    (sends : List Sent) : (step cfg (.read m link recvs sends) N).repl.inputs =
      Function.update N.repl.inputs link (if (handleRead cfg m link recvs sends N).1 then
        some (onData (connHost m link) b N).input else none) := by
  simp only [step, if_neg hdead, inputs_bury, inputs_handleRead hdead h m sends]
  split
  · rfl
  · rw [Function.update_idem]

/-- No other event changes what a connection has unread, unless it drops the connection. -/
theorem inputs_step {cfg : Config} {e : Event π} {link : ClientLink} {N : Node π Net}
    (ha : e.accepts ≠ some link) (hr : e.reads cfg link N.repl = none) :
    (step cfg e N).repl.inputs link = N.repl.inputs link ∨ (step cfg e N).repl.inputs link = none := by
  cases e with
  | accept l peer =>
    refine .inl ?_
    simp only [step]
    split
    · rfl
    · have hl : link ≠ l := fun h => ha (congrArg some h.symm)
      simp only [Net.inputs, Function.update_of_ne hl]
  | read m l recvs sends =>
    by_cases hdead : l ∈ N.repl.dead
    · rw [step, if_pos hdead]
      exact .inl rfl
    · cases hb : inputRead cfg l recvs N.repl with
      | none =>
        simp only [step, if_neg hdead, handleRead, hb]
        exact inputs_bury_cases ..
      | some b =>
        have hl : link ≠ l := by
          intro hl
          rw [Event.reads, if_pos ⟨hl.symm, hdead⟩, hb] at hr
          cases hr
        rw [inputs_step_read hdead hb]
        exact .inl (Function.update_of_ne hl ..)
  | write l sends =>
    simp only [step]
    split
    · exact .inl rfl
    · rw [← inputs_handleWrite l sends N.repl]
      exact inputs_bury_cases ..
  | hangup l => exact inputs_bury_cases ..
  | sweepEnd => exact .inl (congrFun (Net.inputs_sweep N.repl) link)
  | apply m args => exact .inl (congrFun (inputs_dispatch m none args N) link)
  | cron store pers => exact .inl rfl

end RP.Poll
