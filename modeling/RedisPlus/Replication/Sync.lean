import RedisPlus.Replication.Links
import RedisPlus.Replication.Replica

/-!
# A master and its replica

`Sync` is a master, the thread of a replica that has connected to it, the commands on their way
up and the bytes on their way down. The bytes are those of the master's session: the replica
reads, in any chunks, what a write has given to the socket.

`Stage` says for each phase of the thread what is still to come: the part of the master's bytes
that the thread has not used is what it waits for next, and then the rest. The master keeps it
when it propagates a command (`Stage.propagated`), replies (`Stage.replied`) or resyncs
(`Stage.resynced`).
-/

namespace RP

open Asio (Moment)

/-- What the peer may have received. -/
def Session.transmitted (s : Session) : Bytes := s.written ++ s.out.take (s.writing.getD 0)

theorem Session.transmitted_append (s : Session) :
    s.transmitted ++ (s.out.drop (s.writing.getD 0) ++ s.pending) = s.sent := by
  rw [transmitted, sent, List.append_assoc, ← List.append_assoc (List.take ..), List.take_append_drop,
    List.append_assoc]

/-- A master, a replica's thread, and what is on its way between them. -/
structure Sync where
  master : Node Unit Net
  /-- Sent by the replica, and not yet handled by the master. -/
  up : List Args
  /-- How many of the link's bytes the replica has read. -/
  read : Nat := 0
  replica : ReplicaThread := {}
  /-- The snapshot that was sent, and the offset it was taken at. -/
  resync : Option (List Record × Int64) := none
  /-- The commands propagated since. -/
  since : List Args := []

/-- What happens on the link. -/
inductive SyncEvent where
  /-- The master handles the replica's next command. -/
  | serve (m : Moment Unit)
  /-- The end of the read callback in which it does. -/
  | readEnd
  /-- A write on the link completes. -/
  | written
  | propagate (args : Args)
  /-- Other connections change the master's store. -/
  | write (store : Store)
  /-- The replica reads at most `n` bytes. -/
  | deliver (n : Nat)
  | act
  | tick

namespace Sync

section

variable (cfg : ServerConfig) (port : UInt16) (link : ClientLink)

/-- The bytes on their way down. -/
def inFlight (S : Sync) : Bytes := (S.master.repl.sent link).drop S.read

/-- What the replica has not parsed yet, read or not. -/
def down (S : Sync) : Bytes := S.replica.buffer ++ S.inFlight link

/-- The master handles a command of the replica. -/
def serve (m : Moment Unit) (args : Args) (S : Sync) : Sync :=
  let S :=
    if psyncs args then
      { S with
        resync := some (S.master.store.snapshot m.amb.now, S.master.repl.repl.masterOffset)
        since := [] }
    else S
  { S with master := Asio.step cfg (.request m link args) S.master }

/-- An event on the link. -/
def step (e : SyncEvent) (S : Sync) : Sync :=
  match e with
  | .serve m =>
    match S.up with
    | [] => S
    | args :: up => { S.serve cfg link m args with up }
  | .readEnd => { S with master := Asio.step cfg (.readEnd link Buffer.empty) S.master }
  | .written => { S with master := Asio.step cfg (.written link) S.master }
  | .propagate args =>
    { S with
      master := { S.master with repl := S.master.repl.propagate cfg args }
      since := S.since ++ [args] }
  | .write store => { S with master := { S.master with store } }
  | .deliver n =>
    let chunk := ((S.master.repl.sessions link).transmitted.drop S.read).take n
    { S with
      replica := { S.replica with buffer := S.replica.buffer ++ chunk }
      read := S.read + chunk.length }
  | .act =>
    let (replica, commands) := S.replica.act port
    { S with replica, up := S.up ++ commands }
  | .tick => { S with up := S.up ++ S.replica.tick }

end

/-- The replica has connected to `master`, and has sent its PING. -/
def start (master : Node Unit Net) : Sync := { master, up := [pingCommand] }

end Sync

/-! ## The invariant -/

/-- What the invariant is about. -/
structure View where
  phase : Phase
  rdb : Option Bytes
  posted : List Task
  replicaOffset : Int64
  up : List Args
  down : Bytes
  links : List ClientLink
  masterOffset : Int64
  resync : Option (List Record × Int64)
  since : List Args

/-- What the link's specification sees of it. -/
def Sync.view (link : ClientLink) (S : Sync) : View where
  phase := S.replica.phase
  rdb := S.replica.rdb
  posted := S.replica.posted
  replicaOffset := S.replica.offset
  up := S.up
  down := S.down link
  links := S.master.repl.links
  masterOffset := S.master.repl.repl.masterOffset
  resync := S.resync
  since := S.since

namespace View

/-- Before the resync. -/
structure Unsynced (V : View) : Prop where
  links : V.links = []
  rdb : V.rdb = none
  posted : V.posted = []

/-- `command` is on its way up, or `reply` on its way down. -/
structure Asks (command : Args) (reply : Bytes) (V : View) : Prop extends Unsynced V where
  either : V.up = [command] ∧ V.down = [] ∨ V.up = [] ∧ V.down = reply

/-- The master has sent the snapshot of `records`, taken at `offset`. -/
structure Synced (link : ClientLink) (records : List Record) (offset : Int64) (V : View) : Prop where
  resync : V.resync = some (records, offset)
  size : (rdbSerialize records).length < 2 ^ 64
  links : V.links = [link]
  masterOffset : V.masterOffset = offset + Int64.ofNat (encs V.since).length
  within : ∀ c ∈ V.since, Within c

/-- The replica has yet to use `ahead`, and then the commands. -/
structure Loading (link : ClientLink) (records : List Record) (offset : Int64) (ahead : Bytes)
    (V : View) : Prop extends Synced link records offset V where
  up : V.up = []
  down : V.down = ahead ++ encs V.since
  rdb : V.rdb = none
  posted : V.posted = []

/-- The replica has parsed the snapshot and the commands `past`, and is yet to parse `ahead`. -/
structure Streaming (link : ClientLink) (records : List Record) (offset : Int64)
    (past ahead : List Args) (V : View) : Prop extends Synced link records offset V where
  split : V.since = past ++ ahead
  up : ∀ c ∈ V.up, ∃ n, c = ackCommand n
  down : V.down = encs ahead
  rdb : V.rdb = some (rdbSerialize records)
  posted : V.posted = .reload records :: (past.filter handedOn).map .apply
  replicaOffset : V.replicaOffset + Int64.ofNat V.down.length = V.masterOffset

/-- What is still to come, for each phase of the replica's thread. -/
def Stage (port : UInt16) (link : ClientLink) (V : View) : Prop :=
  match V.phase with
  | .pong => Asks pingCommand (Reply.simple (str "PONG")) V
  | .portOk => Asks (portCommand port) Reply.ok V
  | .capaOk => Asks capaCommand Reply.ok V
  | .fullresync => Unsynced V ∧ V.up = [psyncCommand] ∧ V.down = [] ∨
    ∃ records R, Loading link records R.masterOffset
      (Net.fullresyncLine R ++ Net.rdbTransfer (rdbSerialize records)) V
  | .rdbHeader offset =>
    ∃ records, Loading link records offset (Net.rdbTransfer (rdbSerialize records)) V
  | .rdbPayload offset len =>
    ∃ records, len = (rdbSerialize records).length ∧ Loading link records offset (rdbSerialize records) V
  | .streaming => ∃ records offset past ahead, Streaming link records offset past ahead V
  | .hung => False
  | .failed => False

variable {port : UInt16} {link : ClientLink} {V : View}

/-- The replica has not parsed the snapshot yet. -/
structure Waiting (link : ClientLink) (V : View) : Prop where
  rdb : V.rdb = none
  posted : V.posted = []
  phase : V.phase ≠ .streaming ∧ V.phase ≠ .failed ∧ V.phase ≠ .hung
  links : V.links = [] ∨ V.links = [link]

theorem Unsynced.waiting (h : Unsynced V)
    (hp : V.phase ≠ .streaming ∧ V.phase ≠ .failed ∧ V.phase ≠ .hung) : Waiting link V :=
  ⟨h.rdb, h.posted, hp, .inl h.links⟩

theorem Loading.waiting {records : List Record} {offset : Int64} {ahead : Bytes}
    (h : Loading link records offset ahead V)
    (hp : V.phase ≠ .streaming ∧ V.phase ≠ .failed ∧ V.phase ≠ .hung) : Waiting link V :=
  ⟨h.rdb, h.posted, hp, .inr h.links⟩

theorem Stage.waiting_or_streaming (h : Stage port link V) :
    Waiting link V ∨
      V.phase = .streaming ∧ ∃ records offset past ahead, Streaming link records offset past ahead V := by
  unfold Stage at h
  split at h
  all_goals rename_i hphase
  · exact .inl (h.waiting (by simp [hphase]))
  · exact .inl (h.waiting (by simp [hphase]))
  · exact .inl (h.waiting (by simp [hphase]))
  · rcases h with ⟨hu, -, -⟩ | ⟨records, R, hl⟩
    · exact .inl (hu.waiting (by simp [hphase]))
    · exact .inl (hl.waiting (by simp [hphase]))
  · obtain ⟨records, hl⟩ := h
    exact .inl (hl.waiting (by simp [hphase]))
  · obtain ⟨records, -, hl⟩ := h
    exact .inl (hl.waiting (by simp [hphase]))
  · exact .inr ⟨hphase, h⟩
  · exact h.elim
  · exact h.elim

theorem Stage.links (h : Stage port link V) : V.links = [] ∨ V.links = [link] := by
  rcases h.waiting_or_streaming with hw | ⟨-, records, offset, past, ahead, hs⟩
  · exact hw.links
  · exact .inr hs.links

/-! ## The master's moves -/

/-- The view after a command was propagated to the link. -/
def propagated (args : Args) (V : View) : View :=
  { V with
    masterOffset := V.masterOffset + Int64.ofNat (encode args).length
    since := V.since ++ [args]
    down := if V.links = [] then V.down else V.down ++ encode args }

theorem Synced.propagated {records : List Record} {offset : Int64} (h : Synced link records offset V)
    {args : Args} (hw : Within args) : Synced link records offset (V.propagated args) := by
  refine ⟨h.resync, h.size, h.links, ?_, ?_⟩
  · show V.masterOffset + _ = offset + Int64.ofNat (encs (V.since ++ [args])).length
    rw [h.masterOffset, encs_append, encs_singleton, List.length_append, Int64.ofNat_add, Int64.add_assoc]
  · intro c hc
    rcases List.mem_append.mp hc with hc | hc
    · exact h.within c hc
    · rw [List.mem_singleton.mp hc]; exact hw

theorem Synced.down_propagated {records : List Record} {offset : Int64} (h : Synced link records offset V)
    (args : Args) : (V.propagated args).down = V.down ++ encode args :=
  if_neg (by rw [h.links]; simp)

theorem Loading.propagated {records : List Record} {offset : Int64} {ahead : Bytes}
    (h : Loading link records offset ahead V) {args : Args} (hw : Within args) :
    Loading link records offset ahead (V.propagated args) := by
  refine ⟨h.toSynced.propagated hw, h.up, ?_, h.rdb, h.posted⟩
  rw [h.toSynced.down_propagated, h.down]
  show _ = ahead ++ encs (V.since ++ [args])
  rw [encs_append, encs_singleton, List.append_assoc]

theorem Streaming.propagated {records : List Record} {offset : Int64} {past ahead : List Args}
    (h : Streaming link records offset past ahead V) {args : Args} (hw : Within args) :
    Streaming link records offset past (ahead ++ [args]) (V.propagated args) := by
  have hdown := h.toSynced.down_propagated args
  refine ⟨h.toSynced.propagated hw, ?_, h.up, ?_, h.rdb, h.posted, ?_⟩
  · show V.since ++ [args] = _
    rw [h.split, List.append_assoc]
  · rw [hdown, h.down, encs_append, encs_singleton]
  · rw [hdown, List.length_append, Int64.ofNat_add, ← Int64.add_assoc]
    show V.replicaOffset + _ + _ = V.masterOffset + _
    rw [h.replicaOffset]

theorem Unsynced.propagated (h : Unsynced V) (args : Args) : Unsynced (V.propagated args) :=
  ⟨h.links, h.rdb, h.posted⟩

theorem Unsynced.down_propagated (h : Unsynced V) (args : Args) : (V.propagated args).down = V.down :=
  if_pos h.links

theorem Asks.propagated {command : Args} {reply : Bytes} (h : Asks command reply V) (args : Args) :
    Asks command reply (V.propagated args) := by
  refine ⟨h.toUnsynced.propagated args, ?_⟩
  rw [h.toUnsynced.down_propagated]
  exact h.either

theorem Stage.propagated (h : Stage port link V) {args : Args} (hw : Within args) :
    Stage port link (V.propagated args) := by
  have hphase : (V.propagated args).phase = V.phase := rfl
  unfold Stage at h ⊢
  rw [hphase]
  split at h
  · exact h.propagated args
  · exact h.propagated args
  · exact h.propagated args
  · rcases h with ⟨hu, hup, hdown⟩ | ⟨records, R, hl⟩
    · exact .inl ⟨hu.propagated args, hup, (hu.down_propagated args).trans hdown⟩
    · exact .inr ⟨records, R, hl.propagated hw⟩
  · obtain ⟨records, hl⟩ := h
    exact ⟨records, hl.propagated hw⟩
  · obtain ⟨records, hlen, hl⟩ := h
    exact ⟨records, hlen, hl.propagated hw⟩
  · obtain ⟨records, offset, past, ahead, hs⟩ := h
    exact ⟨records, offset, past, ahead ++ [args], hs.propagated hw⟩
  · exact h
  · exact h

/-- What the master replies to the commands of the replica. -/
structure Answers (port : UInt16) (args : Args) (reply : Bytes) : Prop where
  ping : args = pingCommand → reply = Reply.simple (str "PONG")
  listeningPort : args = portCommand port → reply = Reply.ok
  capa : args = capaCommand → reply = Reply.ok
  ack : ∀ n, args = ackCommand n → reply = []

theorem Asks.replied {command args : Args} {reply answer : Bytes} {up : List Args}
    (h : Asks command reply V) (hup : V.up = args :: up) (hr : args = command → answer = reply) :
    Asks command reply { V with up, down := V.down ++ answer } := by
  refine ⟨⟨h.links, h.rdb, h.posted⟩, ?_⟩
  rcases h.either with ⟨hc, hdown⟩ | ⟨hnil, -⟩
  · obtain ⟨rfl, rfl⟩ := List.cons.inj (hup.symm.trans hc)
    exact .inr ⟨rfl, by rw [hr rfl, hdown]; rfl⟩
  · rw [hup] at hnil; cases hnil

theorem Stage.replied {args : Args} {reply : Bytes} {up : List Args} (h : Stage port link V)
    (hup : V.up = args :: up) (hp : psyncs args = false) (ha : Answers port args reply) :
    Stage port link { V with up, down := V.down ++ reply } := by
  unfold Stage at h ⊢
  dsimp only
  split at h
  · exact h.replied hup ha.ping
  · exact h.replied hup ha.listeningPort
  · exact h.replied hup ha.capa
  · rcases h with ⟨-, hc, -⟩ | ⟨records, R, hl⟩
    · obtain ⟨rfl, -⟩ := List.cons.inj (hup.symm.trans hc)
      cases hp
    · rw [hl.up] at hup; cases hup
  · obtain ⟨records, hl⟩ := h
    rw [hl.up] at hup; cases hup
  · obtain ⟨records, -, hl⟩ := h
    rw [hl.up] at hup; cases hup
  · obtain ⟨records, offset, past, ahead, hs⟩ := h
    obtain ⟨n, hn⟩ := hs.up args (by rw [hup]; exact List.mem_cons_self)
    have hdown : V.down ++ reply = V.down := by rw [ha.ack n hn, List.append_nil]
    refine ⟨records, offset, past, ahead, ⟨hs.resync, hs.size, hs.links, hs.masterOffset, hs.within⟩,
      hs.split, fun c hc => hs.up c (by rw [hup]; exact List.mem_cons_of_mem _ hc),
      hdown.trans hs.down, hs.rdb, hs.posted, ?_⟩
    show V.replicaOffset + Int64.ofNat (V.down ++ reply).length = _
    rw [hdown]
    exact hs.replicaOffset
  · exact h
  · exact h

/-- What the first command on its way up may be. -/
theorem Stage.up_cases {args : Args} {up : List Args} (h : Stage port link V) (hup : V.up = args :: up) :
    (args = psyncCommand ∧ V.phase = .fullresync ∧ Unsynced V ∧ up = [] ∧ V.down = []) ∨
      args = pingCommand ∨ ∃ sub value, args = [str "REPLCONF", sub, value] := by
  have hasks {command : Args} {reply : Bytes} (ha : Asks command reply V) : args = command := by
    rcases ha.either with ⟨hc, -⟩ | ⟨hc, -⟩
    · exact (List.cons.inj (hup.symm.trans hc)).1
    · rw [hup] at hc; cases hc
  have hloading {records : List Record} {offset : Int64} {ahead : Bytes}
      (hl : Loading link records offset ahead V) : False := by
    have hnil := hl.up
    rw [hup] at hnil; cases hnil
  unfold Stage at h
  split at h
  · exact .inr (.inl (hasks h))
  · exact .inr (.inr ⟨_, _, hasks h⟩)
  · exact .inr (.inr ⟨_, _, hasks h⟩)
  · rename_i hphase
    rcases h with ⟨hu, hc, hdown⟩ | ⟨records, R, hl⟩
    · obtain ⟨rfl, rfl⟩ := List.cons.inj (hup.symm.trans hc)
      exact .inl ⟨rfl, hphase, hu, rfl, hdown⟩
    · exact (hloading hl).elim
  · obtain ⟨records, hl⟩ := h
    exact (hloading hl).elim
  · obtain ⟨records, -, hl⟩ := h
    exact (hloading hl).elim
  · obtain ⟨records, offset, past, ahead, hs⟩ := h
    obtain ⟨n, hn⟩ := hs.up args (by rw [hup]; exact List.mem_cons_self)
    exact .inr (.inr ⟨_, _, hn⟩)
  · exact h.elim
  · exact h.elim

/-- The PSYNC of the handshake comes after its other commands. -/
theorem Stage.psync {args : Args} {up : List Args} (h : Stage port link V) (hup : V.up = args :: up)
    (hp : psyncs args = true) : V.phase = .fullresync ∧ Unsynced V ∧ up = [] ∧ V.down = [] := by
  rcases h.up_cases hup with ⟨-, hpsync⟩ | rfl | ⟨sub, value, rfl⟩
  · exact hpsync
  · exact absurd hp (by decide)
  · have hname : commandName (str "REPLCONF") ≠ some .psync := by decide
    exact absurd (of_decide_eq_true hp) hname

theorem Stage.command {args : Args} {up : List Args} (h : Stage port link V) (hup : V.up = args :: up)
    (hp : psyncs args = false) :
    args = pingCommand ∨ ∃ sub value, args = [str "REPLCONF", sub, value] := by
  rcases h.up_cases hup with ⟨rfl, -⟩ | hc
  · exact absurd hp (by decide)
  · exact hc

theorem Stage.resynced {args : Args} {up : List Args} (h : Stage port link V) (hup : V.up = args :: up)
    (hp : psyncs args = true) {records : List Record} (hsize : (rdbSerialize records).length < 2 ^ 64)
    {R : Replication} (hR : R.masterOffset = V.masterOffset) :
    Stage port link { V with
      up
      down := V.down ++ (Net.fullresyncLine R ++ Net.rdbTransfer (rdbSerialize records))
      links := V.links ++ [link]
      resync := some (records, R.masterOffset)
      since := [] } := by
  obtain ⟨hphase, hu, rfl, hdown⟩ := h.psync hup hp
  have hoffset : V.masterOffset = R.masterOffset + Int64.ofNat (encs []).length := by
    rw [hR]; exact (Int64.add_zero _).symm
  unfold Stage
  dsimp only
  rw [hphase]
  refine .inr ⟨records, R, ⟨rfl, hsize, ?_, hoffset, fun c hc => nomatch hc⟩, rfl, ?_, hu.rdb, hu.posted⟩
  · show V.links ++ [link] = [link]
    rw [hu.links]; rfl
  · show V.down ++ _ = _ ++ encs []
    rw [hdown, List.nil_append]
    exact (List.append_nil _).symm

end View

end RP
