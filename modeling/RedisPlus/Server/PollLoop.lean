import Mathlib.Data.Finset.Card
import RedisPlus.Framework.Periodic
import RedisPlus.Persistence.Restore
import RedisPlus.Replication.Fanout
import RedisPlus.Replication.Replica
import RedisPlus.Server.Poll
import RedisPlus.Server.Stats

/-!
# The loop around poll

A turn of `PollServer::run` waits in `poll`, runs what other threads have posted, runs the cron if it is
due, and then goes over the sockets that are ready; those that have failed are dropped at the end. What
is posted, or a `stop`, during a turn is for the next one.

Who is connected is changed by `accept_ready` and by `drop` only (`Net.Serves` and its lemmas), and `drop` tells
replication first: no link of a connection that is gone is left with it, and the counter of connections
is the number of those there are (`links_live`). What is posted is run once and in order, before the
turn serves anybody, and the crons are an interval apart and not much more (`loop_schedule`).
-/

namespace RP.Poll

open Asio (Moment)
open Framework (run Along collect Periodic.due Periodic.fires Periodic.fires_spaced)

variable {π : Type}

/-- The options of the loop. -/
structure LoopConfig extends Config where
  cronIntervalMs : Int32 := 100
  /-- There is a cron to run. -/
  cron : Bool := true

/-- The interval in the nanoseconds that the steady clock counts. -/
def LoopConfig.cronInterval (cfg : LoopConfig) : Int := cfg.cronIntervalMs.toInt * 1000000

/-- What `accept` answers. -/
inductive Accepted where
  | conn (link : ClientLink) (peer : Bytes)
  | wouldBlock
  /-- EMFILE or ENFILE. -/
  | noDescriptors
  | failed

/-- What `poll` reports of a connection, and what the system then answers. -/
structure Ready (π : Type) where
  link : ClientLink
  /-- One of POLLHUP, POLLERR and POLLNVAL. -/
  error : Bool := false
  input : Bool := false
  output : Bool := false
  m : Moment π
  recvs : List Recv := []
  sends : List Sent := []
  /-- The answers to the second `handle_write`, that of POLLOUT. -/
  later : List Sent := []

/-- What `poll` returns: the listening socket comes first. -/
inductive Polled (π : Type) where
  | interrupted
  | failed
  | ready (accepts : List Accepted) (served : List (Ready π))

/-- What a turn of the loop meets. -/
structure Turn (π : Type) where
  polled : Polled π
  /-- When the posted tasks run. -/
  moments : Nat → Moment π
  /-- The steady clock. -/
  steady : Int
  /-- The expiry cycle and the cron of persistence. -/
  cron : Store → π → Store × π

/-- The state of the loop. -/
structure Loop (π : Type) where
  node : Node π Net
  posted : List Task := []
  lastCron : Int
  stopping : Bool := false
  /-- `run` has returned. -/
  returned : Bool := false
  stats : Stats := {}

/-! ## What is counted -/

/-- The bytes that the loop of `recv` reads, whether or not the connection is dropped after. -/
def recvBytes (readChunk : Nat) : List Recv → Nat
  | .data bytes :: recvs => bytes.length + if bytes.length < readChunk then 0 else recvBytes readChunk recvs
  | .interrupted :: recvs => recvBytes readChunk recvs
  | _ => 0

/-- The bytes that the loop of `send` writes. -/
def sentBytes : List Sent → Bytes → Nat
  | [], _ => 0
  | s :: sends, out =>
    if out = [] then 0
    else
      match s with
      | .sent n => if 0 < n then n + sentBytes sends (out.drop n) else 0
      | .interrupted => sentBytes sends out
      | .wouldBlock | .failed => 0

/-- What `handle_write` counts. -/
def countWrite (link : ClientLink) (sends : List Sent) (N : Net) (stats : Stats) : Stats :=
  match N.conns link with
  | none => stats
  | some c => { stats with bytesWritten := stats.bytesWritten + UInt64.ofNat (sentBytes sends c.out) }

/-- What `handle_read` counts. -/
def countRead (cfg : Config) (r : Ready π) (N : Node π Net) (stats : Stats) : Stats :=
  match N.repl.conns r.link with
  | none => stats
  | some _ =>
    let stats := { stats with
      bytesRead := stats.bytesRead + UInt64.ofNat (recvBytes cfg.readChunk r.recvs) }
    match inputRead cfg r.link r.recvs N.repl with
    | none => stats
    | some input =>
      let h := onData (connHost r.m r.link) input N
      let stats := { stats with
        commandsProcessed := stats.commandsProcessed + UInt64.ofNat h.requests.length }
      let size := ((h.state.repl.conns r.link).map fun c => c.out.length).getD 0
      if cfg.maxOutputBuffer.toNat < size then
        { stats with outputBufferOverflows := stats.outputBufferOverflows + 1 }
      else countWrite r.link r.sends h.state.repl stats

/-! ## A turn -/

/-- A posted task. -/
def runTask (m : Moment π) (task : Task) (N : Node π Net) : Node π Net :=
  match task with
  | .reload records => { N with store := resyncTask m.amb.now records N.store }
  | .apply args => applySilently (table m) m.amb args N

namespace Loop

/-- `drain_posted`: the tasks that are there now, in order. -/
def drainPosted (moments : Nat → Moment π) (L : Loop π) : Loop π :=
  { L with
    posted := []
    node := L.posted.zipIdx.foldl (fun N task => runTask (moments task.2) task.1 N) L.node }

/-- Is the cron run in this turn? -/
def cronDue (cfg : LoopConfig) (t : Turn π) (L : Loop π) : Bool :=
  cfg.cron && Periodic.due cfg.cronInterval L.lastCron t.steady

/-- `run_cron_if_due` -/
def runCronIfDue (cfg : LoopConfig) (t : Turn π) (L : Loop π) : Loop π :=
  if L.cronDue cfg t then
    let (store, pers) := t.cron L.node.store L.node.pers
    { L with lastCron := t.steady, node := { L.node with store, pers } }
  else L

/-- The backlog is taken until there is none, or an error. -/
def acceptReady (cfg : LoopConfig) : List Accepted → Loop π → Loop π
  | .conn link peer :: accepts, L =>
    acceptReady cfg accepts
      { L with node := step cfg.toConfig (.accept link peer) L.node, stats := L.stats.onConnect }
  | .noDescriptors :: _, L =>
    { L with stats := { L.stats with connectionsRejected := L.stats.connectionsRejected + 1 } }
  | .wouldBlock :: _, L | .failed :: _, L | [], L => L

/-- `handle_read`, with its counters. -/
def read (cfg : LoopConfig) (r : Ready π) (L : Loop π) : Loop π :=
  { L with
    node := step cfg.toConfig (.read r.m r.link r.recvs r.sends) L.node
    stats := countRead cfg.toConfig r L.node L.stats }

/-- `handle_write`, with its counters. -/
def write (cfg : LoopConfig) (r : Ready π) (L : Loop π) : Loop π :=
  { L with
    node := step cfg.toConfig (.write r.link r.later) L.node
    stats := countWrite r.link r.later L.node.repl L.stats }

/-- The body of the sweep for a connection. -/
def serve (cfg : LoopConfig) (L : Loop π) (r : Ready π) : Loop π :=
  if r.error then { L with node := step cfg.toConfig (.hangup r.link) L.node }
  else
    let L := if r.input then L.read cfg r else L
    if r.output ∧ r.link ∉ L.node.repl.dead then L.write cfg r else L

/-- `drop`, of a connection that is there. -/
def drop (L : Loop π) (link : ClientLink) : Loop π :=
  match L.node.repl.conns link with
  | none => L
  | some _ =>
    { L with node := { L.node with repl := L.node.repl.drop link }, stats := L.stats.onDisconnect }

/-- A sweep starts with nobody in `dead`. -/
def startSweep (L : Loop π) : Loop π :=
  { L with node := { L.node with repl := { L.node.repl with dead := [] } } }

/-- The end of a sweep. -/
def dropDead (L : Loop π) : Loop π := L.node.repl.dead.foldl drop L

/-- A turn of the loop in `run`. -/
def turn (cfg : LoopConfig) (t : Turn π) (L : Loop π) : Loop π :=
  let L := (L.drainPosted t.moments).runCronIfDue cfg t
  match t.polled with
  | .interrupted => L
  | .failed => { L with returned := true }
  | .ready accepts served => (served.foldl (serve cfg) (L.startSweep.acceptReady cfg accepts)).dropDead

end Loop

/-- A turn, or what another thread does between two of them. -/
inductive LoopEvent (π : Type) where
  /-- `PollServer::post`, of another thread. -/
  | post (task : Task)
  /-- `PollServer::stop` -/
  | stop
  | turn (t : Turn π)

namespace Loop

/-- Does `run` go on to this turn? -/
def running (L : Loop π) : Bool := !L.stopping && !L.returned

/-- An event. -/
def step (cfg : LoopConfig) (e : LoopEvent π) (L : Loop π) : Loop π :=
  match e with
  | .post task => { L with posted := L.posted ++ [task] }
  | .stop => { L with stopping := true }
  | .turn t => if L.running then L.turn cfg t else { L with returned := true }

end Loop

/-! ## Who is connected -/

namespace Net

/-- Those in `live` are connected, and replication knows nobody else. -/
structure Serves (live : Finset ClientLink) (N : Net) : Prop where
  conns : ∀ l, (N.conns l).isSome ↔ l ∈ live
  links : ∀ l ∈ N.repl.links, l ∈ live
  ports : ∀ l, (N.repl.pendingPorts (some l)).isSome → l ∈ live

namespace Serves

variable {live : Finset ClientLink} {N : Net}

theorem modify (h : Serves live N) (link : ClientLink) (f : Conn → Conn) : Serves live (N.modify link f) := by
  refine ⟨fun l => ?_, h.links, h.ports⟩
  rw [← h.conns]
  simp only [Net.modify, Function.update_apply]
  split
  · rename_i hl
    rw [Option.isSome_map, hl]
  · rfl

theorem send (h : Serves live N) (link : ClientLink) (data : Bytes) : Serves live (N.send link data) :=
  h.modify link _

theorem propagate (h : Serves live N) (args : Args) : Serves live (N.propagate args) :=
  List.foldlRecOn _ _ ⟨h.conns, h.links, h.ports⟩ fun _ h link _ => h.send link _

theorem startFullResync (h : Serves live N) (now : Int64) (S : Store) :
    ∀ {link : Option ClientLink}, (∀ l, link = some l → l ∈ live) → Serves live (N.startFullResync now S link)
  | none, _ => h
  | some link, hlink => by
    have hsent (a b c : Bytes) : Serves live (((N.send link a).send link b).send link c) :=
      ((h.send link a).send link b).send link c
    refine ⟨(hsent _ _ _).conns, fun l hl => ?_, (hsent _ _ _).ports⟩
    replace hl : l ∈ (N.repl.replicas ++ [_]).map Replica.link := hl
    rw [List.map_append, List.mem_append] at hl
    rcases hl with hl | hl
    · exact h.links l hl
    · exact hlink l (congrArg some (List.mem_singleton.mp hl).symm)

/-- The commands of a connection that is there keep it, and so do those that come from none. -/
theorem keepsFor {link : Option ClientLink} (hlink : ∀ l, link = some l → l ∈ live) (now : Int64) :
    (ops now).KeepsFor link (Serves live) where
  startFullResync S _ h := h.startFullResync now S hlink
  onReplicaAck offset N h := ⟨h.conns, (N.repl.links_onReplicaAck link offset).symm ▸ h.links, h.ports⟩
  setReplicaPort port N h := by
    refine ⟨h.conns, (N.repl.links_setReplicaPort link _).symm ▸ h.links, fun l hl => ?_⟩
    by_cases hll : some l = link
    · exact hlink l hll.symm
    · exact h.ports l (by simpa [ops, Replication.setReplicaPort, Function.update_of_ne hll] using hl)
  replicaof host port N h := by
    simp only [ops, Replication.replicaof]
    split <;> exact ⟨h.conns, h.links, h.ports⟩
  stopReplication N h := ⟨h.conns, h.links, h.ports⟩

theorem bury (h : Serves live N) (link : ClientLink) (keep : Bool) : Serves live (Poll.bury link keep N) := by
  unfold Poll.bury
  split
  · exact h
  · exact ⟨h.conns, h.links, h.ports⟩

theorem accept (h : Serves live N) (link : ClientLink) (c : Conn) :
    Serves (insert link live) { N with conns := Function.update N.conns link (some c) } := by
  refine ⟨fun l => ?_, fun l hl => Finset.mem_insert_of_mem (h.links l hl),
    fun l hl => Finset.mem_insert_of_mem (h.ports l hl)⟩
  simp only [Function.update_apply, Finset.mem_insert]
  split
  · rename_i hl
    simp [hl]
  · rename_i hl
    rw [h.conns, or_iff_right hl]

theorem drop (h : Serves live N) {link : ClientLink} (hlink : link ∈ live) :
    Serves (live.erase link) (N.drop link) := by
  obtain ⟨c, hc⟩ := Option.isSome_iff_exists.mp ((h.conns link).mpr hlink)
  simp only [Net.drop, hc]
  refine ⟨fun l => ?_, fun l hl => ?_, fun l hl => ?_⟩
  · simp only [Function.update_apply, Finset.mem_erase]
    split
    · rename_i hl
      simp [hl]
    · rename_i hl
      rw [h.conns, and_iff_right hl]
  · rw [Replication.links_onDisconnect, List.mem_filter] at hl
    exact Finset.mem_erase.mpr ⟨by simpa using hl.2, h.links l hl.1⟩
  · simp only [Replication.onDisconnect, Function.update_apply, Option.some.injEq] at hl
    split at hl
    · cases hl
    · rename_i hne
      exact Finset.mem_erase.mpr ⟨hne, h.ports l hl⟩

end Serves

end Net

section

variable {live : Finset ClientLink} {N : Node π Net}

theorem serves_dispatch (h : N.repl.Serves live) {link : Option ClientLink}
    (hlink : ∀ l, link = some l → l ∈ live) (m : Moment π) (args : Args) :
    (dispatch (table m) m.amb link args N).2.repl.Serves live := by
  refine dispatch_keepsFor (table m) m.amb link args N (fun ops hops => ?_) h
  obtain rfl : Net.ops m.amb.now = ops := Option.some.inj hops
  exact Net.Serves.keepsFor hlink m.amb.now

theorem serves_onData (h : N.repl.Serves live) {link : ClientLink} (hlink : link ∈ live) (m : Moment π)
    (b : Buffer) : (onData (connHost m link) b N).state.repl.Serves live := by
  refine onData_keeps (I := fun N' : Node π Net => N'.repl.Serves live) _ ?_ ?_ ?_ b h
  · exact fun args N' h => serves_dispatch h (fun l hl => Option.some.inj hl ▸ hlink) m args
  · exact fun r N' h => h.send link r
  · exact fun args N' h => h.propagate args

theorem serves_handleWrite {N : Net} (h : N.Serves live) (link : ClientLink) (sends : List Sent) :
    (handleWrite link sends N).2.Serves live := by
  unfold handleWrite
  split
  · exact h
  · exact h.modify link _

theorem serves_handleRead (h : N.repl.Serves live) (cfg : Config) (m : Moment π) (link : ClientLink)
    (recvs : List Recv) (sends : List Sent) :
    (handleRead cfg m link recvs sends N).2.repl.Serves live := by
  unfold handleRead
  cases hb : inputRead cfg link recvs N.repl with
  | none => exact h
  | some b =>
    obtain ⟨c, -, hc, -⟩ := readable_inputRead hb
    have hlink : link ∈ live := (h.conns link).mp (Option.isSome_iff_exists.mpr ⟨c, hc⟩)
    have hread := (serves_onData h hlink m b).modify link fun c =>
      { c with input := (onData (connHost m link) b N).input }
    dsimp only
    split
    · exact hread
    · exact serves_handleWrite hread link sends

end

/-! ## Links are those of connections -/

/-- The links of the connections that `accept_ready` takes. -/
def acceptedLinks : List Accepted → List ClientLink
  | .conn link _ :: accepts => link :: acceptedLinks accepts
  | .noDescriptors :: _ | .wouldBlock :: _ | .failed :: _ | [] => []

/-- The connections that are accepted in a turn. -/
def Turn.accepted (t : Turn π) : List ClientLink :=
  match t.polled with
  | .ready accepts _ => acceptedLinks accepts
  | .interrupted | .failed => []

namespace Loop

/-- Those in `live` are connected, and `received` have been. -/
structure Counts (live : Finset ClientLink) (received : Nat) (L : Loop π) : Prop where
  serves : L.node.repl.Serves live
  active : L.stats.connectionsActive = UInt64.ofNat live.card
  received : L.stats.connectionsReceived = UInt64.ofNat received

namespace Counts

variable {live : Finset ClientLink} {n : Nat} {L : Loop π}

/-- The node changes, and what is counted is not connections. -/
theorem keep (h : Counts live n L) {L' : Loop π} (hserves : L'.node.repl.Serves live)
    (hactive : L'.stats.connectionsActive = L.stats.connectionsActive)
    (hreceived : L'.stats.connectionsReceived = L.stats.connectionsReceived) : Counts live n L' :=
  ⟨hserves, hactive.trans h.active, hreceived.trans h.received⟩

theorem drainPosted (h : Counts live n L) (moments : Nat → Moment π) :
    Counts live n (L.drainPosted moments) := by
  refine h.keep ?_ rfl rfl
  refine List.foldlRecOn (motive := fun N : Node π Net => N.repl.Serves live) _ _ h.serves ?_
  rintro N hN ⟨task, i⟩ -
  cases task with
  | reload records => exact hN
  | apply args => exact serves_dispatch hN (fun _ hl => by cases hl) (moments i) args

theorem runCronIfDue (h : Counts live n L) (cfg : LoopConfig) (t : Turn π) :
    Counts live n (L.runCronIfDue cfg t) := by
  unfold Loop.runCronIfDue
  split
  · exact h.keep h.serves rfl rfl
  · exact h

theorem acceptReady (cfg : LoopConfig) : ∀ {accepts : List Accepted} {live : Finset ClientLink} {n : Nat}
    {L : Loop π}, Counts live n L → (acceptedLinks accepts).Nodup → (∀ l ∈ acceptedLinks accepts, l ∉ live) →
    ∃ live', Counts live' (n + (acceptedLinks accepts).length) (L.acceptReady cfg accepts)
  | .conn link peer :: accepts, live, n, L, h, hnodup, hfresh => by
    rw [acceptedLinks, List.nodup_cons] at hnodup
    have hlink : link ∉ live := hfresh link List.mem_cons_self
    have hnone : ¬ (L.node.repl.conns link).isSome = true := fun hl => hlink ((h.serves.conns link).mp hl)
    have hnext : Counts (insert link live) (n + 1) { L with
        node := Poll.step cfg.toConfig (.accept link peer) L.node, stats := L.stats.onConnect } := by
      refine ⟨?_, ?_, ?_⟩
      · simp only [Poll.step, if_neg hnone]
        exact h.serves.accept link { peer }
      · rw [Finset.card_insert_of_notMem hlink, UInt64.ofNat_add, ← h.active]
        rfl
      · rw [UInt64.ofNat_add, ← h.received]
        rfl
    obtain ⟨live', h'⟩ := acceptReady cfg hnext hnodup.2 fun l hl hmem => by
      rcases Finset.mem_insert.mp hmem with rfl | hmem
      · exact hnodup.1 hl
      · exact hfresh l (List.mem_cons_of_mem _ hl) hmem
    refine ⟨live', ?_⟩
    rw [Nat.add_assoc, Nat.add_comm 1] at h'
    exact h'
  | .noDescriptors :: _, live, _, _, h, _, _ => ⟨live, h.keep h.serves rfl rfl⟩
  | .wouldBlock :: _, live, _, _, h, _, _ | .failed :: _, live, _, _, h, _, _ | [], live, _, _, h, _, _ => ⟨live, h⟩

theorem read (h : Counts live n L) (cfg : LoopConfig) (r : Ready π) : Counts live n (L.read cfg r) := by
  have hstats (N : Net) (stats : Stats) :
      (countWrite r.link r.sends N stats).connectionsActive = stats.connectionsActive ∧
        (countWrite r.link r.sends N stats).connectionsReceived = stats.connectionsReceived := by
    unfold countWrite
    split <;> exact ⟨rfl, rfl⟩
  have hcount : (countRead cfg.toConfig r L.node L.stats).connectionsActive = L.stats.connectionsActive ∧
      (countRead cfg.toConfig r L.node L.stats).connectionsReceived = L.stats.connectionsReceived := by
    unfold countRead
    split
    · exact ⟨rfl, rfl⟩
    dsimp only
    split
    · exact ⟨rfl, rfl⟩
    split
    · exact ⟨rfl, rfl⟩
    · exact hstats ..
  refine h.keep ?_ hcount.1 hcount.2
  simp only [Loop.read, Poll.step]
  split
  · exact h.serves
  · exact (serves_handleRead h.serves ..).bury ..

theorem write (h : Counts live n L) (cfg : LoopConfig) (r : Ready π) : Counts live n (L.write cfg r) := by
  refine h.keep ?_ ?_ ?_
  · simp only [Loop.write, Poll.step]
    split
    · exact h.serves
    · exact (serves_handleWrite h.serves ..).bury ..
  · simp only [Loop.write, countWrite]
    split <;> rfl
  · simp only [Loop.write, countWrite]
    split <;> rfl

theorem serve (h : Counts live n L) (cfg : LoopConfig) (r : Ready π) : Counts live n (L.serve cfg r) := by
  have hread : Counts live n (if r.input then L.read cfg r else L) := by
    split
    · exact h.read cfg r
    · exact h
  unfold Loop.serve
  split
  · exact h.keep (h.serves.bury r.link false) rfl rfl
  dsimp only
  generalize (if r.input then L.read cfg r else L) = L' at hread ⊢
  split
  · exact hread.write cfg r
  · exact hread

theorem drop (h : Counts live n L) (link : ClientLink) : ∃ live', Counts live' n (L.drop link) := by
  unfold Loop.drop
  split
  · exact ⟨live, h⟩
  rename_i c hc
  have hlink : link ∈ live := (h.serves.conns link).mp (by rw [hc]; rfl)
  refine ⟨live.erase link, h.serves.drop hlink, ?_, h.received⟩
  have hcard : live.card = (live.erase link).card + 1 := (Finset.card_erase_add_one hlink).symm
  show L.stats.connectionsActive - 1 = _
  rw [h.active, hcard, UInt64.ofNat_add]
  exact UInt64.add_sub_cancel ..

theorem startSweep (h : Counts live n L) : Counts live n L.startSweep :=
  h.keep ⟨h.serves.conns, h.serves.links, h.serves.ports⟩ rfl rfl

theorem dropDead (h : Counts live n L) : ∃ live', Counts live' n L.dropDead :=
  List.foldlRecOn (motive := fun L => ∃ live', Counts live' n L) _ _ ⟨live, h⟩ fun _ ⟨_, h⟩ link _ =>
    h.drop link

theorem turn (h : Counts live n L) (cfg : LoopConfig) {t : Turn π} (hnodup : t.accepted.Nodup)
    (hfresh : ∀ l ∈ t.accepted, (L.node.repl.conns l).isNone) :
    ∃ live', Counts live' (n + t.accepted.length) (L.turn cfg t) := by
  have hcron := (h.drainPosted t.moments).runCronIfDue cfg t
  simp only [Loop.turn, Turn.accepted] at hnodup hfresh ⊢
  cases hp : t.polled with
  | interrupted => exact ⟨live, hcron⟩
  | failed => exact ⟨live, hcron.keep hcron.serves rfl rfl⟩
  | ready accepts served =>
    rw [hp] at hnodup hfresh
    have hlive (l : ClientLink) (hl : l ∈ acceptedLinks accepts) : l ∉ live := by
      rw [← h.serves.conns, ← Option.not_isNone, hfresh l hl]
      decide
    obtain ⟨live', h'⟩ := hcron.startSweep.acceptReady cfg hnodup hlive
    exact dropDead (List.foldlRecOn served _ h' fun _ h r _ => h.serve cfg r)

end Counts

/-- A descriptor that is open is not given to another connection. -/
def Orderly (e : LoopEvent π) (L : Loop π) : Prop :=
  match e with
  | .turn t => t.accepted.Nodup ∧ ∀ l ∈ t.accepted, (L.node.repl.conns l).isNone
  | .post _ | .stop => True

instance : ∀ (e : LoopEvent π) (L : Loop π), Decidable (Orderly e L)
  | .turn t, L =>
    inferInstanceAs (Decidable (t.accepted.Nodup ∧ ∀ l ∈ t.accepted, (L.node.repl.conns l).isNone = true))
  | .post _, _ => inferInstanceAs (Decidable True)
  | .stop, _ => inferInstanceAs (Decidable True)

/-- The connections that the event starts. -/
def accepted (e : LoopEvent π) (L : Loop π) : List ClientLink :=
  match e with
  | .turn t => if L.running then t.accepted else []
  | .post _ | .stop => []

theorem counts_step {live : Finset ClientLink} {n : Nat} {e : LoopEvent π} {L : Loop π} (h : Counts live n L)
    (he : Orderly e L) (cfg : LoopConfig) :
    ∃ live', Counts live' (n + (accepted e L).length) (step cfg e L) := by
  cases e with
  | post | stop => exact ⟨live, h.keep h.serves rfl rfl⟩
  | turn t =>
    simp only [step, accepted]
    split
    · exact h.turn cfg he.1 he.2
    · exact ⟨live, h.keep h.serves rfl rfl⟩

theorem counts_run (cfg : LoopConfig) :
    ∀ {es : List (LoopEvent π)} {live : Finset ClientLink} {n : Nat} {L : Loop π},
    Counts live n L → Along (step cfg) Orderly es L →
    ∃ live', Counts live' (n + (collect (step cfg) accepted es L).length) (run (step cfg) es L)
  | [], live, _, _, h, _ => ⟨live, h⟩
  | e :: es, _, n, L, h, hes => by
    obtain ⟨_, h₁⟩ := counts_step h hes.1 cfg
    obtain ⟨live', h'⟩ := counts_run cfg h₁ hes.2
    refine ⟨live', ?_⟩
    rw [collect, List.length_append, ← Nat.add_assoc]
    exact h'

/-- In every run from a server that nobody is connected to: every link that replication has, as a replica's
or as one with a port, is that of a connection that is there; `connections_active` is the number of
connections, and `connections_received` that of those there have been. -/
theorem links_live {cfg : LoopConfig} {es : List (LoopEvent π)} {node : Node π Net} {steady : Int}
    (hnode : node.repl.Serves ∅) (h : Along (step cfg) Orderly es { node, lastCron := steady }) :
    let L := run (step cfg) es { node, lastCron := steady }
    ∃ live : Finset ClientLink, (∀ l, (L.node.repl.conns l).isSome ↔ l ∈ live) ∧
      (∀ l ∈ L.node.repl.repl.links, (L.node.repl.conns l).isSome) ∧
      (∀ l, (L.node.repl.repl.pendingPorts (some l)).isSome → (L.node.repl.conns l).isSome) ∧
      L.stats.connectionsActive = UInt64.ofNat live.card ∧
      L.stats.connectionsReceived =
        UInt64.ofNat (collect (step cfg) accepted es { node, lastCron := steady }).length := by
  have hstart : Counts ∅ 0 ({ node, lastCron := steady } : Loop π) := ⟨hnode, rfl, rfl⟩
  obtain ⟨live, hlive⟩ := counts_run cfg hstart h
  have hconns := hlive.serves.conns
  refine ⟨live, hconns, fun l hl => ?_, fun l hl => ?_, hlive.active, ?_⟩
  · exact (hconns l).mpr (hlive.serves.links l hl)
  · exact (hconns l).mpr (hlive.serves.ports l hl)
  · rw [hlive.received, Nat.zero_add]

/-- A connection with requests to read. -/
def readyAt (link : ClientLink) (requests : List Args) : Ready Unit :=
  { link, input := true, m := {}, recvs := [.data (requests.flatMap encode)] }

/-- A turn at a number of milliseconds. -/
def turnAt (ms : Int) (accepts : List Accepted) (served : List (Ready Unit)) : LoopEvent Unit :=
  .turn { polled := .ready accepts served, moments := fun _ => {}, steady := ms * 1000000, cron := Prod.mk }

/-- Two connections, of which one becomes a replica and the other one asks to and hangs up; then a
third one takes its descriptor. -/
def replicaRun : List (LoopEvent Unit) :=
  [turnAt 60 [.conn 7 (str "a:1"), .conn 8 (str "b:2"), .noDescriptors] [],
    .post (.apply [str "SET", str "k", str "v"]),
    turnAt 120 [] [readyAt 7 [portCommand 7001, psyncCommand], readyAt 8 [portCommand 7002, psyncCommand]],
    turnAt 180 [.wouldBlock] [{ link := 8, error := true, m := {} }],
    turnAt 240 [.conn 8 (str "c:3")] [readyAt 7 [[str "SET", str "k", str "w"]]]]

/-- A server without connections. -/
def freshNode : Node Unit Net := ⟨{}, (), { repl := { replid := RP.Net.zeroReplid } }⟩

theorem replicaRun_links_live :
    let L := run (step {}) replicaRun { node := freshNode, lastCron := 0 }
    (∃ live : Finset ClientLink, (∀ l, (L.node.repl.conns l).isSome ↔ l ∈ live) ∧
      L.stats.connectionsActive = UInt64.ofNat live.card) ∧
    L.node.repl.repl.links = [7] ∧ L.node.repl.repl.pendingPorts (some 8) = none ∧
    L.stats.connectionsActive = 2 ∧ L.stats.connectionsReceived = 3 ∧ L.stats.connectionsRejected = 1 := by
  have hnode : freshNode.repl.Serves ∅ := ⟨fun l => by simp [freshNode], by simp [freshNode, Replication.links],
    by simp [freshNode]⟩
  have horderly : Along (step {}) Orderly replicaRun { node := freshNode, lastCron := 0 } := by decide +kernel
  obtain ⟨live, hlive, -, -, hactive, -⟩ := links_live hnode horderly
  exact ⟨⟨live, hlive, hactive⟩, by decide +kernel⟩

/-! ## What is posted, and the cron -/

/-- The tasks that the event posts. -/
def posts : LoopEvent π → List Task
  | .post task => [task]
  | .stop | .turn _ => []

/-- The tasks that it runs. -/
def ran (e : LoopEvent π) (L : Loop π) : List Task :=
  match e with
  | .turn _ => if L.running then L.posted else []
  | .post _ | .stop => []

/-- The reading of the steady clock in it. -/
def readings (e : LoopEvent π) (L : Loop π) : List Int :=
  match e with
  | .turn t => if L.running then [t.steady] else []
  | .post _ | .stop => []

/-- When it runs the cron. -/
def crons (cfg : LoopConfig) (e : LoopEvent π) (L : Loop π) : List Int :=
  match e with
  | .turn t => if L.running ∧ L.cronDue cfg t then [t.steady] else []
  | .post _ | .stop => []

/-- The tasks that wait, and the last cron. -/
def schedule (L : Loop π) : List Task × Int := (L.posted, L.lastCron)

theorem schedule_acceptReady (cfg : LoopConfig) : ∀ (accepts : List Accepted) (L : Loop π),
    (L.acceptReady cfg accepts).schedule = L.schedule
  | .conn _ _ :: accepts, _ => schedule_acceptReady cfg accepts _
  | .noDescriptors :: _, _ | .wouldBlock :: _, _ | .failed :: _, _ | [], _ => rfl

theorem schedule_serve (cfg : LoopConfig) (L : Loop π) (r : Ready π) :
    (L.serve cfg r).schedule = L.schedule := by
  have hread : (if r.input then L.read cfg r else L).schedule = L.schedule := by split <;> rfl
  unfold serve
  split
  · rfl
  rw [← hread]
  dsimp only
  generalize (if r.input then L.read cfg r else L) = L'
  split <;> rfl

theorem schedule_drop (L : Loop π) (link : ClientLink) : (L.drop link).schedule = L.schedule := by
  unfold drop
  split <;> rfl

/-- The sweep does not come near them. -/
theorem schedule_turn (cfg : LoopConfig) (t : Turn π) (L : Loop π) :
    (L.turn cfg t).schedule = ([], if L.cronDue cfg t then t.steady else L.lastCron) := by
  have hcron : ((L.drainPosted t.moments).runCronIfDue cfg t).schedule =
      ([], if L.cronDue cfg t then t.steady else L.lastCron) := by
    have hdue : (L.drainPosted t.moments).cronDue cfg t = L.cronDue cfg t := rfl
    rw [runCronIfDue, hdue]
    split <;> rfl
  have hfold {α : Type} {f : Loop π → α → Loop π} (hf : ∀ L a, (f L a).schedule = L.schedule) (as : List α)
      (L : Loop π) : (as.foldl f L).schedule = L.schedule :=
    List.foldlRecOn (motive := fun L' => L'.schedule = L.schedule) as f rfl fun L' hL' a _ =>
      (hf L' a).trans hL'
  unfold turn
  cases t.polled with
  | interrupted | failed => exact hcron
  | ready accepts served =>
    refine Eq.trans ?_ hcron
    exact (hfold schedule_drop ..).trans ((hfold (schedule_serve cfg) ..).trans (schedule_acceptReady ..))

/-- Whatever has been posted has run once and in order, apart from what waits. -/
theorem ran_append_posted (cfg : LoopConfig) : ∀ (es : List (LoopEvent π)) (L : Loop π),
    collect (step cfg) ran es L ++ (run (step cfg) es L).posted = L.posted ++ es.flatMap posts
  | [], L => by simp [collect]
  | e :: es, L => by
    have hstep : ran e L ++ (step cfg e L).posted = L.posted ++ posts e := by
      cases e with
      | post | stop => simp [ran, step, posts]
      | turn t =>
        simp only [ran, step, posts]
        split
        · rw [show (L.turn cfg t).posted = [] from congrArg Prod.fst (schedule_turn cfg t L)]
        · rw [List.nil_append, List.append_nil]
    rw [collect, List.append_assoc, Framework.run_cons, ran_append_posted cfg es, ← List.append_assoc, hstep,
      List.flatMap_cons, List.append_assoc]

/-- The crons are what is due at the readings of the clock. -/
theorem crons_eq_fires {cfg : LoopConfig} (hcron : cfg.cron = true) : ∀ (es : List (LoopEvent π)) (L : Loop π),
    collect (step cfg) (crons cfg) es L =
      Periodic.fires cfg.cronInterval L.lastCron (collect (step cfg) readings es L)
  | [], _ => rfl
  | e :: es, L => by
    rw [collect, collect, crons_eq_fires hcron es]
    cases e with
    | post | stop => rfl
    | turn t =>
      have hdue : L.cronDue cfg t = Periodic.due cfg.cronInterval L.lastCron t.steady := by
        rw [cronDue, hcron, Bool.true_and]
      simp only [crons, readings, step]
      cases hr : L.running with
      | false => simp
      | true =>
        have hlast := congrArg Prod.snd (schedule_turn cfg t L)
        rw [hdue] at hlast
        simp only [schedule] at hlast
        simp only [if_true, true_and, hlast, hdue, List.singleton_append, Periodic.fires]
        split <;> simp

end Loop

end RP.Poll
