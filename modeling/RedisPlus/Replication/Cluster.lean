import RedisPlus.Command.Replay
import RedisPlus.Framework.Lagging
import RedisPlus.Persistence.Restore
import RedisPlus.Replication.Stream

/-!
# A master, and a replica that loses its link

`Cluster` is a whole replica beside its master: clients write to the master, which expires keys on
its own; the replica's thread receives the stream; its event loop runs, later and at its own clock,
what the thread has posted; other clients read from the replica. The link may break at any time,
or be closed by the master when its output passes the cap, and the replica connects anew. What the
thread had posted before is still run, and what of it the new snapshot covers is run twice.

One thing is simpler than in the server: the master has closed the former connection when the replica
connects anew (`reconnect`). In the server the former one may be half open for a while, so that the
replica is on the list of replicas twice; if the output of the first then passes the cap in `propagate`,
the other misses that command.

An event on another connection of the master keeps the invariant of the stream (`inv_client`), and
one that closes the link takes the replica off the master's list (`Inv.links_of_closed`).
-/

namespace RP

open Asio (Moment)
open Framework (Due Trail run Along)

/-! ## The machine -/

/-- An event of the master's loop on a connection other than `link`. -/
def Asio.Event.OnOther (link : ClientLink) : Asio.Event Unit → Prop
  | .accept l _ | .refuse l _ | .readEnd l _ | .readFailed l | .written l | .writeFailed l => l ≠ link
  | .request _ l args => l ≠ link ∧ psyncs args = false ∧ Within args
  | .apply _ _ | .cron _ _ => False

instance (link : ClientLink) : ∀ e : Asio.Event Unit, Decidable (e.OnOther link)
  | .accept l _ | .refuse l _ | .readEnd l _ | .readFailed l | .written l | .writeFailed l =>
    inferInstanceAs (Decidable (l ≠ link))
  | .request _ l args => inferInstanceAs (Decidable (l ≠ link ∧ psyncs args = false ∧ Within args))
  | .apply _ _ | .cron _ _ => inferInstanceAs (Decidable False)

/-- What the clock reads in it, if it is read. -/
def Asio.Event.clock (t : Int64) : Asio.Event Unit → Int64
  | .request m _ _ => m.amb.now
  | _ => t

/-- What the thread and the socket do, on their own. -/
def SyncEvent.onLink : SyncEvent → Bool
  | .readEnd | .written | .deliver _ | .act | .tick => true
  | .serve _ | .propagate _ | .write _ => false

/-- A master and a replica, with what is between them. -/
structure Cluster (π ρ : Type) where
  sync : Sync
  /-- The connection that the replica is on. -/
  link : ClientLink
  replica : Node π ρ
  /-- Posted on former connections, and not run yet. -/
  queue : List Task := []
  /-- How many of the tasks posted on this connection have run. -/
  ran : Nat := 0
  masterClock : Int64 := 0
  replicaClock : Int64 := 0
  /-- When the snapshot that was last sent was taken, and of which store. -/
  origin : Int64 × Store := (0, {})
  /-- What `sync.since` is, with the circumstances. -/
  due : List (Due Args Bytes Bytes Int64) := []

/-- What happens in the cluster. -/
inductive ClusterEvent where
  /-- Another connection of the master. -/
  | client (e : Asio.Event Unit)
  | cron (layout : Table Int64 → List (List Bytes)) (expiry : ExpiryConfig) (now : Int64)
  /-- The master handles the replica's next command. -/
  | serve (m : Moment Unit)
  | link (e : SyncEvent)
  /-- The replica's event loop runs the next task. -/
  | task (amb : Ambient)
  /-- A request of a client of the replica. -/
  | reader (amb : Ambient) (client : ClientLink) (args : Args)
  | replicaCron (layout : Table Int64 → List (List Bytes)) (expiry : ExpiryConfig) (now : Int64)
  /-- The connection ends, on the master's side too, and the replica makes another one. -/
  | reconnect (link : ClientLink) (peer : Bytes)

namespace Cluster

variable {π ρ : Type}

section

variable (cfg : ServerConfig) (port : UInt16) (table : CommandTable π ρ)

/-- What a task does, on the replica's event loop. -/
def runTask (amb : Ambient) (task : Task) (N : Node π ρ) : Node π ρ :=
  match task with
  | .reload records => { N with store := resyncTask amb.now records N.store }
  | .apply args => applySilently table amb args N

/-- What a client's event makes due, if it is handled when the master's store is `S`. -/
def dueOf (e : Asio.Event Unit) (t : Int64) (N : Node Unit Net) : List (Due Args Bytes Bytes Int64) :=
  (Asio.propagates cfg e N).map fun args => ⟨args, e.clock t, N.store.live (e.clock t)⟩

/-- A PSYNC that is next is a new start. -/
def noted (now : Int64) (C : Cluster π ρ) : Cluster π ρ :=
  match C.sync.up with
  | [] => C
  | args :: _ => if psyncs args then { C with origin := (now, C.sync.master.store), due := [] } else C

/-- An event. -/
def step (e : ClusterEvent) (C : Cluster π ρ) : Cluster π ρ :=
  match e with
  | .client e =>
    { C with
      sync := { C.sync with
        master := Asio.step cfg e C.sync.master
        since := C.sync.since ++ Asio.propagates cfg e C.sync.master }
      masterClock := e.clock C.masterClock
      due := C.due ++ dueOf cfg e C.masterClock C.sync.master }
  | .cron layout expiry now =>
    { C with
      sync := C.sync.step cfg port C.link (.write (C.sync.master.store.activeExpireCycle layout expiry now).2)
      masterClock := now }
  | .serve m =>
    { C.noted m.amb.now with
      sync := C.sync.step cfg port C.link (.serve m)
      masterClock := m.amb.now }
  | .link e => { C with sync := C.sync.step cfg port C.link e }
  | .task amb =>
    match C.queue with
    | task :: queue =>
      { C with queue, replica := runTask table amb task C.replica, replicaClock := amb.now }
    | [] =>
      match C.sync.replica.posted[C.ran]? with
      | none => C
      | some task =>
        { C with ran := C.ran + 1, replica := runTask table amb task C.replica, replicaClock := amb.now }
  | .reader amb client args =>
    { C with replica := (dispatch table amb (some client) args C.replica).2, replicaClock := amb.now }
  | .replicaCron layout expiry now =>
    { C with
      replica := { C.replica with store := (C.replica.store.activeExpireCycle layout expiry now).2 }
      replicaClock := now }
  | .reconnect link peer =>
    let master := Asio.step cfg (.readFailed C.link) C.sync.master
    { C with
      sync := Sync.start (Asio.step cfg (.accept link peer) master)
      link
      queue := C.queue ++ C.sync.replica.posted.drop C.ran
      ran := 0
      origin := (C.masterClock, C.sync.master.store)
      due := [] }

/-- The next task, if it is one of this connection, is run in time: a snapshot after it was taken,
and a command after the master ran it and while it still does the same. -/
def TaskInTime (u : Int64) (C : Cluster π ρ) : Prop :=
  C.queue = [] → if C.ran = 0 then C.origin.1 ≤ u
    else ∀ d ∈ C.due[C.ran - 1]?, d.time ≤ u ∧ InTime u d.before d.cmd

/-- What is assumed of an event. Neither clock goes back. The master's other clients send requests
within the parser's limits, and no PSYNC: there is one replica. What the handshake and the transfer
put out fits the output cap of the link, which is open before and after. Tasks are run in time. The
replica stays one, and its own clients do not make it another's. A connection that is made is a new
one, and the former one is closed. -/
def Orderly (e : ClusterEvent) (C : Cluster π ρ) : Prop :=
  match e with
  | .client e => e.OnOther C.link ∧ C.masterClock ≤ e.clock C.masterClock
  | .cron _ _ now => C.masterClock ≤ now
  | .serve m => C.masterClock ≤ m.amb.now ∧ C.sync.master.repl.closed C.link = false ∧
    (C.sync.step cfg port C.link (.serve m)).master.repl.closed C.link = false
  | .link e => e.onLink = true
  | .task amb => C.replicaClock ≤ amb.now ∧ C.TaskInTime amb.now
  | .reader amb _ args => C.replicaClock ≤ amb.now ∧ args.head?.bind commandName ≠ some .replicaof ∧
    ∃ ops, table.replication = some ops ∧ ops.isReplica C.replica.repl = true
  | .replicaCron _ _ now => C.replicaClock ≤ now
  | .reconnect link _ => (C.sync.master.repl.doClose C.link).closed link = true

instance (u : Int64) (C : Cluster π ρ) : Decidable (C.TaskInTime u) :=
  inferInstanceAs (Decidable (_ → ite _ _ _))

instance (C : Cluster π ρ) : ∀ e, Decidable (Orderly cfg port table e C)
  | .client e => inferInstanceAs (Decidable (e.OnOther C.link ∧ _ ≤ _))
  | .cron _ _ _ | .replicaCron _ _ _ => inferInstanceAs (Decidable (_ ≤ _))
  | .serve _ => inferInstanceAs (Decidable (_ ≤ _ ∧ _ = false ∧ _ = false))
  | .link _ => inferInstanceAs (Decidable (_ = true))
  | .task _ => inferInstanceAs (Decidable (_ ≤ _ ∧ C.TaskInTime _))
  | .reader _ _ _ => inferInstanceAs (Decidable (_ ≤ _ ∧ _ ≠ _ ∧ ∃ ops ∈ table.replication, _ = true))
  | .reconnect _ _ => inferInstanceAs (Decidable (_ = true))

end

end Cluster

/-! ## The other connections -/

namespace Sync

variable {cfg : ServerConfig} {port : UInt16} {link : ClientLink} {S : Sync}

/-- A session is put in place of another connection's. -/
theorem Inv.put_other (hi : Inv port link S) {l : ClientLink} (hl : l ≠ link) (s : Session)
    {store : Store} : Inv port link { S with master := ⟨store, (), S.master.repl.put l s⟩ } := by
  have hsession : (S.master.repl.put l s).sessions link = S.master.repl.sessions link := by
    rw [Net.sessions_put, if_neg hl.symm]
  refine hi.of_quiet rfl rfl ?_ ?_
  · rw [Net.sent, hsession]; rfl
  · rw [Net.closed, hsession]; exact hi.live

/-- Another connection is closed. -/
theorem Inv.doClose_other (hi : Inv port link S) {l : ClientLink} (hl : l ≠ link) :
    Inv port link { S with master := { S.master with repl := S.master.repl.doClose l } } := by
  refine hi.of_quiet ?_ (Net.masterOffset_doClose ..) (Net.sent_doClose ..) ?_
  · cases hc : S.master.repl.closed l with
    | true => rw [Net.doClose, if_pos hc]
    | false =>
      rw [Net.links_doClose hc]
      rcases hi.stage.links with h | h
      · rw [show S.master.repl.links = [] from h]; rfl
      · rw [show S.master.repl.links = [link] from h]
        simp [hl.symm]
  · rw [Net.closed_doClose, hi.live, beq_eq_false_iff_ne.mpr hl.symm]; rfl

theorem inv_request (hi : Inv port link S) (m : Moment Unit) {l : ClientLink} (hl : l ≠ link) {args : Args}
    (hp : psyncs args = false) (hw : Within args)
    (hc : (Asio.step cfg (.request m l args) S.master).repl.closed link = false) :
    Inv port link { S with
      master := Asio.step cfg (.request m l args) S.master
      since := S.since ++ Asio.propagates cfg (.request m l args) S.master } := by
  by_cases hargs : args = []
  · subst hargs
    rw [show Asio.propagates cfg (.request m l []) S.master = [] from rfl, List.append_nil]
    exact hi
  have hq := @Asio.quiet_dispatch Unit cfg args hp m (some l) S.master
  have hdispatched : Inv port link { S with master := (Asio.outcome cfg m l args S.master).2 } := by
    refine hi.of_quiet hq.links hq.offset ?_ ?_
    · rw [Net.sent, Asio.outcome, hq.sessions]; rfl
    · rw [Net.closed, Asio.outcome, hq.sessions]; exact hi.live
  have hreplied : Inv port link { S with
      master := ⟨(Asio.outcome cfg m l args S.master).2.store, (), Asio.replied cfg m l args S.master⟩ } :=
    hdispatched.put_other hl _
  by_cases hd : (Asio.outcome cfg m l args S.master).1.dirty = true
  · have hstep : Asio.step cfg (.request m l args) S.master =
        ⟨(Asio.outcome cfg m l args S.master).2.store, (),
          (Asio.replied cfg m l args S.master).propagate cfg (Asio.outcome cfg m l args S.master).1.propagate⟩ :=
      handleRequest_of_dirty (Asio.sessionHost cfg m l) hargs hd
    rw [hstep] at hc ⊢
    rw [Asio.propagates, if_pos hd]
    exact inv_propagate hreplied (within_propagate _ _ _ _ hw) hc
  · have hstep : Asio.step cfg (.request m l args) S.master =
        ⟨(Asio.outcome cfg m l args S.master).2.store, (), Asio.replied cfg m l args S.master⟩ :=
      handleRequest_of_clean (Asio.sessionHost cfg m l) hargs hd
    rw [hstep, Asio.propagates, if_neg hd, List.append_nil]
    exact hreplied

theorem inv_client (hi : Inv port link S) {e : Asio.Event Unit} (he : e.OnOther link)
    (hc : (Asio.step cfg e S.master).repl.closed link = false) :
    Inv port link { S with
      master := Asio.step cfg e S.master
      since := S.since ++ Asio.propagates cfg e S.master } := by
  have hquiet (hnil : Asio.propagates cfg e S.master = [])
      (h : Inv port link { S with master := Asio.step cfg e S.master }) : Inv port link { S with
        master := Asio.step cfg e S.master
        since := S.since ++ Asio.propagates cfg e S.master } := by
    rw [hnil, List.append_nil]
    exact h
  cases e with
  | request m l args => exact inv_request hi m he.1 he.2.1 he.2.2 hc
  | accept l peer =>
    refine hquiet rfl ?_
    unfold Asio.step
    dsimp only
    split
    · exact hi.put_other he _
    · exact hi
  | refuse l error => exact hquiet rfl (hi.put_other he _)
  | readEnd l input =>
    refine hquiet rfl ?_
    unfold Asio.step Asio.readEnd
    dsimp only
    split
    · exact (hi.put_other he _).doClose_other he
    · exact hi.put_other he _
  | readFailed l => exact hquiet rfl (hi.doClose_other he)
  | written l => exact hquiet rfl (hi.put_other he _)
  | writeFailed l => exact hquiet rfl ((hi.put_other he _).doClose_other he)
  | apply m args => exact he.elim
  | cron store pers => exact he.elim

/-- An event that closes the link takes the replica off the master's list. -/
theorem Inv.links_of_closed (hi : Inv port link S) {N : Net} (h : Net.Shrinks S.master.repl N)
    (hc : N.closed link = true) : N.links = [] := by
  have hmem : link ∉ N.links := fun hl => absurd (hc.symm.trans (h.live link hl hi.live)) (by decide)
  rcases hi.stage.links with hlinks | hlinks
  · exact List.sublist_nil.mp (hlinks ▸ h.links)
  · have hsub : N.links.Sublist [link] := hlinks ▸ h.links
    rcases List.sublist_singleton.mp hsub with hnil | hone
    · exact hnil
    · exact absurd (hone ▸ List.mem_singleton_self link) hmem

end Sync

end RP
