import RedisPlus.Command.Frame
import RedisPlus.Framework.Machine
import RedisPlus.Handler.Basic
import RedisPlus.Persistence.Log

/-!
# Acknowledged and durable

With `appendfsync always` a write that a client has been told of should be in the AOF and
fsynced. Three components have a part in it: the handler's hook, which only appends to the AOF's
buffer; the backend, which hands queued replies to the socket, at the end of the same read
callback (`PollServer::handle_read`, and `Session::flush` after `on_data`) or later; and the
cron, which is the only one to flush the AOF. `Served` has the output of each connection with
how much of it was handed over, and remembers which replies were to writes (`acks`). A read
callback is a run of its events (`handleRead_eq_run`).

A reply that is handed over before the next cron is ahead of its record
(`reply_ahead_of_record`). Where no reply to a write is handed over before a cron that comes
after it, and the AOF is not rewritten, every write whose reply was handed over is durable
(`acknowledged_durable`).
-/

namespace RP.Durability

open Framework (run run_append Along)
open Persistence (SameAof)

/-- The reply to a write: where it starts in the connection's output, and how many commands were
logged before its own. -/
structure Ack where
  link : ClientLink
  start : Nat
  index : Nat
deriving DecidableEq

/-- A server, with its log and what its clients have been told. -/
structure Served (ρ : Type) where
  node : Node Persistence ρ
  /-- All that was appended to a connection's output. -/
  out : ClientLink → Bytes := fun _ => []
  /-- How many bytes of it were handed to the socket. -/
  handed : ClientLink → Nat := fun _ => 0
  /-- The commands that were propagated. -/
  log : List Args := []
  acks : List Ack := []
  /-- How many commands were logged at the last cron. -/
  flushed : Nat := 0

/-- What a request meets: the clock, how the system answers, and replication. -/
structure Surroundings (ρ : Type) where
  amb : Ambient := ⟨0, []⟩
  written : Except Bytes Unit := .ok ()
  room : Nat := 0
  io : Aof.RewriteIo := {}
  replication : Option (ReplicationOps ρ) := none
  stream : Args → ρ → ρ := fun _ repl => repl

variable {ρ : Type}

/-- The command table that a request meets. -/
def Surroundings.table (m : Surroundings ρ) : CommandTable Persistence ρ :=
  ⟨some (Persistence.ops m.amb.now m.written m.room m.io), m.replication⟩

/-- The handler, with the hook that gives a write to persistence and then to replication. -/
def host (m : Surroundings ρ) (link : ClientLink) : Host (Served ρ) where
  dispatch args s :=
    let (result, node) := dispatch m.table m.amb (some link) args s.node
    let acks := if result.dirty then s.acks ++ [⟨link, (s.out link).length, s.log.length⟩] else s.acks
    (result, { s with node, acks })
  reply r s := { s with out := Function.update s.out link (s.out link ++ r) }
  propagate args s :=
    { s with
      node := { s.node with pers := s.node.pers.onWrite args, repl := m.stream args s.node.repl }
      log := s.log ++ [args] }

/-- What matters for the log and for the replies. -/
inductive Event (ρ : Type) where
  /-- A request in `on_data`. -/
  | request (m : Surroundings ρ) (link : ClientLink) (args : Args)
  /-- A protocol error in `on_data`. -/
  | refuse (link : ClientLink) (error : Bytes)
  /-- At most `n` bytes of queued output are handed to the socket. -/
  | handOver (link : ClientLink) (n : Nat)
  /-- The server's cron; `store` is what expiry leaves. -/
  | cron (now : Int64) (room : Nat) (io : Aof.RewriteIo) (store : Store)
  | saverDone (written : Except Bytes Unit)

/-- An event. -/
def step (e : Event ρ) (s : Served ρ) : Served ρ :=
  match e with
  | .request m link args => handleRequest (host m link) args s
  | .refuse link error => (host ({} : Surroundings ρ) link).reply (Reply.error error) s
  | .handOver link n =>
    { s with handed := Function.update s.handed link (min (s.handed link + n) (s.out link).length) }
  | .cron now room io store =>
    { s with
      node := { s.node with store, pers := s.node.pers.cron now room io (store.snapshot now) }
      flushed := s.log.length }
  | .saverDone written => { s with node := { s.node with pers := s.node.pers.saverDone written } }

/-- `PollServer::handle_read` once `input` has what was read: over the cap the connection is
dropped, else the socket takes `n` bytes at most. -/
def handleRead (maxOutputBuffer : UInt64) (m : Surroundings ρ) (link : ClientLink) (input : Buffer) (n : Nat)
    (s : Served ρ) : Served ρ :=
  let s := (onData (host m link) input s).state
  if maxOutputBuffer.toNat < (s.out link).length - s.handed link then s else step (.handOver link n) s

/-- A read callback is a run of events, the last of which hands the replies over. -/
theorem handleRead_eq_run (maxOutputBuffer : UInt64) (m : Surroundings ρ) (link : ClientLink)
    (input : Buffer) (n : Nat) (s : Served ρ) :
    ∃ (rs : List Args) (errors : List Bytes) (ns : List Nat), handleRead maxOutputBuffer m link input n s =
      run step (rs.map (.request m link) ++ errors.map (.refuse link) ++ ns.map (.handOver link)) s := by
  obtain ⟨rs, errors, hstate⟩ := onData_state (host m link) input s
  have hrequests : run step (rs.map (.request m link)) s = handleAll (host m link) rs s := by
    rw [run, List.foldl_map]; rfl
  have hrefused (s' : Served ρ) : run step (errors.map (.refuse link)) s' =
      errors.foldl (fun s e => (host m link).reply (Reply.error e) s) s' := by
    rw [run, List.foldl_map]; rfl
  have hrun (ns : List Nat) :
      run step (rs.map (.request m link) ++ errors.map (.refuse link) ++ ns.map (.handOver link)) s =
        run step (ns.map (.handOver link)) (onData (host m link) input s).state := by
    rw [run_append, run_append, hrequests, hrefused, ← hstate]
  unfold handleRead
  dsimp only
  split
  · exact ⟨rs, errors, [], (hrun []).symm⟩
  · exact ⟨rs, errors, [n], (hrun [n]).symm⟩

/-! ## What the operations do to the AOF -/

/-- Is this a BGREWRITEAOF? -/
def rewrites (args : Args) : Bool := args.head?.bind commandName = some .bgrewriteaof

section

variable (m : Surroundings ρ) (link : Option ClientLink) (args : Args) (N : Node Persistence ρ)

theorem sameAof_cmdPersistence
    {op : PersistenceOps Persistence → Store → Persistence → Except Bytes Unit × Persistence}
    (hop : ∀ S p, SameAof p (op (Persistence.ops m.amb.now m.written m.room m.io) S p).2) (started : Bytes) :
    SameAof N.pers (cmdPersistence m.table op started N).2.pers := by
  obtain ⟨reply, pers, he, hpers⟩ := cmdPersistence_cases m.table N op started
  rw [he]
  rcases hpers with rfl | ⟨ops, hops, rfl⟩
  · exact .refl _
  · obtain rfl : Persistence.ops m.amb.now m.written m.room m.io = ops := Option.some.inj hops
    exact hop ..

theorem sameAof_runCommand {name : Option CommandName} (h : name ≠ some .bgrewriteaof) :
    SameAof N.pers (runCommand m.table m.amb name link args N).2.pers := by
  rcases name with _ | name
  · exact .refl _
  cases name with
  | bgrewriteaof => exact absurd rfl h
  | replconf =>
    obtain ⟨reply, repl, he, -⟩ := cmdReplconf_cases m.table link args N
    rw [runCommand, he]; exact .refl _
  | psync =>
    obtain ⟨reply, repl, he, -⟩ := cmdPsync_cases m.table link N
    rw [runCommand, he]; exact .refl _
  | replicaof =>
    obtain ⟨reply, repl, he, -⟩ := cmdReplicaof_cases m.table args N
    rw [runCommand, he]; exact .refl _
  | save => exact sameAof_cmdPersistence m N (fun _ p => p.sameAof_save _ _) _
  | bgsave => exact sameAof_cmdPersistence m N (fun _ p => p.sameAof_backgroundSave _ _) _
  | _ => exact .refl _

/-- Only BGREWRITEAOF changes the AOF in a dispatch. -/
theorem sameAof_dispatch (h : rewrites args = false) :
    SameAof N.pers (dispatch m.table m.amb link args N).2.pers := by
  rcases dispatch_node m.table m.amb link args N with he | he <;> rw [he]
  · exact .refl _
  · exact sameAof_runCommand m link args N (of_decide_eq_false h)

end

/-! ## The log -/

/-- The log is `base` and the commands `log`: the first `n` are in the file, and durable if there are any,
those up to `k` are in the C library's buffer, and the others in the AOF's. -/
structure Logged (policy : FsyncPolicy) (base : Bytes) (log : List Args) (n k : Nat) (p : Persistence) : Prop
    extends p.Holds (base ++ encs log) where
  fsyncs : p.aof.policy = policy
  le : n ≤ k ∧ k ≤ log.length
  data : p.aof.data = some (base ++ encs (log.take n))
  stdio : p.aof.stdio = encs ((log.take k).drop n)
  durable : 0 < n → p.aof.durable = base ++ encs (log.take n)

variable {base : Bytes}

namespace Logged

variable {policy : FsyncPolicy} {log : List Args} {n k : Nat} {p p' : Persistence}

theorem of_sameAof (h : Logged policy base log n k p) (hs : SameAof p p') : Logged policy base log n k p' := by
  refine ⟨h.toHolds.of_sameAof hs, ?_, h.le, ?_, ?_, ?_⟩ <;> rw [hs.aof]
  · exact h.fsyncs
  · exact h.data
  · exact h.stdio
  · exact h.durable

/-- The hook appends to the buffer. -/
theorem onWrite (h : Logged policy base log n k p) {cmd : Args} (hc : cmd ≠ []) :
    Logged policy base (log ++ [cmd]) n k (p.onWrite cmd) := by
  have haof := Persistence.aof_onWrite h.enabled h.isOpen hc
  have hholds := h.toHolds.onWrite hc
  rw [List.append_assoc, ← encs_singleton, ← encs_append] at hholds
  obtain ⟨hnk, hk⟩ := h.le
  have htake {i : Nat} (hi : i ≤ log.length) : (log ++ [cmd]).take i = log.take i :=
    List.take_append_of_le_length hi
  refine ⟨hholds, ?_, ⟨hnk, by rw [List.length_append]; omega⟩, ?_, ?_, ?_⟩ <;> rw [haof]
  · exact h.fsyncs
  · rw [htake (Nat.le_trans hnk hk)]; exact h.data
  · rw [htake hk]; exact h.stdio
  · rw [htake (Nat.le_trans hnk hk)]; exact h.durable

/-- What is on its way to the file. -/
theorem stdio_append_buffer (h : Logged policy base log n k p) :
    p.aof.stdio ++ p.aof.buffer = encs (log.drop n) := by
  have hcontents := h.contents
  rw [Aof.contents, h.data, Option.getD_some, List.append_assoc, List.append_assoc] at hcontents
  refine List.append_cancel_left ((List.append_cancel_left hcontents).trans ?_)
  rw [← encs_append, List.take_append_drop]

/-- After an `fwrite` of the whole buffer all of it is in the C library's. -/
theorem written (h : Logged policy base log n k p) :
    Logged policy base log n log.length { p with aof := p.aof.written } := by
  have hpending : p.aof.written.stdio = encs (log.drop n) := h.stdio_append_buffer
  refine ⟨⟨h.enabled, h.isOpen, h.file, ?_⟩, h.fsyncs, ⟨Nat.le_trans h.le.1 h.le.2, Nat.le_refl _⟩, h.data, ?_,
    h.durable⟩
  · rw [← h.contents]
    simp [Aof.contents, Aof.written]
  · rw [List.take_length]
    exact hpending

/-- An fsync that is due makes everything durable. -/
theorem synced (h : Logged policy base log n k p) {now : Int64} (hdue : p.aof.Due now) :
    Logged policy base log log.length log.length { p with aof := p.aof.written.sync now } := by
  have hall : base ++ encs (log.take n) ++ (p.aof.stdio ++ p.aof.buffer) =
      base ++ encs (log.take log.length) := by
    rw [h.stdio_append_buffer, List.append_assoc, ← encs_append, List.take_append_drop, List.take_length]
  have hdata : p.aof.written.fflush.data = some (base ++ encs (log.take log.length)) := by
    rw [← hall, Aof.fflush, Option.map_eq_some_iff]
    exact ⟨_, h.data, rfl⟩
  have hfile : p.aof.written.fflush.data.isSome = true := by rw [hdata]; rfl
  rw [@Aof.sync_of_due p.aof.written now hdue]
  refine ⟨⟨h.enabled, h.isOpen, hfile, ?_⟩, h.fsyncs, ⟨Nat.le_refl _, Nat.le_refl _⟩, hdata, ?_,
    fun _ => ?_⟩
  · have hcontents := @Aof.contents_fflush p.aof.written h.file
    exact hcontents.trans h.written.contents
  · rw [List.take_length, List.drop_length]
    rfl
  · show p.aof.written.fflush.data.getD [] = _
    rw [hdata, Option.getD_some]

end Logged

/-! ## Replies -/

/-- The log is in order, nothing is handed over that is not there, and a write whose reply was
handed over, even in part, was flushed. -/
structure Inv (base : Bytes) (s : Served ρ) : Prop
    extends Logged .always base s.log s.flushed s.flushed s.node.pers where
  handed_le : ∀ l, s.handed l ≤ (s.out l).length
  index_lt : ∀ a ∈ s.acks, a.index < s.log.length
  acked : ∀ a ∈ s.acks, a.start < s.handed a.link → a.index < s.flushed

/-- What is asked of an event: the AOF is not rewritten, a cron can write the buffer, and no reply
to a write is handed over before a cron that comes after it. -/
def Patient : Event ρ → Served ρ → Prop
  | .request _ _ args, _ => rewrites args = false
  | .handOver link n, s => ∀ a ∈ s.acks, a.link = link → a.start < s.handed link + n → a.index < s.flushed
  | .cron _ room _ _, s => s.node.pers.aof.buffer.length ≤ room ∧
    ¬ (0 < s.node.pers.config.aofRewriteThreshold ∧
      s.node.pers.config.aofRewriteThreshold < s.node.pers.aof.commandsWritten)
  | _, _ => True

instance : ∀ (e : Event ρ) (s : Served ρ), Decidable (Patient e s)
  | .request _ _ args, _ => inferInstanceAs (Decidable (rewrites args = false))
  | .refuse .., _ => inferInstanceAs (Decidable True)
  | .handOver link n, s => inferInstanceAs (Decidable (∀ a ∈ s.acks, a.link = link →
    a.start < s.handed link + n → a.index < s.flushed))
  | .cron _ room _ _, s => inferInstanceAs (Decidable (s.node.pers.aof.buffer.length ≤ room ∧
    ¬ (0 < s.node.pers.config.aofRewriteThreshold ∧
      s.node.pers.config.aofRewriteThreshold < s.node.pers.aof.commandsWritten)))
  | .saverDone _, _ => inferInstanceAs (Decidable True)

variable {s : Served ρ}

theorem handed_le_reply (h : ∀ l, s.handed l ≤ (s.out l).length) (link : ClientLink) (r : Bytes)
    (l : ClientLink) : s.handed l ≤ (Function.update s.out link (s.out link ++ r) l).length := by
  have := h l
  rw [Function.update_apply]
  split
  · rename_i hl; subst hl; rw [List.length_append]; omega
  · exact this

theorem inv_request (hi : Inv base s) (m : Surroundings ρ) (link : ClientLink) {args : Args}
    (hr : rewrites args = false) : Inv base (step (.request m link args) s) := by
  show Inv base (handleRequest (host m link) args s)
  by_cases hargs : args = []
  · rw [handleRequest, if_pos hargs]; exact hi
  have hsame := sameAof_dispatch m (some link) args s.node hr
  by_cases hd : (dispatch m.table m.amb (some link) args s.node).1.dirty = true
  · have hne := propagate_ne_nil m.table m.amb (some link) args s.node hd
    have hnode : ((host m link).dispatch args s).2 = { s with
        node := (dispatch m.table m.amb (some link) args s.node).2
        acks := s.acks ++ [⟨link, (s.out link).length, s.log.length⟩] } := by
      simp only [host, hd, if_true]
    rw [handleRequest_of_dirty _ hargs hd, hnode]
    have hlogged := (hi.toLogged.of_sameAof hsame).onWrite hne
    refine ⟨hlogged, handed_le_reply hi.handed_le _ _, fun a ha => ?_, fun a ha hlt => ?_⟩
    · show a.index < (s.log ++ [_]).length
      rw [List.length_append, List.length_singleton]
      rcases List.mem_append.mp ha with ha | ha
      · have := hi.index_lt a ha; omega
      · rw [List.mem_singleton.mp ha]; show s.log.length < _; omega
    · rcases List.mem_append.mp ha with ha | ha
      · exact hi.acked a ha hlt
      · -- its reply starts where the output ended, and no more than that was handed over
        rw [List.mem_singleton.mp ha] at hlt
        exact absurd hlt (Nat.not_lt.mpr (hi.handed_le link))
  · have hnode : ((host m link).dispatch args s).2 =
        { s with node := (dispatch m.table m.amb (some link) args s.node).2 } := by
      simp only [host, hd, if_false, Bool.false_eq_true]
    rw [handleRequest_of_clean _ hargs hd, hnode]
    exact ⟨hi.toLogged.of_sameAof hsame, handed_le_reply hi.handed_le _ _, hi.index_lt, hi.acked⟩

theorem inv_step {e : Event ρ} (hi : Inv base s) (h : Patient e s) : Inv base (step e s) := by
  cases e with
  | request m link args => exact inv_request hi m link h
  | refuse link error => exact ⟨hi.toLogged, handed_le_reply hi.handed_le _ _, hi.index_lt, hi.acked⟩
  | handOver link n =>
    refine ⟨hi.toLogged, fun l => ?_, hi.index_lt, fun a ha hlt => ?_⟩
    · show Function.update s.handed link _ l ≤ _
      rw [Function.update_apply]
      split
      · rename_i hl; subst hl; exact Nat.min_le_right ..
      · exact hi.handed_le l
    · replace hlt : a.start < Function.update s.handed link _ a.link := hlt
      rw [Function.update_apply] at hlt
      split at hlt
      · rename_i hl
        exact h a ha hl (Nat.lt_of_lt_of_le hlt (Nat.min_le_left ..))
      · exact hi.acked a ha hlt
  | cron now room io store =>
    have hsame := hi.toHolds.cron h.1 (fun hp => h.2 hp.2) now io (store.snapshot now)
    have hlogged := (hi.toLogged.synced (.inl hi.fsyncs)).of_sameAof hsame
    exact ⟨hlogged, hi.handed_le, hi.index_lt, fun a ha _ => hi.index_lt a ha⟩
  | saverDone written => exact ⟨hi.toLogged.of_sameAof ⟨rfl, rfl⟩, hi.handed_le, hi.index_lt, hi.acked⟩

/-- The record of the write that `a` replies to is in the file and durable, after those of the
commands before it. -/
def Recorded (base : Bytes) (s : Served ρ) (a : Ack) : Prop :=
  ∃ cmd, s.log[a.index]? = some cmd ∧
    base ++ encs (s.log.take a.index) ++ encode cmd <+: s.node.pers.aof.data.getD [] ∧
    base ++ encs (s.log.take a.index) ++ encode cmd <+: s.node.pers.aof.durable

theorem Inv.recorded (hi : Inv base s) {a : Ack} (ha : a ∈ s.acks) (h : a.start < s.handed a.link) :
    Recorded base s a := by
  have hlt := hi.acked a ha h
  have hlen := hi.index_lt a ha
  have hfront : base ++ encs (s.log.take a.index) ++ encode (s.log.get ⟨a.index, hlen⟩) <+:
      base ++ encs (s.log.take s.flushed) := by
    have hsucc : s.log.take (a.index + 1) = s.log.take a.index ++ [s.log.get ⟨a.index, hlen⟩] :=
      List.take_succ_eq_append_getElem hlen
    rw [List.append_assoc, ← encs_singleton, ← encs_append, ← hsucc]
    obtain ⟨rest, hrest⟩ := (List.take_prefix_take_left (l := s.log) (show a.index + 1 ≤ s.flushed from hlt))
    rw [← hrest, encs_append, ← List.append_assoc]
    exact List.prefix_append ..
  refine ⟨s.log.get ⟨a.index, hlen⟩, by simp [hlen], ?_, ?_⟩
  · rw [hi.data]; exact hfront
  · rw [hi.durable (Nat.lt_of_le_of_lt (Nat.zero_le _) hlt)]; exact hfront

/-- A server that has just opened its AOF, whose contents are `base`. -/
structure Booted (base : Bytes) (s : Served ρ) : Prop where
  logged : Logged .always base [] 0 0 s.node.pers
  log : s.log = []
  flushed : s.flushed = 0
  acks : s.acks = []
  handed : ∀ l, s.handed l = 0

theorem inv_booted (h : Booted base s) : Inv base s := by
  refine ⟨by rw [h.log, h.flushed]; exact h.logged, fun l => by rw [h.handed]; exact Nat.zero_le _, ?_, ?_⟩
  · intro a ha; rw [h.acks] at ha; cases ha
  · intro a ha; rw [h.acks] at ha; cases ha

/-- In every patient run, a write whose reply was handed over, even in part, is in the file and
durable. -/
theorem acknowledged_durable (h₀ : Booted base s) {es : List (Event ρ)} (h : Along step Patient es s) :
    ∀ a ∈ (run step es s).acks, a.start < (run step es s).handed a.link →
      Recorded base (run step es s) a :=
  fun _ ha hlt => (h.invariant (fun _ _ hi hp => inv_step hi hp) (inv_booted h₀)).recorded ha hlt

/-- An empty server with an empty AOF. -/
def alwaysServer : Served Unit where
  node :=
    { store := {}
      pers :=
        { config := { aofEnabled := true, fsyncPolicy := .always }
          aof := { data := some [], isOpen := true, policy := .always } }
      repl := () }

theorem booted_alwaysServer : Booted [] alwaysServer :=
  ⟨⟨⟨rfl, rfl, rfl, rfl⟩, rfl, ⟨Nat.le_refl _, Nat.le_refl _⟩, rfl, rfl, fun h => absurd h (by decide)⟩,
    rfl, rfl, rfl, fun _ => rfl⟩

/-- A write, a cron, and then the hand-over of its reply. -/
def writeCronReply : List (Event Unit) :=
  [.request {} 1 [str "SET", str "k", str "v"], .cron 100 1000 {} {}, .handOver 1 5]

theorem writeCronReply_durable :
    (run step writeCronReply alwaysServer).acks = [⟨1, 0, 0⟩] ∧
      Recorded [] (run step writeCronReply alwaysServer) ⟨1, 0, 0⟩ :=
  ⟨by decide, acknowledged_durable booted_alwaysServer (by decide) ⟨1, 0, 0⟩ (by decide) (by decide)⟩

/-- A write, and the hand-over of its reply at the end of the same read callback: the client has
all of it, and the file is empty. -/
theorem reply_ahead_of_record :
    let s := run step [.request {} 1 [str "SET", str "k", str "v"], .handOver 1 5] alwaysServer
    s.acks = [⟨1, 0, 0⟩] ∧ s.out 1 = Reply.ok ∧ s.handed 1 = Reply.ok.length ∧
      s.log = [[str "SET", str "k", str "v"]] ∧ s.node.pers.aof.data = some [] ∧
      s.node.pers.aof.durable = [] := by
  decide

end RP.Durability
