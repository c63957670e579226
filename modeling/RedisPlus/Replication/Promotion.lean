import RedisPlus.Persistence.Restore
import RedisPlus.Replication.Fanout
import RedisPlus.Replication.Replica
import RedisPlus.Server.Asio

/-!
# A node that follows a master, and its promotion

The link thread changes the store by posting tasks to the event loop, which runs them one after the
other between the requests of its clients (`Follower.step`). REPLICAOF, with a new master or with
NO ONE, joins the thread: it posts no more, but what it has posted stays in the queue. Each task in
the queue is kept here with the thread that posted it.

If the queue is empty whenever REPLICAOF stops the link, no task of a master that is no longer
followed ever runs (`current_step`). If a resynchronisation is in the queue, it erases whatever was
written before it runs (`view_run_reload`). Together: `promotion_clean_cut`.
-/

namespace RP

open Framework (run Along along_append)
open Asio (Moment)

/-- The replication object, its link thread, and the tasks for the event loop. -/
structure Follower where
  net : Net
  /-- How many link threads have been started. -/
  link : Nat := 0
  /-- `link_thread_` is joinable. -/
  running : Bool := false
  /-- The posted tasks that have not run, each with the link thread it is from. -/
  queue : List (Nat × Task) := []

namespace Follower

/-- The link thread `g` has been joined. -/
def former (g : Nat) (F : Follower) : Bool := !(F.running && g == F.link)

/-- `Server::post`, by the link thread. -/
def post (task : Task) (F : Follower) : Follower :=
  if F.running then { F with queue := F.queue ++ [(F.link, task)] } else F

section

variable (cfg : ServerConfig)

/-- What a dispatch at `now` sees of replication. -/
def ops (now : Int64) : ReplicationOps Follower where
  startFullResync S client F := { F with net := F.net.startFullResync cfg now S client }
  onReplicaAck client offset F := { F with net := (Net.ops cfg now).onReplicaAck client offset F.net }
  setReplicaPort client port F := { F with net := (Net.ops cfg now).setReplicaPort client port F.net }
  onDisconnect client F := { F with net := (Net.ops cfg now).onDisconnect client F.net }
  replicaof host port F :=
    match (Net.ops cfg now).replicaof host port F.net with
    | (.ok _, net) => (.ok (), { F with net, link := F.link + 1, running := true })
    | (.error e, net) => (.error e, { F with net })
  stopReplication F := { F with net := (Net.ops cfg now).stopReplication F.net, running := false }
  isReplica F := F.net.repl.isReplica
  infoSection F := F.net.repl.infoSection

variable {π : Type}

/-- The command table of a node with a link thread. -/
def table (m : Moment π) : CommandTable π Follower := ⟨m.persistence, some (ops cfg m.amb.now)⟩

/-- The handler for the requests of a client. -/
def clientHost (m : Moment π) (client : ClientLink) : Host (Node π Follower) where
  dispatch := dispatch (table cfg m) m.amb (some client)
  reply r N :=
    { N with repl := { N.repl with net := N.repl.net.put client ((N.repl.net.sessions client).append r) } }
  propagate args N :=
    { N with
      pers := m.onWrite args N.pers
      repl := { N.repl with net := N.repl.net.propagate cfg args } }

/-- A task of the link thread, on the event loop. -/
def runTask (m : Moment π) (task : Task) (N : Node π Follower) : Node π Follower :=
  match task with
  | .reload records => { N with store := resyncTask m.amb.now records N.store }
  | .apply args => applySilently (table cfg m) m.amb args N

/-- What happens on a node that may follow a master. -/
inductive Event (π : Type) where
  /-- The link thread posts a task. -/
  | post (task : Task)
  | request (m : Moment π) (client : ClientLink) (args : Args)
  /-- The event loop runs the next task. -/
  | task (m : Moment π)

/-- An event; tasks are run in the order they were posted in. -/
def step (e : Event π) (N : Node π Follower) : Node π Follower :=
  match e with
  | .post task => { N with repl := N.repl.post task }
  | .request m client args => handleRequest (clientHost cfg m client) args N
  | .task m =>
    match N.repl.queue with
    | [] => N
    | (_, task) :: queue => runTask cfg m task { N with repl := { N.repl with queue } }

end

/-- A command that stops the link: REPLICAOF NO ONE, or with a valid port. -/
def stopsLink : Args → Bool
  | [name, host, port] => commandName name == some .replicaof &&
      ((iequals host (str "NO") && iequals port (str "ONE")) ||
        (toInt64 port).any fun p => 0 < p && p ≤ 65535)
  | _ => false

/-! ## What a dispatch does to the link and the queue -/

section

variable {cfg : ServerConfig} {π : Type}

theorem cmdReplicaof_of_not_stopsLink {ρ : Type} (table : CommandTable π ρ) {name : Bytes} {rest : Args}
    (hname : commandName name = some .replicaof) (h : stopsLink (name :: rest) = false) (N : Node π ρ) :
    (cmdReplicaof table (name :: rest) N).2 = N := by
  rcases rest with _ | ⟨host, _ | ⟨port, _ | ⟨_, _⟩⟩⟩
  · rfl
  · rfl
  · simp only [stopsLink, hname, BEq.rfl, Bool.true_and, Bool.or_eq_false_iff] at h
    obtain ⟨hone, hport⟩ := h
    unfold cmdReplicaof
    dsimp only
    split
    · rfl
    · rw [if_neg (by simpa using hone)]
      cases hp : toInt64 port with
      | none => rfl
      | some p =>
        rw [hp, Option.any_some] at hport
        have hbad : p ≤ 0 ∨ 65535 < p := by
          by_contra hgood
          rw [not_or, Int64.not_le, Int64.not_lt] at hgood
          simp [hgood.1, hgood.2] at hport
        dsimp only
        rw [if_pos hbad]
  · rfl

theorem queue_dispatch (m : Moment π) (client : Option ClientLink) (args : Args) (N : Node π Follower) :
    (dispatch (table cfg m) m.amb client args N).2.repl.queue = N.repl.queue := by
  refine dispatch_keeps (table cfg m) m.amb client args N (I := fun F => F.queue = N.repl.queue) ?_ rfl
  intro ops hops
  obtain rfl : Follower.ops cfg m.amb.now = ops := Option.some.inj hops
  exact
    { startFullResync := fun _ _ _ h => h
      onReplicaAck := fun _ _ _ h => h
      setReplicaPort := fun _ _ _ h => h
      replicaof := fun host port F h => by
        simp only [Follower.ops]
        split <;> exact h
      stopReplication := fun _ h => h }

/-- No other command changes which link thread there is. -/
theorem former_dispatch {args : Args} (h : stopsLink args = false) (m : Moment π)
    (client : Option ClientLink) (N : Node π Follower) (g : Nat) :
    (dispatch (table cfg m) m.amb client args N).2.repl.former g = N.repl.former g := by
  have hops : ∀ ops, (table cfg m).replication = some ops →
      ops.KeepsMaster client fun F => F.former g = N.repl.former g := by
    intro ops hops
    obtain rfl : Follower.ops cfg m.amb.now = ops := Option.some.inj hops
    exact ⟨fun _ _ h => h, fun _ _ h => h, fun _ _ h => h⟩
  rcases dispatch_node (table cfg m) m.amb client args N with he | he <;> rw [he]
  rcases args with _ | ⟨name, rest⟩
  · rfl
  by_cases hname : commandName name = some .replicaof
  · rw [List.head?_cons, Option.bind_some, hname, runCommand, cmdReplicaof_of_not_stopsLink _ hname h]
  · exact runCommand_keepsMaster (table cfg m) m.amb client (name :: rest) N hops (by simpa using hname) rfl

/-- A request changes what its dispatch does, and then the sessions at most. -/
theorem handleRequest_keeps {I : Follower → Prop} (hnet : ∀ F net, I F → I { F with net }) (m : Moment π)
    (client : ClientLink) {args : Args} {N : Node π Follower} (h : I N.repl)
    (hd : I (dispatch (table cfg m) m.amb (some client) args N).2.repl) :
    I (handleRequest (clientHost cfg m client) args N).repl := by
  unfold handleRequest
  split
  · exact h
  · dsimp only
    split
    · exact hnet _ _ (hnet _ _ hd)
    · exact hnet _ _ hd

/-! ## Runs -/

/-- Every task in the queue is from the link thread that runs. -/
def Current (F : Follower) : Prop := ∀ p ∈ F.queue, F.former p.1 = false

/-- The next task stops the link: its master's stream may have any command in it. -/
def nextStops : List (Nat × Task) → Bool
  | (_, .apply args) :: _ => stopsLink args
  | _ => false

/-- If the event stops the link, no task is left in the queue. -/
def Drained (e : Event π) (N : Node π Follower) : Prop :=
  match e with
  | .post _ => True
  | .request _ _ args => stopsLink args = true → N.repl.queue = []
  | .task _ => nextStops N.repl.queue = true → N.repl.queue.tail = []

instance : ∀ (e : Event π) (N : Node π Follower), Decidable (Drained e N)
  | .post _, _ => inferInstanceAs (Decidable True)
  | .request _ _ args, N => inferInstanceAs (Decidable (stopsLink args = true → N.repl.queue = []))
  | .task _, N => inferInstanceAs (Decidable (nextStops N.repl.queue = true → N.repl.queue.tail = []))

theorem current_dispatch (m : Moment π) (client : Option ClientLink) {args : Args} {N : Node π Follower}
    (h : N.repl.Current) (hd : stopsLink args = true → N.repl.queue = []) :
    (dispatch (table cfg m) m.amb client args N).2.repl.Current := by
  intro p hp
  rw [queue_dispatch] at hp
  by_cases hs : stopsLink args = true
  · rw [hd hs] at hp
    exact absurd hp List.not_mem_nil
  · rw [former_dispatch (by simpa using hs)]
    exact h p hp

theorem current_step {e : Event π} {N : Node π Follower} (h : N.repl.Current) (hd : Drained e N) :
    (step cfg e N).repl.Current := by
  cases e with
  | post task =>
    show (N.repl.post task).Current
    unfold post
    split
    · rename_i hrunning
      intro p hp
      rcases List.mem_append.mp hp with hp | hp
      · exact h p hp
      · rw [List.mem_singleton.mp hp]
        simp [former, hrunning]
    · exact h
  | request m client args =>
    exact handleRequest_keeps (I := Current) (fun _ _ h => h) m client h (current_dispatch m _ h hd)
  | task m =>
    rcases N with ⟨S, pers, F⟩
    rcases F with ⟨net, link, running, _ | ⟨⟨g, task⟩, queue⟩⟩
    · exact h
    · have hrest : Current { net, link, running, queue } := fun p hp => h p (List.mem_cons_of_mem _ hp)
      cases task with
      | reload records => exact hrest
      | apply args => exact current_dispatch m none hrest hd

/-- A task of a link thread that has been joined changes nothing. -/
def CleanCut (cfg : ServerConfig) (e : Event π) (N : Node π Follower) : Prop :=
  match e with
  | .task _ => ∀ g task queue, N.repl.queue = (g, task) :: queue → N.repl.former g = true →
      (step cfg e N).store = N.store
  | _ => True

/-! ## A resynchronisation in the queue -/

/-- Is this the run of a task? -/
def Event.isTask : Event π → Bool
  | .task _ => true
  | _ => false

/-- It stays the next task. -/
theorem queue_step {e : Event π} (he : e.isTask = false) {N : Node π Follower} {p : Nat × Task}
    {queue : List (Nat × Task)} (h : N.repl.queue = p :: queue) :
    ∃ queue', (step cfg e N).repl.queue = p :: queue' := by
  cases e with
  | post task =>
    show ∃ queue', (N.repl.post task).queue = p :: queue'
    unfold post
    split
    · exact ⟨queue ++ [_], by rw [h]; rfl⟩
    · exact ⟨queue, h⟩
  | request m client args =>
    refine ⟨queue, handleRequest_keeps (I := fun F => F.queue = p :: queue) (fun _ _ h => h) m client h ?_⟩
    rw [queue_dispatch]
    exact h
  | task m => cases he

/-- Whatever is written before it runs is erased. -/
theorem view_run_reload (m : Moment π) {records : List Record} {g : Nat} :
    ∀ {es : List (Event π)} {N : Node π Follower} {queue : List (Nat × Task)},
    N.repl.queue = (g, .reload records) :: queue → (∀ e ∈ es, e.isTask = false) →
    (run (step cfg) (es ++ [.task m]) N).store.view = (resyncTask m.amb.now records {}).view
  | [], N, queue, h, _ => by
    show (step cfg (.task m) N).store.view = _
    rw [step, h]
    exact view_resyncTask_congr ..
  | e :: es, N, queue, h, hes => by
    obtain ⟨queue', h'⟩ : ∃ queue', (step cfg e N).repl.queue = (g, .reload records) :: queue' :=
      queue_step (hes e List.mem_cons_self) h
    show (run (step cfg) (es ++ [.task m]) (step cfg e N)).store.view = _
    exact view_run_reload m h' fun e he => hes e (List.mem_cons_of_mem _ he)

end

/-- In every run in which the queue is empty whenever REPLICAOF stops the link, no task of a former
master changes the store. And whenever a resynchronisation is in the queue, as it may be after a
promotion, everything that clients write until it runs is erased. -/
theorem promotion_clean_cut {π : Type} (cfg : ServerConfig) :
    (∀ (es : List (Event π)) (N : Node π Follower), N.repl.queue = [] → Along (step cfg) Drained es N →
      Along (step cfg) (CleanCut cfg) es N) ∧
    ∀ (m : Moment π) (g : Nat) (records : List Record) (queue : List (Nat × Task)) (es : List (Event π))
      (N : Node π Follower), N.repl.queue = (g, .reload records) :: queue → (∀ e ∈ es, e.isTask = false) →
      (run (step cfg) (es ++ [.task m]) N).store.view = (resyncTask m.amb.now records {}).view := by
  refine ⟨fun es N hempty h => ?_, fun m g records queue es N h hes => view_run_reload m h hes⟩
  have hstart : N.repl.Current := by
    intro p hp
    rw [hempty] at hp
    exact absurd hp List.not_mem_nil
  refine Along.imp (I := fun N : Node π Follower => N.repl.Current) (fun e N => current_step) ?_ hstart h
  intro e N hcurrent _
  cases e with
  | task m =>
    intro g task queue hqueue hformer
    rw [hcurrent (g, task) (hqueue ▸ List.mem_cons_self)] at hformer
    cases hformer
  | _ => trivial

/-! ## One promotion -/

/-- A node that follows nobody. -/
def master : Node Unit Follower := ⟨{}, (), { net := { repl := { replid := Net.zeroReplid } } }⟩

/-- The node follows a master, which has this posted when a client promotes the node, and the client
then writes. -/
def promote (posted : Task) : List (Event Unit) :=
  [.request {} 1 [str "REPLICAOF", str "127.0.0.1", str "6380"], .post posted,
    .request {} 1 [str "REPLICAOF", str "NO", str "ONE"],
    .request {} 1 [str "SET", str "k", str "new"]]

/-- The value of `k`. -/
def valueOf (N : Node Unit Follower) : Option Bytes := (N.store.get 0 (str "k")).1

/-- The client's write is accepted, and then erased by a resynchronisation or overwritten by a
command of the former master. -/
theorem promotion_loses_write :
    (valueOf (run (step {}) (promote (.reload [])) master) = some (str "new") ∧
      valueOf (run (step {}) (promote (.reload []) ++ [.task {}]) master) = none) ∧
    (valueOf (run (step {}) (promote (.apply [str "SET", str "k", str "old"])) master) = some (str "new") ∧
      valueOf (run (step {}) (promote (.apply [str "SET", str "k", str "old"]) ++ [.task {}]) master) =
        some (str "old")) ∧
    ¬ Along (step {}) (CleanCut {}) (promote (.reload []) ++ [.task {}]) master := by
  refine ⟨by decide +kernel, by decide +kernel, fun h => ?_⟩
  have hstore := (along_append.mp h).2.1 1 (.reload []) [] (by decide +kernel) (by decide +kernel)
  exact absurd (congrArg (fun S => (S.get 0 (str "k")).1) hstore) (by decide +kernel)

/-- A task that has run before the promotion does no harm. -/
theorem promotion_clean_drained :
    Along (step {}) (CleanCut {})
      [.request {} 1 [str "REPLICAOF", str "127.0.0.1", str "6380"],
        .post (.apply [str "SET", str "k", str "old"]), .task {},
        .request {} 1 [str "REPLICAOF", str "NO", str "ONE"],
        .request {} 1 [str "SET", str "k", str "new"]] master :=
  (promotion_clean_cut {}).1 _ _ rfl (by decide +kernel)

end Follower

end RP
