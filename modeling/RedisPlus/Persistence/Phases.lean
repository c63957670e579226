import RedisPlus.Command.Replay
import RedisPlus.Persistence.Recovery
import RedisPlus.Replication.Promotion

/-!
# The log of a node that follows a master

The hook that appends to the log is called by the handler, for the requests of clients. A
resynchronisation and the commands that are applied for the master change the store without it
(`Follower.runTask`). A step keeps the log a log of the keyspace exactly if it is a task that changes
no key, or a request that logs what is in time (`tracked_step_iff`). Where there are no deadlines all
requests do, so that in such runs it is the tasks that decide (`aof_tracks_iff`).
-/

namespace RP

open Framework (Along run)
open Asio (Moment)

/-! ## The log and its replay -/

/-- The log is open and holds the commands `log`. -/
structure Logs (log : List Args) (p : Persistence) : Prop extends p.Holds (encs log) where
  loggable : ∀ args ∈ log, Loggable args

/-- An empty server after the commands, applied at `u`. -/
def replayed (u : Int64) (log : List Args) : Node Unit Unit :=
  log.foldl (fun N args => applySilently {} ⟨u, []⟩ args N) bareNode

theorem replayed_snoc (u : Int64) (log : List Args) (args : Args) :
    replayed u (log ++ [args]) = applySilently {} ⟨u, []⟩ args (replayed u log) := by
  simp [replayed, List.foldl_append]

/-- A boot at `u` on the file that the process leaves when it flushes its log and ends. -/
def reloaded (u : Int64) (p : Persistence) : Persistence.Loaded Unit Unit :=
  (Persistence.boot p.config (p.session [] u).aof.data).loadAof {} ⟨u, []⟩ 0 true bareNode

section

variable {log : List Args} {p : Persistence}

theorem Logs.onWrite (h : Logs log p) {args : Args} (hargs : Loggable args) :
    Logs (log ++ [args]) (p.onWrite args) := by
  refine ⟨?_, fun args' hmem => ?_⟩
  · rw [encs_append, encs_singleton]
    exact h.toHolds.onWrite hargs.ne_nil
  · rcases List.mem_append.mp hmem with hmem | hmem
    · exact h.loggable args' hmem
    · rwa [List.mem_singleton.mp hmem]

theorem Logs.reloaded (h : Logs log p) (u : Int64) :
    (reloaded u p).result = .ok () ∧ (reloaded u p).node = replayed u log := by
  have hdata : (p.session [] u).aof.data = some (encs log) := by
    rw [Persistence.data_session h.toHolds (fun _ hmem => absurd hmem List.not_mem_nil), ← encs_append,
      List.append_nil]
  obtain ⟨hresult, happlied⟩ := Persistence.loadAof_encs {} ⟨u, []⟩ h.loggable p.config 0 bareNode
  rw [RP.reloaded, hdata]
  refine ⟨hresult, ?_⟩
  rw [Persistence.node_loadAof, happlied, replayed]

end

namespace Follower

/-- The replay of the log succeeds, and reproduces the keyspace. -/
def Tracked (u : Int64) (N : Node Persistence Follower) : Prop :=
  (reloaded u N.pers).result = .ok () ∧ (reloaded u N.pers).node.store.live u = N.store.live u

theorem tracked_iff {log : List Args} {N : Node Persistence Follower} (h : Logs log N.pers) (u : Int64) :
    Tracked u N ↔ (replayed u log).store.live u = N.store.live u := by
  obtain ⟨hresult, hnode⟩ := h.reloaded u
  rw [Tracked, hnode]
  exact and_iff_right hresult

/-! ## One step -/

/-- What the runs are made of: client requests that the parser has read, until `u`, with the hook
that logs, and tasks. The commands of persistence itself are not among them. -/
def Phase (u : Int64) : Event Persistence → Prop
  | .post _ => True
  | .request m _ args => m.persistence = none ∧ m.onWrite = Persistence.onWrite ∧ m.amb.now ≤ u ∧
      ∃ input n, parseRequest input = .ok args n
  | .task m => m.persistence = none

/-- The next task leaves the keyspace as it is: a resynchronisation brings the keys that are there,
a command of the master changes none. -/
def Idle (cfg : ServerConfig) (u : Int64) : Event Persistence → Node Persistence Follower → Prop
  | .task m, N =>
    match N.repl.queue with
    | (_, .reload records) :: _ => (resyncTask m.amb.now records {}).live u = N.store.live u
    | (_, .apply args) :: queue =>
      (dispatch (table cfg m) m.amb none args { N with repl := { N.repl with queue } }).2.store.live u =
        N.store.live u
    | [] => True
  | _, _ => True

section

variable {cfg : ServerConfig} {u : Int64} {N : Node Persistence Follower} {log : List Args}

/-- A request and the replay of what it logs are one exchange. -/
theorem logs_request (cfg : ServerConfig) (h : Logs log N.pers) {m : Moment Persistence}
    (client : ClientLink) {args : Args} (hphase : Phase u (.request m client args)) : ∃ log',
      Logs log' (step cfg (.request m client args) N).pers ∧
      (Agree u (exchange (table cfg m) {} ⟨args, some client, m.amb, ⟨u, []⟩⟩ ⟨N, replayed u log⟩) ↔
        (step cfg (.request m client args) N).store.live u = (replayed u log').store.live u) := by
  obtain ⟨hpers, hhook, -, input, n, hparse⟩ := hphase
  by_cases hargs : args = []
  · subst hargs
    exact ⟨log, h, Iff.rfl⟩
  have hkept : ((clientHost cfg m client).dispatch args N).2.pers = N.pers :=
    dispatch_pers (table cfg m) m.amb (some client) args N hpers
  by_cases hdirty : ((clientHost cfg m client).dispatch args N).1.dirty = true
  · have hlog : Loggable ((clientHost cfg m client).dispatch args N).1.propagate :=
      { within_propagate (table cfg m) m.amb (some client) N (request_of_parseRequest hparse).within with
        ne_nil := propagate_ne_nil (table cfg m) m.amb (some client) args N hdirty }
    refine ⟨log ++ [((clientHost cfg m client).dispatch args N).1.propagate], ?_, ?_⟩
    · rw [step, handleRequest_of_dirty _ hargs hdirty]
      show Logs _ (m.onWrite _ ((clientHost cfg m client).dispatch args N).2.pers)
      rw [hhook, hkept]
      exact h.onWrite hlog
    · rw [agree_exchange, if_pos (by exact hdirty), step, handleRequest_of_dirty _ hargs hdirty,
        replayed_snoc]
      exact Iff.rfl
  · refine ⟨log, ?_, ?_⟩
    · rw [step, handleRequest_of_clean _ hargs hdirty]
      show Logs log ((clientHost cfg m client).dispatch args N).2.pers
      rw [hkept]
      exact h
    · rw [agree_exchange, if_neg (by exact hdirty), step, handleRequest_of_clean _ hargs hdirty]
      exact Iff.rfl

theorem pers_task {m : Moment Persistence} (hm : m.persistence = none) :
    (step cfg (.task m) N).pers = N.pers := by
  unfold step
  dsimp only
  split
  · rfl
  · rename_i task _ _
    cases task with
    | reload records => rfl
    | apply args => exact dispatch_pers (table cfg m) m.amb none args _ hm

theorem live_task_iff (m : Moment Persistence) :
    (step cfg (.task m) N).store.live u = N.store.live u ↔ Idle cfg u (.task m) N := by
  rcases N with ⟨S, pers, net, link, running, _ | ⟨⟨g, _ | _⟩, queue⟩⟩
  · exact iff_of_true rfl trivial
  · rename_i records
    show (resyncTask m.amb.now records S).view.live u = S.live u ↔ _
    rw [view_resyncTask_congr m.amb.now records S {}]
    exact Iff.rfl
  · exact Iff.rfl

theorem logs_step {e : Event Persistence} (h : Logs log N.pers) (hphase : Phase u e) :
    ∃ log', Logs log' (step cfg e N).pers := by
  cases e with
  | post task => exact ⟨log, h⟩
  | request m client args =>
    obtain ⟨log', h', -⟩ := logs_request cfg h client hphase
    exact ⟨log', h'⟩
  | task m => exact ⟨log, by rw [pers_task hphase]; exact h⟩

/-- What decides of one step whether the log goes on to track the keyspace. -/
theorem tracked_step_iff {e : Event Persistence} (h : Logs log N.pers) (htracked : Tracked u N)
    (hphase : Phase u e) : Tracked u (step cfg e N) ↔
      match e with
      | .request m client args => Prompt (table cfg m) ⟨args, some client, m.amb, ⟨u, []⟩⟩ N
      | _ => Idle cfg u e N := by
  have hagree := (tracked_iff h u).mp htracked
  cases e with
  | post task => exact iff_of_true htracked trivial
  | request m client args =>
    obtain ⟨log', h', hexchange⟩ := logs_request cfg h client hphase
    rw [tracked_iff h' u, eq_comm, ← hexchange]
    exact agree_exchange_iff (table cfg m) {} hphase.2.2.1 hagree.symm
  | task m =>
    have h' : Logs log (step cfg (.task m) N).pers := by
      rw [pers_task hphase]
      exact h
    rw [tracked_iff h' u, hagree, eq_comm]
    exact live_task_iff m

end

/-! ## Runs without deadlines -/

/-- The request finds no key with a deadline, and gives none. -/
def Undated (cfg : ServerConfig) : Event Persistence → Node Persistence Follower → Prop
  | .request m client args, N => (∀ k v d, N.store.live m.amb.now k ≠ some (v, some d)) ∧
      givesDeadline (dispatch (table cfg m) m.amb (some client) args N).1.propagate = false
  | _, _ => True

/-- In every run of requests, resynchronisations and commands of the master in which no key ever has a
deadline, from a node whose log tracks its keyspace: the log tracks it after each step exactly if no
resynchronisation and no command of the master changes it. -/
theorem aof_tracks_iff (cfg : ServerConfig) {u : Int64} {log : List Args} {es : List (Event Persistence)}
    {N : Node Persistence Follower} (hlog : Logs log N.pers) (hstart : Tracked u N)
    (hphase : ∀ e ∈ es, Phase u e) (hundated : Along (step cfg) (Undated cfg) es N) :
    Along (step cfg) (fun e N => Tracked u (step cfg e N)) es N ↔ Along (step cfg) (Idle cfg u) es N := by
  refine Along.keeps_iff (I := Tracked u) (J := fun N => ∃ log, Logs log N.pers)
    (Q := fun e N => Undated cfg e N ∧ Phase u e) ?_ ?_ ⟨log, hlog⟩ hstart (hundated.and_mem hphase)
  · rintro e N ⟨log, h⟩ ⟨-, hphase⟩
    exact logs_step h hphase
  · rintro e N ⟨log, h⟩ htracked ⟨hundated, hphase⟩
    rw [tracked_step_iff h htracked hphase]
    cases e with
    | request m client args =>
      exact iff_of_true (fun _ => inTime_of_undated hundated.2 hundated.1) trivial
    | _ => exact Iff.rfl

/-! ## One node -/

/-- A node with an empty log. -/
def logging : Node Persistence Follower :=
  ⟨{}, { config := { aofEnabled := true }, aof := { data := some [], isOpen := true } },
    { net := { repl := { replid := Net.zeroReplid } } }⟩

/-- A moment with the hook that logs. -/
def logged : Moment Persistence := { onWrite := Persistence.onWrite }

/-- A client writes `k`, the node follows a master, runs the task that is posted then, and is
promoted. -/
def follow (posted : Task) : List (Event Persistence) :=
  [.request logged 1 [str "SET", str "k", str "old"],
    .request logged 1 [str "REPLICAOF", str "127.0.0.1", str "6380"], .post posted, .task logged,
    .request logged 1 [str "REPLICAOF", str "NO", str "ONE"]]

/-- The value of `k`, and what it is after a restart. -/
def values (N : Node Persistence Follower) : Option Bytes × Option Bytes :=
  ((N.store.get 0 (str "k")).1, ((reloaded 0 N.pers).node.store.get 0 (str "k")).1)

/-- After a restart the node has what it had before it followed the master. -/
theorem resync_not_logged :
    values (run (step {}) (follow (.reload [⟨str "k", str "new", kNoExpiry⟩])) logging) =
      (some (str "new"), some (str "old")) ∧
    values (run (step {}) (follow (.reload [])) logging) = (none, some (str "old")) ∧
    values (run (step {}) (follow (.apply [str "SET", str "k", str "new"])) logging) =
      (some (str "new"), some (str "old")) ∧
    ¬ Tracked 0 (run (step {}) (follow (.reload [])) logging) := by
  refine ⟨by decide +kernel, by decide +kernel, by decide +kernel, fun h => ?_⟩
  exact absurd (congrFun h.2 (str "k")) (by decide +kernel)

/-- A resynchronisation that brings the key that is there does no harm. -/
theorem aof_tracks_same :
    Along (step {}) (fun e N => Tracked 0 (step {} e N))
      (follow (.reload [⟨str "k", str "old", kNoExpiry⟩])) logging := by
  have hlog : Logs [] logging.pers := ⟨⟨rfl, rfl, rfl, rfl⟩, fun _ h => absurd h List.not_mem_nil⟩
  refine (aof_tracks_iff {} hlog ((tracked_iff hlog 0).mpr rfl) ?_ ?_).mpr ?_
  · have hrequest (args : Args) (hargs : parseRequest (encode args) = .ok args (encode args).length) :
        Phase 0 (.request logged 1 args) := ⟨rfl, rfl, by decide, _, _, hargs⟩
    simp only [follow, List.forall_mem_cons]
    exact ⟨hrequest _ (by decide +kernel), hrequest _ (by decide +kernel), trivial, rfl,
      hrequest _ (by decide +kernel), fun _ h => absurd h List.not_mem_nil⟩
  · have hnone (N : Node Persistence Follower) (hN : N.store.expires = ({} : Store).expires) (k v : Bytes)
        (d : Int64) : N.store.live 0 k ≠ some (v, some d) := by
      rw [Store.live, Framework.Keyspace.live, Store.view, hN]
      cases N.store.map.lookup k with
      | none => simp
      | some v' => simp
    exact ⟨⟨hnone _ rfl, by decide +kernel⟩, ⟨hnone _ rfl, by decide +kernel⟩, trivial, trivial,
      ⟨hnone _ rfl, by decide +kernel⟩, trivial⟩
  · exact ⟨trivial, trivial, trivial, rfl, trivial, trivial⟩

end Follower

end RP
