import RedisPlus.Command.Frame
import RedisPlus.Framework.Machine
import RedisPlus.Handler.Basic
import RedisPlus.Replication.Basic

/-!
# The asio event loop

The callbacks of the sessions run one at a time on the event loop's thread. `Event` cuts them
into the pieces that `step` runs: a read callback is a request after the other, a reply to a
protocol error, and what the session does with the output at the end (`onRead_eq_run`). A run
is any sequence of such pieces, on any connections, from any state.

`Callback` has the read callbacks whole, and `callback` runs it. A read callback runs only if a read
is under way, and starts the next one unless its session is closed by then. What a session has unread
is changed by its own read callback only, which leaves what `on_data` leaves (`inputs_callback_read`,
`inputs_callback`).
-/

namespace RP.Asio

open Framework (run run_append)

variable {π : Type}

/-- What a request meets: the clock, persistence, and what the hook does with a write apart
from giving it to the replicas. -/
structure Moment (π : Type) where
  amb : Ambient := ⟨0, []⟩
  persistence : Option (PersistenceOps π) := none
  onWrite : Args → π → π := fun _ pers => pers

section

variable (cfg : ServerConfig)

/-- The command table that a callback meets. -/
def Moment.table (m : Moment π) : CommandTable π Net := ⟨m.persistence, some (Net.ops cfg m.amb.now)⟩

/-- The handler in the read callback of the session `link`, whose replies land in `pending_`. -/
def sessionHost (m : Moment π) (link : ClientLink) : Host (Node π Net) where
  dispatch := dispatch (m.table cfg) m.amb (some link)
  reply r N := { N with repl := N.repl.put link ((N.repl.sessions link).append r) }
  propagate args N := { N with pers := m.onWrite args N.pers, repl := N.repl.propagate cfg args }

/-- What a server is asked to do, request by request. -/
inductive Event (π : Type) where
  /-- `Session::start` -/
  | accept (link : ClientLink) (peer : Bytes)
  /-- A request in a read callback. -/
  | request (m : Moment π) (link : ClientLink) (args : Args)
  /-- A protocol error in a read callback. -/
  | refuse (link : ClientLink) (error : Bytes)
  /-- The end of a read callback, with what it leaves unread. -/
  | readEnd (link : ClientLink) (input : Buffer)
  | readFailed (link : ClientLink)
  | written (link : ClientLink)
  | writeFailed (link : ClientLink)
  /-- A command of this server's own master, posted by the replica thread. -/
  | apply (m : Moment π) (args : Args)
  /-- The cron, which does not come near the links. -/
  | cron (store : Store) (pers : π)

/-- The end of a read callback: the cap is checked, then a write started. -/
def readEnd (link : ClientLink) (input : Buffer) (N : Net) : Net :=
  let s := { N.sessions link with input }
  if Net.overCap cfg s then (N.put link s).doClose link else N.put link s.flush

/-- An event. -/
def step (e : Event π) (N : Node π Net) : Node π Net :=
  match e with
  | .accept link peer =>
    -- a live session's address is not given to another one
    if N.repl.closed link then { N with repl := N.repl.put link { peer } } else N
  | .request m link args => handleRequest (sessionHost cfg m link) args N
  | .refuse link error => (sessionHost cfg ({} : Moment π) link).reply (Reply.error error) N
  | .readEnd link input => { N with repl := readEnd cfg link input N.repl }
  | .readFailed link => { N with repl := N.repl.doClose link }
  | .written link => { N with repl := N.repl.put link (N.repl.sessions link).onWritten }
  | .writeFailed link =>
    { N with repl := (N.repl.put link { N.repl.sessions link with writing := none }).doClose link }
  | .apply m args => applySilently (m.table cfg) m.amb args N
  | .cron store pers => { N with store, pers }

/-- The read callback of the session `link`, with `bytes` read. -/
def onRead (m : Moment π) (link : ClientLink) (bytes : Bytes) (N : Node π Net) : Node π Net :=
  let r := onData (sessionHost cfg m link) ((N.repl.sessions link).input.append bytes) N
  { r.state with repl := readEnd cfg link r.input r.state.repl }

/-- A read callback is a run of events on its session. -/
theorem onRead_eq_run (m : Moment π) (link : ClientLink) (bytes : Bytes) (N : Node π Net) :
    ∃ (rs : List Args) (errors : List Bytes) (input : Buffer), onRead cfg m link bytes N =
      run (step cfg) (rs.map (.request m link) ++ errors.map (.refuse link) ++ [.readEnd link input]) N := by
  obtain ⟨rs, errors, hstate⟩ := onData_state (sessionHost cfg m link)
    ((N.repl.sessions link).input.append bytes) N
  have hrequests : run (step cfg) (rs.map (.request m link)) N = handleAll (sessionHost cfg m link) rs N := by
    rw [run, List.foldl_map]; rfl
  have hrefused (N' : Node π Net) : run (step cfg) (errors.map (.refuse link)) N' =
      errors.foldl (fun N e => (sessionHost cfg m link).reply (Reply.error e) N) N' := by
    rw [run, List.foldl_map]; rfl
  refine ⟨rs, errors,
    (onData (sessionHost cfg m link) ((N.repl.sessions link).input.append bytes) N).input, ?_⟩
  rw [run_append, run_append, hrequests, hrefused, ← hstate]
  rfl

end

/-! ## Whole callbacks -/

/-- The callbacks of the event loop. -/
inductive Callback (π : Type) where
  | accept (link : ClientLink) (peer : Bytes)
  | read (m : Moment π) (link : ClientLink) (bytes : Bytes)
  | readFailed (link : ClientLink)
  | written (link : ClientLink)
  | writeFailed (link : ClientLink)
  | apply (m : Moment π) (args : Args)
  | cron (store : Store) (pers : π)

/-- `Session::read` at the end of a read callback. Over the cap it is not called, and on a closed socket
the read fails: either way no more data is read. -/
def readOn (link : ClientLink) (N : Net) : Net :=
  N.put link { N.sessions link with reading := !N.closed link }

/-- One callback of the event loop. -/
def callback (cfg : ServerConfig) (c : Callback π) (N : Node π Net) : Node π Net :=
  match c with
  | .accept link peer => step cfg (.accept link peer) N
  | .read m link bytes =>
    -- a callback that was due when another one closed the session still runs
    if (N.repl.sessions link).reading then
      let N := onRead cfg m link bytes N
      { N with repl := readOn link N.repl }
    else N
  | .readFailed link =>
    let N := step cfg (.readFailed link) N
    { N with repl := readOn link N.repl }
  | .written link => step cfg (.written link) N
  | .writeFailed link => step cfg (.writeFailed link) N
  | .apply m args => step cfg (.apply m args) N
  | .cron store pers => step cfg (.cron store pers) N

end RP.Asio

/-! ## What the sessions have unread -/

namespace RP

namespace Session

/-- What the next read is appended to, if there is one. -/
def toRead (s : Session) : Option Buffer := if s.reading then some s.input else none

@[simp] theorem input_flush (s : Session) : s.flush.input = s.input := by
  simp only [flush]
  split
  · rfl
  · split <;> rfl

@[simp] theorem reading_flush (s : Session) : s.flush.reading = s.reading := by
  simp only [flush]
  split
  · rfl
  · split <;> rfl

@[simp] theorem toRead_flush (s : Session) : s.flush.toRead = s.toRead := by
  rw [toRead, toRead, input_flush, reading_flush]

@[simp] theorem toRead_onWritten (s : Session) : s.onWritten.toRead = s.toRead := by
  simp only [onWritten]
  split
  · rfl
  · rw [toRead_flush]
    rfl

end Session

namespace Net

/-- The input buffers of the sessions that are read. -/
def inputs (N : Net) : ClientLink → Option Buffer := fun l => (N.sessions l).toRead

theorem inputs_put (link : ClientLink) (s : Session) (N : Net) :
    (N.put link s).inputs = Function.update N.inputs link s.toRead := by
  funext l
  simp only [inputs, sessions_put, Function.update_apply]
  split <;> rfl

theorem inputs_put_same {link : ClientLink} {s : Session} {N : Net}
    (h : s.toRead = (N.sessions link).toRead) : (N.put link s).inputs = N.inputs := by
  rw [inputs_put, h]
  exact Function.update_eq_self ..

@[simp] theorem inputs_doClose (link : ClientLink) (N : Net) : (N.doClose link).inputs = N.inputs := by
  unfold doClose
  split
  · rfl
  · exact inputs_put_same (N := N) rfl

variable (cfg : ServerConfig)

@[simp] theorem inputs_send (link : ClientLink) (data : Bytes) (N : Net) :
    (N.send cfg link data).inputs = N.inputs := by
  rcases @send_cases cfg link data N with hc | ho | ⟨hc, ho⟩
  · rw [send_of_closed hc]
  · rw [send_of_overflows ho, inputs_doClose]
    exact inputs_put_same rfl
  · rw [send_of_fits hc ho]
    exact inputs_put_same (Session.toRead_flush _)

theorem inputs_startFullResync (now : Int64) (S : Store) (link : Option ClientLink) (N : Net) :
    (N.startFullResync cfg now S link).inputs = N.inputs := by
  rcases link with _ | link
  · rfl
  · exact (inputs_send ..).trans ((inputs_send ..).trans (inputs_send ..))

theorem inputs_fanOut (encoded : Bytes) : ∀ (n i : Nat) (N : Net),
    (N.fanOut cfg encoded n i).inputs = N.inputs
  | 0, _, _ => rfl
  | n + 1, i, N => by
    rw [fanOut]
    split
    · exact (inputs_fanOut encoded n (i + 1) _).trans (inputs_send ..)
    · rfl

theorem inputs_propagate (args : Args) (N : Net) : (N.propagate cfg args).inputs = N.inputs := by
  unfold propagate
  split
  · rfl
  · exact inputs_fanOut ..

theorem keeps_inputs (now : Int64) (inputs : ClientLink → Option Buffer) :
    (ops cfg now).Keeps fun N => N.inputs = inputs where
  startFullResync S link N h := (inputs_startFullResync cfg now S link N).trans h
  onReplicaAck _ _ _ h := h
  setReplicaPort _ _ _ h := h
  replicaof _ _ _ h := h
  stopReplication _ h := h

end Net

namespace Asio

variable {π : Type} (cfg : ServerConfig)

theorem inputs_dispatch (m : Moment π) (link : Option ClientLink) (args : Args) (N : Node π Net) :
    (dispatch (m.table cfg) m.amb link args N).2.repl.inputs = N.repl.inputs := by
  refine dispatch_keeps (m.table cfg) m.amb link args N (I := fun net => net.inputs = N.repl.inputs) ?_ rfl
  intro ops hops
  obtain rfl : Net.ops cfg m.amb.now = ops := Option.some.inj hops
  exact Net.keeps_inputs ..

theorem inputs_onData (m : Moment π) (link : ClientLink) (b : Buffer) (N : Node π Net) :
    (onData (sessionHost cfg m link) b N).state.repl.inputs = N.repl.inputs := by
  refine onData_keeps (I := fun N' : Node π Net => N'.repl.inputs = N.repl.inputs) _ ?_ ?_ ?_ b rfl
  · exact fun args N' h => (inputs_dispatch cfg m (some link) args N').trans h
  · exact fun r N' h => (Net.inputs_put_same (N := N'.repl) (by rfl)).trans h
  · exact fun args N' h => (Net.inputs_propagate ..).trans h

theorem inputs_readEnd (link : ClientLink) (input : Buffer) (N : Net) :
    (readEnd cfg link input N).inputs =
      Function.update N.inputs link { N.sessions link with input : Session }.toRead := by
  unfold readEnd
  dsimp only
  split
  · rw [Net.inputs_doClose, Net.inputs_put]
  · rw [Net.inputs_put, Session.toRead_flush]

theorem input_readEnd (link : ClientLink) (input : Buffer) (N : Net) :
    ((readEnd cfg link input N).sessions link).input = input := by
  have hclose (N : Net) : ((N.doClose link).sessions link).input = (N.sessions link).input := by
    unfold Net.doClose
    split
    · rfl
    · simp [Net.sessions_put]
  unfold readEnd
  dsimp only
  split
  · rw [hclose, Net.sessions_put, if_pos rfl]
  · rw [Net.sessions_put, if_pos rfl, Session.input_flush]

theorem inputs_readOn (link : ClientLink) (N : Net) : (readOn link N).inputs =
    Function.update N.inputs link (if N.closed link then none else some (N.sessions link).input) := by
  rw [readOn, Net.inputs_put]
  congr 1
  cases N.closed link <;> rfl

/-- What a read callback leaves unread is what `on_data` leaves, unless it is the last one. -/
theorem inputs_callback_read (m : Moment π) {link : ClientLink} (bytes : Bytes) {N : Node π Net}
    (h : (N.repl.sessions link).reading = true) :
    (callback cfg (.read m link bytes) N).repl.inputs = Function.update N.repl.inputs link
      (if (onRead cfg m link bytes N).repl.closed link then none
        else some (onData (sessionHost cfg m link) ((N.repl.sessions link).input.append bytes) N).input) := by
  simp only [callback, h, if_true, inputs_readOn]
  rw [show ((onRead cfg m link bytes N).repl.sessions link).input = _ from input_readEnd ..]
  unfold onRead
  rw [inputs_readEnd, inputs_onData, Function.update_idem]

/-- The connection that a callback starts. -/
def Callback.accepts : Callback π → Option ClientLink
  | .accept link _ => some link
  | _ => none

/-- The session whose read callback it is. -/
def Callback.reads : Callback π → Option ClientLink
  | .read _ link _ => some link
  | _ => none

/-- No other callback changes what a session has unread, unless it ends the reading. -/
theorem inputs_callback {c : Callback π} {link : ClientLink} {N : Node π Net} (ha : c.accepts ≠ some link)
    (hr : c.reads = some link → (N.repl.sessions link).reading = false) :
    (callback cfg c N).repl.inputs link = N.repl.inputs link ∨ (callback cfg c N).repl.inputs link = none := by
  cases c with
  | accept l peer =>
    refine .inl ?_
    unfold callback step
    dsimp only
    split
    · rw [Net.inputs_put]
      exact Function.update_of_ne (fun h => ha (congrArg some h.symm)) ..
    · rfl
  | read m l bytes =>
    refine .inl ?_
    cases hread : (N.repl.sessions l).reading with
    | true =>
      have hl : link ≠ l := by
        rintro rfl
        rw [hr rfl] at hread
        cases hread
      rw [inputs_callback_read cfg m bytes hread]
      exact Function.update_of_ne hl ..
    | false => simp only [callback, hread, Bool.false_eq_true, if_false]
  | readFailed l =>
    show (readOn l (N.repl.doClose l)).inputs link = _ ∨ (readOn l (N.repl.doClose l)).inputs link = none
    rw [inputs_readOn, Net.inputs_doClose, Net.closed_doClose, beq_self_eq_true, Bool.or_true, if_pos rfl]
    by_cases hl : link = l
    · rw [hl, Function.update_self]
      exact .inr rfl
    · exact .inl (Function.update_of_ne hl ..)
  | written l => exact .inl (congrFun (Net.inputs_put_same (Session.toRead_onWritten _)) link)
  | writeFailed l =>
    refine .inl (congrFun ((Net.inputs_doClose l _).trans ?_) link)
    exact Net.inputs_put_same rfl
  | apply m args => exact .inl (congrFun (inputs_dispatch cfg m none args N) link)
  | cron store pers => exact .inl rfl

end Asio

end RP
