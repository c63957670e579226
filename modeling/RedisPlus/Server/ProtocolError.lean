import RedisPlus.Replication.Fanout
import RedisPlus.Server.Poll

/-!
# After a protocol error

`resp.hpp` says of `kError` that the connection must be closed: the framing is lost, so what is
received after it should not be taken for requests. `on_data` replies with the error and clears
its input, but has no way to tell its caller, and neither backend closes the connection. So the
next bytes that are received are parsed from the start of a request again.

What a server does for one connection is the list of its calls of `on_data` (`Reading`), and
`Served` says what these calls may be, given what was received. A `ServerModel` is a backend whose
steps do to a connection what `Served` allows (`ServerModel.served`); `makeServer` has the two.
Nothing is dispatched after an error exactly if what was received after it holds no request with an
argument (`nothing_after_error_iff`).
-/

namespace RP

open Framework (Drains Rest collect run)

/-- A call of `on_data` for a connection: what was received since the last one, the requests that
were dispatched, and the error that `parse_request` returned, if it did. -/
structure Reading where
  chunk : Bytes
  requests : List Args
  error : Option Bytes
deriving DecidableEq

/-- The call of `on_data` on `b`, to which `chunk` was appended. -/
def Reading.of {σ : Type} (H : Host σ) (b : Buffer) (chunk : Bytes) (s : σ) : Reading :=
  ⟨chunk, (onData H b s).requests, parseError b⟩

/-- No request is dispatched in a call after one in which `parse_request` returned an error. -/
def NothingAfterError (readings : List Reading) : Prop :=
  readings.Pairwise fun r r' => r.error ≠ none → r'.requests = []

instance (readings : List Reading) : Decidable (NothingAfterError readings) :=
  inferInstanceAs (Decidable (List.Pairwise _ _))

/-! ## What was received -/

/-- What is received with `b` unread holds no request with an argument. The input is empty again
after each protocol error. -/
inductive Idle : Bytes → List Bytes → Prop
  | nil {b : Bytes} : Idle b []
  | cons {b c : Bytes} {cs : List Bytes} {rs : List Args} {x : Rest UInt8 Bytes}
      (hd : Drains requestParser (b ++ c) rs x) (hrs : ∀ args ∈ rs, args = []) (h : Idle (unread x) cs) :
      Idle b (c :: cs)

/-- What is received with `b` unread holds no request with an argument after a protocol error. -/
inductive QuietAfterError : Bytes → List Bytes → Prop
  | nil {b : Bytes} : QuietAfterError b []
  | left {b c l : Bytes} {cs : List Bytes} {rs : List Args}
      (hd : Drains requestParser (b ++ c) rs (.left l)) (h : QuietAfterError l cs) :
      QuietAfterError b (c :: cs)
  | broken {b c l e : Bytes} {cs : List Bytes} {rs : List Args}
      (hd : Drains requestParser (b ++ c) rs (.broken e l)) (h : Idle [] cs) :
      QuietAfterError b (c :: cs)

theorem idle_cons {b c : Bytes} {cs : List Bytes} {rs : List Args} {x : Rest UInt8 Bytes}
    (hd : Drains requestParser (b ++ c) rs x) :
    Idle b (c :: cs) ↔ (∀ args ∈ rs, args = []) ∧ Idle (unread x) cs := by
  refine ⟨fun h => ?_, fun h => .cons hd h.1 h.2⟩
  cases h with
  | cons hd' hrs h =>
    obtain ⟨rfl, rfl⟩ := hd.det hd'
    exact ⟨hrs, h⟩

theorem quietAfterError_left {b c l : Bytes} {cs : List Bytes} {rs : List Args}
    (hd : Drains requestParser (b ++ c) rs (.left l)) :
    QuietAfterError b (c :: cs) ↔ QuietAfterError l cs := by
  refine ⟨fun h => ?_, fun h => .left hd h⟩
  cases h with
  | left hd' h => cases (hd.det hd').2; exact h
  | broken hd' _ => cases (hd.det hd').2

theorem quietAfterError_broken {b c l e : Bytes} {cs : List Bytes} {rs : List Args}
    (hd : Drains requestParser (b ++ c) rs (.broken e l)) :
    QuietAfterError b (c :: cs) ↔ Idle [] cs := by
  refine ⟨fun h => ?_, fun h => .broken hd h⟩
  cases h with
  | left hd' _ => cases (hd.det hd').2
  | broken _ h => exact h

/-! ## The calls for a connection -/

/-- The calls of `on_data` for a connection with `b` unread: each parses what was left and what was
received, and leaves what it could not parse, or nothing after an error. -/
inductive Served : Bytes → List Reading → Prop
  | nil {b : Bytes} : Served b []
  | cons {b : Bytes} {r : Reading} {readings : List Reading} {rs : List Args} {x : Rest UInt8 Bytes}
      (hd : Drains requestParser (b ++ r.chunk) rs x) (hrequests : r.requests = dispatched rs)
      (herror : r.error = restError x) (h : Served (unread x) readings) : Served b (r :: readings)

theorem dispatched_eq_nil_iff {rs : List Args} : dispatched rs = [] ↔ ∀ args ∈ rs, args = [] := by
  simp [dispatched, List.filter_eq_nil_iff]

theorem Served.idle_iff {b : Bytes} {readings : List Reading} (h : Served b readings) :
    (∀ r ∈ readings, r.requests = []) ↔ Idle b (readings.map Reading.chunk) := by
  induction h with
  | nil => exact ⟨fun _ => .nil, fun _ r hr => absurd hr List.not_mem_nil⟩
  | cons hd hrequests herror h ih =>
    rw [List.forall_mem_cons, List.map_cons, idle_cons hd, ih, hrequests, dispatched_eq_nil_iff]

/-- Nothing is dispatched after an error exactly if no request with an argument is received after
one. -/
theorem Served.quiet_iff {b : Bytes} {readings : List Reading} (h : Served b readings) :
    NothingAfterError readings ↔ QuietAfterError b (readings.map Reading.chunk) := by
  induction h with
  | nil => exact ⟨fun _ => .nil, fun _ => .nil⟩
  | @cons b r readings rs x hd hrequests herror h ih =>
    unfold NothingAfterError at ih ⊢
    rw [List.pairwise_cons, List.map_cons, ih, herror]
    rcases x with l | ⟨e, l⟩
    · rw [quietAfterError_left hd]
      exact and_iff_right fun _ _ hne => absurd rfl hne
    · -- the first error decides: with nothing dispatched after it, later ones ask for no more
      have hidle : (∀ r ∈ readings, r.requests = []) ↔ Idle [] (readings.map Reading.chunk) :=
        h.idle_iff
      rw [quietAfterError_broken hd, ← hidle, ← ih]
      constructor
      · exact fun hq r hr => hq.1 r hr (by simp [restError])
      · intro hnone
        refine ⟨fun r hr _ => hnone r hr, ?_⟩
        exact List.pairwise_of_forall_mem_list fun _ _ r hr _ => hnone r hr

/-- A call of `on_data` does what the draining of its input says. -/
theorem Reading.of_drains {σ : Type} (H : Host σ) {b : Buffer} {l chunk : Bytes}
    (h : b.readable = l ++ chunk) (s : σ) : ∃ rs x, Drains requestParser (l ++ chunk) rs x ∧
      (Reading.of H b chunk s).requests = dispatched rs ∧ (Reading.of H b chunk s).error = restError x ∧
      (onData H b s).input.readable = unread x := by
  obtain ⟨rs, x, hd⟩ := Drains.total requestParser b.readable
  obtain ⟨b', hb', hdata⟩ := onData_drains H hd s
  refine ⟨rs, x, h ▸ hd, ?_, parseError_drains hd, ?_⟩
  · rw [Reading.of, hdata]
  · rw [hdata]
    exact hb'

/-! ## Servers -/

/-- A server, and what it does for one of its connections: what the connection has unread while it
is read, and the call of `on_data` that an event makes for it. -/
structure ServerModel where
  State : Type
  Event : Type
  step : Event → State → State
  /-- The connection that the event starts. -/
  accepts : Event → Option ClientLink
  input : ClientLink → State → Option Bytes
  reading : ClientLink → Event → State → Option Reading
  /-- A call is for a connection that is read, on what it had unread and what was received, and leaves
  what it could not parse, unless it is the last one. -/
  reads {link : ClientLink} {e : Event} {s : State} {r : Reading} : reading link e s = some r →
    ∃ b rs x, input link s = some b ∧ Drains requestParser (b ++ r.chunk) rs x ∧
      r.requests = dispatched rs ∧ r.error = restError x ∧
      (input link (step e s) = some (unread x) ∨ input link (step e s) = none)
  /-- Nothing else changes what a connection has unread, unless it ends the connection. -/
  keeps {link : ClientLink} {e : Event} {s : State} : accepts e ≠ some link → reading link e s = none →
    input link (step e s) = input link s ∨ input link (step e s) = none

namespace ServerModel

variable (M : ServerModel) (link : ClientLink)

/-- The calls of `on_data` for a connection in a run. -/
def readings (es : List M.Event) (s : M.State) : List Reading :=
  collect M.step (fun e s => (M.reading link e s).toList) es s

variable {M link}

theorem reading_eq_none {e : M.Event} {s : M.State} (h : M.input link s = none) :
    M.reading link e s = none := by
  cases hr : M.reading link e s with
  | none => rfl
  | some r =>
    obtain ⟨b, _, _, hb, -⟩ := M.reads hr
    rw [h] at hb
    cases hb

/-- A connection that is not read stays so. -/
theorem input_step_eq_none {e : M.Event} {s : M.State} (h : M.input link s = none)
    (hsame : M.accepts e ≠ some link) : M.input link (M.step e s) = none := by
  rcases M.keeps hsame (reading_eq_none h) with hk | hk
  · exact hk.trans h
  · exact hk

/-- There are no calls for it. -/
theorem readings_eq_nil : ∀ {es : List M.Event} {s : M.State}, M.input link s = none →
    (∀ e ∈ es, M.accepts e ≠ some link) → M.readings link es s = []
  | [], _, _, _ => rfl
  | e :: es, s, hnone, hsame => by
    rw [readings, collect, reading_eq_none hnone]
    exact readings_eq_nil (input_step_eq_none hnone (hsame e List.mem_cons_self))
      fun e he => hsame e (List.mem_cons_of_mem _ he)

/-- The calls for a connection in a run are as `Served` says, whatever else happens. -/
theorem served : ∀ {es : List M.Event} {s : M.State} {b : Bytes}, M.input link s = some b →
    (∀ e ∈ es, M.accepts e ≠ some link) → Served b (M.readings link es s)
  | [], _, _, _, _ => .nil
  | e :: es, s, b, hb, hsame => by
    have hrest : ∀ e ∈ es, M.accepts e ≠ some link := fun e he => hsame e (List.mem_cons_of_mem _ he)
    have hlast {b' : Bytes} (h : M.input link (M.step e s) = none) :
        Served b' (M.readings link es (M.step e s)) := by
      rw [readings_eq_nil h hrest]
      exact .nil
    rw [readings, collect]
    cases hr : M.reading link e s with
    | some r =>
      obtain ⟨b', rs, x, hb', hd, hrequests, herror, hnext⟩ := M.reads hr
      obtain rfl : b = b' := Option.some.inj (hb.symm.trans hb')
      exact .cons hd hrequests herror (hnext.elim (served · hrest) hlast)
    | none =>
      rcases M.keeps (hsame e List.mem_cons_self) hr with h | h
      · exact served (h.trans hb) hrest
      · exact hlast h

end ServerModel

/-! ## The two backends -/

namespace Asio

variable {π : Type} (cfg : ServerConfig)

/-- The call of `on_data` for the session `link` in a callback. -/
def reading (link : ClientLink) (c : Callback π) (N : Node π Net) : Option Reading :=
  match c with
  | .read m l bytes =>
    if l = link ∧ (N.repl.sessions l).reading = true then
      some (Reading.of (sessionHost cfg m l) ((N.repl.sessions l).input.append bytes) bytes N)
    else none
  | _ => none

theorem reads {link : ClientLink} {c : Callback π} {N : Node π Net} {r : Reading}
    (h : reading cfg link c N = some r) : ∃ b rs x, (N.repl.inputs link).map Buffer.readable = some b ∧
      Drains requestParser (b ++ r.chunk) rs x ∧ r.requests = dispatched rs ∧ r.error = restError x ∧
      (((callback cfg c N).repl.inputs link).map Buffer.readable = some (unread x) ∨
        ((callback cfg c N).repl.inputs link).map Buffer.readable = none) := by
  cases c with
  | read m l bytes =>
    simp only [reading] at h
    split at h
    · rename_i hl
      obtain ⟨rfl, hread⟩ := hl
      obtain rfl := Option.some.inj h
      obtain ⟨rs, x, hd, hrequests, herror, hleft⟩ :=
        Reading.of_drains (sessionHost cfg m l) (Buffer.readable_append bytes (N.repl.sessions l).input) N
      refine ⟨(N.repl.sessions l).input.readable, rs, x, ?_, hd, hrequests, herror, ?_⟩
      · rw [Net.inputs, Session.toRead, if_pos hread]
        rfl
      · rw [inputs_callback_read cfg m bytes hread, Function.update_self]
        split
        · exact .inr rfl
        · exact .inl (congrArg some hleft)
    · cases h
  | _ => cases h

theorem keeps {link : ClientLink} {c : Callback π} {N : Node π Net} (ha : c.accepts ≠ some link)
    (h : reading cfg link c N = none) :
    ((callback cfg c N).repl.inputs link).map Buffer.readable = (N.repl.inputs link).map Buffer.readable ∨
      ((callback cfg c N).repl.inputs link).map Buffer.readable = none := by
  have hr : c.reads = some link → (N.repl.sessions link).reading = false := by
    intro hr
    cases c with
    | read m l bytes =>
      obtain rfl := Option.some.inj hr
      refine Bool.eq_false_iff.mpr fun hread => ?_
      rw [reading, if_pos ⟨rfl, hread⟩] at h
      cases h
    | _ => cases hr
  rcases inputs_callback cfg ha hr with hs | hs <;> rw [hs]
  · exact .inl rfl
  · exact .inr rfl

/-- `AsioServer` -/
def server (π : Type) : ServerModel where
  State := Node π Net
  Event := Callback π
  step := callback cfg
  accepts := Callback.accepts
  input link N := (N.repl.inputs link).map Buffer.readable
  reading := reading cfg
  reads := reads cfg
  keeps := keeps cfg

end Asio

namespace Poll

variable {π : Type} (cfg : Config)

/-- The call of `on_data` for the connection `link` in an event. -/
def reading (link : ClientLink) (e : Event π) (N : Node π Net) : Option Reading :=
  match e with
  | .read m _ recvs _ =>
    (e.reads cfg link N.repl).map fun b => Reading.of (connHost m link) b (received cfg recvs) N
  | _ => none

theorem reads {link : ClientLink} {e : Event π} {N : Node π Net} {r : Reading}
    (h : reading cfg link e N = some r) : ∃ b rs x, (N.repl.inputs link).map Buffer.readable = some b ∧
      Drains requestParser (b ++ r.chunk) rs x ∧ r.requests = dispatched rs ∧ r.error = restError x ∧
      (((step cfg e N).repl.inputs link).map Buffer.readable = some (unread x) ∨
        ((step cfg e N).repl.inputs link).map Buffer.readable = none) := by
  cases e with
  | read m l recvs sends =>
    obtain ⟨b, hb, rfl⟩ := Option.map_eq_some_iff.1 h
    rw [Event.reads] at hb
    split at hb
    · rename_i hl
      obtain ⟨rfl, hdead⟩ := hl
      obtain ⟨c, chunks, hc, hchunks, hread⟩ := readable_inputRead hb
      rw [show chunks.flatten = received cfg recvs by rw [received, hchunks]; rfl] at hread
      obtain ⟨rs, x, hd, hrequests, herror, hleft⟩ := Reading.of_drains (connHost m l) hread N
      refine ⟨c.input.readable, rs, x, ?_, hd, hrequests, herror, ?_⟩
      · rw [Net.inputs, if_neg hdead, hc]
        rfl
      · rw [inputs_step_read hdead hb, Function.update_self]
        split
        · exact .inl (congrArg some hleft)
        · exact .inr rfl
    · cases hb
  | _ => cases h

theorem keeps {link : ClientLink} {e : Event π} {N : Node π Net} (ha : e.accepts ≠ some link)
    (h : reading cfg link e N = none) :
    ((step cfg e N).repl.inputs link).map Buffer.readable = (N.repl.inputs link).map Buffer.readable ∨
      ((step cfg e N).repl.inputs link).map Buffer.readable = none := by
  have hr : e.reads cfg link N.repl = none := by
    cases e with
    | read m l recvs sends => exact Option.map_eq_none_iff.1 h
    | _ => rfl
  rcases inputs_step ha hr with hs | hs <;> rw [hs]
  · exact .inl rfl
  · exact .inr rfl

/-- `PollServer` -/
def server (π : Type) : ServerModel where
  State := Node π Net
  Event := Event π
  step := step cfg
  accepts := Event.accepts
  input link N := (N.repl.inputs link).map Buffer.readable
  reading := reading cfg
  reads := reads cfg
  keeps := keeps cfg

end Poll

/-- The two backends. -/
inductive Backend where
  | asio | poll
deriving DecidableEq

/-- `make_server` -/
def makeServer (π : Type) (backend : Backend) (cfg : Poll.Config) : ServerModel :=
  match backend with
  | .poll => Poll.server cfg π
  | .asio => Asio.server cfg.toServerConfig π

/-- In every run of either backend, from any state in which the connection is read and for as long
as it is: nothing that is received after a protocol error is dispatched, exactly if
what is received after the first one holds no request with an argument. -/
theorem nothing_after_error_iff {π : Type} (backend : Backend) (cfg : Poll.Config) {link : ClientLink}
    {s : (makeServer π backend cfg).State} {unparsed : Bytes}
    (hconn : (makeServer π backend cfg).input link s = some unparsed)
    {es : List (makeServer π backend cfg).Event}
    (hsame : ∀ e ∈ es, (makeServer π backend cfg).accepts e ≠ some link) :
    NothingAfterError ((makeServer π backend cfg).readings link es s) ↔
      QuietAfterError unparsed (((makeServer π backend cfg).readings link es s).map Reading.chunk) :=
  (ServerModel.served hconn hsame).quiet_iff

/-! ## One connection -/

namespace ProtocolError

/-- A server with one key, whose connections have received nothing. -/
def oneKey : (backend : Backend) → (makeServer Unit backend {}).State
  | .asio => show Node Unit Net from
    ⟨Store.set {} (str "k") (str "v") kNoExpiry, (),
      { repl := { replid := Net.zeroReplid }, sessions := fun _ => {} }⟩
  | .poll => show Node Unit Poll.Net from
    ⟨Store.set {} (str "k") (str "v") kNoExpiry, (),
      { repl := { replid := Net.zeroReplid }, conns := fun _ => some {} }⟩

/-- The connection 1 receives the chunks. -/
def receive (chunks : List Bytes) : (backend : Backend) → List (makeServer Unit backend {}).Event
  | .asio => show List (Asio.Callback Unit) from chunks.map (.read {} 1)
  | .poll => show List (Poll.Event Unit) from chunks.map fun c => .read {} 1 [.data c] []

/-- How many keys the store has. -/
def keys : (backend : Backend) → (makeServer Unit backend {}).State → Nat
  | .asio => fun s : Node Unit Net => s.store.rawSize
  | .poll => fun s : Node Unit Poll.Net => s.store.rawSize

/-- The calls of `on_data` when the chunks are received, and how many keys are left. -/
def outcome (backend : Backend) (chunks : List Bytes) : List Reading × Nat :=
  let M := makeServer Unit backend {}
  (M.readings 1 (receive chunks backend) (oneKey backend),
    keys backend (run M.step (receive chunks backend) (oneKey backend)))

/-- A length that is not a number. -/
def badLength : Bytes := str "*x\r\n"

/-- Nothing but a blank line is received after the error. -/
theorem nothing_after_error_blank :
    NothingAfterError (outcome .asio [badLength, crlf]).1 ∧
      NothingAfterError (outcome .poll [badLength, crlf]).1 := by
  have hbad : Drains requestParser ([] ++ badLength) [] (.broken invalidMultibulk badLength) :=
    .fail (by decide)
  have hblank : Drains requestParser ([] ++ crlf) [[]] (.left []) :=
    .step (n := 2) (by decide) (.stop (by decide))
  have hquiet : QuietAfterError [] [badLength, crlf] := .broken hbad (.cons hblank (by decide) .nil)
  have hasio : (makeServer Unit .asio {}).input 1 (oneKey .asio) = some [] := rfl
  have hpoll : (makeServer Unit .poll {}).input 1 (oneKey .poll) = some [] := rfl
  exact ⟨(nothing_after_error_iff .asio {} hasio (by decide)).mpr hquiet,
    (nothing_after_error_iff .poll {} hpoll (by decide)).mpr hquiet⟩

/-- Received in a chunk of its own, a FLUSHALL after the error is run. In the same chunk it is not. -/
theorem flushall_after_error :
    let flushall := str "FLUSHALL\r\n"
    let apart := ([⟨badLength, [], some invalidMultibulk⟩, ⟨flushall, [[str "FLUSHALL"]], none⟩], 0)
    let together := ([⟨badLength ++ flushall, [], some invalidMultibulk⟩], 1)
    (outcome .asio [badLength, flushall] = apart ∧ outcome .poll [badLength, flushall] = apart) ∧
      ¬ NothingAfterError apart.1 ∧
      (outcome .asio [badLength ++ flushall] = together ∧
        outcome .poll [badLength ++ flushall] = together) := by
  decide +kernel

end ProtocolError

end RP
