import RedisPlus.Server.Asio

/-!
# The output of an asio session

`Output` is what a session does with its buffers: replies and pushes are appended to `pending_`,
`flush` moves them to `out_` and hands a view of it to `async_write`, whose completion consumes
what was written. A write that is in flight reads the storage of `out_`, so a `Flight` keeps the
buffer as it was when the view was taken.

In every run at most one write is in flight, `out_` is still the buffer it was given, and what was
delivered, `out_` and `pending_` make up, in order, all that was put out (`output_in_order`). The
sessions of `Net` are outputs seen without their storage (`Shows`), and each operation there is
the one here (`Shows.send`, `Shows.readEnd`, `Shows.onWritten`).
-/

namespace RP

open Framework (run collect)

/-- A view of a buffer that `async_write` was given. -/
structure Flight where
  /-- `out_` as it was then. -/
  buffer : Buffer
  n : Nat

/-- The bytes that the view shows when the storage is that of `b`. -/
def Flight.read (b : Buffer) (f : Flight) : Bytes := (b.data.drop f.buffer.readPos).take f.n

/-- The output of a session, with its buffers. -/
structure Output where
  out : Buffer := Buffer.empty
  pending : Buffer := Buffer.empty
  /-- `writing_` -/
  writing : Bool := false
  closed : Bool := false
  /-- The writes whose handlers have not run. -/
  flights : List Flight := []
  /-- The bytes of the writes that completed. -/
  delivered : Bytes := []

namespace Output

/-- `pending_.append` -/
def append (data : Bytes) (O : Output) : Output := { O with pending := O.pending.append data }

/-- The first half of `Session::flush`. -/
def gather (O : Output) : Output :=
  if O.pending.size = 0 then O
  else { O with out := O.out.append O.pending.readable, pending := Buffer.empty }

/-- `Session::flush` -/
def flush (O : Output) : Output :=
  if O.writing then O
  else
    let O := O.gather
    if O.out.size = 0 then O
    else { O with writing := true, flights := O.flights ++ [⟨O.out, O.out.size⟩] }

/-- `Session::do_close`, as far as the output goes. -/
def doClose (O : Output) : Output := { O with closed := true }

/-- The handler of a write that succeeds: all bytes of its view were written. -/
def onWritten (O : Output) : Output :=
  match O.flights with
  | [] => O
  | f :: flights =>
    { O with
      writing := false
      flights
      delivered := O.delivered ++ f.read O.out
      out := O.out.consume f.n : Output }.flush

/-- The handler of a write that fails. -/
def onWriteFailed (O : Output) : Output :=
  match O.flights with
  | [] => O
  | _ :: flights => { O with writing := false, flights : Output }.doClose

section

variable (cfg : ServerConfig)

/-- Is more output held than is allowed? -/
def overCap (O : Output) : Bool := cfg.maxOutputBuffer.toNat < O.out.size + O.pending.size

/-- `Session::send` -/
def send (data : Bytes) (O : Output) : Output :=
  if O.closed then O
  else
    let O := O.append data
    if O.overCap cfg then O.doClose else O.flush

/-- The end of a read callback. -/
def readEnd (O : Output) : Output := if O.overCap cfg then O.doClose else O.flush

/-- What happens to a session's output. -/
inductive Event where
  /-- The handler's `out.append`, in a read callback. -/
  | reply (data : Bytes)
  | send (data : Bytes)
  | readEnd
  | readFailed
  | written
  | writeFailed

/-- An event on a session. -/
def step : Event → Output → Output
  | .reply data, O => O.append data
  | .send data, O => O.send cfg data
  | .readEnd, O => O.readEnd cfg
  | .readFailed, O => O.doClose
  | .written, O => O.onWritten
  | .writeFailed, O => O.onWriteFailed

end

/-- The bytes that an event puts out. A session that is closed takes no pushes. -/
def Event.data : Event → Output → Bytes
  | .reply data, _ => data
  | .send data, O => if O.closed then [] else data
  | _, _ => []

/-- Does the handler of a write run? -/
def Event.completes : Event → Bool
  | .written | .writeFailed => true
  | _ => false

/-- The state of an output on which `log` was put out. -/
structure InOrder (log : Bytes) (O : Output) : Prop where
  /-- At most one write is in flight, of all of `out_`, which is as it was. -/
  flights : O.flights = if O.writing then [⟨O.out, O.out.size⟩] else []
  conserved : O.delivered ++ O.out.readable ++ O.pending.readable = log

variable {log : Bytes} {O : Output}

theorem inOrder_empty : InOrder [] {} := ⟨rfl, rfl⟩

theorem InOrder.append (h : InOrder log O) (data : Bytes) : InOrder (log ++ data) (O.append data) := by
  refine ⟨h.flights, ?_⟩
  show O.delivered ++ O.out.readable ++ (O.pending.append data).readable = _
  rw [Buffer.readable_append, ← List.append_assoc, h.conserved]

theorem InOrder.doClose (h : InOrder log O) : InOrder log O.doClose := ⟨h.flights, h.conserved⟩

/-- Gathering moves the pending bytes behind those of `out_`. -/
theorem readable_gather (O : Output) :
    O.gather.out.readable = O.out.readable ++ O.pending.readable ∧ O.gather.pending.readable = [] := by
  unfold gather
  split
  · rename_i hsize
    have hnil : O.pending.readable = [] :=
      List.length_eq_zero_iff.mp ((Buffer.length_readable _).trans hsize)
    rw [hnil, List.append_nil]
    exact ⟨rfl, rfl⟩
  · exact ⟨Buffer.readable_append .., rfl⟩

theorem gather_frame (O : Output) : O.gather.writing = O.writing ∧ O.gather.flights = O.flights ∧
    O.gather.delivered = O.delivered ∧ O.gather.closed = O.closed := by
  unfold gather
  split
  · exact ⟨rfl, rfl, rfl, rfl⟩
  · exact ⟨rfl, rfl, rfl, rfl⟩

theorem InOrder.flush (h : InOrder log O) : InOrder log O.flush := by
  obtain ⟨hout, hpending⟩ := readable_gather O
  obtain ⟨hwriting, hflights, hdelivered, -⟩ := gather_frame O
  have hconserved : O.gather.delivered ++ O.gather.out.readable ++ O.gather.pending.readable = log := by
    rw [hout, hpending, hdelivered, List.append_nil, ← List.append_assoc, h.conserved]
  unfold Output.flush
  by_cases hw : O.writing = true
  · rw [if_pos hw]
    exact h
  · have hnone : O.flights = [] := by rw [h.flights, if_neg hw]
    rw [if_neg hw]
    dsimp only
    split
    · refine ⟨?_, hconserved⟩
      rw [hflights, hwriting, hnone, if_neg hw]
    · refine ⟨?_, hconserved⟩
      show O.gather.flights ++ _ = _
      rw [hflights, hnone]
      rfl

/-- The write in flight. -/
theorem InOrder.mem_flights (h : InOrder log O) {f : Flight} (hf : f ∈ O.flights) :
    f = ⟨O.out, O.out.size⟩ ∧ O.flights = [f] := by
  have hflights := h.flights
  split at hflights
  · rw [hflights] at hf ⊢
    obtain rfl := List.mem_singleton.mp hf
    exact ⟨rfl, rfl⟩
  · rw [hflights] at hf
    cases hf

/-- A view of all of a buffer shows what is readable in it. -/
theorem read_self (b : Buffer) : Flight.read b ⟨b, b.size⟩ = b.readable := by
  show (b.data.drop b.readPos).take b.size = b.readable
  exact List.take_of_length_le (by rw [List.length_drop]; exact Nat.le_refl _)

theorem readable_consume_size (b : Buffer) : (b.consume b.size).readable = [] := by
  rw [Buffer.readable_consume, ← Buffer.length_readable, List.drop_length]

theorem InOrder.onWritten (h : InOrder log O) : InOrder log O.onWritten := by
  unfold Output.onWritten
  cases hf : O.flights with
  | nil => exact h
  | cons f fs =>
    obtain ⟨rfl, hone⟩ := h.mem_flights (hf ▸ List.mem_cons_self)
    obtain rfl : fs = [] := (List.cons.inj (hf.symm.trans hone)).2
    refine InOrder.flush ⟨rfl, ?_⟩
    show O.delivered ++ Flight.read O.out ⟨O.out, O.out.size⟩ ++ (O.out.consume O.out.size).readable ++
      O.pending.readable = log
    rw [read_self, readable_consume_size, List.append_nil, h.conserved]

theorem InOrder.onWriteFailed (h : InOrder log O) : InOrder log O.onWriteFailed := by
  unfold Output.onWriteFailed
  cases hf : O.flights with
  | nil => exact h
  | cons f fs =>
    obtain ⟨-, hone⟩ := h.mem_flights (hf ▸ List.mem_cons_self)
    obtain rfl : fs = [] := (List.cons.inj (hf.symm.trans hone)).2
    exact ⟨rfl, h.conserved⟩

variable {cfg : ServerConfig}

theorem InOrder.readEnd (h : InOrder log O) : InOrder log (O.readEnd cfg) := by
  unfold Output.readEnd
  split
  · exact h.doClose
  · exact h.flush

theorem InOrder.step (h : InOrder log O) (e : Event) : InOrder (log ++ e.data O) (O.step cfg e) := by
  have hsilent {O' : Output} (h : InOrder log O') : InOrder (log ++ []) O' := by
    rw [List.append_nil]
    exact h
  cases e with
  | reply data => exact h.append data
  | send data =>
    show InOrder (log ++ if O.closed then [] else data) (O.send cfg data)
    unfold Output.send
    split
    · exact hsilent h
    · exact (h.append data).readEnd
  | readEnd => exact hsilent h.readEnd
  | readFailed => exact hsilent h.doClose
  | written => exact hsilent h.onWritten
  | writeFailed => exact hsilent h.onWriteFailed

theorem InOrder.run : ∀ (es : List Event) {log : Bytes} {O : Output}, InOrder log O →
    InOrder (log ++ collect (Output.step cfg) Event.data es O) (Framework.run (Output.step cfg) es O)
  | [], log, O, h => by
    rw [collect, List.append_nil]
    exact h
  | e :: es, log, O, h => by
    rw [collect, ← List.append_assoc]
    exact InOrder.run es (h.step e)

/-- While a write is in flight, only its handler changes `out_`. -/
theorem out_step (hw : O.writing = true) {e : Event} (he : e.completes = false) :
    (O.step cfg e).out = O.out ∧ (O.step cfg e).flights = O.flights := by
  have hflush (O : Output) (hw : O.writing = true) : O.flush = O := if_pos hw
  have hend (O : Output) (hw : O.writing = true) :
      (O.readEnd cfg).out = O.out ∧ (O.readEnd cfg).flights = O.flights := by
    unfold Output.readEnd
    rw [hflush O hw]
    split
    · exact ⟨rfl, rfl⟩
    · exact ⟨rfl, rfl⟩
  cases e with
  | reply data => exact ⟨rfl, rfl⟩
  | send data =>
    show (O.send cfg data).out = O.out ∧ (O.send cfg data).flights = O.flights
    unfold Output.send
    split
    · exact ⟨rfl, rfl⟩
    · exact hend (O.append data) hw
  | readEnd => exact hend O hw
  | readFailed => exact ⟨rfl, rfl⟩
  | written | writeFailed => cases he

/-- The output of a session on which `log` was put out. -/
structure Sound (cfg : ServerConfig) (log : Bytes) (O : Output) : Prop where
  atMostOne : O.flights.length ≤ 1
  writing_iff : O.writing = true ↔ O.flights ≠ []
  /-- `out_` is the buffer that the write was given, and the write is of all that it has. -/
  whole : ∀ f ∈ O.flights, f.buffer = O.out ∧ f.read f.buffer = O.out.readable
  /-- Nothing but the handler of the write changes it. -/
  untouched : O.writing = true → ∀ e : Event, e.completes = false →
    (step cfg e O).out = O.out ∧ (step cfg e O).flights = O.flights
  conserved : O.delivered ++ O.out.readable ++ O.pending.readable = log

/-- In every run of a session, whatever the order of replies, pushes and completions, no output is
lost, reordered or changed. -/
theorem output_in_order (cfg : ServerConfig) (es : List Event) :
    Sound cfg (collect (step cfg) Event.data es {}) (Framework.run (step cfg) es {}) := by
  have h : InOrder ([] ++ collect (step cfg) Event.data es {}) (Framework.run (step cfg) es {}) :=
    InOrder.run es inOrder_empty
  refine ⟨?_, ?_, fun f hf => ?_, fun hw e he => out_step hw he, h.conserved⟩
  · rw [h.flights]
    split
    · exact Nat.le_refl 1
    · exact Nat.zero_le 1
  · rw [h.flights]
    split
    · rename_i hw
      exact iff_of_true hw (List.cons_ne_nil _ _)
    · rename_i hw
      exact iff_of_false hw fun hne => hne rfl
  · obtain ⟨rfl, -⟩ := h.mem_flights hf
    exact ⟨rfl, read_self _⟩

/-! ## Sessions without their storage -/

/-- `s` is a session with the output `O`. -/
structure Shows (s : Session) (O : Output) : Prop where
  out : s.out = O.out.readable
  pending : s.pending = O.pending.readable
  writing : s.writing = if O.writing then some O.out.size else none
  closed : s.closed = O.closed
  written : s.written = O.delivered

variable {s : Session}

theorem Shows.append (h : Shows s O) (data : Bytes) : Shows (s.append data) (O.append data) := by
  refine ⟨h.out, ?_, h.writing, h.closed, h.written⟩
  show s.pending ++ data = (O.pending.append data).readable
  rw [Buffer.readable_append, h.pending]

theorem Shows.overCap (h : Shows s O) : Net.overCap cfg s = O.overCap cfg := by
  rw [Net.overCap, Output.overCap, Session.load, h.out, h.pending, Buffer.length_readable,
    Buffer.length_readable]

theorem Shows.flush (h : Shows s O) : Shows s.flush O.flush := by
  obtain ⟨hout, hpending⟩ := readable_gather O
  obtain ⟨hwriting, hflights, hdelivered, hclosed⟩ := gather_frame O
  unfold Session.flush Output.flush
  rw [h.writing]
  by_cases hw : O.writing = true
  · rw [if_pos hw, if_pos hw]
    exact h
  · have hgathered : s.out ++ s.pending = O.gather.out.readable := by rw [hout, h.out, h.pending]
    have hempty : s.out ++ s.pending = [] ↔ O.gather.out.size = 0 := by
      rw [hgathered, ← Buffer.length_readable, List.length_eq_zero_iff]
    rw [if_neg hw, if_neg hw, if_neg (by simp)]
    dsimp only
    by_cases he : O.gather.out.size = 0
    · rw [if_pos he, if_pos (hempty.mpr he)]
      refine ⟨hgathered, hpending.symm, ?_, h.closed.trans hclosed.symm, h.written.trans hdelivered.symm⟩
      rw [hwriting, if_neg hw]
    · rw [if_neg he, if_neg (mt hempty.mp he)]
      refine ⟨hgathered, hpending.symm, ?_, h.closed.trans hclosed.symm, h.written.trans hdelivered.symm⟩
      show some (s.out ++ s.pending).length = some O.gather.out.size
      rw [hgathered, Buffer.length_readable]

/-- The handler of a write that succeeds. -/
theorem Shows.onWritten (h : Shows s O) (ho : InOrder log O) : Shows s.onWritten O.onWritten := by
  unfold Session.onWritten Output.onWritten
  rw [h.writing, ho.flights]
  cases hw : O.writing with
  | false => exact h
  | true =>
    refine Shows.flush ⟨?_, h.pending, rfl, h.closed, ?_⟩
    · show s.out.drop O.out.size = (O.out.consume O.out.size).readable
      rw [Buffer.readable_consume, h.out]
    · show s.written ++ s.out.take O.out.size = O.delivered ++ Flight.read O.out ⟨O.out, O.out.size⟩
      rw [read_self, h.written, h.out, ← Buffer.length_readable, List.take_length]

theorem Shows.doClose {N : Net} {link : ClientLink} (h : Shows (N.sessions link) O) :
    Shows ((N.doClose link).sessions link) O.doClose := by
  unfold Net.doClose
  split
  · rename_i hc
    exact ⟨h.out, h.pending, h.writing, hc, h.written⟩
  · show Shows ((N.put link _).sessions link) O.doClose
    rw [Net.sessions_put, if_pos rfl]
    exact ⟨h.out, h.pending, h.writing, rfl, h.written⟩

theorem shows_put {N : Net} {link : ClientLink} (h : Shows s O) :
    Shows ((N.put link s).sessions link) O := by
  rw [Net.sessions_put, if_pos rfl]
  exact h

/-- A push to a session of `Net` is a push here. -/
theorem Shows.send {N : Net} {link : ClientLink} (h : Shows (N.sessions link) O) (data : Bytes) :
    Shows ((N.send cfg link data).sessions link) (O.send cfg data) := by
  unfold Net.send Output.send
  rw [show N.closed link = O.closed from h.closed]
  split
  · exact h
  · dsimp only
    rw [(h.append data).overCap]
    split
    · exact Shows.doClose (shows_put (h.append data))
    · exact shows_put (h.append data).flush

/-- The end of a read callback there is the one here. -/
theorem Shows.readEnd {N : Net} {link : ClientLink} (h : Shows (N.sessions link) O) (input : Buffer) :
    Shows ((Asio.readEnd cfg link input N).sessions link) (O.readEnd cfg) := by
  have hs : Shows { N.sessions link with input } O := ⟨h.out, h.pending, h.writing, h.closed, h.written⟩
  unfold Asio.readEnd Output.readEnd
  dsimp only
  rw [hs.overCap]
  split
  · exact Shows.doClose (shows_put hs)
  · exact shows_put hs.flush

end Output

end RP
