import RedisPlus.Command.Dispatch
import RedisPlus.Handler.Basic

/-!
# The append-only file

`Aof` holds the log's file with its buffers: commands are appended to `buffer`, `flush` hands
it to the C library with `fwrite`, and `fflush` or `fsync` pass it on to the system. `data`
is the file's contents as the system has them, which is what a reader sees and what is left
when the process dies, and `durable` what `fsync` has made of them.

What the system answers is an argument: `room` is how many bytes an `fwrite` takes.
-/

namespace RP

open Framework (Drains Rest)

/-- When the log is made durable. -/
inductive FsyncPolicy where
  | always | everySec | no
deriving DecidableEq

/-- `fsync_policy_name` -/
def fsyncPolicyName : FsyncPolicy → Bytes
  | .always => str "always"
  | .everySec => str "everysec"
  | .no => str "no"

/-- The log's file, and what `Aof` has in memory. The counters are `uint64_t` in the source: they are taken
to count fewer than `2 ^ 64` commands, calls and bytes. -/
structure Aof where
  data : Option Bytes := none
  durable : Bytes := []
  /-- `file_ != nullptr` -/
  isOpen : Bool := false
  /-- The C library's buffer of `file_`. -/
  stdio : Bytes := []
  path : Bytes := []
  policy : FsyncPolicy := .everySec
  buffer : Bytes := []
  lastFsyncMs : Int64 := 0
  commandsWritten : Nat := 0
  fsyncs : Nat := 0
  bytesWritten : Nat := 0

namespace Aof

/-- The C library's buffer is passed on to the system. -/
def fflush (a : Aof) : Aof := { a with data := a.data.map (· ++ a.stdio), stdio := [] }

/-- `fsync_handle` -/
def fsync (a : Aof) : Aof := { a.fflush with durable := a.fflush.data.getD [] }

/-- `Aof::close`: what is buffered is written and synced; what does not fit `room` is lost. -/
def close (room : Nat) (a : Aof) : Aof :=
  if a.isOpen then
    { { a with stdio := a.stdio ++ a.buffer.take room, buffer := [] }.fsync with isOpen := false }
  else a

theorem isOpen_close (room : Nat) (a : Aof) : (a.close room).isOpen = false := by
  unfold Aof.close
  split
  · rfl
  · rename_i h
    exact Bool.eq_false_iff.mpr h

/-- `opens` is whether `fopen` succeeds; it creates the file if there is none. -/
def «open» (room : Nat) (opens : Bool) (path : Bytes) (policy : FsyncPolicy) (a : Aof) :
    Except Bytes Unit × Aof :=
  let a := a.close room
  if opens then
    (.ok (), { a with data := some (a.data.getD []), isOpen := true, stdio := [], path, policy, buffer := [] })
  else (.error (str "cannot open AOF " ++ path ++ str " for appending"), a)

/-- `Aof::append`: a command goes to the buffer, if the file is open. -/
def append (args : Args) (a : Aof) : Aof :=
  if ¬ a.isOpen ∨ args = [] then a
  else { a with buffer := a.buffer ++ encode args, commandsWritten := a.commandsWritten + 1 }

/-- The fsync that the policy asks for. -/
def sync (now : Int64) (a : Aof) : Aof :=
  match a.policy with
  | .always => { a.fsync with fsyncs := a.fsyncs + 1, lastFsyncMs := now }
  | .everySec =>
    if 1000 ≤ now - a.lastFsyncMs then { a.fsync with fsyncs := a.fsyncs + 1, lastFsyncMs := now } else a
  | .no => a.fflush

/-- `Aof::flush`: after a short `fwrite` the whole buffer is kept, and nothing is synced. -/
def flush (room : Nat) (now : Int64) (a : Aof) : Except Bytes Unit × Aof :=
  if ¬ a.isOpen then (.ok (), a)
  else
    let written := min room a.buffer.length
    let a := { a with stdio := a.stdio ++ a.buffer.take room }
    if written ≠ a.buffer.length then (.error (str "short write to AOF " ++ a.path), a)
    else (.ok (), { a with bytesWritten := a.bytesWritten + written, buffer := [] }.sync now)

/-- Which steps of a rewrite succeed. -/
structure RewriteIo where
  opens : Bool := true
  writes : Bool := true
  removes : Bool := true
  renames : Bool := true
  reopens : Bool := true

/-- The contents of a rewritten file. -/
def rewritten (records : List Record) : Bytes :=
  records.flatMap fun r => encode (setCanonical r.key r.value r.expireAt)

/-- `Aof::rewrite`: the records are written to a new file, which replaces the log while that is closed.
-/
def rewrite (room : Nat) (io : RewriteIo) (path : Bytes) (records : List Record) (a : Aof) :
    Except Bytes Unit × Aof :=
  if ¬ io.opens then (.error (str "cannot open " ++ path ++ str ".rewrite"), a)
  else if ¬ io.writes then (.error (str "write failed during AOF rewrite"), a)
  else
    let wasOpen := a.isOpen
    let a := a.close room
    if ¬ io.renames then
      let a := if io.removes then { a with data := none, durable := [] } else a
      (.error (str "rename failed during AOF rewrite"),
        if wasOpen then (a.open room io.reopens path a.policy).2 else a)
    else
      let a := { a with data := some (rewritten records), durable := [], commandsWritten := records.length }
      if wasOpen then a.open room io.reopens path a.policy else (.ok (), a)

/-! ## What the log holds -/

/-- The log with all that is still on its way to it. -/
def contents (a : Aof) : Bytes := a.data.getD [] ++ a.stdio ++ a.buffer

theorem append_of_open {a : Aof} (h : a.isOpen = true) {args : Args} (hargs : args ≠ []) :
    a.append args = { a with
      buffer := a.buffer ++ encode args, commandsWritten := a.commandsWritten + 1 } :=
  if_neg (by simp [h, hargs])

theorem contents_append {a : Aof} (h : a.isOpen = true) {args : Args} (hargs : args ≠ []) :
    (a.append args).contents = a.contents ++ encode args := by
  simp [append_of_open h hargs, contents]

theorem contents_fflush {a : Aof} (h : a.data.isSome = true) : a.fflush.contents = a.contents := by
  obtain ⟨d, hd⟩ := Option.isSome_iff_exists.mp h
  simp [fflush, contents, hd]

theorem contents_sync {a : Aof} (h : a.data.isSome = true) (now : Int64) :
    (a.sync now).contents = a.contents ∧ (a.sync now).data.isSome = true ∧
      (a.sync now).isOpen = a.isOpen := by
  have hf : a.fflush.contents = a.contents ∧ a.fflush.data.isSome = true ∧ a.fflush.isOpen = a.isOpen :=
    ⟨contents_fflush h, by simp [fflush, h], rfl⟩
  unfold sync
  split
  · exact hf
  · split
    · exact hf
    · exact ⟨rfl, h, rfl⟩
  · exact hf

/-- The policy asks for an fsync at `now`. -/
def Due (now : Int64) (a : Aof) : Prop :=
  a.policy = .always ∨ a.policy = .everySec ∧ 1000 ≤ now - a.lastFsyncMs

theorem sync_of_due {a : Aof} {now : Int64} (h : a.Due now) :
    a.sync now = { a.fsync with fsyncs := a.fsyncs + 1, lastFsyncMs := now } := by
  rcases h with hp | ⟨hp, hdue⟩
  · rw [sync, hp]
  · rw [sync, hp]
    exact if_pos hdue

/-- After an `fwrite` that has taken the whole buffer. -/
def written (a : Aof) : Aof :=
  { a with stdio := a.stdio ++ a.buffer, bytesWritten := a.bytesWritten + a.buffer.length, buffer := [] }

theorem flush_of_le {a : Aof} (hopen : a.isOpen = true) {room : Nat} (h : a.buffer.length ≤ room)
    (now : Int64) : a.flush room now = (.ok (), a.written.sync now) := by
  rw [flush, if_neg (by simp [hopen]), List.take_of_length_le h, Nat.min_eq_right h]
  exact if_neg fun hne => hne rfl

/-- A flush whose write succeeds loses nothing. -/
theorem contents_flush {a : Aof} (hopen : a.isOpen = true) (h : a.data.isSome = true) {room : Nat}
    (hroom : a.buffer.length ≤ room) (now : Int64) :
    (a.flush room now).2.contents = a.contents ∧ (a.flush room now).2.data.isSome = true ∧
      (a.flush room now).2.isOpen = true := by
  have hs := @contents_sync a.written h now
  rw [flush_of_le hopen hroom]
  refine ⟨hs.1.trans ?_, hs.2.1, hs.2.2.trans hopen⟩
  simp [contents, written]

/-- What the file is once it is closed. -/
theorem data_close_take {a : Aof} (hopen : a.isOpen = true) (h : a.data.isSome = true) (room : Nat) :
    (a.close room).data = some (a.data.getD [] ++ a.stdio ++ a.buffer.take room) := by
  obtain ⟨d, hd⟩ := Option.isSome_iff_exists.mp h
  simp [close, hopen, fsync, fflush, hd]

/-- Closing it leaves all of it there, if there is room. -/
theorem data_close {a : Aof} (hopen : a.isOpen = true) (h : a.data.isSome = true) {room : Nat}
    (hroom : a.buffer.length ≤ room) : (a.close room).data = some a.contents := by
  rw [data_close_take hopen h, List.take_of_length_le hroom]
  rfl

theorem commandsWritten_sync (now : Int64) (a : Aof) :
    (a.sync now).commandsWritten = a.commandsWritten := by
  unfold sync
  split
  · rfl
  · split
    · rfl
    · rfl
  · rfl

theorem commandsWritten_flush (room : Nat) (now : Int64) (a : Aof) :
    (a.flush room now).2.commandsWritten = a.commandsWritten := by
  unfold flush
  split
  · rfl
  dsimp only
  split
  · rfl
  · exact commandsWritten_sync now _

/-! ## Replay -/

/-- What a replay applies, in order, and what it returns: the number of bytes of a torn tail,
or its error. -/
structure Replayed where
  applied : List Args
  result : Except Bytes Nat

/-- What `replay` says of a log that it cannot parse. -/
def corruptMessage (offset : Nat) (e : Bytes) : Bytes :=
  str "corrupt AOF at offset " ++ natToString offset ++ str ": " ++ e

/-- The loop of `Aof::replay` over what remains of `size` bytes; a round takes at least one. -/
def replayLoop (size : Nat) : Nat → Bytes → Replayed
  | 0, _ => ⟨[], .ok 0⟩
  | fuel + 1, remaining =>
    if remaining = [] then ⟨[], .ok 0⟩
    else match parseRequest remaining with
      | .incomplete => ⟨[], .ok remaining.length⟩
      | .error e => ⟨[], .error (corruptMessage (size - remaining.length) e)⟩
      | .ok args n =>
        let r := replayLoop size fuel (remaining.drop n)
        if args = [] then r else { r with applied := args :: r.applied }

/-- `Aof::replay`: a missing file is an empty log. -/
def replay : Option Bytes → Replayed
  | none => ⟨[], .ok 0⟩
  | some data => replayLoop data.length (data.length + 1) data

/-- How a replay ends. -/
def replayEnd (size : Nat) : Rest UInt8 Bytes → Except Bytes Nat
  | .left l => .ok l.length
  | .broken e l => .error (corruptMessage (size - l.length) e)

theorem replayLoop_drains {size : Nat} {s : Bytes} {rs : List Args} {x : Rest UInt8 Bytes}
    (h : Drains requestParser s rs x) {fuel : Nat} (hf : s.length < fuel) :
    replayLoop size fuel s = ⟨dispatched rs, replayEnd size x⟩ := by
  refine Drains.fuel_induction (motive := fun fuel s rs x =>
    replayLoop size fuel s = ⟨dispatched rs, replayEnd size x⟩) ?_ ?_ ?_ h hf
  · intro fuel s h
    rw [requestParser_parse] at h
    by_cases hs : s = []
    · subst hs; rfl
    · simp only [replayLoop, if_neg hs, h]; rfl
  · intro fuel s e h
    rw [requestParser_parse] at h
    have hs : s ≠ [] := by rintro rfl; simp [parseRequest] at h
    simp only [replayLoop, if_neg hs, h]; rfl
  · intro fuel s args n rs x h ih
    obtain ⟨hn, hle⟩ := requestParser.consumes h
    have hs : s ≠ [] := by rintro rfl; simp at hle; omega
    rw [requestParser_parse] at h
    simp only [replayLoop, if_neg hs, h, ih, dispatched_cons]
    split <;> rfl

/-- A replay applies what the file drains to. -/
theorem replay_drains {s : Bytes} {rs : List Args} {x : Rest UInt8 Bytes}
    (h : Drains requestParser s rs x) :
    replay (some s) = ⟨dispatched rs, replayEnd s.length x⟩ := replayLoop_drains h (Nat.lt_succ_self _)

end Aof

end RP
