import RedisPlus.Aof.Basic
import RedisPlus.Rdb.Format

/-!
# Persistence

`Persistence` restores the keyspace at boot, counts and logs writes, and saves snapshots on a
schedule. Saving a snapshot in the background is a thread of its own: `backgroundSave` starts
it and `saverDone` is its end, which `cron` notices later.

What the system answers is an argument of each operation, and so is what the snapshot file
holds.
-/

namespace RP

/-- The options of `PersistenceConfig` that are read here. -/
structure PersistenceConfig where
  dir : Bytes := str "."
  aofFilename : Bytes := str "appendonly.aof"
  rdbEnabled : Bool := true
  aofEnabled : Bool := false
  fsyncPolicy : FsyncPolicy := .everySec
  saveSeconds : Int32 := 300
  saveChanges : Int64 := 100
  aofRewriteThreshold : Nat := 1000000

/-- `aof_path()` -/
def PersistenceConfig.aofPath (c : PersistenceConfig) : Bytes := c.dir ++ str "/" ++ c.aofFilename

/-- The state of `Persistence`. The counters are `uint64_t` in the source: they are taken to count
fewer than `2 ^ 64` events. -/
structure Persistence where
  config : PersistenceConfig := {}
  aof : Aof := {}
  dirty : Nat := 0
  lastSaveMs : Int64 := 0
  lastSaveAttemptMs : Int64 := 0
  savesOk : Nat := 0
  savesFailed : Nat := 0
  lastError : Bytes := []
  saving : Bool := false
  backgroundFailed : Bool := false
  /-- The records of a saver thread that has not been joined. -/
  saver : Option (List Record) := none

namespace Persistence

/-! ## Loading -/

/-- `rdb_load_file`: a missing or an empty file is a fresh server. -/
def rdbLoadFile (rounds : Nat) : Option Bytes → Option RdbResult
  | none => some ⟨.ok (), []⟩
  | some payload => if payload = [] then some ⟨.ok (), []⟩ else rdbParse rounds payload

/-- What `load` returns, the commands it applied, and what it leaves. -/
structure Loaded (π ρ : Type) where
  result : Except Bytes Unit
  applied : List Args := []
  pers : Persistence
  node : Node π ρ

/-- What `load` says after a torn tail. -/
def tornMessage (truncated : Nat) : Bytes :=
  str "recovered from a torn AOF tail (" ++ natToString truncated ++ str " bytes discarded)"

section

variable {π ρ : Type} (table : CommandTable π ρ) (amb : Ambient)

/-- The AOF's branch of `load`: replay, then open for appending. -/
def loadAof (room : Nat) (opens : Bool) (p : Persistence) (N : Node π ρ) : Loaded π ρ :=
  let replayed := Aof.replay p.aof.data
  let N := replayed.applied.foldl (fun N args => applySilently table amb args N) N
  match replayed.result with
  | .error e => ⟨.error e, replayed.applied, p, N⟩
  | .ok truncated =>
    let p := if 0 < truncated then { p with lastError := tornMessage truncated } else p
    let (result, aof) := p.aof.open room opens p.config.aofPath p.config.fsyncPolicy
    ⟨result, replayed.applied, { p with aof }, N⟩

/-- `Persistence::load`, none if the snapshot is not read in `rounds` rounds. -/
def load (rounds room : Nat) (opens : Bool) (rdbFile : Option Bytes) (p : Persistence) (N : Node π ρ) :
    Option (Loaded π ρ) :=
  if p.config.aofEnabled then some (loadAof table amb room opens p N)
  else if ¬ p.config.rdbEnabled then some { result := .ok (), pers := p, node := N }
  else (rdbLoadFile rounds rdbFile).map fun r =>
    match r.result with
    | .error e => { result := .error e, pers := p, node := N }
    | .ok _ =>
      { result := .ok (), pers := p
        node := { N with store := r.out.foldl (fun S rec => S.loadRecord amb.now rec) N.store } }

end

/-! ## Writing -/

/-- `Persistence::on_write` -/
def onWrite (args : Args) (p : Persistence) : Persistence :=
  { p with dirty := p.dirty + 1, aof := if p.config.aofEnabled then p.aof.append args else p.aof }

theorem aof_onWrite {p : Persistence} (haof : p.config.aofEnabled = true) (hopen : p.aof.isOpen = true)
    {args : Args} (hargs : args ≠ []) : (p.onWrite args).aof = { p.aof with
      buffer := p.aof.buffer ++ encode args, commandsWritten := p.aof.commandsWritten + 1 } :=
  (if_pos haof).trans (Aof.append_of_open hopen hargs)

/-- The error of a save without snapshots. -/
def rdbDisabled : Bytes := str "RDB snapshots are disabled"

/-- `written` is what writing the snapshot returns. -/
def save (now : Int64) (written : Except Bytes Unit) (p : Persistence) : Except Bytes Unit × Persistence :=
  if ¬ p.config.rdbEnabled then (.error rdbDisabled, p)
  else
    let p := { p with lastSaveAttemptMs := now }
    match written with
    | .error e => (.error e, { p with savesFailed := p.savesFailed + 1, lastError := e })
    | .ok _ => (.ok (), { p with savesOk := p.savesOk + 1, dirty := 0, lastSaveMs := now })

/-- `Persistence::background_save`: the records are copied for the saver thread, which is started. -/
def backgroundSave (now : Int64) (records : List Record) (p : Persistence) :
    Except Bytes Unit × Persistence :=
  if ¬ p.config.rdbEnabled then (.error rdbDisabled, p)
  else if p.saving then (.error (str "Background save already in progress"), p)
  else
    (.ok (), { p with
      saving := true, backgroundFailed := false, dirty := 0, lastSaveAttemptMs := now
      saver := some records })

/-- The saver thread's last steps. -/
def saverDone (written : Except Bytes Unit) (p : Persistence) : Persistence :=
  { p with
    backgroundFailed := match written with
      | .error _ => true
      | .ok _ => p.backgroundFailed
    saving := false }

/-- `Persistence::rewrite_aof` -/
def rewriteAof (room : Nat) (io : Aof.RewriteIo) (records : List Record) (p : Persistence) :
    Except Bytes Unit × Persistence :=
  if ¬ p.config.aofEnabled then (.error (str "AOF is disabled"), p)
  else
    let (result, aof) := p.aof.rewrite room io p.config.aofPath records
    (result, { p with aof })

/-! ## The cron -/

/-- An error is kept as the last message. -/
def keepError (r : Except Bytes Unit × Persistence) : Persistence :=
  match r.1 with
  | .error e => { r.2 with lastError := e }
  | .ok _ => r.2

/-- Flush the AOF, and rewrite it once it is long. -/
def cronAof (now : Int64) (room : Nat) (io : Aof.RewriteIo) (records : List Record) (p : Persistence) :
    Persistence :=
  if p.config.aofEnabled then
    let (result, aof) := p.aof.flush room now
    let p := keepError (result, { p with aof })
    if 0 < p.config.aofRewriteThreshold ∧ p.config.aofRewriteThreshold < p.aof.commandsWritten then
      keepError (p.rewriteAof room io records)
    else p
  else p

/-- What is done to the log concerns nothing else but the last message. -/
theorem cronAof_frame (now : Int64) (room : Nat) (io : Aof.RewriteIo) (records : List Record)
    (p : Persistence) : ∃ aof lastError, p.cronAof now room io records = { p with aof, lastError } := by
  have hkeep (p : Persistence) (result : Except Bytes Unit) (aof : Aof) :
      ∃ lastError, keepError (result, { p with aof }) = { p with aof, lastError } := by
    cases result with
    | error e => exact ⟨e, rfl⟩
    | ok _ => exact ⟨p.lastError, rfl⟩
  unfold cronAof
  split
  · dsimp only
    obtain ⟨e, he⟩ := hkeep p (p.aof.flush room now).1 (p.aof.flush room now).2
    rw [he]
    split
    · rename_i haof _
      rw [rewriteAof, if_neg (not_not.mpr haof)]
      obtain ⟨e', he'⟩ := hkeep { p with aof := (p.aof.flush room now).2, lastError := e }
        ((p.aof.flush room now).2.rewrite room io p.config.aofPath records).1
        ((p.aof.flush room now).2.rewrite room io p.config.aofPath records).2
      exact ⟨_, e', he'⟩
    · exact ⟨_, e, rfl⟩
  · exact ⟨p.aof, p.lastError, rfl⟩

/-- Join a saver thread that has ended. -/
def cronReap (now : Int64) (p : Persistence) : Persistence :=
  if ¬ p.saving ∧ p.saver.isSome then
    if p.backgroundFailed then
      { p with saver := none, savesFailed := p.savesFailed + 1, lastError := str "background save failed" }
    else { p with saver := none, savesOk := p.savesOk + 1, lastSaveMs := now }
  else p

/-- Start a scheduled snapshot. -/
def cronSave (now : Int64) (records : List Record) (p : Persistence) : Persistence :=
  if p.config.rdbEnabled ∧ 0 < p.config.saveSeconds ∧ 0 < p.config.saveChanges ∧ ¬ p.saving ∧
      p.config.saveChanges.toUInt64.toNat ≤ p.dirty ∧
      p.config.saveSeconds.toInt64 * 1000 ≤ now - p.lastSaveMs then
    (p.backgroundSave now records).2
  else p

/-- `Persistence::cron` -/
def cron (now : Int64) (room : Nat) (io : Aof.RewriteIo) (records : List Record) (p : Persistence) :
    Persistence :=
  cronSave now records (cronReap now (cronAof now room io records p))

/-- A flag in INFO. -/
def flag (b : Bool) : Bytes := if b then str "1" else str "0"

/-- `Persistence::info_section` -/
def infoSection (p : Persistence) : Bytes :=
  infoField "loading:0" []
    ++ infoField "rdb_enabled:" (flag p.config.rdbEnabled)
    ++ infoField "rdb_changes_since_last_save:" (natToString p.dirty)
    ++ infoField "rdb_bgsave_in_progress:" (flag p.saving)
    ++ infoField "rdb_last_save_time:" (intToString (p.lastSaveMs / 1000).toInt)
    ++ infoField "rdb_saves_ok:" (natToString p.savesOk)
    ++ infoField "rdb_saves_failed:" (natToString p.savesFailed)
    ++ infoField "aof_enabled:" (flag p.config.aofEnabled)
    ++ infoField "aof_fsync_policy:" (fsyncPolicyName p.config.fsyncPolicy)
    ++ infoField "aof_commands_written:" (natToString p.aof.commandsWritten)
    ++ infoField "aof_bytes_written:" (natToString p.aof.bytesWritten)
    ++ infoField "aof_fsyncs:" (natToString p.aof.fsyncs)
    ++ if p.lastError ≠ [] then infoField "last_persistence_message:" p.lastError else []

/-- What a dispatch at `now` sees of persistence: `written` is what writing a snapshot returns,
and `room` and `io` are how the system answers a rewrite. -/
def ops (now : Int64) (written : Except Bytes Unit) (room : Nat) (io : Aof.RewriteIo) :
    PersistenceOps Persistence where
  save _ p := p.save now written
  backgroundSave S p := p.backgroundSave now (S.snapshot now)
  rewriteAof S p := p.rewriteAof room io (S.snapshot now)
  infoSection := infoSection

end Persistence

end RP
