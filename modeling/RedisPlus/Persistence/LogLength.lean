import RedisPlus.Aof.Unfinished
import RedisPlus.Persistence.Rewrite
import RedisPlus.Persistence.Settling

/-!
# The counter of the log's commands

`commands_written_` is to be the number of commands in the log, and the cron's threshold relies on it.
`append` counts one and `rewrite` sets it to the number of records, but a boot opens the log as it finds it
and leaves the counter at zero. So commands that are there already are never counted, and the log may get
longer by as many with every boot (`boot_forgets_log`). Nor is a torn tail taken off, which then spoils the
commands behind it.

`log_counted_iff` says for a boot with any log that the counter is right in every state of every run, where
all writes succeed, exactly if there is neither a command in it nor a torn tail.
-/

namespace RP

open Framework (Along Drains Rest run)

namespace Aof

/-- A rewrite that succeeds on an open log leaves it open, with nothing on its way to it. -/
theorem contents_rewrite {a : Aof} (hopen : a.isOpen = true) {room : Nat} {io : RewriteIo} {path : Bytes}
    {records : List Record} (hok : (a.rewrite room io path records).1 = .ok ()) :
    (a.rewrite room io path records).2.contents = rewritten records ∧
      (a.rewrite room io path records).2.data.isSome = true ∧
      (a.rewrite room io path records).2.isOpen = true := by
  unfold rewrite at hok ⊢
  split at hok
  · cases hok
  rename_i hopens
  split at hok
  · cases hok
  rename_i hwrites
  dsimp only at hok
  split at hok
  · cases hok
  rename_i hrenames
  rw [if_neg hopens, if_neg hwrites]
  dsimp only
  rw [if_neg hrenames, if_pos hopen]
  have hclosed : Aof.close room { a.close room with
      data := some (rewritten records), durable := [], commandsWritten := records.length } =
      { a.close room with
        data := some (rewritten records), durable := [], commandsWritten := records.length } :=
    if_neg (by simp [isOpen_close])
  unfold Aof.open at hok ⊢
  rw [hclosed] at hok ⊢
  dsimp only at hok ⊢
  split at hok
  · rename_i hreopens
    rw [if_pos hreopens]
    exact ⟨by simp [contents], rfl, rfl⟩
  · cases hok

end Aof

/-- The command of a record is one that a log holds. -/
def Record.Loggable (r : Record) : Prop := RP.Loggable (setCanonical r.key r.value r.expireAt)

namespace Persistence

/-- What happens to the log. -/
inductive LogEvent where
  | onWrite (args : Args)
  | cron (now : Int64) (room : Nat) (io : Aof.RewriteIo) (records : List Record)
  | rewriteAof (room : Nat) (io : Aof.RewriteIo) (records : List Record)

namespace LogEvent

/-- An event. -/
def step : LogEvent → Persistence → Persistence
  | .onWrite args, p => p.onWrite args
  | .cron now room io records, p => p.cron now room io records
  | .rewriteAof room io records, p => (p.rewriteAof room io records).2

/-- All writes succeed, and what is written is within the limits of the parser. -/
def Succeeds : LogEvent → Persistence → Prop
  | .onWrite args, _ => Loggable args
  | .cron now room io records, p => p.aof.buffer.length ≤ room ∧ (∀ r ∈ records, r.Loggable) ∧
      (p.Rewrites → ((p.flushAof now room).rewriteAof room io records).1 = .ok ())
  | .rewriteAof room io records, p =>
      (∀ r ∈ records, r.Loggable) ∧ (p.rewriteAof room io records).1 = .ok ()

end LogEvent

/-- The counter is the number of complete commands in the log with what is still on its way to it; and a
cron rewrites the log exactly if they are more than the threshold. -/
structure Counted (p : Persistence) : Prop where
  counter : p.aof.commandsWritten = Aof.complete p.aof.contents
  rewrites : p.Rewrites ↔ 0 < p.config.aofRewriteThreshold ∧
    p.config.aofRewriteThreshold < Aof.complete p.aof.contents

/-! ## One step -/

/-- The log is open, it has no torn tail, and the counter is right. -/
structure Whole (p : Persistence) : Prop extends p.Holds p.aof.contents where
  drains : ∃ rs, Drains requestParser p.aof.contents rs (.left [])
  counter : p.aof.commandsWritten = Aof.complete p.aof.contents

theorem Whole.counted {p : Persistence} (h : Whole p) : Counted p := by
  refine ⟨h.counter, ?_⟩
  rw [Rewrites, and_iff_right h.enabled, h.counter]

theorem Whole.of_sameAof {p q : Persistence} (h : Whole p) (hs : SameAof p q) : Whole q := by
  have hholds := h.toHolds.of_sameAof hs
  refine ⟨by rw [hs.aof]; exact hholds, ?_, ?_⟩ <;> rw [hs.aof]
  · exact h.drains
  · exact h.counter

theorem Whole.onWrite {p : Persistence} (h : Whole p) {args : Args} (hargs : Loggable args) :
    Whole (p.onWrite args) := by
  obtain ⟨rs, hdrains⟩ := h.drains
  have hone : Drains requestParser (encode args) [args] (.left []) := by
    rw [← encs_singleton]
    exact commandCode.drains_all (List.forall_mem_singleton.mpr hargs.toWithin)
  have hholds := h.toHolds.onWrite hargs.ne_nil
  have hcount : Aof.complete (encode args) = 1 := by
    rw [← encs_singleton]
    exact Aof.complete_encs (List.forall_mem_singleton.mpr hargs)
  have haof := aof_onWrite h.enabled h.isOpen hargs.ne_nil
  refine ⟨by rw [hholds.contents]; exact hholds, ⟨rs ++ [args], ?_⟩, ?_⟩
  · rw [hholds.contents]
    exact hdrains.append parseRequest_append hone
  · rw [hholds.contents, Aof.complete_append_left hdrains, List.nil_append, hcount, haof, ← h.counter]

theorem Whole.flushAof {p : Persistence} (h : Whole p) {room : Nat} (hroom : p.aof.buffer.length ≤ room)
    (now : Int64) : Whole (p.flushAof now room) := by
  have hholds := h.toHolds.flushAof hroom now
  refine ⟨by rw [hholds.contents]; exact hholds, ?_, ?_⟩
  · rw [hholds.contents]
    exact h.drains
  · rw [commandsWritten_flushAof, hholds.contents]
    exact h.counter

theorem Whole.rewriteAof {p : Persistence} (h : Whole p) {room : Nat} {io : Aof.RewriteIo}
    {records : List Record} (hrecords : ∀ r ∈ records, r.Loggable)
    (hok : (p.rewriteAof room io records).1 = .ok ()) : Whole (p.rewriteAof room io records).2 := by
  rw [aof_rewriteAof h.enabled] at hok ⊢
  obtain ⟨hcontents, hdata, hopen⟩ := Aof.contents_rewrite h.isOpen hok
  have hsets : ∀ args ∈ records.map fun r => setCanonical r.key r.value r.expireAt, Loggable args :=
    List.forall_mem_map.mpr hrecords
  refine ⟨⟨h.enabled, hopen, hdata, rfl⟩, ⟨records.map fun r => setCanonical r.key r.value r.expireAt, ?_⟩, ?_⟩
  · show Drains requestParser (p.aof.rewrite room io p.config.aofPath records).2.contents _ _
    rw [hcontents, Aof.rewritten_eq_encs]
    exact commandCode.drains_all fun args hargs => (hsets args hargs).toWithin
  · show (p.aof.rewrite room io p.config.aofPath records).2.commandsWritten =
      Aof.complete (p.aof.rewrite room io p.config.aofPath records).2.contents
    rw [hcontents, Aof.rewritten_eq_encs, Aof.complete_encs hsets, List.length_map]
    exact (Aof.commandsWritten_rewrite ..).2 hok

theorem Whole.step {p : Persistence} (h : Whole p) {e : LogEvent} (he : e.Succeeds p) :
    Whole (e.step p) := by
  cases e with
  | onWrite args => exact h.onWrite he
  | rewriteAof room io records => exact h.rewriteAof he.1 he.2
  | cron now room io records =>
    obtain ⟨hroom, hrecords, hrewrite⟩ := he
    have hcron := p.sameAof_cron now room io records
    have hflush := h.flushAof hroom now
    rw [cronAof_eq h.enabled] at hcron
    split at hcron
    · rename_i hp
      exact (hflush.rewriteAof hrecords (hrewrite hp)).of_sameAof ((sameAof_keepError _).trans hcron)
    · exact hflush.of_sameAof hcron

/-! ## Whole runs -/

theorem replay_getD (file : Option Bytes) : Aof.replay file = Aof.replay (some (file.getD [])) := by
  cases file with
  | none => rfl
  | some data => rfl

/-- A log without commands or a torn tail drains to nothing. -/
theorem drains_of_replay {s : Bytes} (h : Aof.replay (some s) = ⟨[], .ok 0⟩) :
    ∃ rs, Drains requestParser s rs (.left []) := by
  obtain ⟨rs, x, hd⟩ := Drains.total requestParser s
  rw [Aof.replay_drains hd, Aof.Replayed.mk.injEq] at h
  cases x with
  | broken e l => cases h.2
  | left l =>
    obtain rfl : l = [] := List.length_eq_zero_iff.mp (Except.ok.inj h.2)
    exact ⟨rs, hd⟩

section

variable {π ρ : Type} (table : CommandTable π ρ) (amb : Ambient)

/-- What a boot that succeeds leaves: the log as it was, and a counter at zero. -/
theorem loadAof_ok {config : PersistenceConfig} {file : Option Bytes} {room : Nat} {opens : Bool}
    {N : Node π ρ} (hok : (loadAof table amb room opens (boot config file) N).result = .ok ()) :
    ∃ aof lastError, (loadAof table amb room opens (boot config file) N).pers =
        { config, aof, lastError } ∧ aof.isOpen = true ∧ aof.data = some (file.getD []) ∧
      aof.contents = file.getD [] ∧ aof.commandsWritten = 0 ∧
      ∃ rs l, Drains requestParser (file.getD []) rs (.left l) := by
  obtain ⟨rs, x, hd⟩ := Drains.total requestParser (file.getD [])
  have hreplay : Aof.replay (boot config file).aof.data =
      ⟨dispatched rs, Aof.replayEnd (file.getD []).length x⟩ := by
    rw [← Aof.replay_drains hd, ← replay_getD]
    rfl
  rw [loadAof, hreplay] at hok ⊢
  cases x with
  | broken e l => cases hok
  | left l =>
    cases opens with
    | false =>
      simp only [Aof.replayEnd, Aof.open] at hok
      cases hok
    | true =>
      simp only [Aof.replayEnd]
      split
      · exact ⟨_, _, rfl, rfl, rfl, by simp [boot, Aof.contents, Aof.open, Aof.close], rfl, rs, l, hd⟩
      · exact ⟨_, _, rfl, rfl, rfl, by simp [boot, Aof.contents, Aof.open, Aof.close], rfl, rs, l, hd⟩

open LogEvent in
/-- After a boot that succeeds, the counter is the number of commands in the log in every state that can be
reached, and the cron rewrites the log by it, exactly if the log had neither a command nor a torn tail. -/
theorem log_counted_iff {config : PersistenceConfig} (haof : config.aofEnabled = true)
    {file rdbFile : Option Bytes} {rounds room : Nat} {opens : Bool} {N : Node π ρ} {L : Loaded π ρ}
    (hload : (boot config file).load table amb rounds room opens rdbFile N = some L)
    (hok : L.result = .ok ()) :
    (∀ es, Along step Succeeds es L.pers → Counted (run step es L.pers)) ↔
      Aof.replay file = ⟨[], .ok 0⟩ := by
  have hL : loadAof table amb room opens (boot config file) N = L := by
    rw [load, if_pos (show (boot config file).config.aofEnabled = true from haof)] at hload
    exact Option.some.inj hload
  subst hL
  obtain ⟨aof, lastError, hpers, hopen, hdata, hcontents, hcounter, rs, l, hd⟩ := loadAof_ok table amb hok
  rw [hpers]
  generalize hp : ({ config, aof, lastError } : Persistence) = p
  obtain rfl : aof = p.aof := by rw [← hp]
  have henabled : p.config.aofEnabled = true := by rw [← hp]; exact haof
  rw [replay_getD]
  constructor
  · intro h
    have hnone : Aof.complete (file.getD []) = 0 := by
      have hboot : p.aof.commandsWritten = Aof.complete p.aof.contents := (h [] trivial).counter
      rw [← hcontents, ← hboot, hcounter]
    have hl : l = [] := by
      by_contra hl
      obtain ⟨args, hargs, hne⟩ := unfinished_miscounts hl hd.incomplete
      have hwrite : (p.onWrite args).aof.commandsWritten = Aof.complete (p.onWrite args).aof.contents :=
        (h [.onWrite args] ⟨hargs, trivial⟩).counter
      rw [aof_onWrite henabled hopen hargs.ne_nil, ← Aof.append_of_open hopen hargs.ne_nil,
        Aof.contents_append hopen hargs.ne_nil, hcontents, Aof.complete_append_left hd, hnone,
        Nat.zero_add] at hwrite
      refine hne (hwrite.symm.trans ?_)
      rw [Aof.append_of_open hopen hargs.ne_nil, hcounter]
    rw [Aof.complete_drains hd, List.length_eq_zero_iff] at hnone
    rw [Aof.replay_drains hd, hnone, hl]
    rfl
  · intro hreplay es hes
    have hwhole : Whole p := by
      refine ⟨⟨henabled, hopen, by rw [hdata]; rfl, rfl⟩, ?_, ?_⟩
      · rw [hcontents]
        exact drains_of_replay hreplay
      · rw [hcounter, hcontents, Aof.complete, hreplay]
        rfl
    exact (Along.invariant (fun e p h he => h.step he) hwhole hes).counted

end

/-- A boot without a log, then a write, and a cron. -/
theorem log_counted_new :
    let L := loadAof ({} : CommandTable Unit Unit) ⟨0, []⟩ 0 true (boot .rewriteConfig none) bareNode
    L.result = .ok () ∧
      Counted (run LogEvent.step [.onWrite [str "DEL", str "k"], .cron 0 100 {} []] L.pers) := by
  intro L
  have hok : L.result = .ok () := by decide
  have haof : PersistenceConfig.rewriteConfig.aofEnabled = true := rfl
  have hload : (boot .rewriteConfig none).load ({} : CommandTable Unit Unit) ⟨0, []⟩ 0 0 true none
      bareNode = some L := rfl
  refine ⟨hok, (log_counted_iff {} ⟨0, []⟩ haof hload hok).mpr rfl _ ⟨?_, ⟨?_, ?_, ?_⟩, trivial⟩⟩
  · exact { count := by decide, size := by decide, ne_nil := by decide }
  · decide
  · exact fun r hr => absurd hr List.not_mem_nil
  · exact fun h => absurd h (by decide)

/-- A boot with a log of two commands: the counter is zero, and the cron does not rewrite the log although
it has more commands than the threshold. -/
theorem boot_forgets_log :
    let L := loadAof ({} : CommandTable Unit Unit) ⟨0, []⟩ 0 true
      (boot .rewriteConfig (some (encs [[str "SET", str "k", str "v"], [str "DEL", str "k"]]))) bareNode
    L.result = .ok () ∧ L.pers.aof.commandsWritten = 0 ∧ Aof.complete L.pers.aof.contents = 2 ∧
      L.pers.config.aofRewriteThreshold = 1 ∧ ¬ L.pers.Rewrites ∧ ¬ Counted L.pers := by
  intro L
  have hcounter : L.pers.aof.commandsWritten = 0 := by decide
  have hcomplete : Aof.complete L.pers.aof.contents = 2 := by decide
  refine ⟨by decide, hcounter, hcomplete, by decide, by decide, fun h => ?_⟩
  have := h.counter
  omega

end Persistence

end RP
