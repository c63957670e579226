import RedisPlus.Framework.Machine
import RedisPlus.Persistence.Basic

/-!
# The count of unsaved writes

`dirty_` is to be the number of writes since the snapshot of the last save that succeeded, and the cron's
schedule relies on it. `save` resets it once the snapshot is written; `background_save` when it takes the
snapshot, before it is known whether it can be written.

In a `Ledger` the writes are counted apart from `dirty_`: how many there were, how many the last
successful save has, and how many the snapshot has that the last background save took. While a background
save is in flight, `dirty_` is the number of writes since the later one of these two snapshots
(`Counting`). So it is right at the end of the save exactly if that one is the last saved: after a success
the save's own, after a failure the one before (`dirty_exact_iff`). A failure otherwise leaves writes that
no save will be started for (`failed_save_forgotten`).
-/

namespace RP

open Framework (Along run)

/-- What happens to persistence. `cron` looks twice whether a save is in flight, once to join the thread
and once to start another, and the thread may end in between: these are two events. -/
inductive SaveEvent where
  | onWrite (args : Args)
  | save (now : Int64) (written : Except Bytes Unit)
  | backgroundSave (now : Int64) (records : List Record)
  | saverDone (written : Except Bytes Unit)
  | cronReap (now : Int64) (room : Nat) (io : Aof.RewriteIo) (records : List Record)
  | cronSave (now : Int64) (records : List Record)

/-- Persistence, with the writes so far, those that the last successful save has, and those of the snapshot
that the last background save took. -/
structure Ledger where
  pers : Persistence
  writes : Nat := 0
  saved : Nat := 0
  started : Nat := 0

namespace Ledger

/-- The writes that no successful save has. -/
def unsaved (L : Ledger) : Nat := L.writes - L.saved

/-- `p` is what a call that may start a background save leaves. -/
def start (p : Persistence) (L : Ledger) : Ledger :=
  { L with pers := p, started := if L.pers.saving = false ∧ p.saving = true then L.writes else L.started }

/-- An event, with the writes and what is saved of them noted. -/
def step : SaveEvent → Ledger → Ledger
  | .onWrite args, L => { L with pers := L.pers.onWrite args, writes := L.writes + 1 }
  | .save now written, L =>
    let (result, pers) := L.pers.save now written
    { L with pers, saved := if result.isOk then L.writes else L.saved }
  | .backgroundSave now records, L => L.start (L.pers.backgroundSave now records).2
  | .saverDone written, L =>
    if L.pers.saving then
      { L with pers := L.pers.saverDone written, saved := if written.isOk then L.started else L.saved }
    else L
  | .cronReap now room io records, L =>
    { L with pers := (L.pers.cronAof now room io records).cronReap now }
  | .cronSave now records, L => L.start (L.pers.cronSave now records)

/-- A save is due by the policy, given the writes that are not saved. -/
def Due (now : Int64) (L : Ledger) : Prop :=
  L.pers.config.rdbEnabled = true ∧ 0 < L.pers.config.saveSeconds ∧ 0 < L.pers.config.saveChanges ∧
    L.pers.config.saveChanges.toUInt64.toNat ≤ L.unsaved ∧
    L.pers.config.saveSeconds.toInt64 * 1000 ≤ now - L.pers.lastSaveMs

/-- Where no save is in flight, `dirty_` is the number of unsaved writes, and the cron starts a save as
soon as one is due. -/
def Accurate (L : Ledger) : Prop :=
  L.pers.saving = false → L.pers.dirty = L.unsaved ∧
    ∀ now records, (L.pers.cronSave now records).saving = true ↔ L.Due now

/-- When a background save ends: if it succeeded, no later snapshot was saved meanwhile; if it failed, one
at least as recent was, or there was nothing to save. -/
def Orderly : SaveEvent → Ledger → Prop
  | .saverDone (.ok _), L => L.pers.saving = true → L.saved ≤ L.started
  | .saverDone (.error _), L => L.pers.saving = true → L.started ≤ L.saved
  | _, _ => True

/-! ## One step -/

/-- While no save is under way, `dirty` is the number of unsaved writes. -/
def Exact (L : Ledger) : Prop := L.pers.saving = false → L.pers.dirty = L.unsaved

/-- How the counters fit together in every run. -/
structure Counting (L : Ledger) : Prop where
  saved : L.saved ≤ L.writes
  started : L.started ≤ L.writes
  inFlight : L.pers.saving = true → L.pers.dirty + max L.saved L.started = L.writes

/-- A step that keeps the counts, and after which `dirty_` is right if and only if `P`. -/
structure Turn (P : Prop) (L L' : Ledger) : Prop where
  counting : Counting L → Counting L'
  exact : Counting L → Exact L → (Exact L' ↔ P)

variable {L : Ledger} {p : Persistence}

theorem turn_same (hdirty : p.dirty = L.pers.dirty) (hsaving : p.saving = L.pers.saving) :
    Turn True L { L with pers := p } := by
  refine ⟨fun h => ⟨h.saved, h.started, ?_⟩, fun _ h => iff_of_true ?_ trivial⟩
  · intro hs
    exact hdirty ▸ h.inFlight (hsaving ▸ hs)
  · intro hs
    exact hdirty.trans (h (hsaving ▸ hs))

theorem turn_start (hdirty : p.dirty = 0) (hidle : L.pers.saving = false) (hsaving : p.saving = true) :
    Turn True L (L.start p) := by
  rw [start, if_pos ⟨hidle, hsaving⟩]
  refine ⟨fun h => ⟨h.saved, Nat.le_refl _, fun _ => ?_⟩, fun _ _ => iff_of_true ?_ trivial⟩
  · show p.dirty + max L.saved L.writes = L.writes
    rw [hdirty, Nat.max_eq_right h.saved, Nat.zero_add]
  · intro hs
    rw [hsaving] at hs
    cases hs

/-- A call that starts no save. -/
theorem start_same (hsaving : p.saving = L.pers.saving) : L.start p = { L with pers := p } := by
  rw [start, if_neg]
  rintro ⟨hidle, hs⟩
  rw [hsaving, hidle] at hs
  cases hs

theorem turn_backgroundSave (now : Int64) (records : List Record) :
    Turn True L (L.start (L.pers.backgroundSave now records).2) := by
  unfold Persistence.backgroundSave
  split
  · rw [start_same rfl]
    exact turn_same rfl rfl
  split
  · rw [start_same rfl]
    exact turn_same rfl rfl
  · rename_i hidle
    exact turn_start rfl (by simpa using hidle) rfl

theorem turn_onWrite (args : Args) : Turn True L (step (.onWrite args) L) := by
  refine ⟨fun h => ⟨Nat.le_succ_of_le h.saved, Nat.le_succ_of_le h.started, fun hs => ?_⟩,
    fun h he => iff_of_true (fun hs => ?_) trivial⟩
  · have := h.inFlight hs
    show L.pers.dirty + 1 + max L.saved L.started = L.writes + 1
    omega
  · have hdirty : L.pers.dirty = L.writes - L.saved := he hs
    have := h.saved
    show L.pers.dirty + 1 = L.writes + 1 - L.saved
    omega

theorem turn_save (now : Int64) (written : Except Bytes Unit) :
    Turn True L (step (.save now written) L) := by
  rw [step, Persistence.save]
  by_cases hrdb : L.pers.config.rdbEnabled = true
  case neg =>
    rw [if_pos hrdb]
    exact turn_same rfl rfl
  rw [if_neg (not_not.mpr hrdb)]
  cases written with
  | error e => exact turn_same rfl rfl
  | ok u =>
    refine ⟨fun h => ⟨Nat.le_refl _, h.started, fun _ => ?_⟩,
      fun _ _ => iff_of_true (fun _ => ?_) trivial⟩
    · show 0 + max L.writes L.started = L.writes
      rw [Nat.zero_add, Nat.max_eq_left h.started]
    · exact (Nat.sub_self L.writes).symm

/-- The end of a background save, after which the last successful save has `saved` writes. -/
theorem turn_end (hs : L.pers.saving = true) (hp : p.saving = false) (hdirty : p.dirty = L.pers.dirty)
    {saved : Nat} (hsaved : saved = L.saved ∨ saved = L.started) :
    Turn (max L.saved L.started = saved) L { L with pers := p, saved } := by
  refine ⟨fun h => ⟨?_, h.started, fun hs' => ?_⟩, fun h _ => ?_⟩
  · rcases hsaved with rfl | rfl
    · exact h.saved
    · exact h.started
  · rw [hp] at hs'
    cases hs'
  · have hcount := h.inFlight hs
    have hle : saved ≤ max L.saved L.started := by
      rcases hsaved with rfl | rfl
      · exact Nat.le_max_left _ _
      · exact Nat.le_max_right _ _
    constructor
    · intro he
      have : p.dirty = L.writes - saved := he hp
      omega
    · intro he _
      show p.dirty = L.writes - saved
      omega

theorem turn_saverDone (written : Except Bytes Unit) :
    Turn (Orderly (.saverDone written) L) L (step (.saverDone written) L) := by
  rw [step]
  split
  · rename_i hs
    cases written with
    | ok u =>
      have hturn := turn_end hs (p := L.pers.saverDone (.ok u)) rfl rfl (.inr rfl)
      refine ⟨hturn.counting, fun h he => (hturn.exact h he).trans ?_⟩
      exact ⟨fun hmax _ => hmax ▸ Nat.le_max_left _ _, fun hle => Nat.max_eq_right (hle hs)⟩
    | error e =>
      have hturn := turn_end hs (p := L.pers.saverDone (.error e)) rfl rfl (.inl rfl)
      refine ⟨hturn.counting, fun h he => (hturn.exact h he).trans ?_⟩
      exact ⟨fun hmax _ => hmax ▸ Nat.le_max_right _ _, fun hle => Nat.max_eq_left (hle hs)⟩
  · rename_i hs
    have hturn : Turn True L L := turn_same rfl rfl
    refine ⟨hturn.counting, fun h he => (hturn.exact h he).trans (iff_of_true trivial ?_)⟩
    cases written with
    | ok u => exact fun h => absurd h hs
    | error e => exact fun h => absurd h hs

theorem cronReap_counts (now : Int64) (p : Persistence) :
    (p.cronReap now).dirty = p.dirty ∧ (p.cronReap now).saving = p.saving := by
  unfold Persistence.cronReap
  repeat' split
  all_goals exact ⟨rfl, rfl⟩

theorem step_turn (e : SaveEvent) (L : Ledger) : Turn (Orderly e L) L (step e L) := by
  cases e with
  | onWrite args => exact turn_onWrite args
  | save now written => exact turn_save now written
  | backgroundSave now records => exact turn_backgroundSave now records
  | saverDone written => exact turn_saverDone written
  | cronReap now room io records =>
    obtain ⟨aof, lastError, hframe⟩ := Persistence.cronAof_frame now room io records L.pers
    obtain ⟨hd, hs⟩ := cronReap_counts now { L.pers with aof, lastError }
    rw [step, hframe]
    exact turn_same hd hs
  | cronSave now records =>
    rw [step, Persistence.cronSave]
    split
    · exact turn_backgroundSave now records
    · rw [start_same rfl]
      exact turn_same rfl rfl

/-! ## Whole runs -/

/-- The cron starts a save by what `dirty_` says. -/
theorem cronSave_saving (hidle : L.pers.saving = false) (hexact : L.pers.dirty = L.unsaved) (now : Int64)
    (records : List Record) : (L.pers.cronSave now records).saving = true ↔ L.Due now := by
  rw [Persistence.cronSave, Due, ← hexact]
  split
  · rename_i hdue
    obtain ⟨hrdb, hseconds, hchanges, -, hdirty, htime⟩ := hdue
    refine iff_of_true ?_ ⟨hrdb, hseconds, hchanges, hdirty, htime⟩
    simp [Persistence.backgroundSave, hrdb, hidle]
  · rename_i hdue
    refine iff_of_false (by simp [hidle]) ?_
    rintro ⟨hrdb, hseconds, hchanges, hdirty, htime⟩
    exact hdue ⟨hrdb, hseconds, hchanges, by simp [hidle], hdirty, htime⟩

theorem accurate_iff : Accurate L ↔ Exact L :=
  ⟨fun h hs => (h hs).1, fun h hs => ⟨h hs, cronSave_saving hs (h hs)⟩⟩

/-- In a run from a new `Persistence`, `dirty_` is the number of unsaved writes in every state in which no
save is in flight, and the cron starts a save there as soon as one is due, exactly if every background save
ends in order. -/
theorem dirty_exact_iff (config : PersistenceConfig) (es : List SaveEvent) :
    Along step (fun e L => Accurate (step e L)) es ⟨{ config }, 0, 0, 0⟩ ↔
      Along step Orderly es ⟨{ config }, 0, 0, 0⟩ := by
  simp only [accurate_iff]
  refine Along.keeps_iff (J := Counting) (Q := fun _ _ => True) (fun e L h _ => (step_turn e L).counting h)
    (fun e L h he _ => (step_turn e L).exact h he) ⟨Nat.le_refl _, Nat.le_refl _, by rintro ⟨⟩⟩
    (fun _ => rfl) (Along.of_forall (fun _ _ => trivial) _ _)

/-- A save is due after one write, a second after the last. -/
def everyWrite : PersistenceConfig := { saveSeconds := 1, saveChanges := 1 }

/-- A write, and a background save of it that fails: no write counts as unsaved, and the cron starts no
other save, although one is due. -/
theorem failed_save_forgotten :
    let L := run step [.onWrite [str "FLUSHALL"], .cronSave 1000 [], .saverDone (.error []),
      .cronReap 2000 0 {} []] ⟨{ config := everyWrite }, 0, 0, 0⟩
    L.pers.saving = false ∧ L.pers.savesFailed = 1 ∧ L.unsaved = 1 ∧ L.pers.dirty = 0 ∧ L.Due 9000 ∧
      (L.pers.cronSave 9000 []).saving = false := by
  dsimp only
  refine ⟨by decide, by decide, by decide, by decide, ?_, by decide⟩
  unfold Due
  decide

end Ledger

end RP
