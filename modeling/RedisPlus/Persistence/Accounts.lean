import RedisPlus.Persistence.Unsaved

/-!
# The count of saves

Every save is to be counted once, as one that succeeded or one that failed: `save` does it at its end, and
`cron` for a saver thread that it joins. But `background_save` joins a thread that has ended, too, and does
not count it. So a background save is lost from the counts, whatever came of it, if another one starts
before the cron has joined it (`failed_save_uncounted`).

In `Accounts` the saves are counted apart from `Persistence`: as they start, and by their outcome as they
end. `saves_accounted_iff` says that the counts agree in every state of a run exactly if no save starts
while a thread that has ended is still to be joined.
-/

namespace RP

open Framework (Along run)

/-- Persistence, with the saves that were started, those that ended well and those that did not, and
whether the last saver thread to end did. -/
structure Accounts where
  pers : Persistence
  started : Nat := 0
  succeeded : Nat := 0
  failed : Nat := 0
  endedWell : Bool := true

namespace Accounts

/-- A save has ended. -/
def ended (written : Except Bytes Unit) (A : Accounts) : Accounts :=
  match written with
  | .ok _ => { A with succeeded := A.succeeded + 1 }
  | .error _ => { A with failed := A.failed + 1 }

/-- `p` is what a call that may start a background save leaves. -/
def start (p : Persistence) (A : Accounts) : Accounts :=
  { A with
    pers := p
    started := if A.pers.saving = false ∧ p.saving = true then A.started + 1 else A.started }

/-- An event, with the saves that it starts and ends counted. -/
def step : SaveEvent → Accounts → Accounts
  | .onWrite args, A => { A with pers := A.pers.onWrite args }
  | .save now written, A =>
    if A.pers.config.rdbEnabled then
      { A.ended written with pers := (A.pers.save now written).2, started := A.started + 1 }
    else { A with pers := (A.pers.save now written).2 }
  | .backgroundSave now records, A => A.start (A.pers.backgroundSave now records).2
  | .saverDone written, A =>
    if A.pers.saving then
      { A.ended written with pers := A.pers.saverDone written, endedWell := written.isOk }
    else A
  | .cronReap now room io records, A =>
    { A with pers := (A.pers.cronAof now room io records).cronReap now }
  | .cronSave now records, A => A.start (A.pers.cronSave now records)

/-- The saver thread has ended, and is still to be joined. -/
def unjoined (A : Accounts) : Bool := !A.pers.saving && A.pers.saver.isSome

/-- Every save that was started is counted, or is that of the thread; and every save that has ended is
counted under its outcome, or is that of the thread. -/
structure Accounted (A : Accounts) : Prop where
  started : A.pers.savesOk + A.pers.savesFailed + (A.pers.saving || A.unjoined).toNat = A.started
  succeeded : A.pers.savesOk + (A.unjoined && A.endedWell).toNat = A.succeeded
  failed : A.pers.savesFailed + (A.unjoined && !A.endedWell).toNat = A.failed

/-- The schedule asks for a save. -/
def Due (now : Int64) (A : Accounts) : Prop :=
  A.pers.config.rdbEnabled = true ∧ 0 < A.pers.config.saveSeconds ∧ 0 < A.pers.config.saveChanges ∧
    A.pers.config.saveChanges.toUInt64.toNat ≤ A.pers.dirty ∧
    A.pers.config.saveSeconds.toInt64 * 1000 ≤ now - A.pers.lastSaveMs

/-- Where a background save is asked for, no thread is still to be joined. -/
def Orderly : SaveEvent → Accounts → Prop
  | .backgroundSave _ _, A => A.pers.config.rdbEnabled = true → A.unjoined = false
  | .cronSave now _, A => A.Due now → A.unjoined = false
  | _, _ => True

/-! ## One step -/

/-- What the flags say of the thread. -/
structure Sound (A : Accounts) : Prop where
  inFlight : A.pers.saving = true → A.pers.saver.isSome = true ∧ A.pers.backgroundFailed = false
  outcome : A.unjoined = true → A.pers.backgroundFailed = !A.endedWell

/-- A step that keeps the flags, and after which the saves are accounted for if and only if `P`. -/
structure Turn (P : Prop) (A A' : Accounts) : Prop where
  sound : Sound A → Sound A'
  accounted : Sound A → Accounted A → (Accounted A' ↔ P)

variable {A : Accounts} {p : Persistence}

/-- The parts of `p` that say what became of the saves. -/
def saves (p : Persistence) : Nat × Nat × Bool × Bool × Bool :=
  (p.savesOk, p.savesFailed, p.saving, p.backgroundFailed, p.saver.isSome)

theorem turn_same (h : saves p = saves A.pers) : Turn True A { A with pers := p } := by
  simp only [saves, Prod.mk.injEq] at h
  obtain ⟨hok, hfailed, hsaving, hflag, hsaver⟩ := h
  have hunjoined : unjoined { A with pers := p } = A.unjoined := by
    simp only [unjoined, hsaving, hsaver]
  refine ⟨fun hs => ⟨?_, ?_⟩, fun _ ha => iff_of_true ⟨?_, ?_, ?_⟩ trivial⟩
  · show p.saving = true → p.saver.isSome = true ∧ p.backgroundFailed = false
    rw [hsaving, hsaver, hflag]
    exact hs.inFlight
  · rw [hunjoined]
    exact fun hu => hflag.trans (hs.outcome hu)
  · rw [hunjoined, hok, hfailed, hsaving]
    exact ha.started
  · rw [hunjoined, hok]
    exact ha.succeeded
  · rw [hunjoined, hfailed]
    exact ha.failed

/-- A call that starts no save. -/
theorem turn_idle (h : saves p = saves A.pers) : Turn True A (A.start p) := by
  have hsaving : p.saving = A.pers.saving := congrArg (·.2.2.1) h
  rw [start, if_neg]
  · exact turn_same h
  · rintro ⟨hidle, hs⟩
    rw [hsaving, hidle] at hs
    cases hs

theorem Turn.congr {P Q : Prop} {A' : Accounts} (h : Turn P A A') (hiff : P ↔ Q) : Turn Q A A' :=
  ⟨h.sound, fun hs ha => (h.accounted hs ha).trans hiff⟩

theorem turn_save (now : Int64) (written : Except Bytes Unit) :
    Turn True A (step (.save now written) A) := by
  rw [step, Persistence.save]
  by_cases hrdb : A.pers.config.rdbEnabled = true
  case neg =>
    rw [if_neg hrdb, if_pos hrdb]
    exact turn_same rfl
  rw [if_pos hrdb, if_neg (not_not.mpr hrdb)]
  cases written with
  | error e =>
    refine ⟨fun hs => ⟨hs.inFlight, hs.outcome⟩, fun _ ha => iff_of_true ⟨?_, ha.succeeded, ?_⟩ trivial⟩
    · have := ha.started
      show A.pers.savesOk + (A.pers.savesFailed + 1) + (A.pers.saving || A.unjoined).toNat = A.started + 1
      omega
    · have := ha.failed
      show A.pers.savesFailed + 1 + (A.unjoined && !A.endedWell).toNat = A.failed + 1
      omega
  | ok u =>
    refine ⟨fun hs => ⟨hs.inFlight, hs.outcome⟩, fun _ ha => iff_of_true ⟨?_, ?_, ha.failed⟩ trivial⟩
    · have := ha.started
      show A.pers.savesOk + 1 + A.pers.savesFailed + (A.pers.saving || A.unjoined).toNat = A.started + 1
      omega
    · have := ha.succeeded
      show A.pers.savesOk + 1 + (A.unjoined && A.endedWell).toNat = A.succeeded + 1
      omega

/-- A thread that is joined here is not counted. -/
theorem turn_backgroundSave (now : Int64) (records : List Record) :
    Turn (A.pers.config.rdbEnabled = true → A.unjoined = false) A
      (A.start (A.pers.backgroundSave now records).2) := by
  unfold Persistence.backgroundSave
  split
  · rename_i hrdb
    exact (turn_idle rfl).congr (iff_of_true trivial fun h => absurd h hrdb)
  rename_i hrdb
  split
  · rename_i hsaving
    exact (turn_idle rfl).congr (iff_of_true trivial fun _ => by simp [unjoined, hsaving])
  rename_i hsaving
  have hidle : A.pers.saving = false := by simpa using hsaving
  rw [start, if_pos ⟨hidle, rfl⟩]
  refine ⟨fun _ => ⟨fun _ => ⟨rfl, rfl⟩, by rintro ⟨⟩⟩, fun _ ha => ⟨fun h _ => ?_, fun h => ?_⟩⟩
  · have hbefore := ha.started
    have hafter : A.pers.savesOk + A.pers.savesFailed + 1 = A.started + 1 := h.started
    rw [hidle, Bool.false_or] at hbefore
    rw [← Bool.toNat_eq_zero]
    omega
  · have hu := h (not_not.mp hrdb)
    have hstarted := ha.started
    have hsucceeded := ha.succeeded
    have hfailed := ha.failed
    rw [hidle, hu] at hstarted
    rw [hu] at hsucceeded hfailed
    exact ⟨congrArg (· + 1) hstarted, hsucceeded, hfailed⟩

theorem turn_saverDone (written : Except Bytes Unit) :
    Turn True A (step (.saverDone written) A) := by
  rw [step]
  split
  case isFalse => exact turn_same rfl
  rename_i hsaving
  have hjoined : A.unjoined = false := by simp [unjoined, hsaving]
  -- From here on the thread's save is one that has ended, no longer the one in flight.
  have hunjoined (hs : Sound A) (A' : Accounts) (hp : A'.pers = A.pers.saverDone written) :
      A'.unjoined = true := by
    rw [unjoined, hp]
    exact (hs.inFlight hsaving).1
  refine ⟨fun hs => ⟨by rintro ⟨⟩, fun _ => ?_⟩, fun hs ha => iff_of_true ?_ trivial⟩
  · cases written with
    | error e => rfl
    | ok u => exact (hs.inFlight hsaving).2
  · obtain ⟨hstarted, hsucceeded, hfailed⟩ := ha
    rw [hsaving] at hstarted
    rw [hjoined] at hsucceeded hfailed
    cases written with
    | error e =>
      refine ⟨?_, ?_, ?_⟩
      all_goals rw [hunjoined hs _ rfl]
      · exact hstarted
      · exact hsucceeded
      · exact congrArg (· + 1) hfailed
    | ok u =>
      refine ⟨?_, ?_, ?_⟩
      all_goals rw [hunjoined hs _ rfl]
      · exact hstarted
      · exact congrArg (· + 1) hsucceeded
      · exact hfailed

/-- The thread is joined, and its save counted under its outcome. -/
theorem turn_join (hu : A.unjoined = true) (hidle : p.saving = false) (hsaver : p.saver = none)
    (hok : Sound A → p.savesOk = A.pers.savesOk + A.endedWell.toNat)
    (hfailed : Sound A → p.savesFailed = A.pers.savesFailed + (!A.endedWell).toNat) :
    Turn True A { A with pers := p } := by
  have hjoined : unjoined { A with pers := p } = false := by simp [unjoined, hsaver]
  refine ⟨fun _ => ⟨fun h => ?_, fun h => ?_⟩, fun hs ha => iff_of_true ?_ trivial⟩
  · cases hidle.symm.trans h
  · cases hjoined.symm.trans h
  · obtain ⟨hstarted, hsucceeded, hfails⟩ := ha
    rw [hu, Bool.or_true] at hstarted
    rw [hu, Bool.true_and] at hsucceeded hfails
    have hone : A.endedWell.toNat + (!A.endedWell).toNat = true.toNat := by cases A.endedWell <;> rfl
    refine ⟨?_, ?_, ?_⟩
    all_goals rw [hjoined]
    · show p.savesOk + p.savesFailed + (p.saving || false).toNat = A.started
      rw [hidle, hok hs, hfailed hs, ← hstarted, ← hone]
      simp only [Bool.or_false, Bool.toNat_false]
      omega
    · exact (hok hs).trans hsucceeded
    · exact (hfailed hs).trans hfails

theorem turn_cronReap (now : Int64) {aof : Aof} {lastError : Bytes} :
    Turn True A { A with pers := ({ A.pers with aof, lastError } : Persistence).cronReap now } := by
  unfold Persistence.cronReap
  split
  case isFalse => exact turn_same rfl
  rename_i hended
  obtain ⟨hidle, hsaver⟩ := hended
  have hidle : A.pers.saving = false := by simpa using hidle
  have hu : A.unjoined = true := by
    rw [unjoined, hidle]
    exact hsaver
  -- The flag is the outcome, so the save is counted where it belongs.
  split
  · rename_i hflag
    have houtcome (hs : Sound A) : A.endedWell = false := by
      simpa using (hs.outcome hu).symm.trans hflag
    exact turn_join hu hidle rfl (fun hs => by rw [houtcome hs]; rfl) (fun hs => by rw [houtcome hs]; rfl)
  · rename_i hflag
    have hflag : A.pers.backgroundFailed = false := by simpa using hflag
    have houtcome (hs : Sound A) : A.endedWell = true := by
      simpa using (hs.outcome hu).symm.trans hflag
    exact turn_join hu hidle rfl (fun hs => by rw [houtcome hs]; rfl) (fun hs => by rw [houtcome hs]; rfl)

theorem turn_cronSave (now : Int64) (records : List Record) :
    Turn (Orderly (.cronSave now records) A) A (A.start (A.pers.cronSave now records)) := by
  unfold Persistence.cronSave
  split
  · rename_i hdue
    obtain ⟨hrdb, hseconds, hchanges, -, hdirty, htime⟩ := hdue
    refine (turn_backgroundSave now records).congr ⟨fun h _ => h hrdb, fun h _ => h ?_⟩
    exact ⟨hrdb, hseconds, hchanges, hdirty, htime⟩
  · rename_i hdue
    refine (turn_idle rfl).congr (iff_of_true trivial ?_)
    rintro ⟨hrdb, hseconds, hchanges, hdirty, htime⟩
    -- A save is due, so one is in flight.
    have hsaving : A.pers.saving = true := by
      by_contra hidle
      exact hdue ⟨hrdb, hseconds, hchanges, hidle, hdirty, htime⟩
    simp [unjoined, hsaving]

theorem step_turn (e : SaveEvent) (A : Accounts) : Turn (Orderly e A) A (step e A) := by
  cases e with
  | onWrite args => exact turn_same rfl
  | save now written => exact turn_save now written
  | backgroundSave now records => exact turn_backgroundSave now records
  | saverDone written => exact turn_saverDone written
  | cronReap now room io records =>
    obtain ⟨aof, lastError, hframe⟩ := Persistence.cronAof_frame now room io records A.pers
    rw [step, hframe]
    exact turn_cronReap now
  | cronSave now records => exact turn_cronSave now records

/-! ## Whole runs -/

/-- In a run from a new `Persistence`, the saves are accounted for in every state exactly if no background
save is asked for while a thread that has ended is still to be joined. -/
theorem saves_accounted_iff (config : PersistenceConfig) (es : List SaveEvent) :
    Along step (fun e A => Accounted (step e A)) es { pers := { config } } ↔
      Along step Orderly es { pers := { config } } :=
  Along.keeps_iff (J := Sound) (Q := fun _ _ => True) (fun e A h _ => (step_turn e A).sound h)
    (fun e A h ha _ => (step_turn e A).accounted h ha) ⟨by rintro ⟨⟩, by rintro ⟨⟩⟩ ⟨rfl, rfl, rfl⟩
    (Along.of_forall (fun _ _ => trivial) _ _)

/-- A background save fails, and another one is asked for before the cron comes by: of the two that were
started one is in flight, none counts as failed, and there is no trace of the failure. -/
theorem failed_save_uncounted :
    let A := run step [.backgroundSave 0 [], .saverDone (.error []), .backgroundSave 1 []]
      { pers := { config := {} } }
    A.started = 2 ∧ A.failed = 1 ∧ A.pers.saving = true ∧ A.pers.savesOk = 0 ∧ A.pers.savesFailed = 0 ∧
      A.pers.lastError = [] ∧ ¬ Accounted A := by
  dsimp only
  refine ⟨by decide, by decide, by decide, by decide, by decide, by decide, ?_⟩
  intro h
  have := h.failed
  revert this
  decide

end Accounts

end RP
