import RedisPlus.Server.Durability

/-!
# How far behind `everysec` is

With `appendfsync everysec` a cron that comes a second or more after the last fsync makes the log durable;
the others leave it in the C library's buffer. `Dated` is a server with the times at which its commands
were logged. After each cron the last fsync is less than a second ago (`Inv.cronStep`), so that if crons are
at most `D` apart, what is not durable was logged less than a second and `D` ago (`everysec_window`).
-/

namespace RP.EverySec

open Durability (Served Event Logged)
open Framework (Along run)

variable {ρ : Type}

/-- A server that knows the time. -/
structure Dated (ρ : Type) where
  served : Served ρ
  /-- When each command of the log was appended. -/
  times : List Int64 := []
  clock : Int64
  lastCron : Int64

/-- What the clock reads in an event, if it is read. -/
def clockOf (clock : Int64) : Event ρ → Int64
  | .request m _ _ => m.amb.now
  | .cron now _ _ _ => now
  | .refuse .. | .handOver .. | .saverDone _ => clock

/-- An event; what it logs is dated. -/
def step (e : Event ρ) (d : Dated ρ) : Dated ρ :=
  let served := Durability.step e d.served
  let now := clockOf d.clock e
  { served
    times := d.times ++ (served.log.drop d.served.log.length).map fun _ => now
    clock := now
    lastCron := match e with
      | .cron now _ _ _ => now
      | _ => d.lastCron }

/-! ## A cron -/

/-- The difference of times that are not negative. -/
theorem toInt_sub_of_le {t u : Int64} (ht : 0 ≤ t) (hle : t ≤ u) : (u - t).toInt = u.toInt - t.toInt := by
  rw [Int64.le_iff_toInt_le, Int64.toInt_zero] at ht
  rw [Int64.le_iff_toInt_le] at hle
  have hlt := u.toInt_lt
  rw [Int64.toInt_sub]
  exact Int.bmod_eq_of_le (by simp; omega) (by simp; omega)

/-- A cron that writes all it is given and does not rewrite makes everything durable if an fsync is due. -/
theorem logged_cron {base : Bytes} {log : List Args} {n k : Nat} {p : Persistence}
    (h : Logged .everySec base log n k p) (now : Int64) {room : Nat} (io : Aof.RewriteIo)
    (rs : List Record) (hroom : p.aof.buffer.length ≤ room) (hrewrite : ¬ p.Rewrites) :
    if 1000 ≤ now - p.aof.lastFsyncMs then
      Logged .everySec base log log.length log.length (p.cron now room io rs) ∧
        (p.cron now room io rs).aof.lastFsyncMs = now
    else Logged .everySec base log n log.length (p.cron now room io rs) ∧
      (p.cron now room io rs).aof.lastFsyncMs = p.aof.lastFsyncMs := by
  have hsame := h.toHolds.cron hroom hrewrite now io rs
  split
  · rename_i hdue
    have hdue' : p.aof.Due now := .inr ⟨h.fsyncs, hdue⟩
    refine ⟨(h.synced hdue').of_sameAof hsame, ?_⟩
    rw [hsame.aof, @Aof.sync_of_due p.aof.written now hdue']
  · rename_i hdue
    have hsync : p.aof.written.sync now = p.aof.written := by
      rw [Aof.sync, show p.aof.written.policy = .everySec from h.fsyncs]
      exact if_neg hdue
    rw [hsync] at hsame
    exact ⟨h.written.of_sameAof hsame, by rw [hsame.aof]; rfl⟩

/-! ## Runs -/

/-- `synced` is when the last fsync was, or the boot; `n` commands are durable. -/
structure Inv (base : Bytes) (D : Nat) (n : Nat) (synced : Int64) (d : Dated ρ) : Prop where
  logged : ∃ k, Logged .everySec base d.served.log n k d.served.node.pers
  dated : d.times.length = d.served.log.length
  fsync : 0 ≤ d.served.node.pers.aof.lastFsyncMs ∧ d.served.node.pers.aof.lastFsyncMs ≤ synced
  synced_le : synced ≤ d.clock
  cron : d.lastCron.toInt - synced.toInt < 1000
  window : d.clock.toInt - d.lastCron.toInt ≤ D
  /-- The others were logged since. -/
  since : ∀ t ∈ d.times.drop n, synced ≤ t

/-- What is assumed of an event: the clock does not go back, crons are at most `D` apart and write what
they are given, and the AOF is not rewritten. -/
def Orderly (D : Nat) (e : Event ρ) (d : Dated ρ) : Prop :=
  d.clock ≤ clockOf d.clock e ∧ (clockOf d.clock e).toInt - d.lastCron.toInt ≤ D ∧
    match e with
    | .request _ _ args => Durability.rewrites args = false
    | .cron _ room _ _ => d.served.node.pers.aof.buffer.length ≤ room ∧
      ¬ (0 < d.served.node.pers.config.aofRewriteThreshold ∧
        d.served.node.pers.config.aofRewriteThreshold < d.served.node.pers.aof.commandsWritten)
    | .refuse .. | .handOver .. | .saverDone _ => True

instance (D : Nat) : ∀ (e : Event ρ) (d : Dated ρ), Decidable (Orderly D e d)
  | .request m _ args, d => inferInstanceAs (Decidable (d.clock ≤ m.amb.now ∧
    m.amb.now.toInt - d.lastCron.toInt ≤ D ∧ Durability.rewrites args = false))
  | .cron now room _ _, d => inferInstanceAs (Decidable (d.clock ≤ now ∧ now.toInt - d.lastCron.toInt ≤ D ∧
    d.served.node.pers.aof.buffer.length ≤ room ∧ ¬ (0 < d.served.node.pers.config.aofRewriteThreshold ∧
      d.served.node.pers.config.aofRewriteThreshold < d.served.node.pers.aof.commandsWritten)))
  | .refuse .., d | .handOver .., d | .saverDone _, d =>
    inferInstanceAs (Decidable (d.clock ≤ d.clock ∧ d.clock.toInt - d.lastCron.toInt ≤ D ∧ True))

variable {base : Bytes} {D n : Nat} {synced : Int64} {d : Dated ρ}

/-- An event other than a cron: the log may have got a command, dated now. -/
theorem Inv.append (h : Inv base D n synced d) {e : Event ρ} (hclock : d.clock ≤ clockOf d.clock e)
    (hcron : (step e d).lastCron = d.lastCron)
    (hD : (clockOf d.clock e).toInt - d.lastCron.toInt ≤ D) {cmds : List Args}
    (hlog : (Durability.step e d.served).log = d.served.log ++ cmds)
    (hlogged : ∃ k, Logged .everySec base (d.served.log ++ cmds) n k (Durability.step e d.served).node.pers)
    (hfsync : (Durability.step e d.served).node.pers.aof.lastFsyncMs = d.served.node.pers.aof.lastFsyncMs) :
    Inv base D n synced (step e d) := by
  have hle : synced ≤ clockOf d.clock e := Int64.le_trans h.synced_le hclock
  have htimes : (step e d).times = d.times ++ cmds.map fun _ => clockOf d.clock e := by
    simp [step, hlog]
  refine ⟨?_, ?_, ?_, hle, by rw [hcron]; exact h.cron, by rw [hcron]; exact hD, fun t ht => ?_⟩
  · show ∃ k, Logged .everySec base (Durability.step e d.served).log n k _
    rw [hlog]
    exact hlogged
  · show (step e d).times.length = (Durability.step e d.served).log.length
    rw [htimes, hlog, List.length_append, List.length_append, List.length_map, h.dated]
  · rw [show (step e d).served.node.pers.aof.lastFsyncMs = d.served.node.pers.aof.lastFsyncMs from hfsync]
    exact h.fsync
  · rw [htimes, List.drop_append] at ht
    rcases List.mem_append.mp ht with ht | ht
    · exact h.since t ht
    · obtain ⟨_, -, rfl⟩ := List.mem_map.mp (List.mem_of_mem_drop ht)
      exact hle

theorem Inv.request (h : Inv base D n synced d) {m : Durability.Surroundings ρ} {link : ClientLink}
    {args : Args}
    (he : Orderly D (.request m link args) d) : Inv base D n synced (step (.request m link args) d) := by
  obtain ⟨hclock, hD, hrewrites⟩ := he
  obtain ⟨k, hlogged⟩ := h.logged
  have hsame := Durability.sameAof_dispatch m (some link) args d.served.node hrewrites
  by_cases hargs : args = []
  · subst hargs
    exact h.append hclock rfl hD (List.append_nil _).symm ⟨k, by rw [List.append_nil]; exact hlogged⟩ rfl
  by_cases hd : (dispatch m.table m.amb (some link) args d.served.node).1.dirty = true
  · have hne := propagate_ne_nil m.table m.amb (some link) args d.served.node hd
    have hstep := handleRequest_of_dirty (Durability.host m link) hargs hd
    have hwrite := Persistence.aof_onWrite (hlogged.of_sameAof hsame).enabled
      (hlogged.of_sameAof hsame).isOpen hne
    refine h.append hclock rfl hD (congrArg Served.log hstep) ⟨k, ?_⟩ ?_
    · rw [show (Durability.step (.request m link args) d.served).node.pers = _ from
        congrArg (fun s => s.node.pers) hstep]
      exact (hlogged.of_sameAof hsame).onWrite hne
    · rw [show (Durability.step (.request m link args) d.served).node.pers = _ from
        congrArg (fun s => s.node.pers) hstep]
      refine (congrArg Aof.lastFsyncMs hwrite).trans ?_
      show (dispatch m.table m.amb (some link) args d.served.node).2.pers.aof.lastFsyncMs = _
      rw [hsame.aof]
  · have hstep := handleRequest_of_clean (Durability.host m link) hargs hd
    refine h.append hclock rfl hD ((congrArg Served.log hstep).trans (List.append_nil _).symm) ⟨k, ?_⟩ ?_
    · rw [show (Durability.step (.request m link args) d.served).node.pers = _ from
        congrArg (fun s => s.node.pers) hstep, List.append_nil]
      exact hlogged.of_sameAof hsame
    · rw [show (Durability.step (.request m link args) d.served).node.pers = _ from
        congrArg (fun s => s.node.pers) hstep]
      exact congrArg Aof.lastFsyncMs hsame.aof

theorem Inv.cronStep (h : Inv base D n synced d) {now : Int64} {room : Nat} {io : Aof.RewriteIo} {store : Store}
    (he : Orderly D (.cron now room io store) d) :
    ∃ n' synced', Inv base D n' synced' (step (.cron now room io store) d) := by
  obtain ⟨hclock, -, hroom, hrewrite⟩ := he
  obtain ⟨k, hlogged⟩ := h.logged
  replace hclock : d.clock ≤ now := hclock
  have hle : d.served.node.pers.aof.lastFsyncMs ≤ now :=
    Int64.le_trans h.fsync.2 (Int64.le_trans h.synced_le hclock)
  have htimes : (step (.cron now room io store) d).times = d.times := by
    simp [step, Durability.step]
  have hwindow : now.toInt - now.toInt ≤ D := by omega
  have hcron := logged_cron hlogged now io (store.snapshot now) hroom fun hp => hrewrite hp.2
  split at hcron
  · refine ⟨d.served.log.length, now, ⟨_, hcron.1⟩, ?_, ?_, Int64.le_refl now, ?_, hwindow, fun t ht => ?_⟩
    · rw [htimes]
      exact h.dated
    · rw [show (step (.cron now room io store) d).served.node.pers.aof.lastFsyncMs = now from hcron.2]
      exact ⟨Int64.le_trans h.fsync.1 hle, Int64.le_refl now⟩
    · show now.toInt - now.toInt < 1000
      omega
    · rw [htimes, List.drop_eq_nil_of_le (Nat.le_of_eq h.dated)] at ht
      cases ht
  · rename_i hdue
    refine ⟨n, synced, ⟨_, hcron.1⟩, ?_, ?_, Int64.le_trans h.synced_le hclock, ?_, hwindow, ?_⟩
    · rw [htimes]
      exact h.dated
    · rw [show (step (.cron now room io store) d).served.node.pers.aof.lastFsyncMs = _ from hcron.2]
      exact h.fsync
    · rw [Int64.le_iff_toInt_le, toInt_sub_of_le h.fsync.1 hle] at hdue
      have hfsync := Int64.le_iff_toInt_le.mp h.fsync.2
      show now.toInt - synced.toInt < 1000
      have : (1000 : Int64).toInt = 1000 := by decide
      omega
    · rw [htimes]
      exact h.since

theorem inv_step {e : Event ρ} (h : Inv base D n synced d) (he : Orderly D e d) :
    ∃ n' synced', Inv base D n' synced' (step e d) := by
  cases e with
  | request m link args => exact ⟨n, synced, h.request he⟩
  | cron now room io store => exact h.cronStep he
  | refuse link error | handOver link k =>
    exact ⟨n, synced, h.append he.1 rfl he.2.1 (List.append_nil _).symm
      (by rw [List.append_nil]; exact h.logged) rfl⟩
  | saverDone written =>
    obtain ⟨k, hlogged⟩ := h.logged
    exact ⟨n, synced, h.append he.1 rfl he.2.1 (List.append_nil _).symm
      ⟨k, by rw [List.append_nil]; exact hlogged.of_sameAof ⟨rfl, rfl⟩⟩ rfl⟩

/-- A server that has just opened its AOF, whose contents are `base`, at `now`. -/
structure Booted (base : Bytes) (now : Int64) (d : Dated ρ) : Prop where
  logged : Logged .everySec base [] 0 0 d.served.node.pers
  log : d.served.log = []
  times : d.times = []
  fsync : d.served.node.pers.aof.lastFsyncMs = 0
  nonneg : 0 ≤ now
  clock : d.clock = now ∧ d.lastCron = now

theorem inv_booted {now : Int64} (h : Booted base now d) (D : Nat) : Inv base D 0 now d := by
  refine ⟨⟨0, by rw [h.log]; exact h.logged⟩, by rw [h.log, h.times]; rfl, ?_, ?_, ?_, ?_, ?_⟩
  · rw [h.fsync]
    exact ⟨Int64.le_refl 0, h.nonneg⟩
  · rw [h.clock.1]
    exact Int64.le_refl now
  · rw [h.clock.2]
    omega
  · rw [h.clock.1, h.clock.2]
    omega
  · rw [h.times]
    exact fun t ht => absurd ht (by simp)

/-- In every run of requests and crons that are at most `D` apart: the durable file holds the commands logged
so far, apart from some at the end that were all logged less than a second and `D` ago. -/
theorem everysec_window {now : Int64} (h₀ : Booted base now d) {es : List (Event ρ)}
    (h : Along step (Orderly D) es d) :
    let d' := run step es d
    ∃ n, n ≤ d'.served.log.length ∧
      (0 < n → d'.served.node.pers.aof.durable = base ++ encs (d'.served.log.take n)) ∧
      d'.times.length = d'.served.log.length ∧
      ∀ t ∈ d'.times.drop n, d'.clock.toInt < t.toInt + 1000 + D := by
  have hinv : ∃ n synced, Inv base D n synced (run step es d) :=
    Along.invariant (I := fun d => ∃ n synced, Inv base D n synced d)
      (fun _ _ ⟨_, _, hi⟩ he => inv_step hi he) ⟨0, now, inv_booted h₀ D⟩ h
  obtain ⟨n, synced, hi⟩ := hinv
  obtain ⟨k, hlogged⟩ := hi.logged
  refine ⟨n, Nat.le_trans hlogged.le.1 hlogged.le.2, hlogged.durable, hi.dated, fun t ht => ?_⟩
  have hsince := Int64.le_iff_toInt_le.mp (hi.since t ht)
  have hcron := hi.cron
  have hwindow := hi.window
  omega

/-- An empty server with an empty AOF, booted at 5000. -/
def everySecServer : Dated Unit where
  served :=
    { node :=
        { store := {}
          pers :=
            { config := { aofEnabled := true }
              aof := { data := some [], isOpen := true } }
          repl := () } }
  clock := 5000
  lastCron := 5000

/-- Three writes, with crons in between of which the first one syncs. -/
def threeWrites : List (Event Unit) :=
  [.request { amb := ⟨5010, []⟩ } 1 [str "SET", str "a", str "1"], .cron 5100 1000 {} {},
    .request { amb := ⟨5150, []⟩ } 1 [str "SET", str "b", str "2"], .cron 5200 1000 {} {},
    .request { amb := ⟨5250, []⟩ } 1 [str "SET", str "c", str "3"], .cron 5300 1000 {} {}]

theorem threeWrites_window :
    let d := run step threeWrites everySecServer
    (∃ n, n ≤ d.served.log.length ∧
      (0 < n → d.served.node.pers.aof.durable = [] ++ encs (d.served.log.take n)) ∧
      ∀ t ∈ d.times.drop n, d.clock.toInt < t.toInt + 1000 + 100) ∧
    d.times = [5010, 5150, 5250] ∧ d.served.node.pers.aof.durable = encode [str "SET", str "a", str "1"] := by
  have hbooted : Booted [] 5000 everySecServer :=
    ⟨⟨⟨rfl, rfl, rfl, rfl⟩, rfl, ⟨Nat.le_refl _, Nat.le_refl _⟩, rfl, rfl, fun h => absurd h (by decide)⟩,
      rfl, rfl, rfl, by decide, rfl, rfl⟩
  have horderly : Along step (Orderly 100) threeWrites everySecServer := by decide +kernel
  obtain ⟨n, hn, hdurable, -, htimes⟩ := everysec_window hbooted horderly
  exact ⟨⟨n, hn, hdurable, htimes⟩, by decide +kernel, by decide +kernel⟩

end RP.EverySec
