import RedisPlus.Framework.Machine
import RedisPlus.Persistence.Log
import RedisPlus.Store.Snapshot

/-!
# When the cron rewrites the log

`cron` rewrites the log once its counter of commands is above a threshold (`Rewrites`, `cronAof_eq`). The
log it writes has one command for every live key, and the counter is set to their number. So rewriting
gets the counter below the threshold only if there are no more live keys than that. Otherwise every cron
that follows rewrites the log again, although nothing was written (`rewritten_again`).

`rewriting_settles_iff` says so for everything that may follow but for writes: reads and expiry, saves,
rewrites that are asked for, and further crons. A replica's writes do not go through `on_write`, so that
they are no writes here; after them, a rewrite that is asked for must not find more keys than the threshold.
-/

namespace RP

open Framework (Along run)

namespace Aof

theorem commandsWritten_close (room : Nat) (a : Aof) :
    (a.close room).commandsWritten = a.commandsWritten := by
  unfold close
  split
  · rfl
  · rfl

theorem commandsWritten_open (room : Nat) (opens : Bool) (path : Bytes) (policy : FsyncPolicy) (a : Aof) :
    (a.open room opens path policy).2.commandsWritten = a.commandsWritten := by
  unfold Aof.open
  dsimp only
  split
  · exact commandsWritten_close room a
  · exact commandsWritten_close room a

/-- A rewrite sets the counter to the number of records, if it gets so far, which one that succeeds does. -/
theorem commandsWritten_rewrite (room : Nat) (io : RewriteIo) (path : Bytes) (records : List Record)
    (a : Aof) :
    ((a.rewrite room io path records).2.commandsWritten = records.length ∨
      (a.rewrite room io path records).2.commandsWritten = a.commandsWritten) ∧
    ((a.rewrite room io path records).1 = .ok () →
      (a.rewrite room io path records).2.commandsWritten = records.length) := by
  unfold rewrite
  split
  · exact ⟨.inr rfl, by rintro ⟨⟩⟩
  split
  · exact ⟨.inr rfl, by rintro ⟨⟩⟩
  dsimp only
  split
  · refine ⟨.inr ?_, by rintro ⟨⟩⟩
    have hremoved (b : Bool) : (if b = true then { a.close room with data := none, durable := [] }
        else a.close room).commandsWritten = a.commandsWritten := by
      cases b with
      | true => exact commandsWritten_close room a
      | false => exact commandsWritten_close room a
    split
    · exact (commandsWritten_open ..).trans (hremoved _)
    · exact hremoved _
  · split
    · exact ⟨.inl (commandsWritten_open ..), fun _ => commandsWritten_open ..⟩
    · exact ⟨.inl rfl, fun _ => rfl⟩

end Aof

namespace Persistence

theorem commandsWritten_rewriteAof (room : Nat) (io : Aof.RewriteIo) (records : List Record)
    (p : Persistence) :
    (p.rewriteAof room io records).2.aof.commandsWritten = records.length ∨
      (p.rewriteAof room io records).2.aof.commandsWritten = p.aof.commandsWritten := by
  by_cases haof : p.config.aofEnabled = true
  · rw [aof_rewriteAof haof]
    exact (Aof.commandsWritten_rewrite ..).1
  · exact .inr (by rw [rewriteAof, if_pos haof])

/-- A cron that does not rewrite the log leaves the counter. -/
theorem commandsWritten_cron_of_not {p : Persistence} (hp : ¬ p.Rewrites) (now : Int64) (room : Nat)
    (io : Aof.RewriteIo) (records : List Record) :
    (p.cron now room io records).aof.commandsWritten = p.aof.commandsWritten := by
  rw [(p.sameAof_cron now room io records).aof]
  by_cases haof : p.config.aofEnabled = true
  · rw [cronAof_eq haof, if_neg hp]
    exact commandsWritten_flushAof now room p
  · rw [cronAof, if_neg haof]

/-- After a cron that has rewritten the log, the counter is the number of live keys. -/
theorem commandsWritten_cron_of_ok {p : Persistence} (hp : p.Rewrites) {now : Int64} {room : Nat}
    {io : Aof.RewriteIo} {records : List Record}
    (hok : ((p.flushAof now room).rewriteAof room io records).1 = .ok ()) :
    (p.cron now room io records).aof.commandsWritten = records.length := by
  have haof : (p.flushAof now room).config.aofEnabled = true := by rw [config_flushAof]; exact hp.1
  rw [(p.sameAof_cron now room io records).aof, cronAof_eq hp.1, if_pos hp, (sameAof_keepError _).aof]
  rw [aof_rewriteAof haof] at hok ⊢
  exact (Aof.commandsWritten_rewrite ..).2 hok

end Persistence

/-! ## After a rewrite -/

/-- The log is rewritten once it has more than one command. -/
def PersistenceConfig.rewriteConfig : PersistenceConfig := { aofEnabled := true, aofRewriteThreshold := 1 }

/-- What may happen while there are no calls of `on_write`. Snapshots are of the store as it is then. -/
inductive QuietEvent where
  | operation (now : Int64) (op : Store.Operation) (h : op.reads = true)
  /-- A replica applies a command of its master's, or loads a snapshot. -/
  | applied (store : Store)
  | save (now : Int64) (written : Except Bytes Unit)
  | backgroundSave (now : Int64)
  | saverDone (written : Except Bytes Unit)
  | rewriteAof (now : Int64) (room : Nat) (io : Aof.RewriteIo)
  | cron (now : Int64) (room : Nat) (io : Aof.RewriteIo)

namespace QuietEvent

/-- One event. -/
def step : QuietEvent → Store × Persistence → Store × Persistence
  | .operation now op _, (S, p) => (op.run now S, p)
  | .applied store, (_, p) => (store, p)
  | .save now written, (S, p) => (S, (p.save now written).2)
  | .backgroundSave now, (S, p) => (S, (p.backgroundSave now (S.snapshot now)).2)
  | .saverDone written, (S, p) => (S, p.saverDone written)
  | .rewriteAof now room io, (S, p) => (S, (p.rewriteAof room io (S.snapshot now)).2)
  | .cron now room io, (S, p) => (S, p.cron now room io (S.snapshot now))

/-- A rewrite, or a cron, is not before `t`. -/
def NotBefore (t : Int64) : QuietEvent → Prop
  | .rewriteAof now _ _ => t ≤ now
  | .cron now _ _ => t ≤ now
  | _ => True

/-- The event is none of a replica's own. -/
def notApplied : QuietEvent → Bool
  | .applied _ => false
  | _ => true

/-- If this is a cron, it does not rewrite the log. -/
def NoRewrite : QuietEvent → Store × Persistence → Prop
  | .cron _ _ _, (_, p) => ¬ p.Rewrites
  | _, _ => True

/-- If this is a rewrite that is asked for, there are at most `n` live keys. -/
def Fits (n : Nat) : QuietEvent → Store × Persistence → Prop
  | .rewriteAof now _ _, (S, _) => (S.snapshot now).length ≤ n
  | _, _ => True

/-- The counter is not above the threshold `n`. -/
structure Settled (n : Nat) (s : Store × Persistence) : Prop where
  threshold : s.2.config.aofRewriteThreshold = n
  counter : s.2.aof.commandsWritten ≤ n

theorem Settled.not_rewrites {n : Nat} {s : Store × Persistence} (h : Settled n s) : ¬ s.2.Rewrites := by
  rintro ⟨-, -, hlt⟩
  rw [h.threshold] at hlt
  exact absurd h.counter (Nat.not_le.mpr hlt)

theorem Settled.congr {n : Nat} {s : Store × Persistence} (h : Settled n s) {p : Persistence} {S : Store}
    (hconfig : p.config = s.2.config) (hcounter : p.aof.commandsWritten ≤ n) : Settled n (S, p) :=
  ⟨(congrArg PersistenceConfig.aofRewriteThreshold hconfig).trans h.threshold, hcounter⟩

theorem Settled.step {n : Nat} {e : QuietEvent} {s : Store × Persistence} (h : Settled n s)
    (he : e.Fits n s) : Settled n (e.step s) := by
  obtain ⟨S, p⟩ := s
  cases e with
  | operation now op hop => exact h.congr rfl h.counter
  | applied store => exact h.congr rfl h.counter
  | save now written =>
    have hsame := p.sameAof_save now written
    exact h.congr hsame.config (by rw [hsame.aof]; exact h.counter)
  | backgroundSave now =>
    have hsame := p.sameAof_backgroundSave now (S.snapshot now)
    exact h.congr hsame.config (by rw [hsame.aof]; exact h.counter)
  | saverDone written => exact h.congr rfl h.counter
  | rewriteAof now room io =>
    refine h.congr (p.config_rewriteAof room io _) ?_
    rcases p.commandsWritten_rewriteAof room io (S.snapshot now) with heq | heq
    · rw [heq]
      exact he
    · rw [heq]
      exact h.counter
  | cron now room io =>
    refine h.congr (p.config_cron now room io _) ?_
    rw [Persistence.commandsWritten_cron_of_not h.not_rewrites]
    exact h.counter

theorem Settled.noRewrite {n : Nat} {s : Store × Persistence} (h : Settled n s) (e : QuietEvent) :
    e.NoRewrite s := by
  cases e with
  | cron now room io => exact h.not_rewrites
  | _ => trivial

/-- From `t` on there are at most `n` live keys. -/
def Few (n : Nat) (t : Int64) (s : Store × Persistence) : Prop := ∀ t', t ≤ t' → (s.1.snapshot t').length ≤ n

theorem Few.step {n : Nat} {t : Int64} {e : QuietEvent} {s : Store × Persistence} (h : Few n t s)
    (he : e.notApplied = true) : Few n t (e.step s) := by
  cases e with
  | operation now op hop =>
    exact fun t' ht => Nat.le_trans ((Store.Operation.removes hop now s.1).snapshot t') (h t' ht)
  | applied store => cases he
  | _ => exact h

theorem Few.fits {n : Nat} {t : Int64} {e : QuietEvent} {s : Store × Persistence} (h : Few n t s)
    (he : e.NotBefore t) : e.Fits n s := by
  cases e with
  | rewriteAof now room io => exact h now he
  | _ => trivial

/-- After a cron at `now` that has rewritten the log, no cron rewrites it again as long as there are no
writes, exactly if there are no more live keys than the threshold. Then none does after a replica's own
writes either, as long as a rewrite that is asked for finds no more of them. -/
theorem rewriting_settles_iff {S : Store} {p : Persistence} (hp : p.Rewrites) {now : Int64} {room : Nat}
    {io : Aof.RewriteIo}
    (hok : ((p.flushAof now room).rewriteAof room io (S.snapshot now)).1 = .ok ()) :
    let s := (S, p.cron now room io (S.snapshot now))
    let n := p.config.aofRewriteThreshold
    ((∀ es : List QuietEvent, (∀ e ∈ es, e.NotBefore now ∧ e.notApplied = true) → Along step NoRewrite es s) ↔
      (S.snapshot now).length ≤ n) ∧
    ((S.snapshot now).length ≤ n →
      ∀ es : List QuietEvent, Along step (Fits n) es s → Along step NoRewrite es s) := by
  have hcounter := Persistence.commandsWritten_cron_of_ok hp hok
  have hconfig := p.config_cron now room io (S.snapshot now)
  intro s n
  have hfits (hle : (S.snapshot now).length ≤ n) (es : List QuietEvent) (h : Along step (Fits n) es s) :
      Along step NoRewrite es s := by
    have hsettled : Settled n s :=
      ⟨congrArg PersistenceConfig.aofRewriteThreshold hconfig, hcounter.symm ▸ hle⟩
    exact Along.imp (fun e s h he => h.step he) (fun e s h _ => h.noRewrite e) hsettled h
  refine ⟨⟨fun h => ?_, fun hle es hes => hfits hle es ?_⟩, hfits⟩
  · have hnot := (h [.cron now room io] (by simp [NotBefore, notApplied])).1
    rw [NoRewrite, Persistence.Rewrites, hconfig, hcounter] at hnot
    by_contra hlt
    exact hnot ⟨hp.1, hp.2.1, Nat.not_le.mp hlt⟩
  · have hfew : Few n now s := fun t' ht => Nat.le_trans (S.snapshot_later ht) hle
    exact Along.imp (fun e s h he => h.step he.2) (fun e s h he => h.fits he.1) hfew
      (Along.of_mem (Q := fun e => e.NotBefore now ∧ e.notApplied = true) _ hes)

/-- The log has two commands by its counter. -/
def overOne : Persistence :=
  { config := .rewriteConfig, aof := { data := some [], isOpen := true, commandsWritten := 2 } }

/-- One key is live: two crons and a rewrite by hand, later on. -/
theorem rewriting_settles_one :
    Along step NoRewrite [.cron 5 0 {}, .rewriteAof 6 0 {}, .cron 7 0 {}]
      (({} : Store).set (str "k") (str "v") kNoExpiry,
        overOne.cron 0 0 {} [⟨str "k", str "v", kNoExpiry⟩]) := by
  refine (@rewriting_settles_iff (({} : Store).set (str "k") (str "v") kNoExpiry) overOne
    (by decide) 0 0 {} (by decide)).1.mpr (by decide) _ ?_
  simp only [List.forall_mem_cons, NotBefore, notApplied]
  exact ⟨by decide, by decide, by decide, by simp⟩

/-- Two keys, and nothing happens but crons: each of them rewrites the log. -/
theorem rewritten_again :
    let S := (({} : Store).set (str "k") (str "v") kNoExpiry).set (str "j") (str "w") kNoExpiry
    let p₁ := overOne.cron 0 0 {} (S.snapshot 0)
    let p₂ := p₁.cron 100 0 {} (S.snapshot 100)
    overOne.Rewrites ∧ ((overOne.flushAof 0 0).rewriteAof 0 {} (S.snapshot 0)).1 = .ok () ∧
    p₁.Rewrites ∧ ((p₁.flushAof 100 0).rewriteAof 0 {} (S.snapshot 100)).1 = .ok () ∧
    p₂.Rewrites ∧ ((p₂.flushAof 200 0).rewriteAof 0 {} (S.snapshot 200)).1 = .ok () := by
  decide

end QuietEvent

end RP
