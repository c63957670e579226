import RedisPlus.Persistence.Basic

/-!
# What the log holds

Saves do not concern the log (`SameAof`). A cron flushes it, and then rewrites it if its counter is above
the threshold (`cronAof_eq`). `Holds` is an open log, by what there will be in the file once everything on
its way there has arrived: the hook adds a command to that, and a flush that can write what it is given
leaves it.
-/

namespace RP

namespace Persistence

/-! ## Saves -/

/-- The AOF and the configuration are as they were. -/
structure SameAof (p p' : Persistence) : Prop where
  aof : p'.aof = p.aof
  config : p'.config = p.config

theorem SameAof.refl (p : Persistence) : SameAof p p := ⟨rfl, rfl⟩

theorem SameAof.trans {p p' p'' : Persistence} (h : SameAof p p') (h' : SameAof p' p'') : SameAof p p'' :=
  ⟨h'.aof.trans h.aof, h'.config.trans h.config⟩

theorem sameAof_save (now : Int64) (written : Except Bytes Unit) (p : Persistence) :
    SameAof p (p.save now written).2 := by
  unfold Persistence.save
  split
  · exact .refl p
  · dsimp only
    split <;> exact ⟨rfl, rfl⟩

theorem sameAof_backgroundSave (now : Int64) (records : List Record) (p : Persistence) :
    SameAof p (p.backgroundSave now records).2 := by
  unfold Persistence.backgroundSave
  split
  · exact .refl p
  split
  · exact .refl p
  · exact ⟨rfl, rfl⟩

theorem sameAof_cronReap (now : Int64) (p : Persistence) : SameAof p (p.cronReap now) := by
  unfold Persistence.cronReap
  split
  · split <;> exact ⟨rfl, rfl⟩
  · exact .refl p

theorem sameAof_cronSave (now : Int64) (records : List Record) (p : Persistence) :
    SameAof p (p.cronSave now records) := by
  unfold Persistence.cronSave
  split
  · exact sameAof_backgroundSave ..
  · exact .refl p

theorem sameAof_keepError (r : Except Bytes Unit × Persistence) : SameAof r.2 (keepError r) := by
  unfold keepError
  split
  · exact ⟨rfl, rfl⟩
  · exact .refl _

/-- To the log, a cron is what it does to it first. -/
theorem sameAof_cron (now : Int64) (room : Nat) (io : Aof.RewriteIo) (records : List Record)
    (p : Persistence) : SameAof (p.cronAof now room io records) (p.cron now room io records) :=
  (sameAof_cronReap now _).trans (sameAof_cronSave now records _)

theorem config_cron (now : Int64) (room : Nat) (io : Aof.RewriteIo) (records : List Record)
    (p : Persistence) : (p.cron now room io records).config = p.config := by
  obtain ⟨aof, lastError, hframe⟩ := cronAof_frame now room io records p
  rw [(sameAof_cron now room io records p).config, hframe]

/-! ## The cron's work on the log -/

/-- The first half of `cron`'s work on the log. -/
def flushAof (now : Int64) (room : Nat) (p : Persistence) : Persistence :=
  keepError ((p.aof.flush room now).1, { p with aof := (p.aof.flush room now).2 })

/-- A cron rewrites the log. -/
def Rewrites (p : Persistence) : Prop :=
  p.config.aofEnabled = true ∧ 0 < p.config.aofRewriteThreshold ∧
    p.config.aofRewriteThreshold < p.aof.commandsWritten

instance (p : Persistence) : Decidable p.Rewrites := inferInstanceAs (Decidable (_ ∧ _ ∧ _))

theorem config_flushAof (now : Int64) (room : Nat) (p : Persistence) :
    (p.flushAof now room).config = p.config := (sameAof_keepError _).config

theorem aof_flushAof (now : Int64) (room : Nat) (p : Persistence) :
    (p.flushAof now room).aof = (p.aof.flush room now).2 := (sameAof_keepError _).aof

theorem commandsWritten_flushAof (now : Int64) (room : Nat) (p : Persistence) :
    (p.flushAof now room).aof.commandsWritten = p.aof.commandsWritten := by
  rw [aof_flushAof]
  exact Aof.commandsWritten_flush room now p.aof

/-- What the cron does to the log: it flushes it, and rewrites it if the counter was above the threshold
before. -/
theorem cronAof_eq {p : Persistence} (haof : p.config.aofEnabled = true) (now : Int64) (room : Nat)
    (io : Aof.RewriteIo) (records : List Record) :
    p.cronAof now room io records =
      if p.Rewrites then keepError ((p.flushAof now room).rewriteAof room io records)
      else p.flushAof now room := by
  have hcond : (0 < (p.flushAof now room).config.aofRewriteThreshold ∧
      (p.flushAof now room).config.aofRewriteThreshold < (p.flushAof now room).aof.commandsWritten) ↔
      p.Rewrites := by
    rw [config_flushAof, commandsWritten_flushAof, Rewrites, and_iff_right haof]
  rw [cronAof, if_pos haof]
  exact if_congr hcond rfl rfl

theorem aof_rewriteAof {p : Persistence} (haof : p.config.aofEnabled = true) (room : Nat)
    (io : Aof.RewriteIo) (records : List Record) :
    p.rewriteAof room io records = ((p.aof.rewrite room io p.config.aofPath records).1,
      { p with aof := (p.aof.rewrite room io p.config.aofPath records).2 }) := by
  rw [rewriteAof, if_neg (not_not.mpr haof)]

theorem config_rewriteAof (room : Nat) (io : Aof.RewriteIo) (records : List Record) (p : Persistence) :
    (p.rewriteAof room io records).2.config = p.config := by
  unfold rewriteAof
  split
  · rfl
  · rfl

/-! ## Open logs -/

/-- The AOF is on and open, and the file, with all that is on its way to it, is `c`. -/
structure Holds (c : Bytes) (p : Persistence) : Prop where
  enabled : p.config.aofEnabled = true
  isOpen : p.aof.isOpen = true
  file : p.aof.data.isSome = true
  contents : p.aof.contents = c

namespace Holds

variable {c : Bytes} {p p' : Persistence}

theorem of_sameAof (h : Holds c p) (hs : SameAof p p') : Holds c p' := by
  obtain ⟨haof, hconfig⟩ := hs
  refine ⟨by rw [hconfig]; exact h.enabled, ?_, ?_, ?_⟩ <;> rw [haof]
  · exact h.isOpen
  · exact h.file
  · exact h.contents

/-- The hook appends to the buffer. -/
theorem onWrite (h : Holds c p) {args : Args} (hargs : args ≠ []) :
    Holds (c ++ encode args) (p.onWrite args) := by
  have haof : (p.onWrite args).aof = p.aof.append args := if_pos h.enabled
  refine ⟨h.enabled, ?_, ?_, ?_⟩ <;> rw [haof]
  · rw [Aof.append_of_open h.isOpen hargs]
    exact h.isOpen
  · rw [Aof.append_of_open h.isOpen hargs]
    exact h.file
  · rw [Aof.contents_append h.isOpen hargs, h.contents]

theorem onWrites : ∀ (B : List Args) {c : Bytes} {p : Persistence}, Holds c p → (∀ args ∈ B, args ≠ []) →
    Holds (c ++ encs B) (B.foldl (fun p args => p.onWrite args) p)
  | [], c, p, h, _ => by
    rw [show encs [] = [] from rfl, List.append_nil]
    exact h
  | args :: B, c, p, h, hB => by
    have hrest := onWrites B (h.onWrite (hB args List.mem_cons_self)) fun b hb =>
      hB b (List.mem_cons_of_mem _ hb)
    rw [List.append_assoc, ← encs_cons] at hrest
    exact hrest

theorem flushAof (h : Holds c p) {room : Nat} (hroom : p.aof.buffer.length ≤ room) (now : Int64) :
    Holds c (p.flushAof now room) := by
  obtain ⟨hcontents, hfile, hopen⟩ := Aof.contents_flush h.isOpen h.file hroom now
  have hflush : Holds c { p with aof := (p.aof.flush room now).2 } :=
    ⟨h.enabled, hopen, hfile, hcontents.trans h.contents⟩
  exact hflush.of_sameAof (sameAof_keepError ((p.aof.flush room now).1, _))

/-- What the file is when all of the log has been written to it. -/
theorem data_close (h : Holds c p) {room : Nat} (hroom : p.aof.buffer.length ≤ room) :
    (p.aof.close room).data = some c := by
  rw [Aof.data_close h.isOpen h.file hroom, h.contents]

/-- A cron that can write what it is given, and does not rewrite the log. -/
theorem cron (h : Holds c p) {room : Nat} (hroom : p.aof.buffer.length ≤ room) (hp : ¬ p.Rewrites)
    (now : Int64) (io : Aof.RewriteIo) (records : List Record) :
    SameAof { p with aof := p.aof.written.sync now } (p.cron now room io records) := by
  have hcron := sameAof_cron now room io records p
  rw [cronAof_eq h.enabled, if_neg hp, Persistence.flushAof, Aof.flush_of_le h.isOpen hroom] at hcron
  exact hcron

end Holds

end Persistence

end RP
