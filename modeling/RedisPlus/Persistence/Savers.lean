import RedisPlus.Persistence.SaveFile

/-!
# SAVE while a background save is in flight

`background_save` starts a thread that writes its snapshot with `rdb_save_file`, and refuses to
start another. `save` does not look whether one is in flight: it writes a later snapshot from
the main thread, to the same temporary file and the same target. `saversStep` interleaves the
calls that the two make to the system, none of which fails by itself.

If neither opens the temporary file while the other is at work, and the background saver does
not come after SAVE with older records, then the target ends up with the newest snapshot
(`newest_of_orderly`). Otherwise it may be missing, older than what SAVE reported, or a mixture
of the two (`savers_collide`).
-/

namespace RP

open Framework (Files run Along)

/-- The saver thread, and the thread that runs SAVE. -/
inductive Writer where
  | background | save
deriving DecidableEq

/-- The other of the two. -/
def Writer.other : Writer → Writer
  | .background => .save
  | .save => .background

/-- What the two write: the background saver's records are the earlier snapshot. -/
structure Saves where
  path : Bytes
  pid : Nat
  records : Writer → List Record

/-- The call of `rdb_save_file` that a writer makes. -/
def Saves.call (S : Saves) (w : Writer) : SaveCall := ⟨S.path, S.pid, S.records w⟩

/-- The files, and where each writer is in its call. -/
structure Savers where
  files : Files Bytes
  stage : Writer → SaveStage := fun _ => .openTemp

/-- The next call of one of the two, of which a write takes so many bytes at most. -/
def saversStep (S : Saves) (e : Writer × Nat) (s : Savers) : Savers :=
  let (stage, files) := saveStep (S.call e.1) {} (some e.2) (s.stage e.1, s.files)
  { files, stage := fun w => if w = e.1 then stage else s.stage w }

/-- Has the call opened its file, and not returned? -/
def SaveStage.underway : SaveStage → Bool
  | .openTemp | .returned _ => false
  | _ => true

/-- The snapshot of `w` is that of `w'`, or a later one. -/
def Saves.AsRecent (S : Saves) (w w' : Writer) : Prop :=
  S.records w = S.records w' ∨ w = .save ∨ w' = .background

/-- The target holds one of the snapshots, at least as recent as each that was reported saved. -/
def Newest (S : Saves) (s : Savers) : Prop :=
  ∃ w, Loads (s.files.read S.path) (S.records w) ∧
    ∀ w', s.stage w' = .returned (.ok ()) → S.AsRecent w w'

/-- Who opens the temporary file does so while the other is not under way, and the background
saver not after SAVE, unless its records are the same. -/
def Orderly (S : Saves) (e : Writer × Nat) (s : Savers) : Prop :=
  s.stage e.1 = .openTemp →
    (s.stage e.1.other).underway = false ∧
      (e.1 = .background → s.stage .save = .openTemp ∨ S.records .background = S.records .save)

instance (S : Saves) (e : Writer × Nat) (s : Savers) : Decidable (Orderly S e s) :=
  inferInstanceAs (Decidable (_ → _ ∧ (_ → _ ∨ _)))

/-! ## A call that nothing disturbs -/

/-- Has a call failed? -/
def SaveStage.failed : SaveStage → Bool
  | .removeTemp _ | .returned (.error _) => true
  | _ => false

theorem saveStep_ne_openTemp (c : SaveCall) (io : SaveIo) (wrote : Option Nat)
    (s : SaveStage × Files Bytes) : (saveStep c io wrote s).1 ≠ .openTemp := by
  unfold saveStep
  repeat' split
  all_goals simp

/-- A call fails only if the system refuses it something. -/
theorem not_failed_saveStep {c : SaveCall} {F₀ : Files Bytes} {s : SaveStage × Files Bytes}
    (hinv : SaveInv c {} F₀ s) (h : s.1.failed = false) (n : Nat) :
    (saveStep c {} (some n) s).1.failed = false := by
  obtain ⟨stage, F⟩ := s
  cases stage with
  | openTemp => rfl
  | write fd pos =>
    simp only [saveStep]
    split <;> rfl
  | reopen =>
    obtain ⟨fd, hst⟩ := hinv
    simp only [saveStep, hst.temp]
    rfl
  | sync fd => rfl
  | removeTarget => rfl
  | rename =>
    obtain ⟨fd, htemp, -, -⟩ := hinv
    obtain ⟨F', hren, -⟩ := Files.rename_spec (b := c.path) htemp
    simp only [saveStep, if_true, hren]
    rfl
  | removeTemp e => cases h
  | returned result => exact h

theorem eq_returned_of_not_underway {stage : SaveStage} (hfail : stage.failed = false)
    (hopen : stage ≠ .openTemp) (hidle : stage.underway = false) : stage = .returned (.ok ()) := by
  cases stage with
  | openTemp => exact absurd rfl hopen
  | returned result =>
    cases result with
    | ok u => rfl
    | error e => cases hfail
  | _ => cases hidle

/-! ## Two of them -/

/-- Neither is under way. -/
structure Settled (S : Saves) (s : Savers) : Prop where
  idle : ∀ w, (s.stage w).underway = false
  apart : Files.Apart s.files (S.call .save).temp S.path
  saved : s.stage .save = .returned (.ok ()) → s.files.read S.path = some (S.call .save).payload

/-- Only `w` is under way, and what it found when it opened its file was `F₀`. -/
structure Working (S : Saves) (s : Savers) (w : Writer) (F₀ : Files Bytes) : Prop where
  idle : (s.stage w.other).underway = false
  apart : Files.Apart F₀ (S.call w).temp S.path
  inv : SaveInv (S.call w) {} F₀ (s.stage w, s.files)
  recent : w = .background → s.stage .save = .openTemp ∨ S.records .background = S.records .save

/-- No call has failed, and no two write at the same time. -/
structure SaversInv (S : Saves) (s : Savers) : Prop where
  ok : ∀ w, (s.stage w).failed = false
  phase : Settled S s ∨ ∃ w F₀, (s.stage w).underway = true ∧ Working S s w F₀

variable {S : Saves} {s : Savers}

theorem stage_saversStep (e : Writer × Nat) : (saversStep S e s).stage e.1 =
    (saveStep (S.call e.1) {} (some e.2) (s.stage e.1, s.files)).1 := if_pos rfl

theorem stage_saversStep_of_ne {e : Writer × Nat} {w : Writer} (h : w ≠ e.1) :
    (saversStep S e s).stage w = s.stage w := if_neg h

theorem files_saversStep (e : Writer × Nat) : (saversStep S e s).files =
    (saveStep (S.call e.1) {} (some e.2) (s.stage e.1, s.files)).2 := rfl

theorem Writer.other_ne (w : Writer) : w.other ≠ w := by cases w <;> decide

theorem Writer.eq_or_eq_other (w v : Writer) : v = w ∨ v = w.other := by
  cases w <;> cases v <;> decide

/-- A call that has returned does nothing more. -/
theorem saversStep_of_returned {e : Writer × Nat} {result : Except SaveError Unit}
    (h : s.stage e.1 = .returned result) : saversStep S e s = s := by
  have hstage : (saversStep S e s).stage = s.stage := by
    funext w
    by_cases hw : w = e.1
    · rw [hw, stage_saversStep, h]
      rfl
    · exact stage_saversStep_of_ne hw
  have hfiles : (saversStep S e s).files = s.files := by rw [files_saversStep, h]; rfl
  cases s
  exact congr (congrArg Savers.mk hfiles) hstage

/-- The target has the snapshot of `w` when `w` returns, and it is SAVE's if SAVE has returned. -/
theorem Working.settled {w : Writer} {F₀ : Files Bytes} (h : Working S s w F₀)
    (hret : s.stage w = .returned (.ok ())) : Settled S s := by
  have hinv := h.inv
  rw [hret] at hinv
  obtain ⟨htemp, fd, hpath, hfile⟩ := hinv
  refine ⟨fun v => ?_, fun i hi => ?_, fun hsave => ?_⟩
  · rcases w.eq_or_eq_other v with rfl | rfl
    · rw [hret]; rfl
    · exact h.idle
  · rw [show s.files.dir (S.call .save).temp = none from htemp] at hi
    cases hi
  · have hrecords : S.records w = S.records .save := by
      cases w with
      | save => rfl
      | background =>
        rcases h.recent rfl with hopen | he
        · rw [hopen] at hsave
          cases hsave
        · exact he
    rw [show S.path = (S.call w).path from rfl, Files.read_of_dir hpath, hfile, SaveCall.payload,
      SaveCall.payload]
    exact congrArg (fun rs => some (rdbSerialize rs)) hrecords

/-- The next call of the one that is under way, or about to be. -/
theorem Working.step {w : Writer} {F₀ : Files Bytes} (h : Working S s w F₀) (n : Nat) :
    Working S (saversStep S (w, n) s) w F₀ := by
  refine ⟨?_, h.apart, ?_, fun hw => ?_⟩
  · rw [stage_saversStep_of_ne w.other_ne]
    exact h.idle
  · have := saveStep_inv h.apart h.inv (some n)
    rw [stage_saversStep, files_saversStep]
    exact this
  · rw [stage_saversStep_of_ne (by rw [hw]; simp)]
    exact h.recent hw

theorem SaversInv.of_working {w : Writer} {F₀ : Files Bytes} (hok : ∀ v, (s.stage v).failed = false)
    (hopen : s.stage w ≠ .openTemp) (h : Working S s w F₀) : SaversInv S s := by
  refine ⟨hok, ?_⟩
  cases hu : (s.stage w).underway with
  | true => exact .inr ⟨w, F₀, hu, h⟩
  | false => exact .inl (h.settled (eq_returned_of_not_underway (hok w) hopen hu))

/-- An orderly call keeps the two apart. -/
theorem saversInv_step {e : Writer × Nat} (h : SaversInv S s) (ho : Orderly S e s) :
    SaversInv S (saversStep S e s) := by
  obtain ⟨w, n⟩ := e
  -- the call of one that works from `F₀`
  have hwork {F₀ : Files Bytes} (hw : Working S s w F₀) : SaversInv S (saversStep S (w, n) s) := by
    refine .of_working (fun v => ?_) ?_ (hw.step n)
    · rcases w.eq_or_eq_other v with rfl | rfl
      · rw [stage_saversStep]
        exact not_failed_saveStep hw.inv (h.ok v) n
      · rw [stage_saversStep_of_ne w.other_ne]
        exact h.ok _
    · rw [stage_saversStep]
      exact saveStep_ne_openTemp _ _ _ _
  have hreturned (hu : (s.stage w).underway = false) (hopen : s.stage w ≠ .openTemp) :
      SaversInv S (saversStep S (w, n) s) := by
    rw [saversStep_of_returned (eq_returned_of_not_underway (h.ok w) hopen hu)]
    exact h
  rcases h.phase with hs | ⟨v, F₀, hu, hv⟩
  · by_cases hopen : s.stage w = .openTemp
    · obtain ⟨hidle, hrecent⟩ := ho hopen
      have hinv : SaveInv (S.call w) {} s.files (s.stage w, s.files) := by rw [hopen]; rfl
      exact hwork ⟨hidle, hs.apart, hinv, hrecent⟩
    · exact hreturned (hs.idle w) hopen
  · rcases v.eq_or_eq_other w with rfl | rfl
    · exact hwork hv
    · refine hreturned hv.idle fun hopen => ?_
      have := (ho hopen).1
      rw [show v.other.other = v by cases v <;> rfl, hu] at this
      cases this

/-- In every orderly interleaving, once both calls have returned, the target holds one of the two
snapshots, and one that is at least as recent as each that was reported saved. -/
theorem newest_of_orderly {F : Files Bytes} (hap : Files.Apart F (S.call .save).temp S.path)
    (hsize : (S.call .save).payload.length < 2 ^ 64) {es : List (Writer × Nat)}
    (h : Along (saversStep S) (Orderly S) es { files := F })
    (hdone : ∀ w, ∃ result, (run (saversStep S) es { files := F }).stage w = .returned result) :
    Newest S (run (saversStep S) es { files := F }) := by
  have hinit : SaversInv S { files := F } :=
    ⟨fun _ => rfl, .inl ⟨fun _ => rfl, hap, fun h => nomatch h⟩⟩
  have hinv := Along.invariant (fun _ _ => saversInv_step) hinit h
  generalize run (saversStep S) es { files := F } = s at hinv hdone ⊢
  have hidle (w : Writer) : (s.stage w).underway = false := by
    obtain ⟨result, hw⟩ := hdone w
    rw [hw]; rfl
  have hsettled : Settled S s := by
    rcases hinv.phase with hs | ⟨w, F₀, hu, -⟩
    · exact hs
    · rw [hidle w] at hu
      cases hu
  have hsave : s.stage .save = .returned (.ok ()) := by
    obtain ⟨result, hw⟩ := hdone .save
    exact eq_returned_of_not_underway (hinv.ok .save) (by rw [hw]; simp) (hidle .save)
  refine ⟨.save, ?_, fun w' _ => .inr (.inl rfl)⟩
  rw [hsettled.saved hsave]
  exact loads_rdbSerialize hsize

/-! ## Runs -/

/-- A key whose value changes between the two snapshots. -/
def changedKey : Saves where
  path := str "dump.rdb"
  pid := 7
  records
    | .background => [⟨str "k", str "v", kNoExpiry⟩]
    | .save => [⟨str "k", str "w", kNoExpiry⟩]

/-- The two calls in a directory without a snapshot. -/
def saveBoth (es : List (Writer × Nat)) : Savers :=
  run (saversStep changedKey) es { files := .single (str "appendonly.aof") {} }

/-- SAVE after the background saver: its snapshot is what is left. -/
theorem newest_in_turn :
    Newest changedKey (saveBoth (List.replicate 7 (.background, 64) ++ List.replicate 7 (.save, 64))) := by
  refine newest_of_orderly ?_ ?_ ?_ fun w => ⟨.ok (), ?_⟩
  · intro i hi
    rw [show (Files.single (str "appendonly.aof") {}).dir (changedKey.call .save).temp = none by
      decide] at hi
    cases hi
  · rw [SaveCall.payload, length_rdbSerialize]
    decide
  · decide +kernel
  · cases w <;> decide +kernel

/-- SAVE empties the file that the background saver is about to rename, and then removes it. -/
def removing : List (Writer × Nat) :=
  List.replicate 6 (.background, 64) ++ List.replicate 5 (.save, 64) ++ [(.background, 64)] ++
    List.replicate 3 (.save, 64)

/-- The background saver comes late, with its older snapshot. -/
def outdating : List (Writer × Nat) := List.replicate 7 (.save, 64) ++ List.replicate 7 (.background, 64)

/-- The background saver writes its last bytes, the checksum, into the file that SAVE has written. -/
def mixing : List (Writer × Nat) :=
  List.replicate 2 (.background, 40) ++ List.replicate 2 (.save, 64) ++
    List.replicate 5 (.background, 64) ++ List.replicate 5 (.save, 64) ++ List.replicate 2 (.background, 64)

theorem not_newest_of_none {S : Saves} {s : Savers} (h : s.files.read S.path = none)
    (hne : ∀ w, S.records w ≠ []) : ¬ Newest S s := by
  rintro ⟨w, hl, -⟩
  rw [h] at hl
  exact hne w (hl.unique loads_none)

theorem not_loads_of_rdbCheck {file e : Bytes} (hne : file ≠ []) (h : rdbCheck file = some e)
    (rs : List Record) : ¬ Loads (some file) rs := by
  rintro ⟨n, hn⟩
  have := hn n (Nat.le_refl n)
  rw [Persistence.rdbLoadFile, if_neg hne, rdbParse, h] at this
  simp at this

/-- The background saver reports success, and no file is left. -/
theorem saveBoth_removing : (saveBoth removing).stage .background = .returned (.ok ()) ∧
    (saveBoth removing).stage .save = .returned (.error .renameFailed) ∧
    (saveBoth removing).files.read changedKey.path = none := by
  decide +kernel

/-- Both report success, and the older snapshot is left. -/
theorem saveBoth_outdating : (saveBoth outdating).stage .background = .returned (.ok ()) ∧
    (saveBoth outdating).stage .save = .returned (.ok ()) ∧
    (saveBoth outdating).files.read changedKey.path =
      some (rdbSerialize (changedKey.records .background)) := by
  decide +kernel

/-- SAVE's snapshot with the other's checksum. -/
def mixed : Bytes :=
  (rdbSerialize (changedKey.records .save)).take 40 ++ (rdbSerialize (changedKey.records .background)).drop 40

/-- SAVE reports success, and a mixture is left. -/
theorem saveBoth_mixing : (saveBoth mixing).stage .background = .returned (.error .renameFailed) ∧
    (saveBoth mixing).stage .save = .returned (.ok ()) ∧
    (saveBoth mixing).files.read changedKey.path = some mixed := by
  decide +kernel

/-- After each of these both calls have returned, and what one of them reported saved is not
there: no file is left, or an older snapshot, or one that `rdb_load_file` refuses. -/
theorem savers_collide :
    ((saveBoth removing).stage .background = .returned (.ok ()) ∧
      (saveBoth removing).stage .save = .returned (.error .renameFailed) ∧
      ¬ Newest changedKey (saveBoth removing)) ∧
    ((saveBoth outdating).stage .background = .returned (.ok ()) ∧
      (saveBoth outdating).stage .save = .returned (.ok ()) ∧
      ¬ Newest changedKey (saveBoth outdating)) ∧
    ((saveBoth mixing).stage .background = .returned (.error .renameFailed) ∧
      (saveBoth mixing).stage .save = .returned (.ok ()) ∧
      ¬ Newest changedKey (saveBoth mixing)) := by
  obtain ⟨hbg₁, hsave₁, hread₁⟩ := saveBoth_removing
  obtain ⟨hbg₂, hsave₂, hread₂⟩ := saveBoth_outdating
  obtain ⟨hbg₃, hsave₃, hread₃⟩ := saveBoth_mixing
  refine ⟨⟨hbg₁, hsave₁, not_newest_of_none hread₁ ?_⟩, ⟨hbg₂, hsave₂, ?_⟩, ⟨hbg₃, hsave₃, ?_⟩⟩
  · intro w
    cases w <;> decide
  · rintro ⟨w, hl, hr⟩
    rw [hread₂] at hl
    have hw := hl.unique (loads_rdbSerialize (by rw [length_rdbSerialize]; decide))
    cases w with
    | save => exact absurd hw (by decide)
    | background => exact absurd (hr .save hsave₂) (by simp [Saves.AsRecent]; decide)
  · rintro ⟨w, hl, -⟩
    rw [hread₃] at hl
    exact not_loads_of_rdbCheck (by decide +kernel)
      (show rdbCheck mixed = some (str "checksum mismatch: file corrupt") by decide +kernel) _ hl

end RP
