import RedisPlus.Framework.Files
import RedisPlus.Framework.Machine
import RedisPlus.Persistence.Basic
import RedisPlus.Rdb.Truncated

/-!
# Writing a snapshot file

`rdb_save_file` call by call: a `SaveStage` is the call it makes next, and `saveStep` makes it,
with the system's answers as arguments. The snapshot goes to a temporary file, which then takes
the target's name; before that the target is removed. `SaveInv` says at each stage what the two
names stand for.

Whether a crash leaves a snapshot that loads as the old or the new one, and a failed call the old one,
depends on when it comes: not between the removal and the renaming, and not after the renaming if the
new file is not synced (`save_atomic_iff`).
-/

namespace RP

open Framework (Files File run)

/-- A call of `rdb_save_file`. -/
structure SaveCall where
  path : Bytes
  pid : Nat
  records : List Record

namespace SaveCall

/-- The temporary file's name. -/
def temp (c : SaveCall) : Bytes := c.path ++ str ".tmp-" ++ natToString c.pid

/-- The bytes that are to be the file. -/
def payload (c : SaveCall) : Bytes := rdbSerialize c.records

end SaveCall

/-- Where `rdb_save_file` returns false. -/
inductive SaveError where
  | cannotOpen | writeFailed | renameFailed
deriving DecidableEq

/-- The texts of its errors. -/
def SaveError.message (c : SaveCall) : SaveError → Bytes
  | .cannotOpen => str "cannot open " ++ c.temp ++ str " for writing"
  | .writeFailed => str "write failed for " ++ c.temp
  | .renameFailed => str "rename into place failed for " ++ c.path

/-- What the system answers. -/
structure SaveIo where
  opens : Bool := true
  reopens : Bool := true
  syncs : Bool := true
  removes : Bool := true
  renames : Bool := true
  /-- The removal of the temporary file after a failure. -/
  cleans : Bool := true

/-- The next call to the system. -/
inductive SaveStage where
  | openTemp
  /-- The stream on `fd` has written `pos` bytes. -/
  | write (fd pos : Nat)
  | reopen
  | sync (fd : Nat)
  | removeTarget
  | rename
  | removeTemp (e : SaveError)
  | returned (result : Except SaveError Unit)
deriving DecidableEq

/-- One call to the system. A write takes `wrote` bytes at most, or fails. -/
def saveStep (c : SaveCall) (io : SaveIo) (wrote : Option Nat) :
    SaveStage × Files Bytes → SaveStage × Files Bytes
  | (.openTemp, F) =>
    if io.opens then (.write (F.openTrunc c.temp).1 0, (F.openTrunc c.temp).2)
    else (.returned (.error .cannotOpen), F)
  | (.write fd pos, F) =>
    if pos = c.payload.length then (.reopen, F)
    else match wrote with
      | none => (.removeTemp .writeFailed, F)
      | some n =>
        let bs := (c.payload.drop pos).take n
        (.write fd (pos + bs.length), F.writeAt fd pos bs)
  | (.reopen, F) =>
    match F.dir c.temp with
    | some fd => if io.reopens then (.sync fd, F) else (.removeTarget, F)
    | none => (.removeTarget, F)
  | (.sync fd, F) => (.removeTarget, if io.syncs then F.sync fd else F)
  | (.removeTarget, F) => (.rename, if io.removes then F.unlink c.path else F)
  | (.rename, F) =>
    if io.renames then
      match F.rename c.temp c.path with
      | some F => (.returned (.ok ()), F)
      | none => (.removeTemp .renameFailed, F)
    else (.removeTemp .renameFailed, F)
  | (.removeTemp e, F) => (.returned (.error e), if io.cleans then F.unlink c.temp else F)
  | (.returned result, F) => (.returned result, F)

theorem SaveCall.temp_ne_path (c : SaveCall) : c.path ≠ c.temp := by
  intro h
  have := congrArg List.length h
  simp only [temp, List.length_append, show (str ".tmp-").length = 5 by decide] at this
  omega

/-! ## What the names stand for -/

/-- Was the new file synced before it took the target's name? -/
def SaveIo.durable (io : SaveIo) : Bool := io.reopens && io.syncs

/-- The target is as it was in `F₀`, and the temporary file is another one, `f`. -/
structure Staged (c : SaveCall) (F₀ F : Files Bytes) (fd : Nat) (f : File) : Prop where
  target : Files.Keeps F₀ F c.path
  temp : F.dir c.temp = some fd
  file : F.inode fd = f
  other : F₀.dir c.path ≠ some fd

/-- The target after its removal, which may have failed. -/
def Removed (c : SaveCall) (io : SaveIo) (F₀ F : Files Bytes) : Prop :=
  if io.removes then F.dir c.path = none else Files.Keeps F₀ F c.path

/-- The target after a failure. -/
def Abandoned (c : SaveCall) (io : SaveIo) (F₀ F : Files Bytes) (e : SaveError) : Prop :=
  if e = .renameFailed then Removed c io F₀ F else Files.Keeps F₀ F c.path

/-- What the files are at each stage of a call that found `F₀`. -/
def SaveInv (c : SaveCall) (io : SaveIo) (F₀ : Files Bytes) : SaveStage × Files Bytes → Prop
  | (.openTemp, F) => F = F₀
  | (.write fd pos, F) =>
    pos ≤ c.payload.length ∧ Staged c F₀ F fd ⟨c.payload.take pos, false⟩
  | (.reopen, F) => ∃ fd, Staged c F₀ F fd ⟨c.payload, false⟩
  | (.sync fd, F) => io.reopens = true ∧ Staged c F₀ F fd ⟨c.payload, false⟩
  | (.removeTarget, F) => ∃ fd, Staged c F₀ F fd ⟨c.payload, io.durable⟩
  | (.rename, F) =>
    ∃ fd, F.dir c.temp = some fd ∧ F.inode fd = ⟨c.payload, io.durable⟩ ∧ Removed c io F₀ F
  | (.removeTemp e, F) | (.returned (.error e), F) => Abandoned c io F₀ F e
  | (.returned (.ok _), F) =>
    F.dir c.temp = none ∧ ∃ fd, F.dir c.path = some fd ∧ F.inode fd = ⟨c.payload, io.durable⟩

variable {c : SaveCall} {io : SaveIo} {F₀ F : Files Bytes}

theorem Staged.setFile {fd : Nat} {f : File} (h : Staged c F₀ F fd f) (f' : File) :
    Staged c F₀ (F.setFile fd f') fd f' :=
  ⟨h.target.trans (Files.keeps_setFile (by rw [h.target.dir]; exact h.other) f'), h.temp,
    Files.inode_setFile fd f', h.other⟩

theorem staged_openTrunc (h : Files.Apart F₀ c.temp c.path) :
    Staged c F₀ (F₀.openTrunc c.temp).2 (F₀.openTrunc c.temp).1 {} := by
  obtain ⟨hdir, hfile, hother⟩ := Files.openTrunc_spec F₀ c.temp
  obtain ⟨hkeeps, hne⟩ := hother c.path c.temp_ne_path h
  exact ⟨hkeeps, hdir, hfile, hne⟩

theorem Staged.write {fd pos : Nat} (h : Staged c F₀ F fd ⟨c.payload.take pos, false⟩)
    (hpos : pos ≤ c.payload.length) (n : Nat) :
    Staged c F₀ (F.writeAt fd pos ((c.payload.drop pos).take n)) fd
      ⟨c.payload.take (pos + ((c.payload.drop pos).take n).length), false⟩ := by
  have hlen : (c.payload.take pos).length = pos := List.length_take_of_le hpos
  have hdata : Framework.overwrite (F.inode fd).data pos ((c.payload.drop pos).take n) =
      c.payload.take (pos + ((c.payload.drop pos).take n).length) := by
    rw [h.file]
    have := Framework.overwrite_end (c.payload.take pos) ((c.payload.drop pos).take n)
    rw [hlen] at this
    rw [this, List.take_add, List.length_take]
    congr 1
    rw [← List.take_eq_take_min]
  have := h.setFile ⟨c.payload.take (pos + ((c.payload.drop pos).take n).length), false⟩
  rw [← hdata] at this ⊢
  exact this

theorem Staged.sync {fd : Nat} {data : Bytes} {synced : Bool} (h : Staged c F₀ F fd ⟨data, synced⟩) :
    Staged c F₀ (F.sync fd) fd ⟨data, true⟩ := by
  have hset := h.setFile ⟨data, true⟩
  rw [Files.sync, h.file]
  exact hset

theorem Staged.removeTarget {fd : Nat} {f : File} (h : Staged c F₀ F fd f) :
    let F' := if io.removes then F.unlink c.path else F
    F'.dir c.temp = some fd ∧ F'.inode fd = f ∧ Removed c io F₀ F' := by
  unfold Removed
  cases io.removes with
  | true =>
    refine ⟨?_, h.file, Files.dir_unlink _⟩
    exact (Files.dir_unlink_of_ne c.temp_ne_path.symm).trans h.temp
  | false => exact ⟨h.temp, h.file, h.target⟩

theorem Removed.of_keeps {F' : Files Bytes} (h : Removed c io F₀ F) (hk : Files.Keeps F F' c.path) :
    Removed c io F₀ F' := by
  unfold Removed at h ⊢
  split
  · rename_i hr
    rw [if_pos hr] at h
    exact hk.dir.trans h
  · rename_i hr
    rw [if_neg hr] at h
    exact h.trans hk

theorem Abandoned.of_keeps {F' : Files Bytes} {e : SaveError} (h : Abandoned c io F₀ F e)
    (hk : Files.Keeps F F' c.path) : Abandoned c io F₀ F' e := by
  unfold Abandoned at h ⊢
  split
  · rename_i he
    rw [if_pos he] at h
    exact h.of_keeps hk
  · rename_i he
    rw [if_neg he] at h
    exact h.trans hk

/-- One call keeps the files what they should be. -/
theorem saveStep_inv (hap : Files.Apart F₀ c.temp c.path) {s : SaveStage × Files Bytes}
    (h : SaveInv c io F₀ s) (wrote : Option Nat) : SaveInv c io F₀ (saveStep c io wrote s) := by
  obtain ⟨stage, F⟩ := s
  cases stage with
  | openTemp =>
    obtain rfl : F = F₀ := h
    simp only [saveStep]
    split
    · exact ⟨Nat.zero_le _, staged_openTrunc hap⟩
    · exact Files.Keeps.refl F c.path
  | write fd pos =>
    obtain ⟨hpos, hst⟩ := h
    simp only [saveStep]
    split
    · rename_i he
      rw [he, List.take_length] at hst
      exact ⟨fd, hst⟩
    · cases wrote with
      | none => exact hst.target
      | some n =>
        refine ⟨?_, hst.write hpos n⟩
        rw [List.length_take, List.length_drop]
        omega
  | reopen =>
    obtain ⟨fd, hst⟩ := h
    simp only [saveStep, hst.temp]
    split
    · rename_i hre
      exact ⟨hre, hst⟩
    · rename_i hre
      exact ⟨fd, by rw [show io.durable = false by simp [SaveIo.durable, hre]]; exact hst⟩
  | sync fd =>
    obtain ⟨hre, hst⟩ := h
    refine ⟨fd, ?_⟩
    simp only [SaveIo.durable, hre, Bool.true_and]
    split
    · rename_i hs
      rw [hs]
      exact hst.sync
    · rename_i hs
      rw [Bool.not_eq_true] at hs
      rw [hs]
      exact hst
  | removeTarget =>
    obtain ⟨fd, hst⟩ := h
    exact ⟨fd, hst.removeTarget⟩
  | rename =>
    obtain ⟨fd, htemp, hfile, hrem⟩ := h
    simp only [saveStep]
    split
    · obtain ⟨F', hren, hinode, hdir, hother⟩ := Files.rename_spec (b := c.path) htemp
      simp only [hren]
      refine ⟨?_, fd, hdir, by rw [hinode]; exact hfile⟩
      rw [hother _ c.temp_ne_path.symm, if_pos rfl]
    · exact hrem
  | removeTemp e =>
    refine Abandoned.of_keeps h ?_
    split
    · exact Files.keeps_unlink c.temp_ne_path
    · exact .refl F c.path
  | returned result => exact h

/-- A call that has made these calls to the system, a write taking so many bytes or failing. -/
def saveRun (c : SaveCall) (io : SaveIo) (calls : List (Option Nat)) (F : Files Bytes) :
    SaveStage × Files Bytes :=
  run (saveStep c io) calls (.openTemp, F)

theorem saveRun_inv (hap : Files.Apart F₀ c.temp c.path) (calls : List (Option Nat)) :
    SaveInv c io F₀ (saveRun c io calls F₀) :=
  List.foldlRecOn calls _ rfl fun _ h wrote _ => saveStep_inv hap h wrote

/-! ## Loading what is left -/

/-- `rdb_load_file` returns true with the records `rs`. -/
def Loads (file : Option Bytes) (rs : List Record) : Prop :=
  ∃ enough, ∀ rounds ≥ enough, Persistence.rdbLoadFile rounds file = some ⟨.ok (), rs⟩

theorem Loads.unique {file : Option Bytes} {rs rs' : List Record} (h : Loads file rs)
    (h' : Loads file rs') : rs = rs' := by
  obtain ⟨n, hn⟩ := h
  obtain ⟨m, hm⟩ := h'
  have := (hn (max n m) (Nat.le_max_left n m)).symm.trans (hm (max n m) (Nat.le_max_right n m))
  exact congrArg RdbResult.out (Option.some.inj this)

theorem loads_none : Loads none [] := ⟨0, fun _ _ => rfl⟩

theorem loads_nil : Loads (some []) [] := ⟨0, fun _ _ => rfl⟩

theorem loads_rdbSerialize {rs : List Record} (h : (rdbSerialize rs).length < 2 ^ 64) :
    Loads (some (rdbSerialize rs)) rs := by
  refine ⟨2 * rs.length + 4, fun rounds hr => ?_⟩
  rw [Persistence.rdbLoadFile, if_neg (rdbSerialize_ne_nil rs)]
  exact rdbParse_rdbSerialize h hr

theorem not_loads_take {rs : List Record} (h : (rdbSerialize rs).length < 2 ^ 64) {k : Nat}
    (h0 : k ≠ 0) (hk : k < (rdbSerialize rs).length) (out : List Record) :
    ¬ Loads (some ((rdbSerialize rs).take k)) out := by
  rintro ⟨n, hn⟩
  have hne : (rdbSerialize rs).take k ≠ [] := by
    intro he
    have := congrArg List.length he
    rw [List.length_take_of_le (by omega), List.length_nil] at this
    exact h0 this
  have := hn n (Nat.le_refl n)
  rw [Persistence.rdbLoadFile, if_neg hne] at this
  exact rdbParse_take h hk n out this

/-- The old or the new records can be loaded. -/
def Recovers (file : Option Bytes) (old new : List Record) : Prop := Loads file old ∨ Loads file new

theorem recovers_iff_of_empty {file : Option Bytes} (h : Loads file []) {old new : List Record} :
    Recovers file old new ↔ old = [] ∨ new = [] := by
  constructor
  · rintro (ho | hn)
    · exact .inl (ho.unique h)
    · exact .inr (hn.unique h)
  · rintro (rfl | rfl)
    · exact .inl h
    · exact .inr h

/-- A file that was renamed into place, of which a crash leaves a part unless it was synced. -/
theorem recovers_survives_iff {old new : List Record} (h : (rdbSerialize new).length < 2 ^ 64)
    (synced : Bool) (keep : Option Nat) :
    Recovers (some (File.survives ⟨rdbSerialize new, synced⟩ keep)) old new ↔
      (synced = false → ∀ k, keep = some k →
        (rdbSerialize new).length ≤ k ∨ k = 0 ∧ (old = [] ∨ new = [])) := by
  have hall : Recovers (some (rdbSerialize new)) old new := .inr (loads_rdbSerialize h)
  cases keep with
  | none => exact iff_of_true hall (by simp)
  | some k =>
    cases synced with
    | true => exact iff_of_true hall (by simp)
    | false =>
      simp only [File.survives, Bool.false_eq_true, if_false, forall_const, Option.some.injEq,
        forall_eq']
      by_cases hk : (rdbSerialize new).length ≤ k
      · rw [List.take_of_length_le hk]
        exact iff_of_true hall (.inl hk)
      by_cases h0 : k = 0
      · subst h0
        rw [List.take_zero, recovers_iff_of_empty loads_nil]
        simp [hk]
      · refine iff_of_false ?_ (by simp [hk, h0])
        rintro (ho | hn)
        · exact not_loads_take h h0 (by omega) _ ho
        · exact not_loads_take h h0 (by omega) _ hn

/-- The call is between the removal of the target and the renaming, or the renaming failed. -/
def SaveStage.gap : SaveStage → Bool
  | .rename | .removeTemp .renameFailed | .returned (.error .renameFailed) => true
  | _ => false

theorem SaveInv.removed {s : SaveStage × Files Bytes} (h : SaveInv c io F₀ s)
    (hgap : s.1.gap = true) : Removed c io F₀ s.2 := by
  obtain ⟨stage, F⟩ := s
  unfold SaveStage.gap at hgap
  split at hgap
  · rename_i he
    obtain rfl : stage = .rename := he
    obtain ⟨-, -, -, hrem⟩ := h
    exact hrem
  · rename_i he
    obtain rfl : stage = .removeTemp .renameFailed := he
    exact h
  · rename_i he
    obtain rfl : stage = .returned (.error .renameFailed) := he
    exact h
  · cases hgap

theorem SaveInv.keeps {s : SaveStage × Files Bytes} (h : SaveInv c io F₀ s)
    (hgap : s.1.gap = false) (hret : s.1 ≠ .returned (.ok ())) : Files.Keeps F₀ s.2 c.path := by
  obtain ⟨stage, F⟩ := s
  have habandoned (e : SaveError) (he : e ≠ .renameFailed) (ha : Abandoned c io F₀ F e) :
      Files.Keeps F₀ F c.path := by rwa [Abandoned, if_neg he] at ha
  cases stage with
  | openTemp =>
    obtain rfl : F = F₀ := h
    exact .refl F c.path
  | write fd pos => exact h.2.target
  | reopen =>
    obtain ⟨fd, hst⟩ := h
    exact hst.target
  | sync fd => exact h.2.target
  | removeTarget =>
    obtain ⟨fd, hst⟩ := h
    exact hst.target
  | rename => cases hgap
  | removeTemp e => exact habandoned e (by rintro rfl; cases hgap) h
  | returned result =>
    cases result with
    | ok u => exact absurd rfl hret
    | error e => exact habandoned e (by rintro rfl; cases hgap) h

/-- What a call that was `stopped` owes: the old or the new records can be loaded, and if it has
returned false, the old ones. -/
structure SaveAtomic (file : Option Bytes) (old new : List Record) (stopped : SaveStage) : Prop where
  recovers : Recovers file old new
  failed : ∀ e, stopped = .returned (.error e) → Loads file old

theorem SaveAtomic.of_loads {file : Option Bytes} {old : List Record} (h : Loads file old)
    (new : List Record) (stopped : SaveStage) : SaveAtomic file old new stopped :=
  ⟨.inl h, fun _ _ => h⟩

/-- A call that has not returned false owes no more than one of the two. -/
theorem saveAtomic_iff_recovers {file : Option Bytes} {old new : List Record} {stopped : SaveStage}
    (h : ∀ e, stopped ≠ .returned (.error e)) :
    SaveAtomic file old new stopped ↔ Recovers file old new :=
  ⟨SaveAtomic.recovers, fun hr => ⟨hr, fun e he => absurd he (h e)⟩⟩

/-- With no file left, a call that returned false has lost the old records unless there were none. -/
theorem saveAtomic_iff_of_empty {file : Option Bytes} (h : Loads file []) {old new : List Record}
    {stopped : SaveStage} (hgap : stopped.gap = true) : SaveAtomic file old new stopped ↔
      old = [] ∨ new = [] ∧ stopped ≠ .returned (.error .renameFailed) := by
  by_cases hret : stopped = .returned (.error .renameFailed)
  · constructor
    · exact fun ha => .inl ((ha.failed _ hret).unique h)
    · rintro (rfl | ⟨-, hne⟩)
      · exact .of_loads h ..
      · exact absurd hret hne
  · have hopen : ∀ e, stopped ≠ .returned (.error e) := by
      rintro e rfl
      cases e with
      | renameFailed => exact hret rfl
      | _ => cases hgap
    rw [saveAtomic_iff_recovers hopen, recovers_iff_of_empty h, and_iff_left hret]

/-- Whatever the system answers and wherever the call is `stopped`, it leaves what it owes exactly
when it is not stopped, and does not fail, between the removal of the target and the renaming; and,
if the machine goes down after the renaming, the new file had been synced or got to the disk whole.
Where the old snapshot is empty, a missing file is as good, and where the new one is, unless the
call has returned false; an empty file at the end is as good where one of the two is empty. -/
theorem save_atomic_iff {old : List Record}
    (hold : ∀ keep, Loads ((F₀.crash keep).read c.path) old) (hap : Files.Apart F₀ c.temp c.path)
    (hsize : c.payload.length < 2 ^ 64) (io : SaveIo) (calls : List (Option Nat)) (keep : Option Nat)
    {stopped : SaveStage} (hstopped : (saveRun c io calls F₀).1 = stopped) :
    SaveAtomic (((saveRun c io calls F₀).2.crash keep).read c.path) old c.records stopped ↔
      (stopped.gap = true → io.removes = true →
        old = [] ∨ c.records = [] ∧ stopped ≠ .returned (.error .renameFailed)) ∧
      (stopped = .returned (.ok ()) → io.durable = false →
        ∀ k, keep = some k → c.payload.length ≤ k ∨ k = 0 ∧ (old = [] ∨ c.records = [])) := by
  have hinv : SaveInv c io F₀ (saveRun c io calls F₀) := saveRun_inv hap calls
  subst hstopped
  generalize saveRun c io calls F₀ = s at hinv ⊢
  have hkept (hk : Files.Keeps F₀ s.2 c.path) :
      SaveAtomic ((s.2.crash keep).read c.path) old c.records s.1 := by
    rw [hk.read_crash]
    exact .of_loads (hold keep) ..
  by_cases hret : s.1 = .returned (.ok ())
  · have hgap : s.1.gap = false := by rw [hret]; rfl
    obtain ⟨stage, F⟩ := s
    obtain rfl : stage = .returned (.ok ()) := hret
    obtain ⟨-, fd, hdir, hfile⟩ := hinv
    simp only [Files.read_crash, hdir, Option.map_some, hfile]
    rw [saveAtomic_iff_recovers (by simp)]
    refine (recovers_survives_iff hsize io.durable keep).trans ?_
    simp [hgap, SaveCall.payload]
  cases hgap : s.1.gap with
  | false => exact iff_of_true (hkept (hinv.keeps hgap hret)) (by simp [hret])
  | true =>
    have hrem := hinv.removed hgap
    unfold Removed at hrem
    split at hrem
    · rename_i hr
      rw [Files.read_of_none (by rw [Files.dir_crash]; exact hrem),
        saveAtomic_iff_of_empty loads_none hgap]
      simp [hret, hr]
    · rename_i hr
      exact iff_of_true (hkept hrem) (by simp [hret, hr])

/-- A snapshot of one key, and a call that is to write another. -/
def oneKey : List Record := [⟨str "k", str "v", kNoExpiry⟩]

/-- A directory with a snapshot of that key. -/
def oneKeyFiles : Files Bytes := .single (str "dump.rdb") ⟨rdbSerialize oneKey, true⟩

/-- A call that saves another value for it. -/
def otherKey : SaveCall := ⟨str "dump.rdb", 7, [⟨str "k", str "w", kNoExpiry⟩]⟩

theorem loads_oneKeyFiles (keep : Option Nat) :
    Loads ((oneKeyFiles.crash keep).read otherKey.path) oneKey := by
  have hread : (oneKeyFiles.crash keep).read otherKey.path = some (rdbSerialize oneKey) := by
    rw [Files.read_crash]
    cases keep <;> rfl
  rw [hread]
  exact loads_rdbSerialize (by rw [length_rdbSerialize]; decide)

/-- A call that runs to its end and returns true survives a crash of the machine. -/
theorem save_atomic_whole :
    (saveRun otherKey {} (List.replicate 8 (some 64)) oneKeyFiles).1 = .returned (.ok ()) ∧
    SaveAtomic (((saveRun otherKey {} (List.replicate 8 (some 64)) oneKeyFiles).2.crash (some 0)).read
      otherKey.path) oneKey otherKey.records (.returned (.ok ())) := by
  have hstage : (saveRun otherKey {} (List.replicate 8 (some 64)) oneKeyFiles).1 =
    .returned (.ok ()) := by decide +kernel
  refine ⟨hstage, (save_atomic_iff loads_oneKeyFiles ?_ ?_ {} _ _ hstage).mpr ⟨?_, ?_⟩⟩
  · intro i hi
    rw [show oneKeyFiles.dir otherKey.temp = none by decide] at hi
    cases hi
  · rw [SaveCall.payload, length_rdbSerialize]
    decide
  · exact fun h => absurd h (by decide)
  · exact fun _ h => absurd h (by decide)

/-- Stopped before the renaming, or if the renaming fails, the call leaves no snapshot at all,
and `rdb_load_file` takes this for a fresh server: also where nothing was to be saved, the call
that returned false has lost the old snapshot. -/
theorem save_loses_both :
    ¬ Recovers (((saveRun otherKey {} (List.replicate 6 (some 64)) oneKeyFiles).2.crash none).read
      otherKey.path) oneKey otherKey.records ∧
    ∀ records ∈ [otherKey.records, []],
      let c : SaveCall := { otherKey with records }
      let s := saveRun c { renames := false } (List.replicate 8 (some 64)) oneKeyFiles
      s.1 = .returned (.error .renameFailed) ∧ Loads (s.2.read c.path) [] ∧
        ¬ SaveAtomic (s.2.read c.path) oneKey records s.1 := by
  have hnone {file : Option Bytes} (h : file = none) : ¬ Recovers file oneKey otherKey.records := by
    rw [h, recovers_iff_of_empty loads_none]
    decide
  have hfails : ∀ records ∈ [otherKey.records, []],
      let c : SaveCall := { otherKey with records }
      let s := saveRun c { renames := false } (List.replicate 8 (some 64)) oneKeyFiles
      s.1 = .returned (.error .renameFailed) ∧ s.2.read c.path = none := by decide +kernel
  refine ⟨hnone (by decide +kernel), fun records hmem => ?_⟩
  obtain ⟨hstage, hread⟩ := hfails records hmem
  dsimp only at hstage hread ⊢
  refine ⟨hstage, hread ▸ loads_none, fun ha => ?_⟩
  rw [hread, hstage] at ha
  exact absurd ((ha.failed _ rfl).unique loads_none) (by decide)

end RP
