import Mathlib.Data.List.Basic

/-!
# Names and files

A directory gives names to files, which are numbered: `unlink` and `rename` change the names
only, and a descriptor stays with its file whatever becomes of the name. A file's bytes are on
disk once it is synced; what a crash of the machine leaves of a file that is not is a part of its
front (`crash`). Names are on disk at once.
-/

namespace Framework

/-- The contents of a file. -/
structure File where
  data : List UInt8 := []
  /-- Are the bytes on disk? -/
  synced : Bool := false
deriving DecidableEq

/-- What a crash leaves of a file: all, if nothing is lost or the file is synced, else the first
bytes. -/
def File.survives (f : File) : Option Nat → List UInt8
  | none => f.data
  | some keep => if f.synced then f.data else f.data.take keep

/-- `bs` at the position `off` of a file that holds `data`: a gap before it is filled with zeros. -/
def overwrite (data : List UInt8) (off : Nat) (bs : List UInt8) : List UInt8 :=
  (data ++ List.replicate (off - data.length) 0).take off ++ bs ++ data.drop (off + bs.length)

theorem overwrite_end (data bs : List UInt8) : overwrite data data.length bs = data ++ bs := by
  simp [overwrite]

/-- The named files, of which the first `next` numbers are in use. -/
structure Files (N : Type) where
  dir : N → Option Nat
  inode : Nat → File
  next : Nat
  used {n : N} {i : Nat} : dir n = some i → i < next

namespace Files

variable {N : Type} (F : Files N)

/-- What the file of this name holds, none if there is none. -/
def read (n : N) : Option (List UInt8) := (F.dir n).map fun i => (F.inode i).data

/-- Another contents for an inode. -/
def setFile (i : Nat) (f : File) : Files N :=
  { F with inode := fun j => if j = i then f else F.inode j }

/-- `write` of `bs` at the position `off`. -/
def writeAt (i off : Nat) (bs : List UInt8) : Files N :=
  F.setFile i ⟨overwrite (F.inode i).data off bs, false⟩

/-- `fsync` -/
def sync (i : Nat) : Files N := F.setFile i ⟨(F.inode i).data, true⟩

/-- The machine goes down, and of a file that is not synced the first `keep` bytes are left.
With none nothing is lost: a process may have stopped, the machine goes on. -/
def crash : Option Nat → Files N
  | none => F
  | some keep =>
    { F with inode := fun i =>
        if (F.inode i).synced then F.inode i else ⟨(F.inode i).data.take keep, true⟩ }

section

variable {F}

theorem read_of_dir {n : N} {i : Nat} (h : F.dir n = some i) : F.read n = some (F.inode i).data := by
  simp [read, h]

theorem read_of_none {n : N} (h : F.dir n = none) : F.read n = none := by
  simp [read, h]

@[simp] theorem dir_crash (keep : Option Nat) : (F.crash keep).dir = F.dir := by
  cases keep <;> rfl

@[simp] theorem inode_setFile (i : Nat) (f : File) : (F.setFile i f).inode i = f := if_pos rfl

theorem inode_setFile_of_ne {i j : Nat} (h : j ≠ i) (f : File) :
    (F.setFile i f).inode j = F.inode j := if_neg h

theorem read_crash (keep : Option Nat) (n : N) :
    (F.crash keep).read n = (F.dir n).map fun i => File.survives (F.inode i) keep := by
  cases keep with
  | none => rfl
  | some keep =>
    simp only [read, dir_crash]
    congr 1
    funext i
    simp only [crash, File.survives]
    split <;> rfl

/-- `F'` has under the name `n` the file that `F` has, as it is there. -/
structure Keeps (F F' : Files N) (n : N) : Prop where
  dir : F'.dir n = F.dir n
  inode {i : Nat} : F.dir n = some i → F'.inode i = F.inode i

theorem Keeps.refl (F : Files N) (n : N) : Keeps F F n := ⟨rfl, fun _ => rfl⟩

theorem Keeps.trans {F F' F'' : Files N} {n : N} (h : Keeps F F' n) (h' : Keeps F' F'' n) :
    Keeps F F'' n :=
  ⟨h'.dir.trans h.dir, fun hi => (h'.inode (h.dir.trans hi)).trans (h.inode hi)⟩

/-- A file that is kept is the same after a crash. -/
theorem Keeps.read_crash {F F' : Files N} {n : N} (h : Keeps F F' n) (keep : Option Nat) :
    (F'.crash keep).read n = (F.crash keep).read n := by
  rw [Files.read_crash, Files.read_crash, h.dir]
  cases hn : F.dir n with
  | none => rfl
  | some i => rw [Option.map_some, Option.map_some, h.inode hn]

theorem keeps_setFile {n : N} {i : Nat} (h : F.dir n ≠ some i) (f : File) :
    Keeps F (F.setFile i f) n := by
  refine ⟨rfl, fun hj => inode_setFile_of_ne ?_ f⟩
  rintro rfl
  exact h hj

end

variable [DecidableEq N]

theorem used_single {n m : N} {i : Nat} (h : (if m = n then some 0 else none) = some i) : i < 1 := by
  split at h
  · have := Option.some.inj h
    omega
  · cases h

/-- One file. -/
def single (n : N) (f : File) : Files N :=
  { dir := fun m => if m = n then some 0 else none, inode := fun _ => f, next := 1, used := used_single }

theorem used_create {n m : N} {i : Nat}
    (h : (if m = n then some F.next else F.dir m) = some i) : i < F.next + 1 := by
  split at h
  · have := Option.some.inj h
    omega
  · have := F.used h
    omega

/-- `open` with `O_CREAT` and `O_TRUNC`: the file of that name is emptied, or a new one made. -/
def openTrunc (n : N) : Nat × Files N :=
  match F.dir n with
  | some i => (i, F.setFile i {})
  | none =>
    (F.next,
      { dir := fun m => if m = n then some F.next else F.dir m
        inode := fun j => if j = F.next then {} else F.inode j
        next := F.next + 1
        used := F.used_create })

theorem used_unlink {n m : N} {i : Nat} (h : (if m = n then none else F.dir m) = some i) :
    i < F.next := by
  split at h
  · cases h
  · exact F.used h

/-- `unlink`: the name goes, and with it, for whoever looks for it by name, the file. -/
def unlink (n : N) : Files N :=
  { F with dir := fun m => if m = n then none else F.dir m, used := F.used_unlink }

theorem used_rename {a b m : N} {i j : Nat} (hj : F.dir a = some j)
    (h : (if m = b then some j else if m = a then none else F.dir m) = some i) : i < F.next := by
  split at h
  · obtain rfl := Option.some.inj h
    exact F.used hj
  · exact F.used_unlink h

/-- `rename` of `a` to `b`, which takes the place of any file of that name; none if `a` names no
file. -/
def rename (a b : N) : Option (Files N) :=
  match h : F.dir a with
  | none => none
  | some i =>
    some { F with
      dir := fun m => if m = b then some i else if m = a then none else F.dir m
      used := F.used_rename h }

variable {F}

@[simp] theorem dir_unlink (n : N) : (F.unlink n).dir n = none := if_pos rfl

theorem dir_unlink_of_ne {n m : N} (h : m ≠ n) : (F.unlink n).dir m = F.dir m := if_neg h

theorem keeps_unlink {n m : N} (h : m ≠ n) : Keeps F (F.unlink n) m :=
  ⟨dir_unlink_of_ne h, fun _ => rfl⟩

/-- Two names are not of one file. -/
def Apart (F : Files N) (a b : N) : Prop := ∀ i, F.dir a = some i → F.dir b ≠ some i

/-- The descriptor is of the file of that name, which is empty. Any other name has the file it
had, if this is another one. -/
theorem openTrunc_spec (F : Files N) (n : N) :
    (F.openTrunc n).2.dir n = some (F.openTrunc n).1 ∧
      (F.openTrunc n).2.inode (F.openTrunc n).1 = {} ∧
      ∀ m ≠ n, Apart F n m →
        Keeps F (F.openTrunc n).2 m ∧ F.dir m ≠ some (F.openTrunc n).1 := by
  unfold openTrunc
  split
  · rename_i i hi
    refine ⟨hi, if_pos rfl, fun m _ ha => ⟨keeps_setFile (ha i hi) _, ha i hi⟩⟩
  · refine ⟨if_pos rfl, if_pos rfl, fun m hm _ => ⟨⟨if_neg hm, fun hj => if_neg ?_⟩, fun hj => ?_⟩⟩
    · have := F.used hj
      omega
    · exact absurd (F.used hj) (Nat.lt_irrefl _)

theorem rename_spec {a b : N} {i : Nat} (h : F.dir a = some i) :
    ∃ F', F.rename a b = some F' ∧ F'.inode = F.inode ∧ F'.dir b = some i ∧
      (∀ m, m ≠ b → F'.dir m = if m = a then none else F.dir m) := by
  unfold rename
  split
  · rename_i h'
    exact absurd (h.symm.trans h') (by simp)
  · rename_i j h'
    obtain rfl : i = j := Option.some.inj (h.symm.trans h')
    exact ⟨_, rfl, rfl, if_pos rfl, fun m hm => if_neg hm⟩

end Files

end Framework
