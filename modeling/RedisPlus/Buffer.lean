import RedisPlus.Bytes
import RedisPlus.Framework.Machine

/-!
# The byte buffer

`Buffer` appends at the end of its storage and reads from a cursor; `reclaim` moves the
unread bytes to the front before an append, once enough has been consumed. It is a queue of
its readable bytes: an append adds to them (`readable_append`) and `consume` takes from
their front (`readable_consume`). Of what was consumed less than `kReclaimThreshold` bytes are
kept past an append (`readPos_append_lt`), so in any run the storage is the queue and a bounded
rest (`refines_queue`).
-/

namespace RP

/-- The storage, and the cursor before which it has been consumed. -/
structure Buffer where
  data : Bytes
  readPos : Nat
  le : readPos ≤ data.length

namespace Buffer

/-- Fewer consumed bytes than these, and than half of all, are left in place. -/
def kReclaimThreshold : Nat := 8 * 1024

/-- A buffer that holds nothing. -/
def empty : Buffer := ⟨[], 0, Nat.le_refl _⟩

/-- Bytes written but not yet consumed. -/
def readable (b : Buffer) : Bytes := b.data.drop b.readPos

/-- `Buffer::size`: the bytes that are not consumed. -/
def size (b : Buffer) : Nat := b.data.length - b.readPos

/-- Drop the consumed bytes once they dominate the storage. -/
def reclaim (b : Buffer) : Buffer :=
  if b.readPos = 0 then b
  else if b.readPos < b.data.length / 2 ∧ b.readPos < kReclaimThreshold then b
  else ⟨b.data.drop b.readPos, 0, Nat.zero_le _⟩

/-- `Buffer::append`, which reclaims first. -/
def append (s : Bytes) (b : Buffer) : Buffer :=
  if s = [] then b
  else
    let b := b.reclaim
    ⟨b.data ++ s, b.readPos, by rw [List.length_append]; exact Nat.le_add_right_of_le b.le⟩

/-- Mark `n` bytes as processed, clamped to the readable size. -/
def consume (n : Nat) (b : Buffer) : Buffer :=
  if b.readPos + min n b.size = b.data.length then empty
  else ⟨b.data, b.readPos + min n b.size, by have := b.le; simp only [size]; omega⟩

/-- `Buffer::clear` -/
def clear (_ : Buffer) : Buffer := empty

theorem readable_empty : empty.readable = [] := rfl

theorem readable_reclaim (b : Buffer) : b.reclaim.readable = b.readable := by
  simp only [reclaim]
  split
  · rfl
  · split <;> rfl

theorem readable_append (s : Bytes) (b : Buffer) : (b.append s).readable = b.readable ++ s := by
  simp only [append]
  split
  · rename_i h; simp [h]
  · rw [← readable_reclaim b]
    exact List.drop_append_of_le_length b.reclaim.le

theorem length_readable (b : Buffer) : b.readable.length = b.size := List.length_drop ..

theorem readable_consume (n : Nat) (b : Buffer) : (b.consume n).readable = b.readable.drop n := by
  have hle := b.le
  have hmin : b.readable.drop n = b.data.drop (b.readPos + min n b.size) := by
    rw [readable, List.drop_drop]
    by_cases hn : n ≤ b.size
    · rw [Nat.min_eq_left hn]
    · simp only [size] at hn ⊢
      rw [List.drop_eq_nil_of_le (by omega), List.drop_eq_nil_of_le (by omega)]
  rw [hmin]
  simp only [consume]
  split
  · rename_i h
    rw [h, List.drop_length]; rfl
  · rfl

theorem readPos_reclaim_lt (b : Buffer) : b.reclaim.readPos < kReclaimThreshold := by
  simp only [reclaim]
  split
  · rename_i h
    rw [h]
    decide
  · split
    · rename_i h
      exact h.2
    · exact (by decide : 0 < kReclaimThreshold)

/-- The consumed bytes that are still there after an append. -/
theorem readPos_append_lt {s : Bytes} (h : s ≠ []) (b : Buffer) :
    (b.append s).readPos < kReclaimThreshold := by
  rw [append, if_neg h]
  exact b.readPos_reclaim_lt

/-! ## Runs -/

open Framework (run Along)

/-- The operations that change a buffer. -/
inductive Op where
  | append (s : Bytes)
  | consume (n : Nat)
  | clear

/-- An operation on a buffer. -/
def step : Op → Buffer → Buffer
  | .append s, b => b.append s
  | .consume n, b => b.consume n
  | .clear, b => b.clear

/-- The operations on a queue of bytes. -/
def Op.onQueue : Op → Bytes → Bytes
  | .append s, q => q ++ s
  | .consume n, q => q.drop n
  | .clear, _ => []

theorem readable_step (op : Op) (b : Buffer) : (step op b).readable = op.onQueue b.readable := by
  cases op with
  | append s => exact readable_append s b
  | consume n => exact readable_consume n b
  | clear => exact readable_empty

/-- A buffer holds what a queue holds after the same operations. Its cursor stays within its storage,
and after each append that is not empty, less than 8192 bytes before it. -/
theorem refines_queue (ops : List Op) :
    (run step ops empty).readable = run Op.onQueue ops [] ∧
      Along step (fun op b => (step op b).readPos ≤ (step op b).data.length ∧
        ∀ s, op = .append s → s ≠ [] → (step op b).readPos < 8192) ops empty := by
  refine ⟨(List.foldl_hom readable fun b op => (readable_step op b).symm).symm, ?_⟩
  refine Along.of_forall (fun op b => ⟨(step op b).le, ?_⟩) ops empty
  rintro s rfl hs
  exact readPos_append_lt hs b

end Buffer

end RP
