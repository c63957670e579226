import Mathlib.Data.List.Infix

/-!
# The first occurrence of a two-element delimiter

`find2 a b l` is the index at which `a b` first occurs in `l`. An occurrence stays the first
one when elements are appended (`find2_append`); an occurrence that only appears with the
appended elements starts at the last element before them or later
(`find2_append_of_none`); and an unfinished prefix has none (`find2_left_none`). There is none
exactly where `a b` is no part of `l` (`find2_eq_none_iff`).
-/

namespace Framework

variable {α : Type} [DecidableEq α] {a b : α}

/-- The index of the first `a` that is followed by `b`. -/
def find2 (a b : α) : List α → Option Nat
  | x :: y :: l => if x = a ∧ y = b then some 0 else (find2 a b (y :: l)).map (· + 1)
  | _ => none

theorem find2_cons (x y : α) (l : List α) : find2 a b (x :: y :: l) =
    if x = a ∧ y = b then some 0 else (find2 a b (y :: l)).map (· + 1) := rfl

theorem find2_eq_some : ∀ {l : List α} {i : Nat}, find2 a b l = some i →
    l = l.take i ++ a :: b :: l.drop (i + 2) ∧ i + 2 ≤ l.length
  | [], _, h => by simp [find2] at h
  | [_], _, h => by simp [find2] at h
  | x :: y :: l, i, h => by
    rw [find2_cons] at h
    split at h
    · rename_i hxy
      obtain ⟨rfl, rfl⟩ := hxy
      cases h; simp
    · simp only [Option.map_eq_some_iff] at h
      obtain ⟨j, hj, rfl⟩ := h
      obtain ⟨he, hl⟩ := find2_eq_some hj
      refine ⟨?_, by simpa using hl⟩
      rw [List.take_succ_cons, List.drop_succ_cons, List.cons_append, ← he]

theorem drop_find2 {l : List α} {i : Nat} (h : find2 a b l = some i) :
    l.drop i = a :: b :: l.drop (i + 2) := by
  obtain ⟨he, hl⟩ := find2_eq_some h
  have hd := congrArg (List.drop i) he
  rwa [List.drop_left' (by rw [List.length_take]; omega)] at hd

theorem take_find2 {l : List α} {i : Nat} (h : find2 a b l = some i) :
    l.take (i + 2) = l.take i ++ [a, b] := by
  rw [List.take_add, drop_find2 h]
  rfl

/-- An occurrence stays the first one under appending. -/
theorem find2_append : ∀ {l : List α} {i : Nat} (m : List α), find2 a b l = some i →
    find2 a b (l ++ m) = some i
  | [], _, _, h => by simp [find2] at h
  | [_], _, _, h => by simp [find2] at h
  | x :: y :: l, i, m, h => by
    rw [find2_cons] at h
    rw [List.cons_append, List.cons_append, find2_cons]
    split at h
    · rename_i hxy
      rw [if_pos hxy]; exact h
    · rename_i hxy
      simp only [Option.map_eq_some_iff] at h
      obtain ⟨j, hj, rfl⟩ := h
      rw [if_neg hxy, ← List.cons_append, find2_append m hj]; rfl

/-- The delimiter after elements other than its first. -/
theorem find2_of_not_mem : ∀ {l : List α} (m : List α), a ∉ l →
    find2 a b (l ++ a :: b :: m) = some l.length
  | [], m, _ => by simp [find2_cons]
  | [x], m, h => by
    have hx : x ≠ a := fun e => h (by simp [e])
    simp [find2_cons, hx]
  | x :: y :: l, m, h => by
    have hx : x ≠ a := fun e => h (by simp [e])
    have ih := find2_of_not_mem (l := y :: l) m fun hm => h (List.mem_cons_of_mem _ hm)
    rw [List.cons_append, List.cons_append, find2_cons, if_neg (by simp [hx]),
      ← List.cons_append, ih]
    simp

/-- The delimiter after elements that do not hold it. -/
theorem find2_append_delimiter (hab : a ≠ b) : ∀ {l : List α} (m : List α), find2 a b l = none →
    find2 a b (l ++ a :: b :: m) = some l.length
  | [], m, _ => by simp [find2_cons]
  | [x], m, _ => by simp [find2_cons, hab]
  | x :: y :: l, m, h => by
    rw [find2_cons] at h
    split at h
    · cases h
    · rename_i hxy
      have ih := find2_append_delimiter hab (l := y :: l) m (Option.map_eq_none_iff.mp h)
      rw [List.cons_append, List.cons_append, find2_cons, if_neg hxy, ← List.cons_append, ih]
      rfl

/-- There is no delimiter in `l` exactly when there is no first one. -/
theorem find2_eq_none_iff {l : List α} : find2 a b l = none ↔ ¬ [a, b] <:+: l := by
  constructor
  · rintro h ⟨s, t, rfl⟩
    induction s with
    | nil => simp [find2_cons] at h
    | cons x s ih =>
      cases s with
      | nil =>
        rw [List.singleton_append, List.cons_append, List.cons_append, find2_cons] at h
        split at h
        · cases h
        · exact ih (Option.map_eq_none_iff.mp h)
      | cons y s =>
        rw [List.cons_append, List.cons_append, List.cons_append, List.cons_append, find2_cons] at h
        split at h
        · cases h
        · exact ih (Option.map_eq_none_iff.mp h)
  · intro h
    cases hf : find2 a b l with
    | none => rfl
    | some i => exact absurd ⟨l.take i, l.drop (i + 2), by simpa using (find2_eq_some hf).1.symm⟩ h

/-- A delimiter that appending `m` completes starts at the last element of `l` or later. -/
theorem find2_append_of_none {l m : List α} {i : Nat} (hn : find2 a b l = none)
    (h : find2 a b (l ++ m) = some i) : l.length ≤ i + 1 := by
  induction l generalizing i with
  | nil => simp
  | cons x l ih =>
    cases l with
    | nil => simp
    | cons y l =>
      rw [find2_cons] at hn
      rw [List.cons_append, List.cons_append, find2_cons] at h
      split at hn
      · cases hn
      · rename_i hxy
        rw [if_neg hxy] at h
        simp only [Option.map_eq_none_iff] at hn
        simp only [Option.map_eq_some_iff] at h
        obtain ⟨j, hj, rfl⟩ := h
        have := ih hn hj
        simp only [List.length_cons] at this ⊢
        omega

/-- A prefix that ends inside the first delimiter, or before it, has none. -/
theorem find2_left_none {l m : List α} {i : Nat} (h : find2 a b (l ++ m) = some i)
    (hl : l.length ≤ i + 1) : find2 a b l = none := by
  cases hf : find2 a b l with
  | none => rfl
  | some j =>
    have hj := (find2_eq_some hf).2
    have := (find2_append m hf).symm.trans h
    simp only [Option.some.injEq] at this
    omega

/-- A prefix that holds the first delimiter of the whole has it first too. -/
theorem find2_left_some {l m : List α} {i : Nat} (h : find2 a b (l ++ m) = some i)
    (hl : i + 2 ≤ l.length) : find2 a b l = some i := by
  cases hf : find2 a b l with
  | none =>
    have := find2_append_of_none hf h
    omega
  | some j => exact (find2_append m hf).symm.trans h

theorem find2_none_of_append {l m : List α} (h : find2 a b (l ++ m) = none) :
    find2 a b l = none := by
  cases hf : find2 a b l with
  | none => rfl
  | some j => rw [find2_append m hf] at h; cases h

theorem find2_getElem {l : List α} {i : Nat} (h : find2 a b l = some i) :
    l[i]? = some a ∧ l[i + 1]? = some b := by
  rw [← List.getElem?_drop (i := i) (j := 1), ← Nat.add_zero i, ← List.getElem?_drop, Nat.add_zero,
    drop_find2 h]
  exact ⟨rfl, rfl⟩

/-- An element that is in no delimiter keeps every delimiter on its right, if there is none
before it. -/
theorem find2_append_ge {l m : List α} {c : α} {i : Nat} (hc : c ≠ a) (hcb : c ≠ b)
    (hn : find2 a b l = none) (h : find2 a b (l ++ c :: m) = some i) : l.length < i := by
  obtain ⟨ha, hb⟩ := find2_getElem h
  have hge := find2_append_of_none hn h
  rcases (by omega : i + 1 = l.length ∨ i = l.length ∨ l.length < i) with h1 | h1 | h1
  · rw [h1, List.getElem?_append_right (Nat.le_refl _)] at hb
    simp only [Nat.sub_self, List.getElem?_cons_zero, Option.some.injEq] at hb
    exact absurd hb hcb
  · rw [h1, List.getElem?_append_right (Nat.le_refl _)] at ha
    simp only [Nat.sub_self, List.getElem?_cons_zero, Option.some.injEq] at ha
    exact absurd ha hc
  · exact h1

end Framework
