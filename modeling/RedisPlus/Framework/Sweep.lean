import Mathlib.Algebra.GroupWithZero.Nat
import Mathlib.Data.List.Rotate

/-!
# Sweeping over buckets

Elements lie in buckets, which are read around in windows of `n` elements. A window starts with the bucket
behind the last one that the window before has touched, even if it has not read that one to its end
(`reach`, `next`).

Every bucket is touched within as many windows as there are buckets (`exists_touched`). All of its elements
are read if one of these windows gets to its end (`mem_windows_iff`): whether they do depends on the sizes
of the buckets only (`Sweeps`), and is not so for all of them. It is if no bucket has more than one element
(`sweeps_of_le_one`), or if one window is enough for everything (`sweeps_of_sum_le`).
-/

namespace Framework

variable {α : Type}

/-- How many buckets, of these sizes, are touched to read `n` elements. -/
def reach : Nat → List Nat → Nat
  | _, [] => 0
  | 0, _ :: _ => 0
  | n + 1, s :: sizes => reach (n + 1 - s) sizes + 1

@[simp] theorem reach_zero (sizes : List Nat) : reach 0 sizes = 0 := by cases sizes <;> rfl

theorem reach_cons {n : Nat} (hn : 0 < n) (s : Nat) (sizes : List Nat) :
    reach n (s :: sizes) = reach (n - s) sizes + 1 := by
  cases n with
  | zero => cases hn
  | succ n => rfl

theorem reach_le : ∀ (n : Nat) (sizes : List Nat), reach n sizes ≤ sizes.length
  | _, [] => Nat.le_refl _
  | 0, _ :: _ => Nat.zero_le _
  | n + 1, s :: sizes => Nat.succ_le_succ (reach_le (n + 1 - s) sizes)

/-- The first `n` elements from the bucket `c` on, around. -/
def window (n c : Nat) (buckets : List (List α)) : List α := (buckets.rotate c).flatten.take n

/-- Where the window after the one at `c` starts. -/
def next (n : Nat) (sizes : List Nat) (c : Nat) : Nat := (c + reach n (sizes.rotate c)) % sizes.length

/-- Where the next windows start. -/
def starts (n : Nat) (sizes : List Nat) : Nat → Nat → List Nat
  | 0, _ => []
  | m + 1, c => c :: starts n sizes m (next n sizes c)

/-- From the bucket `c` on to the bucket `j`, of `b` buckets around. -/
def distance (b c j : Nat) : Nat := (j + b - c) % b

/-- The number of elements from the bucket `c` on to the end of the bucket `j`. -/
def load (sizes : List Nat) (c j : Nat) : Nat :=
  ((sizes.rotate c).take (distance sizes.length c j + 1)).sum

/-- Every bucket that is not empty is read to its end by one of the next windows, as many as there are
buckets. -/
def Sweeps (n : Nat) (sizes : List Nat) (c : Nat) : Prop :=
  ∀ j < sizes.length, sizes.getD j 0 ≠ 0 →
    ∃ c' ∈ starts n sizes sizes.length c, load sizes c' j ≤ n

instance (n : Nat) (sizes : List Nat) (c : Nat) : Decidable (Sweeps n sizes c) :=
  inferInstanceAs (Decidable (∀ j < sizes.length, _ → ∃ c' ∈ starts n sizes sizes.length c, _))

/-! ## Going around -/

theorem next_lt {n : Nat} {sizes : List Nat} (h : 0 < sizes.length) (c : Nat) :
    next n sizes c < sizes.length := Nat.mod_lt _ h

theorem lt_of_mem_starts {n : Nat} {sizes : List Nat} :
    ∀ {m c c' : Nat}, c < sizes.length → c' ∈ starts n sizes m c → c' < sizes.length
  | m + 1, c, c', hc, h => by
    rcases List.mem_cons.mp h with rfl | h
    · exact hc
    · exact lt_of_mem_starts (next_lt (Nat.zero_lt_of_lt hc) c) h

theorem mem_starts_of_le {n : Nat} {sizes : List Nat} {c' : Nat} :
    ∀ {m m' c : Nat}, m ≤ m' → c' ∈ starts n sizes m c → c' ∈ starts n sizes m' c
  | _ + 1, _ + 1, _, hle, h =>
    List.mem_cons.mpr ((List.mem_cons.mp h).imp_right (mem_starts_of_le (Nat.le_of_succ_le_succ hle)))

theorem distance_eq {b c j : Nat} (hc : c < b) (hj : j < b) :
    distance b c j = if c ≤ j then j - c else j + b - c := by
  unfold distance
  split
  · rw [show j + b - c = j - c + b by omega, Nat.add_mod_right, Nat.mod_eq_of_lt (by omega)]
  · exact Nat.mod_eq_of_lt (by omega)

theorem distance_lt {b c j : Nat} (hc : c < b) (hj : j < b) : distance b c j < b := by
  rw [distance_eq hc hj]
  split <;> omega

theorem mod_eq_ite {b x : Nat} (hx : x < b + b) : x % b = if x < b then x else x - b := by
  split
  · exact Nat.mod_eq_of_lt ‹_›
  · rw [Nat.mod_eq_sub_mod (by omega), Nat.mod_eq_of_lt (by omega)]

theorem distance_add {b c j : Nat} (hc : c < b) (hj : j < b) : (distance b c j + c) % b = j := by
  have hlt := distance_lt hc hj
  rw [mod_eq_ite (by omega), distance_eq hc hj]
  split <;> split <;> omega

/-- What is ahead is nearer from further on. -/
theorem distance_step {b c j r : Nat} (hc : c < b) (hj : j < b) (hr : r ≤ distance b c j) :
    distance b ((c + r) % b) j = distance b c j - r := by
  have hlt := distance_lt hc hj
  rw [distance_eq (Nat.mod_lt _ (by omega)) hj, mod_eq_ite (x := c + r) (by omega)]
  rw [distance_eq hc hj] at hr hlt ⊢
  split at hr <;> split <;> split <;> omega

/-- A window at one of the next starts touches the bucket `j`. -/
theorem exists_touched {n : Nat} (hn : 0 < n) {sizes : List Nat} {j : Nat} (hj : j < sizes.length) :
    ∀ {m c : Nat}, c < sizes.length → distance sizes.length c j < m →
      ∃ c' ∈ starts n sizes m c, distance sizes.length c' j < reach n (sizes.rotate c')
  | m + 1, c, hc, hm => by
    by_cases hr : distance sizes.length c j < reach n (sizes.rotate c)
    · exact ⟨c, List.mem_cons_self, hr⟩
    · rw [Nat.not_lt] at hr
      have hpos : 0 < reach n (sizes.rotate c) := by
        obtain ⟨s, rest, hs⟩ := List.exists_cons_of_length_pos (l := sizes.rotate c)
          (by rw [List.length_rotate]; omega)
        rw [hs, reach_cons hn]
        omega
      have hnext : distance sizes.length (next n sizes c) j < m := by
        rw [next, distance_step hc hj hr]
        omega
      obtain ⟨c', hc', hlt⟩ := exists_touched hn hj (next_lt (by omega) c) hnext
      exact ⟨c', List.mem_cons_of_mem _ hc', hlt⟩

/-! ## What is read -/

theorem mem_take_iff {l pre post : List α} {x : α} (hl : l = pre ++ x :: post) (hnodup : l.Nodup)
    (n : Nat) : x ∈ l.take n ↔ pre.length < n := by
  subst hl
  rw [List.take_append, List.mem_append]
  constructor
  · rintro (h | h)
    · exact absurd rfl (List.nodup_append.mp hnodup |>.2.2 x (List.mem_of_mem_take h) x List.mem_cons_self)
    · by_contra hn
      rw [Nat.sub_eq_zero_of_le (Nat.not_lt.mp hn), List.take_zero] at h
      cases h
  · intro hn
    refine .inr ?_
    obtain ⟨m, hm⟩ : ∃ m, n - pre.length = m + 1 := ⟨n - pre.length - 1, by omega⟩
    rw [hm, List.take_succ_cons]
    exact List.mem_cons_self

/-- The buckets from `c` on, divided at the bucket `j`. -/
theorem rotate_eq_append {buckets : List (List α)} {c j : Nat} (hc : c < buckets.length)
    (hj : j < buckets.length) : ∃ pre post, buckets.rotate c = pre ++ buckets[j] :: post ∧
      load (buckets.map List.length) c j = pre.flatten.length + buckets[j].length := by
  have hd : distance buckets.length c j < (buckets.rotate c).length := by
    rw [List.length_rotate]
    exact distance_lt hc hj
  have hget : (buckets.rotate c)[distance buckets.length c j] = buckets[j] := by
    rw [List.getElem_rotate]
    simp only [distance_add hc hj]
  refine ⟨(buckets.rotate c).take (distance buckets.length c j),
    (buckets.rotate c).drop (distance buckets.length c j + 1), ?_, ?_⟩
  · rw [← hget, ← List.drop_eq_getElem_cons, List.take_append_drop]
  · rw [load, List.length_map, ← List.map_rotate, ← List.map_take, List.take_succ_eq_append_getElem hd,
      hget, List.map_append, List.sum_append, List.length_flatten]
    simp

/-- A window reads an element of the bucket `j` if there is room for it and all that comes before. -/
theorem mem_window_iff {buckets : List (List α)} (hnodup : buckets.flatten.Nodup) {c j : Nat}
    (hc : c < buckets.length) (hj : j < buckets.length) {front back : List α} {x : α}
    (hx : buckets[j] = front ++ x :: back) (n : Nat) :
    x ∈ window n c buckets ↔ load (buckets.map List.length) c j ≤ n + back.length := by
  have hrotate : (buckets.rotate c).flatten.Nodup :=
    (List.Perm.flatten (buckets.rotate_perm c)).nodup_iff.mpr hnodup
  obtain ⟨pre, post, hrot, hload⟩ := rotate_eq_append hc hj
  have hflat : (buckets.rotate c).flatten = (pre.flatten ++ front) ++ x :: (back ++ post.flatten) := by
    rw [hrot, hx]
    simp
  rw [window, mem_take_iff hflat hrotate, hload, hx]
  simp only [List.length_append, List.length_cons]
  omega

/-- The windows at some starts read everything exactly if each bucket that is not empty is read to its end
by one of them. -/
theorem mem_windows_iff {buckets : List (List α)} (hnodup : buckets.flatten.Nodup) {n : Nat}
    {cs : List Nat} (hcs : ∀ c ∈ cs, c < buckets.length) :
    (∀ x ∈ buckets.flatten, ∃ c ∈ cs, x ∈ window n c buckets) ↔
      ∀ j < buckets.length, (buckets.map List.length).getD j 0 ≠ 0 →
        ∃ c ∈ cs, load (buckets.map List.length) c j ≤ n := by
  have hsize {j : Nat} (hj : j < buckets.length) :
      (buckets.map List.length).getD j 0 = buckets[j].length := by
    simp [List.getD_eq_getElem?_getD, hj]
  constructor
  · intro h j hj hne
    rw [hsize hj] at hne
    -- The last element of the bucket is read.
    obtain ⟨front, x, hx⟩ := List.eq_nil_or_concat buckets[j] |>.resolve_left
      fun he => hne (List.length_eq_zero_iff.mpr he)
    rw [List.concat_eq_append] at hx
    have hmem : x ∈ buckets.flatten :=
      List.mem_flatten.mpr ⟨buckets[j], List.getElem_mem hj, by rw [hx]; simp⟩
    obtain ⟨c, hc, hwin⟩ := h x hmem
    exact ⟨c, hc, (mem_window_iff hnodup (hcs c hc) hj hx n).mp hwin⟩
  · intro h x hx
    obtain ⟨b, hb, hxb⟩ := List.mem_flatten.mp hx
    obtain ⟨j, hj, rfl⟩ := List.getElem_of_mem hb
    obtain ⟨front, back, hfb⟩ := List.append_of_mem hxb
    have hpos := List.length_pos_of_mem hxb
    obtain ⟨c, hc, hle⟩ := h j hj (by rw [hsize hj]; omega)
    exact ⟨c, hc, (mem_window_iff hnodup (hcs c hc) hj hfb n).mpr (Nat.le_add_right_of_le hle)⟩

/-! ## When everything is read -/

/-- A bucket of at most one element that is touched is read to its end. -/
theorem sum_take_le_of_touched : ∀ {n d : Nat} {sizes : List Nat}, (∀ s ∈ sizes, s ≤ 1) →
    d < reach n sizes → (sizes.take (d + 1)).sum ≤ n
  | 0, d, sizes, _, hd => by
    rw [reach_zero] at hd
    cases hd
  | n + 1, 0, s :: sizes, h, _ => by
    have := h s List.mem_cons_self
    simp
    omega
  | n + 1, d + 1, s :: sizes, h, hd => by
    have hs := h s List.mem_cons_self
    have := sum_take_le_of_touched (n := n + 1 - s) (d := d)
      (fun s' hs' => h s' (List.mem_cons_of_mem _ hs')) (Nat.lt_of_succ_lt_succ hd)
    rw [List.take_succ_cons, List.sum_cons]
    omega

theorem sweeps_of_le_one {n : Nat} (hn : 0 < n) {sizes : List Nat} (h : ∀ s ∈ sizes, s ≤ 1) {c : Nat}
    (hc : c < sizes.length) : Sweeps n sizes c := by
  intro j hj _
  obtain ⟨c', hc', hlt⟩ := exists_touched hn hj hc (distance_lt hc hj)
  exact ⟨c', hc', sum_take_le_of_touched (fun s hs => h s (List.mem_rotate.mp hs)) hlt⟩

theorem sweeps_of_sum_le {n : Nat} {sizes : List Nat} (h : sizes.sum ≤ n) {c : Nat}
    (hc : c < sizes.length) : Sweeps n sizes c := by
  intro j hj _
  refine ⟨c, mem_starts_of_le (m := 1) (by omega) List.mem_cons_self, Nat.le_trans ?_ h⟩
  rw [load, ← (sizes.rotate_perm c).sum_nat]
  conv_rhs => rw [← List.take_append_drop (distance sizes.length c j + 1) (sizes.rotate c), List.sum_append]
  exact Nat.le_add_right _ _

end Framework
