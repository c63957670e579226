import Mathlib.Logic.Function.Basic
import Mathlib.Order.Lattice

/-!
# Raising a maximum without a lock

Threads count up a shared number, and each then raises a shared maximum to the count it has got, by
comparing and exchanging until it succeeds or finds a maximum that is not smaller. The steps of the threads
may be interleaved in any way, and an exchange may fail for no reason.

The greatest count that there has been is the maximum, or in the hands of a thread that is still at it
(`Inv.covered`); so when no thread is, it is the maximum (`Inv.peak_eq_most`). A thread fails for a reason
at most as often as the count it has got says (`Inv.retries_le`).
-/

namespace Framework.FetchMax

variable {ι : Type}

/-- Where a thread is: nowhere, after counting up to `now`, or after having found the maximum `peak`. -/
inductive Phase where
  | idle
  | added (now : Nat)
  | seen (now peak : Nat)

/-- The count that the thread has in hand. -/
def Phase.now : Phase → Option Nat
  | .idle => none
  | .added now => some now
  | .seen now _ => some now

/-- The count, its maximum, and where each thread is. -/
structure State (ι : Type) where
  active : Nat := 0
  peak : Nat := 0
  phase : ι → Phase := fun _ => .idle
  /-- The greatest count so far. -/
  most : Nat := 0
  /-- How often a thread has failed since it has counted, for a reason. -/
  retries : ι → Nat := fun _ => 0

variable [DecidableEq ι]

namespace State

/-- A thread counts up. -/
def enter (i : ι) (s : State ι) : State ι :=
  { s with
    active := s.active + 1
    phase := Function.update s.phase i (.added (s.active + 1))
    most := max s.most (s.active + 1)
    retries := Function.update s.retries i 0 }

/-- The thread with the count `now` reads the maximum. -/
def load (i : ι) (now : Nat) (s : State ι) : State ι :=
  { s with phase := Function.update s.phase i (.seen now s.peak) }

/-- The thread leaves the loop. -/
def settle (i : ι) (s : State ι) : State ι := { s with phase := Function.update s.phase i .idle }

/-- The exchange succeeds. -/
def raise (i : ι) (now : Nat) (s : State ι) : State ι := { s.settle i with peak := now }

/-- The exchange fails, and the thread finds another maximum than the one it has seen. -/
def retry (i : ι) (now : Nat) (s : State ι) : State ι :=
  { s.load i now with retries := Function.update s.retries i (s.retries i + 1) }

/-- Counting down. -/
def leave (s : State ι) : State ι := { s with active := s.active - 1 }

end State

/-- What may happen. -/
inductive Step : State ι → State ι → Prop where
  | enter (i : ι) {s : State ι} (h : s.phase i = .idle) : Step s (s.enter i)
  | load (i : ι) {now : Nat} {s : State ι} (h : s.phase i = .added now) : Step s (s.load i now)
  | settle (i : ι) {now peak : Nat} {s : State ι} (h : s.phase i = .seen now peak) (hle : now ≤ peak) :
    Step s (s.settle i)
  | raise (i : ι) {now : Nat} {s : State ι} (h : s.phase i = .seen now s.peak) (hlt : s.peak < now) :
    Step s (s.raise i now)
  | spurious (i : ι) {now : Nat} {s : State ι} (h : s.phase i = .seen now s.peak) : Step s (s.load i now)
  | retry (i : ι) {now peak : Nat} {s : State ι} (h : s.phase i = .seen now peak) (hlt : peak < now)
    (hne : s.peak ≠ peak) : Step s (s.retry i now)
  | leave (s : State ι) : Step s s.leave

/-- What holds of a thread: its count is not above the greatest; what it has seen was the maximum, and
has gone up each time it failed for a reason. -/
def Fits (most peak : Nat) (retries : Nat) : Phase → Prop
  | .idle => True
  | .added now => now ≤ most ∧ retries = 0
  | .seen now p => now ≤ most ∧ p ≤ peak ∧ retries ≤ p ∧ retries ≤ now

theorem Fits.mono {most most' peak peak' retries : Nat} (hm : most ≤ most') (hp : peak ≤ peak') :
    ∀ {phase : Phase}, Fits most peak retries phase → Fits most' peak' retries phase
  | .idle, _ => trivial
  | .added _, h => ⟨Nat.le_trans h.1 hm, h.2⟩
  | .seen _ _, h => ⟨Nat.le_trans h.1 hm, Nat.le_trans h.2.1 hp, h.2.2⟩

omit [DecidableEq ι] in
theorem Fits.now_le {most peak retries now : Nat} : ∀ {phase : Phase}, Fits most peak retries phase →
    phase.now = some now → now ≤ most ∧ retries ≤ now
  | .added _, h, hn => by
    obtain rfl := Option.some.inj hn
    exact ⟨h.1, by rw [h.2]; exact Nat.zero_le _⟩
  | .seen _ _, h, hn => by
    obtain rfl := Option.some.inj hn
    exact ⟨h.1, h.2.2.2⟩

/-- What holds in every state. -/
structure Inv (s : State ι) : Prop where
  active : s.active ≤ s.most
  peak : s.peak ≤ s.most
  threads : ∀ i, Fits s.most s.peak (s.retries i) (s.phase i)
  /-- The greatest count is the maximum, or in a thread's hands. -/
  covered : s.most = s.peak ∨ ∃ i, (s.phase i).now = some s.most

namespace Inv

variable {s s' : State ι}

omit [DecidableEq ι] in
theorem init : Inv ({} : State ι) := ⟨Nat.le_refl _, Nat.le_refl _, fun _ => trivial, .inl rfl⟩

/-- One thread goes on, and nothing goes down. -/
theorem move (hs : Inv s) (i : ι) (phase : Phase) (retries : Nat) {active peak most : Nat}
    (hactive : active ≤ most) (hpeak : peak ≤ most) (hm : s.most ≤ most) (hp : s.peak ≤ peak)
    (hfits : Fits most peak retries phase)
    (hown : s.most = s.peak ∨ (s.phase i).now = some s.most → most = peak ∨ phase.now = some most)
    (hother : most = s.most ∨ phase.now = some most) :
    Inv { active, peak, most
          phase := Function.update s.phase i phase
          retries := Function.update s.retries i retries } := by
  have hi : Function.update s.phase i phase i = phase := Function.update_self ..
  refine ⟨hactive, hpeak, fun j => ?_, ?_⟩
  · dsimp only
    by_cases hj : j = i
    · rw [hj, hi, Function.update_self]
      exact hfits
    · rw [Function.update_of_ne hj, Function.update_of_ne hj]
      exact (hs.threads j).mono hm hp
  · dsimp only
    have hcovered : most = peak ∨ phase.now = some most ∨ ∃ j, j ≠ i ∧ (s.phase j).now = some most := by
      rcases hs.covered with h | ⟨j, hj⟩
      · exact (hown (.inl h)).imp_right .inl
      by_cases hij : j = i
      · exact (hown (.inr (hij ▸ hj))).imp_right .inl
      rcases hother with hother | hother
      · exact .inr (.inr ⟨j, hij, by rw [hother, hj]⟩)
      · exact .inr (.inl hother)
    rcases hcovered with h | h | ⟨j, hij, hj⟩
    · exact .inl h
    · exact .inr ⟨i, by rw [hi, h]⟩
    · exact .inr ⟨j, by rw [Function.update_of_ne hij, hj]⟩

/-- A thread that goes on with the count it has. -/
theorem goOn (hs : Inv s) {i : ι} {now retries : Nat} (hi : (s.phase i).now = some now)
    (hretries : retries ≤ s.peak ∧ retries ≤ now) :
    Inv { s.load i now with retries := Function.update s.retries i retries } :=
  hs.move i (.seen now s.peak) retries hs.active hs.peak (Nat.le_refl _) (Nat.le_refl _)
    ⟨((hs.threads i).now_le hi).1, Nat.le_refl _, hretries⟩ (fun h => h.imp_right hi.symm.trans) (.inl rfl)

/-- A thread that leaves the loop, with a maximum not below its count. -/
theorem done (hs : Inv s) {i : ι} {now peak : Nat} (hi : (s.phase i).now = some now) (hmost : peak ≤ s.most)
    (hpeak : s.peak ≤ peak) (hnow : now ≤ peak) : Inv { s.settle i with peak } := by
  have hmove := hs.move i .idle (s.retries i) hs.active hmost (Nat.le_refl _) hpeak trivial
    (fun h => .inl ?_) (.inl rfl)
  · rwa [Function.update_eq_self] at hmove
  · rcases h with h | h
    · omega
    · rw [hi] at h
      have := Option.some.inj h
      omega

theorem step (hs : Inv s) (h : Step s s') : Inv s' := by
  cases h with
  | enter i h =>
    have hnow : s.most ≤ s.active + 1 → (Phase.added (s.active + 1)).now = some (max s.most (s.active + 1)) :=
      fun hle => congrArg some (max_eq_right hle).symm
    refine hs.move i (.added (s.active + 1)) 0 (le_max_right ..) (Nat.le_trans hs.peak (le_max_left ..))
      (le_max_left ..) (Nat.le_refl _) ⟨le_max_right .., rfl⟩ (fun hown => ?_) ?_
    · rcases Nat.le_total s.most (s.active + 1) with hle | hle
      · exact .inr (hnow hle)
      · rw [h] at hown
        rcases hown with hown | hown
        · exact .inl ((max_eq_left hle).trans hown)
        · cases hown
    · rcases Nat.le_total s.most (s.active + 1) with hle | hle
      · exact .inr (hnow hle)
      · exact .inl (max_eq_left hle)
  | load i h =>
    have hi := hs.threads i
    rw [h] at hi
    obtain ⟨-, hr⟩ := hi
    have hgo := hs.goOn (by rw [h]; rfl) (⟨by omega, by omega⟩ : s.retries i ≤ s.peak ∧ s.retries i ≤ _)
    rwa [Function.update_eq_self] at hgo
  | spurious i h =>
    have hi := hs.threads i
    rw [h] at hi
    have hgo := hs.goOn (i := i) (by rw [h]; rfl) hi.2.2
    rwa [Function.update_eq_self] at hgo
  | retry i h hlt hne =>
    have hi := hs.threads i
    rw [h] at hi
    obtain ⟨-, hp, hr, -⟩ := hi
    exact hs.goOn (by rw [h]; rfl) ⟨by omega, by omega⟩
  | settle i h hle =>
    have hi := hs.threads i
    rw [h] at hi
    exact hs.done (by rw [h]; rfl) hs.peak (Nat.le_refl _) (Nat.le_trans hle hi.2.1)
  | raise i h hlt =>
    have hi := hs.threads i
    rw [h] at hi
    exact hs.done (by rw [h]; rfl) hi.1 (Nat.le_of_lt hlt) (Nat.le_refl _)
  | leave => exact ⟨Nat.le_trans (Nat.sub_le ..) hs.active, hs.peak, hs.threads, hs.covered⟩

omit [DecidableEq ι] in
/-- When no thread is at it, the maximum is the greatest count that there has been. -/
theorem peak_eq_most (hs : Inv s) (hidle : ∀ i, s.phase i = .idle) : s.peak = s.most := by
  rcases hs.covered with h | ⟨i, hi⟩
  · exact h.symm
  · rw [hidle i] at hi
    cases hi

omit [DecidableEq ι] in
/-- A thread does not fail for a reason more often than its count. -/
theorem retries_le (hs : Inv s) {i : ι} {now : Nat} (h : (s.phase i).now = some now) : s.retries i ≤ now :=
  ((hs.threads i).now_le h).2

end Inv

end Framework.FetchMax
