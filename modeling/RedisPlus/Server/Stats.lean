import Mathlib.Algebra.Group.Nat.Defs
import RedisPlus.Framework.FetchMax
import RedisPlus.Framework.Machine

/-!
# The counters

`Stats` is shared by all threads, and has no lock: each field is an atomic number of 64 bits. `on_connect`
counts a connection and raises `connections_peak` to the number there are, in a loop of
`compare_exchange_weak`; `OnConnect` is where a thread is in it, and a run is any interleaving of the
threads' operations. It is an instance of `Framework.FetchMax` as long as the number of connections does
not overflow (`simulates_step`): when no thread is in `on_connect`, the peak is the greatest number of
connections that there has been (`peak_exact`).
-/

namespace RP

open Framework

/-- `Stats`, whose fields are all atomic. -/
structure Stats where
  connectionsReceived : UInt64 := 0
  connectionsActive : UInt64 := 0
  connectionsPeak : UInt64 := 0
  connectionsRejected : UInt64 := 0
  commandsProcessed : UInt64 := 0
  bytesRead : UInt64 := 0
  bytesWritten : UInt64 := 0
  outputBufferOverflows : UInt64 := 0
deriving DecidableEq

namespace Stats

/-- `Stats::on_connect` of a thread that is alone: the loop ends with the peak raised. -/
def onConnect (s : Stats) : Stats :=
  let now := s.connectionsActive + 1
  { s with
    connectionsReceived := s.connectionsReceived + 1
    connectionsActive := now
    connectionsPeak := if s.connectionsPeak < now then now else s.connectionsPeak }

/-- `Stats::on_disconnect` -/
def onDisconnect (s : Stats) : Stats := { s with connectionsActive := s.connectionsActive - 1 }

/-! ## Threads -/

/-- Where a thread is in `on_connect`. -/
inductive OnConnect where
  | outside
  /-- `connections_received` is counted. -/
  | received
  /-- So is `connections_active`, up to `now`. -/
  | added (now : UInt64)
  /-- Before a round of the loop, with `peak` read. -/
  | loop (now peak : UInt64)
deriving DecidableEq

/-- The number of connections that the thread has got. -/
def OnConnect.now : OnConnect → Option UInt64
  | .added now | .loop now _ => some now
  | _ => none

/-- The counters, and where each thread is. -/
structure Threads (ι : Type) where
  stats : Stats := {}
  at' : ι → OnConnect := fun _ => .outside
  /-- How often a thread's exchange has failed in this call because the peak was another one. -/
  failures : ι → Nat := fun _ => 0

/-- What the threads do. -/
inductive Event (ι : Type) where
  /-- A thread calls `on_connect`. -/
  | connect (i : ι)
  /-- The next operation of a thread in it; the exchange may fail for no reason. -/
  | next (i : ι) (spurious : Bool)
  /-- `on_disconnect` -/
  | disconnect

variable {ι : Type} [DecidableEq ι]

namespace Threads

/-- A thread goes on. -/
def goTo (i : ι) (p : OnConnect) (s : Threads ι) : Threads ι := { s with at' := Function.update s.at' i p }

/-- A round of the loop. -/
def round (i : ι) (now peak : UInt64) (spurious : Bool) (s : Threads ι) : Threads ι :=
  if now ≤ peak then s.goTo i .outside
  else if s.stats.connectionsPeak ≠ peak then
    { s.goTo i (.loop now s.stats.connectionsPeak) with
      failures := Function.update s.failures i (s.failures i + 1) }
  else if spurious then s.goTo i (.loop now s.stats.connectionsPeak)
  else { s.goTo i .outside with stats := { s.stats with connectionsPeak := now } }

/-- The next operation of a thread. -/
def next (i : ι) (spurious : Bool) (s : Threads ι) : Threads ι :=
  match s.at' i with
  | .outside => s
  | .received =>
    let now := s.stats.connectionsActive + 1
    { s.goTo i (.added now) with
      stats := { s.stats with connectionsActive := now }
      failures := Function.update s.failures i 0 }
  | .added now => s.goTo i (.loop now s.stats.connectionsPeak)
  | .loop now peak => s.round i now peak spurious

/-- An event. -/
def step (e : Event ι) (s : Threads ι) : Threads ι :=
  match e with
  | .connect i =>
    if s.at' i = .outside then
      { s.goTo i .received with
        stats := { s.stats with connectionsReceived := s.stats.connectionsReceived + 1 } }
    else s
  | .next i spurious => s.next i spurious
  | .disconnect => { s with stats := s.stats.onDisconnect }

/-- Counting does not overflow: there are fewer than `2 ^ 64 - 1` connections, and one to disconnect. -/
def Counts (e : Event ι) (s : Threads ι) : Prop :=
  match e with
  | .disconnect => s.stats.connectionsActive ≠ 0
  | _ => s.stats.connectionsActive.toNat + 1 < 2 ^ 64

instance : ∀ (e : Event ι) (s : Threads ι), Decidable (Counts e s)
  | .disconnect, s => inferInstanceAs (Decidable (s.stats.connectionsActive ≠ 0))
  | .connect _, s => inferInstanceAs (Decidable (s.stats.connectionsActive.toNat + 1 < 2 ^ 64))
  | .next _ _, s => inferInstanceAs (Decidable (s.stats.connectionsActive.toNat + 1 < 2 ^ 64))

/-- The numbers of connections after each step. -/
def actives (es : List (Event ι)) (s : Threads ι) : List Nat :=
  collect step (fun e s => [(step e s).stats.connectionsActive.toNat]) es s

/-- A thread that nobody interrupts does what `onConnect` does. -/
theorem run_alone {i : ι} {s : Threads ι} (h : s.at' i = .outside) :
    (run step [.connect i, .next i false, .next i false, .next i false] s).stats = s.stats.onConnect := by
  simp only [Framework.run_cons, Framework.run_nil, step, h, if_true, next, goTo, Function.update_self, round]
  by_cases hle : s.stats.connectionsActive + 1 ≤ s.stats.connectionsPeak
  · rw [if_pos hle, onConnect, if_neg (UInt64.not_lt.mpr hle)]
  · rw [if_neg hle, if_neg (by simp), if_neg (by decide), onConnect, if_pos (UInt64.not_le.mp hle)]

end Threads

/-! ## The counters as a maximum that is raised -/

/-- What the thread is to `FetchMax`. -/
def OnConnect.phase : OnConnect → FetchMax.Phase
  | .outside | .received => .idle
  | .added now => .added now.toNat
  | .loop now peak => .seen now.toNat peak.toNat

/-- The counters are those of the maximum, as natural numbers. -/
structure Simulates (s : Threads ι) (a : FetchMax.State ι) : Prop where
  active : a.active = s.stats.connectionsActive.toNat
  peak : a.peak = s.stats.connectionsPeak.toNat
  phase : ∀ i, a.phase i = (s.at' i).phase
  retries : a.retries = s.failures

variable {s : Threads ι} {a : FetchMax.State ι}

theorem phase_update (h : Simulates s a) (i : ι) (p : OnConnect) (j : ι) :
    Function.update a.phase i p.phase j = (Function.update s.at' i p j).phase := by
  by_cases hj : j = i
  · rw [hj, Function.update_self, Function.update_self]
  · rw [Function.update_of_ne hj, Function.update_of_ne hj, h.phase]

theorem simulates_round (h : Simulates s a) {i : ι} {now peak : UInt64} (hi : s.at' i = .loop now peak)
    (spurious : Bool) : ∃ a', FetchMax.Step a a' ∧ Simulates (s.round i now peak spurious) a' ∧
      a'.most = a.most ∧ a'.active = a.active := by
  have hphase : a.phase i = .seen now.toNat peak.toNat := by rw [h.phase, hi]; rfl
  unfold Threads.round
  by_cases hle : now ≤ peak
  · rw [if_pos hle]
    exact ⟨a.settle i, .settle i hphase (UInt64.le_iff_toNat_le.mp hle),
      ⟨h.active, h.peak, phase_update h i .outside, h.retries⟩, rfl, rfl⟩
  have hlt : peak.toNat < now.toNat := by
    rw [UInt64.le_iff_toNat_le] at hle
    omega
  rw [if_neg hle]
  by_cases hne : s.stats.connectionsPeak ≠ peak
  · rw [if_pos hne]
    have hne' : a.peak ≠ peak.toNat := by
      rw [h.peak]
      exact fun he => hne (UInt64.toNat_inj.mp he)
    refine ⟨a.retry i now.toNat, .retry i hphase hlt hne', ⟨h.active, h.peak, ?_, ?_⟩, rfl, rfl⟩
    · simp only [FetchMax.State.retry, FetchMax.State.load, h.peak]
      exact phase_update h i (.loop now s.stats.connectionsPeak)
    · simp only [FetchMax.State.retry, h.retries]
  · rw [if_neg hne]
    obtain rfl : s.stats.connectionsPeak = peak := not_not.mp hne
    rw [← h.peak] at hphase hlt
    cases spurious with
    | true =>
      refine ⟨a.load i now.toNat, .spurious i hphase, ⟨h.active, h.peak, ?_, h.retries⟩, rfl, rfl⟩
      simp only [FetchMax.State.load, h.peak]
      exact phase_update h i (.loop now s.stats.connectionsPeak)
    | false =>
      exact ⟨a.raise i now.toNat, .raise i hphase hlt,
        ⟨h.active, rfl, phase_update h i .outside, h.retries⟩, rfl, rfl⟩

/-- An operation of a thread is a step, or nothing, to `FetchMax`. -/
theorem simulates_step (h : Simulates s a) (ha : FetchMax.Inv a) {e : Event ι} (he : Threads.Counts e s) :
    ∃ a', FetchMax.Inv a' ∧ Simulates (Threads.step e s) a' ∧
      a'.most = max a.most (Threads.step e s).stats.connectionsActive.toNat := by
  -- where the count does not go up, the greatest stays what it is
  have hmost {a' : FetchMax.State ι} {s' : Threads ι} (hs' : Simulates s' a') (hm : a'.most = a.most)
      (hle : a'.active ≤ a.active) : a'.most = max a.most s'.stats.connectionsActive.toNat := by
    have := ha.active
    rw [← hs'.active, hm, Nat.max_eq_left (by omega)]
  cases e with
  | connect i =>
    refine ⟨a, ha, ?_⟩
    suffices hs' : Simulates (Threads.step (.connect i) s) a from ⟨hs', hmost hs' rfl (Nat.le_refl _)⟩
    rw [Threads.step]
    split
    · rename_i hi
      refine ⟨h.active, h.peak, fun j => ?_, h.retries⟩
      have hsame : Function.update a.phase i OnConnect.received.phase = a.phase := by
        rw [show OnConnect.received.phase = a.phase i by rw [h.phase, hi]; rfl, Function.update_eq_self]
      rw [← congrFun hsame j]
      exact phase_update h i .received j
    · exact h
  | disconnect =>
    have hne : s.stats.connectionsActive ≠ 0 := he
    have hle : (1 : UInt64) ≤ s.stats.connectionsActive := by
      rw [UInt64.le_iff_toNat_le]
      have : s.stats.connectionsActive.toNat ≠ 0 := fun h0 => hne (UInt64.toNat_inj.mp h0)
      show 1 ≤ _
      omega
    have hs' : Simulates (Threads.step .disconnect s) a.leave := by
      refine ⟨?_, h.peak, h.phase, h.retries⟩
      show a.active - 1 = (s.stats.connectionsActive - 1).toNat
      rw [UInt64.toNat_sub_of_le _ _ hle, h.active]
      rfl
    exact ⟨a.leave, ha.step (.leave a), hs', hmost hs' rfl (Nat.sub_le ..)⟩
  | next i spurious =>
    rw [Threads.step]
    unfold Threads.next
    cases hi : s.at' i with
    | outside => exact ⟨a, ha, h, hmost h rfl (Nat.le_refl _)⟩
    | received =>
      have hadd : (s.stats.connectionsActive + 1).toNat = a.active + 1 := by
        rw [h.active, UInt64.toNat_add]
        exact Nat.mod_eq_of_lt he
      have hidle : a.phase i = .idle := by rw [h.phase, hi]; rfl
      refine ⟨a.enter i, ha.step (.enter i hidle), ⟨hadd.symm, h.peak, fun j => ?_, ?_⟩, ?_⟩
      · rw [FetchMax.State.enter, ← hadd]
        exact phase_update h i (.added (s.stats.connectionsActive + 1)) j
      · rw [FetchMax.State.enter, h.retries]
      · rw [FetchMax.State.enter, ← hadd]
    | added now =>
      have hphase : a.phase i = .added now.toNat := by rw [h.phase, hi]; rfl
      have hs' : Simulates (s.goTo i (.loop now s.stats.connectionsPeak)) (a.load i now.toNat) := by
        refine ⟨h.active, h.peak, fun j => ?_, h.retries⟩
        rw [FetchMax.State.load, h.peak]
        exact phase_update h i (.loop now s.stats.connectionsPeak) j
      exact ⟨a.load i now.toNat, ha.step (.load i hphase), hs', hmost hs' rfl (Nat.le_refl _)⟩
    | loop now peak =>
      obtain ⟨a', hstep, hs', hm, hactive⟩ := simulates_round h hi spurious
      exact ⟨a', ha.step hstep, hs', hmost hs' hm (Nat.le_of_eq hactive)⟩

/-- Over a run, the greatest count is that of the numbers of connections. -/
theorem simulates_run : ∀ {es : List (Event ι)} {s : Threads ι} {a : FetchMax.State ι}, Simulates s a →
    FetchMax.Inv a → Along Threads.step Threads.Counts es s → ∃ a', FetchMax.Inv a' ∧
      Simulates (run Threads.step es s) a' ∧ a'.most = (Threads.actives es s).foldl max a.most
  | [], s, a, h, ha, _ => ⟨a, ha, h, rfl⟩
  | e :: es, s, a, h, ha, hes => by
    obtain ⟨a₁, ha₁, h₁, hm₁⟩ := simulates_step h ha hes.1
    obtain ⟨a', ha', h', hm'⟩ := simulates_run h₁ ha₁ hes.2
    refine ⟨a', ha', h', ?_⟩
    rw [hm', hm₁]
    rfl

/-- In every interleaving of the threads' operations in which the count does not overflow: the peak is
never above the greatest number of connections so far, it is that number whenever no thread is in
`on_connect`, and a thread's exchange fails because of the others at most as often as the number of
connections it has got. -/
theorem peak_exact {es : List (Event ι)} (h : Along Threads.step Threads.Counts es {}) :
    let s := run Threads.step es {}
    s.stats.connectionsPeak.toNat ≤ (Threads.actives es {}).foldl max 0 ∧
      ((∀ i, s.at' i = .outside ∨ s.at' i = .received) →
        s.stats.connectionsPeak.toNat = (Threads.actives es {}).foldl max 0) ∧
      ∀ i now, (s.at' i).now = some now → s.failures i ≤ now.toNat := by
  intro s
  have hinit : Simulates ({} : Threads ι) {} := ⟨rfl, rfl, fun _ => rfl, rfl⟩
  obtain ⟨a, ha, hs, hm⟩ := simulates_run hinit .init h
  refine ⟨?_, fun hidle => ?_, fun i now hnow => ?_⟩
  · rw [← hs.peak]
    exact hm ▸ ha.peak
  · rw [← hs.peak]
    refine (ha.peak_eq_most fun i => ?_).trans hm
    rw [hs.phase]
    rcases hidle i with hi | hi <;> rw [hi] <;> rfl
  · rw [← hs.retries]
    refine ha.retries_le ?_
    rw [hs.phase]
    revert hnow
    cases s.at' i with
    | outside | received => intro hnow; cases hnow
    | added n | loop n p =>
      intro hnow
      obtain rfl := Option.some.inj hnow
      rfl

/-- Two threads connect; the one with the higher count is first, and the other finds the peak changed. -/
def race : List (Event (Fin 2)) :=
  [.connect 0, .connect 1, .next 0 false, .next 1 false, .next 0 false, .next 1 false, .next 1 true,
    .next 1 false, .next 0 false, .next 0 false, .disconnect]

theorem race_peak :
    let s := run Threads.step race {}
    s.stats.connectionsPeak.toNat = (Threads.actives race {}).foldl max 0 ∧
      s.stats.connectionsPeak = 2 ∧ s.stats.connectionsActive = 1 :=
  ⟨(peak_exact (show Along Threads.step Threads.Counts race {} by decide)).2.1 (by decide),
    by decide, by decide⟩

end Stats

end RP
