import Mathlib.Order.Basic

/-!
# Keyspaces with deadlines

A keyspace gives each key a value and, possibly, a deadline from which on the key is dead.
What is live at a time determines what is live at every later one (`live_congr`).

A `Write` runs at a time, on what is live then. Running it later on what is still live then
gives what its result has become by that time exactly when it is `Timely`: it does not
prolong the life of a key that has died in between (`Write.live_run`).
-/

namespace Framework

/-- Each key's value, and its deadline if it has one. -/
abbrev Keyspace (K V τ : Type) := K → Option (V × Option τ)

variable {K V τ : Type}

section

variable [LT τ] [DecidableLT τ]

/-- Whether a key with the deadline `d` is live at `T`. -/
def alive (T : τ) (d : Option τ) : Bool := d.all fun d => decide (T < d)

@[simp] theorem alive_none (T : τ) : alive T none = true := rfl

@[simp] theorem alive_some (T d : τ) : alive T (some d) = decide (T < d) := rfl

/-- What is live at `T`. -/
def Keyspace.live (T : τ) (S : Keyspace K V τ) : Keyspace K V τ :=
  fun k => (S k).filter fun e => alive T e.2

theorem Keyspace.live_of_none {T : τ} {S : Keyspace K V τ} {k : K} (h : S k = none) :
    S.live T k = none := by simp [Keyspace.live, h]

theorem Keyspace.live_of_some {T : τ} {S : Keyspace K V τ} {k : K} {e : V × Option τ}
    (h : S k = some e) : S.live T k = if alive T e.2 then some e else none := by
  simp [Keyspace.live, h, Option.filter_some]

theorem Keyspace.eq_some_of_live {T : τ} {S : Keyspace K V τ} {k : K} {e : V × Option τ}
    (h : S.live T k = some e) : S k = some e ∧ alive T e.2 = true := by
  simpa [Keyspace.live, Option.filter_eq_some_iff] using h

/-- A change to a keyspace. -/
inductive Write (K V τ : Type) where
  | set (k : K) (v : V) (d : Option τ)
  | del (ks : List K)
  | expire (k : K) (d : τ)
  | persist (k : K)
  | flush

namespace Write

variable [DecidableEq K]

/-- The write `w` at time `T`, on what is live then. -/
def run (T : τ) (w : Write K V τ) (S : Keyspace K V τ) : Keyspace K V τ := fun k' =>
  match w with
  | .set k v d => if k' = k then if alive T d then some (v, d) else none else S k'
  | .del ks => if k' ∈ ks then none else S k'
  | .expire k d =>
    if k' = k then (S k).bind fun e => if T < d then some (e.1, some d) else none else S k'
  | .persist k => if k' = k then (S k).map fun e => (e.1, none) else S k'
  | .flush => none

/-- `w` does not prolong the life of a key of `S` that is dead at `u`. -/
def Timely (u : τ) (S : Keyspace K V τ) : Write K V τ → Prop
  | .expire k d => ∀ v d₀, S k = some (v, some d₀) → u < d → u < d₀
  | .persist k => ∀ v d₀, S k = some (v, some d₀) → u < d₀
  | _ => True

/-- The write is about the key. -/
def Concerns (k : K) : Write K V τ → Prop
  | .set k' _ _ | .expire k' _ | .persist k' => k = k'
  | .del ks => k ∈ ks
  | .flush => True

/-- A write that does not concern a key leaves it as it is. -/
theorem run_frame {T : τ} {w : Write K V τ} {S : Keyspace K V τ} {k : K} (h : ¬ w.Concerns k) :
    w.run T S k = S k := by
  cases w with
  | flush => exact absurd trivial h
  | _ => exact if_neg h

/-- When it is run makes no difference for such a key. -/
theorem live_run_frame {t u : τ} {w : Write K V τ} {S : Keyspace K V τ} {k : K} (h : ¬ w.Concerns k) :
    (w.run t S).live u k = w.run u (S.live u) k := by
  rw [run_frame h, Keyspace.live, run_frame h]
  rfl

/-- For a write that concerns one key only, all depends on that key. -/
theorem live_run_iff_at {t u : τ} {w : Write K V τ} {S : Keyspace K V τ} {k : K}
    (hw : ∀ k', w.Concerns k' → k' = k) :
    (w.run t S).live u = w.run u (S.live u) ↔ (w.run t S).live u k = w.run u (S.live u) k := by
  refine ⟨fun h => congrFun h k, fun h => funext fun k' => ?_⟩
  by_cases hk' : w.Concerns k'
  · rw [hw k' hk', h]
  · exact live_run_frame hk'

/-- A key whose deadline is removed at `t`, when it was live. -/
theorem live_run_persist {t u : τ} {S : Keyspace K V τ} {k : K} :
    ((Write.persist k).run t S).live u = (Write.persist k).run u (S.live u) ↔
      (Write.persist k : Write K V τ).Timely u S := by
  have hk : ((Write.persist k).run t S).live u k = (S k).map fun e => (e.1, none) := by
    cases hS : S k with
    | none => exact Keyspace.live_of_none (by simp [run, hS])
    | some e => rw [Keyspace.live_of_some (e := (e.1, none)) (by simp [run, hS])]; rfl
  have hk' : (Write.persist k).run u (S.live u) k = (S.live u k).map fun e => (e.1, none) := by
    simp [run]
  rw [live_run_iff_at (w := .persist k) fun _ h => h, hk, hk', Timely]
  cases hS : S k with
  | none => simp [Keyspace.live_of_none hS]
  | some e =>
    obtain ⟨v, d₀⟩ := e
    cases d₀ <;> simp [Keyspace.live_of_some hS]

end Write

end

variable [LT τ] [LE τ] [DecidableLT τ] [Std.LawfulOrderLT τ] [Std.IsLinearOrder τ]

theorem alive_mono {T U : τ} (h : T ≤ U) {d : Option τ} (hd : alive U d = true) :
    alive T d = true := by
  cases d with
  | none => rfl
  | some d =>
    simp only [alive_some, decide_eq_true_eq] at hd ⊢
    exact Std.lt_of_le_of_lt h hd

namespace Keyspace

theorem live_live {T U : τ} (h : T ≤ U) (S : Keyspace K V τ) : (S.live T).live U = S.live U := by
  funext k
  cases hk : S k with
  | none => rw [live_of_none (live_of_none hk), live_of_none hk]
  | some e =>
    rw [live_of_some hk]
    by_cases hT : alive T e.2 = true
    · rw [live_of_some (e := e) (by rw [live_of_some hk, if_pos hT])]
    · rw [live_of_none (by rw [live_of_some hk, if_neg hT]), if_neg fun hU => hT (alive_mono h hU)]

/-- What is live at a time determines what is live later. -/
theorem live_congr {T U : τ} (h : T ≤ U) {S S' : Keyspace K V τ} (he : S.live T = S'.live T) :
    S.live U = S'.live U := by
  rw [← live_live h S, he, live_live h S']

end Keyspace

namespace Write

variable [DecidableEq K]

/-- A key whose deadline is reset at `t`, when it was live. -/
theorem live_run_expire {t u : τ} (htu : t ≤ u) {S : Keyspace K V τ} {k : K} {d : τ} :
    ((Write.expire k d).run t S).live u = (Write.expire k d).run u (S.live u) ↔
      (Write.expire k d : Write K V τ).Timely u S := by
  have hk : ((Write.expire k d).run t S).live u k =
      (S k).bind fun e => if u < d then some (e.1, some d) else none := by
    cases hS : S k with
    | none => exact Keyspace.live_of_none (by simp [run, hS])
    | some e =>
      by_cases hd : t < d
      · rw [Keyspace.live_of_some (e := (e.1, some d)) (by simp [run, hS, hd])]; simp
      · rw [Keyspace.live_of_none (by simp [run, hS, hd])]
        simp only [Option.bind_some]
        rw [if_neg fun hu => hd (Std.lt_of_le_of_lt htu hu)]
  have hk' : (Write.expire k d).run u (S.live u) k =
      (S.live u k).bind fun e => if u < d then some (e.1, some d) else none := by simp [run]
  rw [live_run_iff_at (w := .expire k d) fun _ h => h, hk, hk', Timely]
  cases hS : S k with
  | none => simp [Keyspace.live_of_none hS]
  | some e =>
    obtain ⟨v, d₀⟩ := e
    by_cases hud : u < d
    · cases d₀ with
      | none => simp [Keyspace.live_of_some hS]
      | some d₀ => by_cases hu : u < d₀ <;> simp [Keyspace.live_of_some hS, hud, hu]
    · simp [hud]

/-- Running a write late, on what is still live then, gives what its result has become by
then, exactly when it is timely. -/
theorem live_run {t u : τ} (htu : t ≤ u) (S : Keyspace K V τ) (w : Write K V τ) :
    (w.run t S).live u = w.run u (S.live u) ↔ w.Timely u S := by
  cases w with
  | expire k d => exact live_run_expire htu
  | persist k => exact live_run_persist
  | flush => exact iff_of_true rfl trivial
  | del ks =>
    refine iff_of_true ?_ trivial
    funext k'
    by_cases hk : k' ∈ ks
    · rw [Keyspace.live_of_none (by simp [run, hk])]; simp [run, hk]
    · exact live_run_frame hk
  | set k v d =>
    refine iff_of_true ((live_run_iff_at (w := .set k v d) fun _ h => h).mpr ?_) trivial
    by_cases hu : alive u d = true
    · rw [Keyspace.live_of_some (e := (v, d)) (by simp [run, alive_mono htu hu])]; simp [run]
    · have : ((Write.set k v d).run t S).live u k = none := by
        by_cases ht : alive t d = true
        · rw [Keyspace.live_of_some (e := (v, d)) (by simp [run, ht]), if_neg hu]
        · exact Keyspace.live_of_none (by simp [run, ht])
      rw [this]; simp [run, hu]

end Write

end Framework
