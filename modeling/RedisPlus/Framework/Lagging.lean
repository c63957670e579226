import RedisPlus.Framework.Deadlines

/-!
# Keyspaces that lag behind

A follower repeats the commands of a primary later than the primary ran them. `Trail` says that
the commands that are still due lead from what the follower has to what the primary has. A
command that the primary runs is due at the end of the trail (`Trail.push`), the follower runs the
one at its front, and once none is due the two have the same keys live from then on
(`Trail.settled`).
-/

namespace Framework

variable {C K V τ : Type}

/-- A command, when the primary ran it and what was live there right before. -/
structure Due (C K V τ : Type) where
  cmd : C
  time : τ
  before : Keyspace K V τ

section

variable [LT τ] [LE τ] [DecidableLT τ] [DecidableEq K]

/-- What is live in `A`, from `t` on, becomes by the commands due what is live in `B` at `t'`. A
command stands for the writes it `means`. -/
def Trail (means : C → Write K V τ → Prop) (t : τ) (A : Keyspace K V τ) :
    List (Due C K V τ) → τ → Keyspace K V τ → Prop
  | [], t', B => t ≤ t' ∧ A.live t' = B.live t'
  | d :: ds, t', B => t ≤ d.time ∧ d.before = A.live d.time ∧
    ∃ w, means d.cmd w ∧ Trail means d.time (w.run d.time d.before) ds t' B

end

namespace Trail

variable [LT τ] [LE τ] [DecidableLT τ] [Std.LawfulOrderLT τ] [Std.IsLinearOrder τ] [DecidableEq K]
  {means : C → Write K V τ → Prop} {B B' : Keyspace K V τ} {t' s : τ}

/-- The primary goes on without a write. -/
theorem later (hle : t' ≤ s) (hB : B'.live s = B.live s) : ∀ {ds : List (Due C K V τ)} {t : τ}
    {A : Keyspace K V τ}, Trail means t A ds t' B → Trail means t A ds s B'
  | [], _, _, ⟨htt, hA⟩ => ⟨Std.le_trans htt hle, (Keyspace.live_congr hle hA).trans hB.symm⟩
  | _ :: _, _, _, ⟨htd, hbefore, w, hw, hrest⟩ => ⟨htd, hbefore, w, hw, later hle hB hrest⟩

/-- The primary runs a command. -/
theorem push (hle : t' ≤ s) {c : C} {w : Write K V τ} (hc : means c w)
    (hB : B'.live s = (w.run s (B.live s)).live s) : ∀ {ds : List (Due C K V τ)} {t : τ}
    {A : Keyspace K V τ}, Trail means t A ds t' B → Trail means t A (ds ++ [⟨c, s, B.live s⟩]) s B'
  | [], _, _, ⟨htt, hA⟩ =>
    ⟨Std.le_trans htt hle, (Keyspace.live_congr hle hA).symm, w, hc, Std.le_refl s, hB.symm⟩
  | _ :: _, _, _, ⟨htd, hbefore, w', hw', hrest⟩ => ⟨htd, hbefore, w', hw', push hle hc hB hrest⟩

theorem settled {t u : τ} {A : Keyspace K V τ} (h : Trail means t A [] t' B) (hu : t' ≤ u) :
    A.live u = B.live u := Keyspace.live_congr hu h.2

end Trail

end Framework
