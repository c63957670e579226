import Mathlib.Data.List.Pairwise

/-!
# Choices made one after the other

A loop takes choices from a list and puts them into a state, and stops with an error at one that the state
is not ready for. If what a choice does to the readiness of the state for another one depends on the two
alone (`Choices.ready_put`), then the loop accepts a list exactly if the state is ready for each choice in
it, and each two of them are allowed in their order (`foldlM_ok_iff`).
-/

namespace Framework

variable {σ γ ε : Type} {f : σ → γ → Except ε σ}

/-- What decides whether the step `f` of such a loop accepts a choice, and what it then does. -/
structure Choices (f : σ → γ → Except ε σ) where
  ready : σ → γ → Prop
  put : σ → γ → σ
  /-- The second choice may come after the first. -/
  allowed : γ → γ → Prop
  ok_iff (s : σ) (g : γ) (s' : σ) : f s g = .ok s' ↔ ready s g ∧ s' = put s g
  ready_put (s : σ) (g g' : γ) : ready s g → (ready (put s g) g' ↔ ready s g' ∧ allowed g g')

namespace Choices

variable (C : Choices f)

theorem foldlM_ok_iff : ∀ {gs : List γ} {s s' : σ}, gs.foldlM f s = .ok s' ↔
    ((∀ g ∈ gs, C.ready s g) ∧ gs.Pairwise C.allowed) ∧ s' = gs.foldl C.put s
  | [], s, s' => by
    simp only [List.foldlM_nil, List.foldl_nil, List.not_mem_nil, false_implies, implies_true,
      List.Pairwise.nil, and_self, true_and]
    exact ⟨fun h => (Except.ok.inj h).symm, fun h => congrArg Except.ok h.symm⟩
  | g :: gs, s, s' => by
    rw [List.foldlM_cons, List.foldl_cons, List.forall_mem_cons, List.pairwise_cons]
    cases hg : f s g with
    | error e =>
      have hready : ¬ C.ready s g := by
        intro h
        rw [(C.ok_iff s g (C.put s g)).mpr ⟨h, rfl⟩] at hg
        cases hg
      refine iff_of_false ?_ fun h => hready h.1.1.1
      rintro ⟨⟩
    | ok s₁ =>
      obtain ⟨hready, rfl⟩ := (C.ok_iff s g s₁).mp hg
      refine foldlM_ok_iff.trans (and_congr_left fun _ => ?_)
      -- the state is ready for what follows if it was before, and the choice allows it
      have hrest : (∀ g' ∈ gs, C.ready (C.put s g) g') ↔
          (∀ g' ∈ gs, C.ready s g') ∧ ∀ g' ∈ gs, C.allowed g g' := by
        rw [← forall₂_and]
        exact forall₂_congr fun g' _ => C.ready_put s g g' hready
      rw [hrest, and_iff_right hready, and_assoc]

end Choices

end Framework
