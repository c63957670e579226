import Mathlib.Data.List.Basic

/-!
# Abstractions that hold until something is lost

An `Abstraction` forgets something of a state. An operation follows another one if it does, on what is
left, what the other does (`Follows`, and `Answers` for one that returns something), unless it loses
something that the other one would keep. What is lost stays lost, so operations that follow do so one
after the other (`Follows.comp`, `Follows.foldl`, `Answers.bind`).
-/

namespace Framework

/-- What a state is to those that do not see all of it. -/
structure Abstraction (σ σ' : Type) where
  map : σ → σ'
  /-- Nothing is lost, and what `map` forgets is as it should be. -/
  Fine : σ → Prop := fun _ => True
  Lost : σ → Prop := fun _ => False

namespace Abstraction

variable {σ σ' α : Type} {A : Abstraction σ σ'}

/-- `f'` does to the abstract state what `f` does, unless something is lost. -/
structure Follows (A : Abstraction σ σ') (f : σ → σ) (f' : σ' → σ') : Prop where
  fine : ∀ s, A.Fine s → A.Lost (f s) ∨ A.Fine (f s) ∧ f' (A.map s) = A.map (f s)
  lost : ∀ s, A.Lost s → A.Lost (f s)

/-- It returns the same, too. -/
structure Answers (A : Abstraction σ σ') (f : σ → α × σ) (f' : σ' → α × σ') : Prop where
  fine : ∀ s, A.Fine s → A.Lost (f s).2 ∨ A.Fine (f s).2 ∧ f' (A.map s) = ((f s).1, A.map (f s).2)
  lost : ∀ s, A.Lost s → A.Lost (f s).2

/-- Without conditions, `map` commutes with the operations. -/
theorem Follows.of_commutes {map : σ → σ'} {f : σ → σ} {f' : σ' → σ'} (h : ∀ s, f' (map s) = map (f s)) :
    Follows { map } f f' where
  fine s _ := .inr ⟨trivial, h s⟩
  lost _ h := h

theorem Follows.id : A.Follows id id where
  fine _ h := .inr ⟨h, rfl⟩
  lost _ h := h

section

variable {f g : σ → σ} {f' g' : σ' → σ'}

theorem Follows.comp (hf : A.Follows f f') (hg : A.Follows g g') :
    A.Follows (fun s => g (f s)) (fun s' => g' (f' s')) where
  fine s h := by
    rcases hf.fine s h with hl | ⟨hfine, he⟩
    · exact .inl (hg.lost _ hl)
    · rw [he]
      exact hg.fine _ hfine
  lost s h := hg.lost _ (hf.lost s h)

theorem Follows.foldl {β : Type} {f : σ → β → σ} {f' : σ' → β → σ'}
    (h : ∀ b, A.Follows (f · b) (f' · b)) : ∀ l : List β, A.Follows (l.foldl f) (l.foldl f')
  | [] => .id
  | b :: l => (h b).comp (foldl h l)

/-- The answer decides what is done next. -/
theorem Answers.bind {f : σ → α × σ} {f' : σ' → α × σ'} {g : α → σ → σ} {g' : α → σ' → σ'}
    (hf : A.Answers f f') (hg : ∀ a, A.Follows (g a) (g' a)) :
    A.Follows (fun s => g (f s).1 (f s).2) (fun s' => g' (f' s').1 (f' s').2) where
  fine s h := by
    rcases hf.fine s h with hl | ⟨hfine, he⟩
    · exact .inl ((hg _).lost _ hl)
    · rw [he]
      exact (hg _).fine _ hfine
  lost s h := (hg _).lost _ (hf.lost s h)

/-- An operation that loses nothing. -/
theorem Follows.eq_of_not_lost (h : A.Follows f f') {s : σ} (hs : A.Fine s) (hl : ¬ A.Lost (f s)) :
    A.Fine (f s) ∧ f' (A.map s) = A.map (f s) := (h.fine s hs).resolve_left hl

end

end Abstraction

end Framework
