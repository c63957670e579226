import Mathlib.Data.List.Infix
import Mathlib.Logic.Relation

/-!
# Incremental parsers

A parser takes at most one request off the front of its input, or asks for more input, or
fails (`Parser`). `Drains` takes requests off until one of the last two happens, and is
total and deterministic (`Drains.total`, `Drains.det`). A loop that does this with fuel is
compared with it by `Drains.fuel_induction`.

An input is `Stable` if every prefix of it parses as the input does, once the request is
complete, and asks for more input before. Where all that draining passes through is stable
(`Steady`), draining the input as it arrives, in any chunks, finds the same requests and
leaves the same rest (`Steady.feeds`).

A `Code` is an encoding of requests that the parser reads back, whatever follows, and whose
proper prefixes ask for more. Draining a concatenation of codewords gives the requests back
(`Code.drains`), and draining any prefix of it gives those whose codewords are complete
(`Code.torn`).
-/

namespace Framework

/-- A request `r` from the first `n` elements, or not enough input, or a failure. -/
inductive Outcome (R E : Type) where
  | ok (r : R) (n : Nat)
  | incomplete
  | error (e : E)
deriving DecidableEq

/-- A parser of one request, which takes at least one element and none that is not there. -/
structure Parser (α R E : Type) where
  parse : List α → Outcome R E
  consumes {s : List α} {r : R} {n : Nat} : parse s = .ok r n → 0 < n ∧ n ≤ s.length

/-- How draining an input ends: short of input, or in a failure, with this rest. -/
inductive Rest (α E : Type) where
  | left (l : List α)
  | broken (e : E) (l : List α)

/-- The rest, either way. -/
def Rest.input {α E : Type} : Rest α E → List α
  | .left l => l
  | .broken _ l => l

variable {α R E : Type} {P : Parser α R E}

/-- Draining `s` gives the requests `rs` and ends in `x`. -/
inductive Drains (P : Parser α R E) : List α → List R → Rest α E → Prop
  | stop {s : List α} (h : P.parse s = .incomplete) : Drains P s [] (.left s)
  | fail {s : List α} {e : E} (h : P.parse s = .error e) : Drains P s [] (.broken e s)
  | step {s : List α} {r : R} {n : Nat} {rs : List R} {x : Rest α E} (h : P.parse s = .ok r n)
      (hd : Drains P (s.drop n) rs x) : Drains P s (r :: rs) x

namespace Drains

theorem total (P : Parser α R E) (s : List α) : ∃ rs x, Drains P s rs x := by
  induction hl : s.length using Nat.strong_induction_on generalizing s with
  | _ k ih =>
    cases h : P.parse s with
    | incomplete => exact ⟨_, _, .stop h⟩
    | error e => exact ⟨_, _, .fail h⟩
    | ok r n =>
      obtain ⟨hn, hle⟩ := P.consumes h
      obtain ⟨rs, x, hd⟩ := ih (s.drop n).length (by rw [List.length_drop]; omega) _ rfl
      exact ⟨_, _, .step h hd⟩

theorem det {s : List α} {rs rs' : List R} {x x' : Rest α E} (h : Drains P s rs x)
    (h' : Drains P s rs' x') : rs = rs' ∧ x = x' := by
  induction h generalizing rs' x' with
  | stop h =>
    cases h' with
    | stop => exact ⟨rfl, rfl⟩
    | fail g => rw [h] at g; cases g
    | step g => rw [h] at g; cases g
  | fail h =>
    cases h' with
    | stop g => rw [h] at g; cases g
    | fail g => rw [h] at g; cases g; exact ⟨rfl, rfl⟩
    | step g => rw [h] at g; cases g
  | step h _ ih =>
    cases h' with
    | stop g => rw [h] at g; cases g
    | fail g => rw [h] at g; cases g
    | step g hd' =>
      rw [h] at g; cases g
      obtain ⟨rfl, rfl⟩ := ih hd'
      exact ⟨rfl, rfl⟩

/-- A loop that drains its input, with enough fuel for it: one round for the end, and one for each
request. -/
theorem fuel_induction {motive : Nat → List α → List R → Rest α E → Prop}
    (stop : ∀ fuel s, P.parse s = .incomplete → motive (fuel + 1) s [] (.left s))
    (fail : ∀ fuel s e, P.parse s = .error e → motive (fuel + 1) s [] (.broken e s))
    (step : ∀ fuel s r n rs x, P.parse s = .ok r n → motive fuel (s.drop n) rs x →
      motive (fuel + 1) s (r :: rs) x)
    {s : List α} {rs : List R} {x : Rest α E} (h : Drains P s rs x) :
    ∀ {fuel : Nat}, s.length < fuel → motive fuel s rs x := by
  induction h with
  | @stop s h =>
    rintro (_ | fuel) hf
    · omega
    · exact stop fuel s h
  | @fail s e h =>
    rintro (_ | fuel) hf
    · omega
    · exact fail fuel s e h
  | @step s r n rs x h hd ih =>
    rintro (_ | fuel) hf
    · omega
    · obtain ⟨hn, hle⟩ := P.consumes h
      exact step fuel s r n rs x h (ih (by rw [List.length_drop]; omega))

/-- What is left over asks for more input. -/
theorem incomplete {s l : List α} {rs : List R} (h : Drains P s rs (.left l)) :
    P.parse l = .incomplete := by
  generalize hx : (Rest.left l : Rest α E) = x at h
  induction h with
  | stop h => cases hx; exact h
  | fail => cases hx
  | step _ _ ih => exact ih hx

/-- If what follows a request makes no difference to it, more input after what was drained goes on
from what was left. -/
theorem append (hmore : ∀ {s : List α} {r : R} {n : Nat}, P.parse s = .ok r n →
    ∀ t, P.parse (s ++ t) = .ok r n) {s t : List α} {rs rs' : List R} {x x' : Rest α E}
    (h : Drains P s rs x) (h' : Drains P (x.input ++ t) rs' x') : Drains P (s ++ t) (rs ++ rs') x' := by
  induction h with
  | stop => exact h'
  | fail => exact h'
  | step hp _ ih =>
    refine .step (hmore hp t) ?_
    rw [List.drop_append_of_le_length (P.consumes hp).2]
    exact ih h'

end Drains

/-! ## Input in chunks -/

/-- Taking requests off `s` leads to `s'`. -/
def Reaches (P : Parser α R E) : List α → List α → Prop :=
  Relation.ReflTransGen fun s s' => ∃ r n, P.parse s = .ok r n ∧ s' = s.drop n

/-- What the outcome `o` of an input tells of the outcome `o'` of its first `len` elements:
the same request if it is complete in them, and otherwise that they ask for more. -/
def Outcome.Cut (len : Nat) (o o' : Outcome R E) : Prop :=
  match o with
  | .ok r n => o' = if n ≤ len then .ok r n else .incomplete
  | .incomplete => o' = .incomplete
  | .error _ => True

@[simp] theorem Outcome.cut_ok {len n : Nat} {r : R} {o' : Outcome R E} :
    Outcome.Cut len (.ok r n) o' ↔ o' = if n ≤ len then .ok r n else .incomplete := .rfl

@[simp] theorem Outcome.cut_incomplete {len : Nat} {o' : Outcome R E} :
    Outcome.Cut len .incomplete o' ↔ o' = .incomplete := .rfl

@[simp] theorem Outcome.cut_error {len : Nat} {e : E} {o' : Outcome R E} :
    Outcome.Cut len (.error e) o' := trivial

/-- Every prefix of `s` parses as `s` does if the request of `s` is complete in it, and
otherwise asks for more. -/
def Stable (P : Parser α R E) (s : List α) : Prop :=
  ∀ p q, s = p ++ q → (P.parse s).Cut p.length (P.parse p)

/-- Every input that draining `s` passes through is stable. -/
def Steady (P : Parser α R E) (s : List α) : Prop := ∀ s', Reaches P s s' → Stable P s'

theorem Steady.drop {s : List α} {r : R} {n : Nat} (h : Steady P s) (hp : P.parse s = .ok r n) :
    Steady P (s.drop n) :=
  fun s' hs' => h s' (.head ⟨r, n, hp, rfl⟩ hs')

theorem Steady.stable {s : List α} (h : Steady P s) : Stable P s := h s .refl

/-- Draining a prefix first: the requests that are complete in `p`, then those of what is
left of `p` and `q`. -/
theorem Steady.split {s p q l : List α} {rs : List R} (hs : Steady P s) (he : s = p ++ q)
    (h : Drains P s rs (.left l)) :
    ∃ rs₁ l₁ rs₂, Drains P p rs₁ (.left l₁) ∧ Steady P (l₁ ++ q) ∧
      Drains P (l₁ ++ q) rs₂ (.left l) ∧ rs = rs₁ ++ rs₂ := by
  generalize hx : (Rest.left l : Rest α E) = x at h
  induction h generalizing p with
  | fail => cases hx
  | @stop s h =>
    subst he
    have hp := hs.stable p q rfl
    rw [h, Outcome.cut_incomplete] at hp
    cases hx
    exact ⟨[], p, [], .stop hp, hs, .stop h, rfl⟩
  | @step s r n rs x h hd ih =>
    subst he
    have hp := hs.stable p q rfl
    rw [h, Outcome.cut_ok] at hp
    split at hp
    · rename_i hn
      have hdrop : (p ++ q).drop n = p.drop n ++ q := List.drop_append_of_le_length hn
      obtain ⟨rs₁, l₁, rs₂, h₁, hs₂, h₂, rfl⟩ := ih (hs.drop h) hdrop hx
      exact ⟨r :: rs₁, l₁, rs₂, .step hp h₁, hs₂, h₂, rfl⟩
    · cases hx
      exact ⟨[], p, r :: rs, .stop hp, hs, .step h hd, rfl⟩

/-- Draining after each chunk, what is left over staying in the buffer. -/
inductive Feeds (P : Parser α R E) : List α → List (List α) → List R → List α → Prop
  | nil {b : List α} : Feeds P b [] [] b
  | cons {b c l l' : List α} {cs : List (List α)} {rs rs' : List R}
      (h : Drains P (b ++ c) rs (.left l)) (hf : Feeds P l cs rs' l') :
      Feeds P b (c :: cs) (rs ++ rs') l'

/-- Chunks make no difference to a steady input. -/
theorem Steady.feeds {b l : List α} {cs : List (List α)} {rs : List R}
    (hb : P.parse b = .incomplete) (hs : Steady P (b ++ cs.flatten))
    (h : Drains P (b ++ cs.flatten) rs (.left l)) : Feeds P b cs rs l := by
  induction cs generalizing b rs with
  | nil =>
    rw [List.flatten_nil, List.append_nil] at h
    obtain ⟨rfl, hl⟩ := h.det (.stop hb)
    cases hl; exact .nil
  | cons c cs ih =>
    rw [List.flatten_cons, ← List.append_assoc] at hs h
    obtain ⟨rs₁, l₁, rs₂, h₁, hs₂, h₂, rfl⟩ := hs.split rfl h
    exact .cons h₁ (ih h₁.incomplete hs₂ h₂)

/-! ## Codewords -/

/-- An encoding of the requests satisfying `ok`, which the parser reads back whatever
follows, and whose proper prefixes ask for more input. -/
structure Code (P : Parser α R E) where
  enc : R → List α
  ok : R → Prop
  parse_nil : P.parse [] = .incomplete
  parse_enc {r : R} (s : List α) : ok r → P.parse (enc r ++ s) = .ok r (enc r).length
  parse_torn {r : R} {p q : List α} : ok r → enc r = p ++ q → q ≠ [] → P.parse p = .incomplete

namespace Code

variable (C : Code P)

/-- The codewords of `rs`, one after the other. -/
def encs (rs : List R) : List α := rs.flatMap C.enc

theorem encs_cons (r : R) (rs : List R) : C.encs (r :: rs) = C.enc r ++ C.encs rs := by
  simp [encs]

theorem encs_append (rs rs' : List R) : C.encs (rs ++ rs') = C.encs rs ++ C.encs rs' := by
  simp [encs]

/-- Codewords in front of an input. -/
theorem drains {rs rs' : List R} {t : List α} {x : Rest α E} (hok : ∀ r ∈ rs, C.ok r)
    (h : Drains P t rs' x) : Drains P (C.encs rs ++ t) (rs ++ rs') x := by
  induction rs with
  | nil => exact h
  | cons r rs ih =>
    rw [encs_cons, List.append_assoc, List.cons_append]
    refine .step (C.parse_enc _ (hok r List.mem_cons_self)) ?_
    rw [List.drop_left]
    exact ih fun r' hr' => hok r' (List.mem_cons_of_mem _ hr')

theorem drains_all {rs : List R} (hok : ∀ r ∈ rs, C.ok r) : Drains P (C.encs rs) rs (.left []) := by
  simpa using C.drains hok (.stop C.parse_nil)

/-- The first request of a prefix of codewords: none yet, or that of the first codeword. -/
theorem parse_front {rs : List R} {p q : List α} (hok : ∀ r ∈ rs, C.ok r) (he : C.encs rs = p ++ q) :
    P.parse p = .incomplete ∨
      ∃ r rs' p', rs = r :: rs' ∧ p = C.enc r ++ p' ∧ P.parse p = .ok r (C.enc r).length := by
  cases rs with
  | nil =>
    rw [(List.append_eq_nil_iff.mp he.symm).1]
    exact .inl C.parse_nil
  | cons r rs =>
    have hr := hok r List.mem_cons_self
    rw [encs_cons] at he
    rcases List.append_eq_append_iff.mp he with ⟨p', rfl, -⟩ | ⟨c, hc, -⟩
    · exact .inr ⟨r, rs, p', rfl, rfl, C.parse_enc p' hr⟩
    · by_cases hcn : c = []
      · subst hcn
        rw [List.append_nil] at hc
        subst hc
        exact .inr ⟨r, rs, [], rfl, (List.append_nil _).symm, by simpa using C.parse_enc [] hr⟩
      · exact .inl (C.parse_torn hr hc hcn)

/-- A prefix of codewords: the first `k` of them, then a rest that is empty or a proper
prefix of the next one. -/
theorem torn {rs : List R} {p q : List α} (hok : ∀ r ∈ rs, C.ok r) (he : C.encs rs = p ++ q) :
    ∃ k t, p = C.encs (rs.take k) ++ t ∧ Drains P p (rs.take k) (.left t) ∧
      (t = [] ∨ ∃ r u, rs[k]? = some r ∧ C.enc r = t ++ u ∧ u ≠ []) := by
  induction rs generalizing p with
  | nil =>
    have hp : p = [] := (List.append_eq_nil_iff.mp he.symm).1
    subst hp
    exact ⟨0, [], rfl, .stop C.parse_nil, .inl rfl⟩
  | cons r rs ih =>
    have hr := hok r List.mem_cons_self
    rw [encs_cons] at he
    rcases List.append_eq_append_iff.mp he with ⟨a, rfl, ha⟩ | ⟨c, hc, -⟩
    · obtain ⟨k, t, rfl, hd, ht⟩ := ih (fun r' hr' => hok r' (List.mem_cons_of_mem _ hr')) ha
      refine ⟨k + 1, t, ?_, ?_, ?_⟩
      · rw [List.take_succ_cons, encs_cons, List.append_assoc]
      · rw [List.take_succ_cons]
        refine .step (C.parse_enc _ hr) ?_
        rwa [List.drop_left]
      · simpa using ht
    · by_cases hcn : c = []
      · subst hcn
        rw [List.append_nil] at hc
        subst hc
        refine ⟨1, [], by simp [encs], ?_, .inl rfl⟩
        simpa [encs] using C.drains (t := []) (List.forall_mem_singleton.mpr hr) (.stop C.parse_nil)
      · exact ⟨0, p, by simp [encs], .stop (C.parse_torn hr hc hcn),
          .inr ⟨r, c, rfl, hc, hcn⟩⟩

end Code

end Framework
