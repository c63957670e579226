import Mathlib.Data.List.Basic

/-!
# Patterns with wildcards

A pattern is a list of tokens: a `star` matches any string, any other token one symbol (`Matches`). The
matcher goes through pattern and input side by side. It remembers the last star only, with the input
from which it tries what follows the star; where it comes to a mismatch, it tries from one symbol later
(`step`).

Earlier stars never have to be tried again: what follows an earlier star up to the last one takes a fixed
number of symbols, so a later try comes to the last star at a place that this star reaches anyway
(`Matched.star`). So each step keeps whether there is a match (`step_next`, `step_stop`), and the steps
are bounded by the lengths of pattern and input (`run_decides`).
-/

namespace Framework.Wildcard

variable {α : Type}

/-- What a pattern is made of. -/
inductive Token (α : Type) where
  | star
  /-- One symbol that `p` accepts. -/
  | one (p : α → Bool)

/-- Does the token match nothing, too? -/
def Token.isStar : Token α → Bool
  | .star => true
  | .one _ => false

/-- The tokens match the string. -/
inductive Matches : List (Token α) → List α → Prop
  | nil : Matches [] []
  | star {ts : List (Token α)} {s : List α} (skipped : List α) : Matches ts s →
    Matches (.star :: ts) (skipped ++ s)
  | one {p : α → Bool} {a : α} {ts : List (Token α)} {s : List α} : p a = true → Matches ts s →
    Matches (.one p :: ts) (a :: s)

variable {ts : List (Token α)} {s : List α}

theorem matches_star_iff : Matches (.star :: ts) s ↔ ∃ s', s' <:+ s ∧ Matches ts s' := by
  constructor
  · intro h
    cases h with
    | star skipped h => exact ⟨_, List.suffix_append skipped _, h⟩
  · rintro ⟨s', ⟨skipped, rfl⟩, h⟩
    exact .star skipped h

theorem matches_one_iff {p : α → Bool} {a : α} :
    Matches (.one p :: ts) (a :: s) ↔ p a = true ∧ Matches ts s := by
  constructor
  · intro h
    cases h with
    | one hp h => exact ⟨hp, h⟩
  · rintro ⟨hp, h⟩
    exact .one hp h

theorem not_matches_nil_cons {a : α} : ¬ Matches [] (a :: s) := by
  intro h
  cases h

/-- What matches the empty string are stars. -/
theorem matches_empty_iff : ∀ {ts : List (Token α)}, Matches ts [] ↔ ts.all Token.isStar = true
  | [] => iff_of_true .nil rfl
  | .star :: ts => by
    rw [matches_star_iff, List.all_cons, Token.isStar, Bool.true_and, ← matches_empty_iff]
    simp
  | .one p :: ts => by
    refine iff_of_false (fun h => ?_) (by simp [Token.isStar])
    cases h

/-- Tokens for one symbol each take as many symbols. -/
theorem matches_ones : ∀ (ps : List (α → Bool)) {s : List α}, Matches (ps.map .one ++ ts) s →
    ∃ front rest, s = front ++ rest ∧ front.length = ps.length ∧ Matches ts rest
  | [], s, h => ⟨[], s, rfl, rfl, h⟩
  | p :: ps, _, h => by
    cases h with
    | one hp h =>
      obtain ⟨front, rest, rfl, hlen, hrest⟩ := matches_ones ps h
      exact ⟨_ :: front, rest, rfl, by simp [hlen], hrest⟩

/-! ## The matcher -/

/-- What is left of pattern and input, and what follows the last star, with the input from which that
is tried. -/
structure State (α : Type) where
  tokens : List (Token α)
  input : List α
  star : Option (List (Token α) × List α) := none

/-- The last star takes one more symbol. -/
def backtrack (st : State α) : Bool ⊕ State α :=
  match st.star with
  | some (ts, s) => .inr ⟨ts, s.tail, some (ts, s.tail)⟩
  | none => .inl false

/-- An iteration of the matcher, which ends with an answer or goes on. -/
def step (st : State α) : Bool ⊕ State α :=
  match st.input, st.tokens with
  | [], ts => .inl (ts.all Token.isStar)
  | a :: s, .star :: ts => .inr ⟨ts, a :: s, some (ts, a :: s)⟩
  | a :: s, .one p :: ts => if p a then .inr ⟨ts, s, st.star⟩ else backtrack st
  | _ :: _, [] => backtrack st

section StepEquations

variable {st : State α} {a : α} {s : List α} (hinput : st.input = a :: s)
include hinput

theorem step_nil (ht : st.tokens = []) : step st = backtrack st := by
  rw [step.eq_def, hinput, ht]

theorem step_star {ts : List (Token α)} (ht : st.tokens = .star :: ts) :
    step st = .inr ⟨ts, a :: s, some (ts, a :: s)⟩ := by
  rw [step.eq_def, hinput, ht]

theorem step_one {p : α → Bool} {ts : List (Token α)} (ht : st.tokens = .one p :: ts) :
    step st = if p a then .inr ⟨ts, s, st.star⟩ else backtrack st := by
  rw [step.eq_def, hinput, ht]

end StepEquations

/-- At most `n` steps, none if they are not enough. -/
def run : Nat → State α → Option Bool
  | 0, _ => none
  | n + 1, st =>
    match step st with
    | .inl b => some b
    | .inr st => run n st

/-- Since the last star as many symbols as tokens were matched, and none of these was a star. -/
structure Matched (ts : List (Token α)) (s : List α) (st : State α) : Prop where
  tokens : ∃ ps : List (α → Bool), ts = ps.map .one ++ st.tokens ∧ s.length = ps.length + st.input.length
  input : st.input <:+ s

/-- A state that the matcher comes to with a pattern of `K` tokens. -/
structure Valid (K : Nat) (st : State α) : Prop where
  tokens : st.tokens.length ≤ K
  star : ∀ ts s, st.star = some (ts, s) → ts.length ≤ K ∧ Matched ts s st

/-- A try of the last star from a later symbol matches. -/
def Later (st : State α) : Prop :=
  ∃ ts a s s', st.star = some (ts, a :: s) ∧ s' <:+ s ∧ Matches ts s'

/-- There is a match from here, or with a later try. -/
def Alive (st : State α) : Prop := Matches st.tokens st.input ∨ Later st

/-- At the end of the input no later try matches: it has too few symbols. -/
theorem Matched.end_of_input {st : State α} {a : α} {s' : List α} (h : Matched ts (a :: s) st)
    (hend : st.input = []) (hs : s' <:+ s) : ¬ Matches ts s' := by
  obtain ⟨ps, rfl, hlen⟩ := h.tokens
  intro hm
  obtain ⟨front, rest, rfl, hfront, -⟩ := matches_ones ps hm
  have := hs.length_le
  rw [hend, List.length_cons, List.length_nil] at hlen
  rw [List.length_append] at this
  omega

/-- Where there is a star again, a later try of the last one finds nothing that this star does not. -/
theorem Matched.star {st : State α} {a : α} {s' : List α} {rest : List (Token α)}
    (h : Matched ts (a :: s) st) (hst : st.tokens = .star :: rest) (hs : s' <:+ s) (hm : Matches ts s') :
    Matches st.tokens st.input := by
  obtain ⟨ps, rfl, hlen⟩ := h.tokens
  obtain ⟨front, s'', rfl, hfront, hm'⟩ := matches_ones ps hm
  have hshort := hs.length_le
  rw [List.length_append, hfront] at hshort
  rw [List.length_cons] at hlen
  -- the new star's input and what the later try has left for it are ends of one string
  have hsuffix : s'' <:+ st.input :=
    List.suffix_of_suffix_length_le ((List.suffix_append front s'').trans (hs.trans (List.suffix_cons a s)))
      h.input (by omega)
  rw [hst] at hm' ⊢
  obtain ⟨s₃, hs₃, hm₃⟩ := matches_star_iff.mp hm'
  exact matches_star_iff.mpr ⟨s₃, hs₃.trans hsuffix, hm₃⟩

/-- The symbols from which the last star is tried, or those left where there was none. -/
def tried (st : State α) : List α := (st.star.map Prod.snd).getD st.input

/-- The steps left at most, with a pattern of `K` tokens: each takes a token, or a symbol to try from. -/
def stepsLeft (K : Nat) (st : State α) : Nat := (tried st).length * (K + 1) + st.tokens.length

/-- `st'` comes after `st`, with as many matches and fewer steps left. -/
structure Next (K : Nat) (st st' : State α) : Prop where
  valid : Valid K st'
  alive : Alive st' ↔ Alive st
  stepsLeft : stepsLeft K st' < stepsLeft K st

variable {K : Nat} {st st' : State α}

theorem Valid.input_suffix (h : Valid K st) : st.input <:+ tried st := by
  cases hstar : st.star with
  | none => simp [tried, hstar]
  | some last =>
    rw [tried, hstar]
    exact (h.star last.1 last.2 hstar).2.input

theorem backtrack_next (h : Valid K st) (hinput : st.input ≠ []) (hm : ¬ Matches st.tokens st.input)
    (hb : backtrack st = .inr st') : Next K st st' := by
  cases hstar : st.star with
  | none => simp [backtrack, hstar] at hb
  | some last =>
    obtain ⟨ts, s⟩ := last
    obtain ⟨hts, hmatched⟩ := h.star ts s hstar
    rcases s with - | ⟨a, s⟩
    · exact absurd (List.suffix_nil.mp hmatched.input) hinput
    obtain rfl : ⟨ts, s, some (ts, s)⟩ = st' := by simpa [backtrack, hstar] using hb
    refine ⟨⟨hts, ?_⟩, ?_, ?_⟩
    · rintro _ _ ⟨⟩
      exact ⟨hts, ⟨[], rfl, by simp⟩, List.suffix_rfl⟩
    · constructor
      · rintro (h | ⟨_, b, s₁, s', ⟨⟩, hs, h⟩)
        · exact .inr ⟨ts, a, s, s, hstar, List.suffix_rfl, h⟩
        · exact .inr ⟨ts, a, b :: s₁, s', hstar, hs.trans (List.suffix_cons b s₁), h⟩
      · rintro (h | ⟨_, _, _, s', hstar', hs, h⟩)
        · exact absurd h hm
        · obtain ⟨rfl, rfl, rfl⟩ : ts = _ ∧ a = _ ∧ s = _ := by simpa [hstar] using hstar'
          rcases s with - | ⟨b, s⟩
          · rw [List.suffix_nil.mp hs] at h
            exact .inl h
          · rcases List.suffix_cons_iff.mp hs with rfl | hs
            · exact .inl h
            · exact .inr ⟨ts, b, s, s', rfl, hs, h⟩
    · simp only [stepsLeft, tried, hstar, Option.map_some, Option.getD_some, List.length_cons]
      rw [Nat.succ_mul]
      omega

theorem backtrack_stop {b : Bool} (hm : ¬ Matches st.tokens st.input) (hb : backtrack st = .inl b) :
    b = true ↔ Alive st := by
  cases hstar : st.star with
  | none =>
    obtain rfl : false = b := by simpa [backtrack, hstar] using hb
    refine iff_of_false Bool.false_ne_true ?_
    rintro (h | ⟨_, _, _, _, hstar', -, -⟩)
    · exact hm h
    · rw [hstar] at hstar'
      cases hstar'
  | some last => simp [backtrack, hstar] at hb

/-- The matcher takes a star: what it can reach includes all that an earlier star could. -/
theorem star_next {a : α} {star : Option (List (Token α) × List α)}
    (h : Valid K ⟨.star :: ts, a :: s, star⟩) :
    Next K ⟨.star :: ts, a :: s, star⟩ ⟨ts, a :: s, some (ts, a :: s)⟩ := by
  have hts : ts.length ≤ K := Nat.le_of_succ_le h.tokens
  refine ⟨⟨hts, ?_⟩, ?_, ?_⟩
  · rintro _ _ ⟨⟩
    exact ⟨hts, ⟨[], rfl, by simp⟩, List.suffix_rfl⟩
  · have hstar : Alive ⟨ts, a :: s, some (ts, a :: s)⟩ ↔ Matches (.star :: ts) (a :: s) := by
      rw [matches_star_iff]
      constructor
      · rintro (h | ⟨_, _, _, s', ⟨⟩, hs, h⟩)
        · exact ⟨a :: s, List.suffix_rfl, h⟩
        · exact ⟨s', hs.trans (List.suffix_cons a s), h⟩
      · rintro ⟨s', hs, h⟩
        rcases List.suffix_cons_iff.mp hs with rfl | hs
        · exact .inl h
        · exact .inr ⟨ts, a, s, s', rfl, hs, h⟩
    rw [hstar]
    refine ⟨.inl, ?_⟩
    rintro (h' | ⟨ts₀, b, s₀, s', hstar, hs, h'⟩)
    · exact h'
    · exact (h.star _ _ hstar).2.star rfl hs h'
  · have := Nat.mul_le_mul_right (K + 1) h.input_suffix.length_le
    simp only [stepsLeft, tried, Option.map_some, Option.getD_some, List.length_cons] at this ⊢
    omega

/-- The matcher takes a symbol. -/
theorem one_next {p : α → Bool} {a : α} {star : Option (List (Token α) × List α)}
    (h : Valid K ⟨.one p :: ts, a :: s, star⟩) (hp : p a = true) :
    Next K ⟨.one p :: ts, a :: s, star⟩ ⟨ts, s, star⟩ := by
  refine ⟨⟨Nat.le_of_succ_le h.tokens, ?_⟩, ?_, ?_⟩
  · intro ts₀ s₀ hstar
    obtain ⟨hts, ⟨ps, rfl, hlen⟩, hinput⟩ := h.star ts₀ s₀ hstar
    refine ⟨hts, ⟨ps ++ [p], by simp, ?_⟩, (List.suffix_cons a s).trans hinput⟩
    simp only [List.length_cons, List.length_append, List.length_nil] at hlen ⊢
    omega
  · rw [Alive, Alive, matches_one_iff, and_iff_right hp]
    rfl
  · cases star with
    | none =>
      simp only [stepsLeft, tried, Option.map_none, Option.getD_none, List.length_cons, Nat.succ_mul]
      omega
    | some last => simp [stepsLeft, tried]

theorem step_next (h : Valid K st) (hstep : step st = .inr st') : Next K st st' := by
  obtain ⟨tokens, input, star⟩ := st
  rcases input with - | ⟨a, s⟩
  · cases hstep
  rcases tokens with - | ⟨- | p, ts⟩
  · exact backtrack_next h (List.cons_ne_nil a s) not_matches_nil_cons hstep
  · cases hstep
    exact star_next h
  · by_cases hp : p a = true
    · rw [step_one rfl rfl, if_pos hp] at hstep
      cases hstep
      exact one_next h hp
    · rw [step_one rfl rfl, if_neg hp] at hstep
      exact backtrack_next h (List.cons_ne_nil a s) (fun hm => hp (matches_one_iff.mp hm).1) hstep

theorem step_stop (h : Valid K st) {b : Bool} (hstep : step st = .inl b) : b = true ↔ Alive st := by
  obtain ⟨tokens, input, star⟩ := st
  rcases input with - | ⟨a, s⟩
  · cases hstep
    rw [← matches_empty_iff]
    refine ⟨.inl, ?_⟩
    rintro (hm | ⟨ts, a, s, s', hstar, hs, hm⟩)
    · exact hm
    · exact absurd hm ((h.star ts _ hstar).2.end_of_input rfl hs)
  rcases tokens with - | ⟨- | p, ts⟩
  · exact backtrack_stop not_matches_nil_cons hstep
  · cases hstep
  · by_cases hp : p a = true
    · rw [step_one rfl rfl, if_pos hp] at hstep
      cases hstep
    · rw [step_one rfl rfl, if_neg hp] at hstep
      exact backtrack_stop (fun hm => hp (matches_one_iff.mp hm).1) hstep

/-- With the steps it has left the matcher comes to an end, and finds a match where there is one. -/
theorem run_eq : ∀ {n : Nat} {st : State α}, Valid K st → stepsLeft K st < n →
    ∃ b, run n st = some b ∧ (b = true ↔ Alive st)
  | 0, _, _, hn => absurd hn (Nat.not_lt_zero _)
  | n + 1, st, h, hn => by
    cases hstep : step st with
    | inl b => exact ⟨b, by rw [run, hstep], step_stop h hstep⟩
    | inr st' =>
      have hnext := step_next h hstep
      obtain ⟨b, hrun, hb⟩ := run_eq hnext.valid (Nat.lt_of_lt_of_le hnext.stepsLeft (Nat.le_of_lt_succ hn))
      exact ⟨b, by rw [run, hstep]; exact hrun, hb.trans hnext.alive⟩

/-- From the start of pattern and input the matcher decides whether they match. -/
theorem run_decides (ts : List (Token α)) (s : List α) {n : Nat}
    (hn : s.length * (ts.length + 1) + ts.length < n) :
    ∃ b, run n ⟨ts, s, none⟩ = some b ∧ (b = true ↔ Matches ts s) := by
  have hvalid : Valid ts.length ⟨ts, s, none⟩ := ⟨Nat.le_refl _, by rintro _ _ ⟨⟩⟩
  obtain ⟨b, hrun, hb⟩ := run_eq hvalid hn
  refine ⟨b, hrun, hb.trans ⟨?_, .inl⟩⟩
  rintro (h | ⟨_, _, _, _, ⟨⟩, -, -⟩)
  exact h

end Framework.Wildcard
