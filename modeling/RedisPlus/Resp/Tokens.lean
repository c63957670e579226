import RedisPlus.Framework.Wildcard
import RedisPlus.Resp.Glob

/-!
# What a glob pattern means

A pattern is read from left to right into tokens (`tokenize`): a star, any byte, a class, or a byte, which
may be escaped. A class goes up to its `]`, or to the end of the pattern if it has none. The matcher never
makes this list: it reads the token at its position in each iteration, and so the same one again after it
goes back to a star. `step_state` says that an iteration is a step of the matcher of
`Framework.Wildcard` on the tokens from the position on, and `globMatch_decides` what follows: the loop
ends, and finds a match exactly where the tokens match.
-/

namespace RP

open Framework.Wildcard

/-- An item of a class; the ends of a range may come in either order. -/
inductive ClassItem where
  | byte (b : UInt8)
  | range (a b : UInt8)

/-- Is the byte in the item? -/
def ClassItem.has (c : UInt8) : ClassItem → Bool
  | .byte b => b == c
  | .range a b => min (charVal a) (charVal b) ≤ charVal c && charVal c ≤ max (charVal a) (charVal b)

/-- What a pattern is read into. -/
inductive GlobToken where
  | star
  | any
  | cls (negate : Bool) (items : List ClassItem)
  | literal (b : UInt8)

/-- What a token matches. -/
def GlobToken.token : GlobToken → Token UInt8
  | .star => .star
  | .any => .one fun _ => true
  | .cls negate items => .one fun c => items.any (·.has c) != negate
  | .literal b => .one (b == ·)

/-- The item that the byte `a` starts in a class, and the pattern after it. -/
def nextItem (a : UInt8) : Bytes → ClassItem × Bytes
  | [] => (.byte a, [])
  | [b] => if a = 92 then (.byte b, []) else (.byte a, [b])
  | b :: c :: rest =>
    if a = 92 then (.byte b, c :: rest)
    else if b = 45 ∧ c ≠ 93 then (.range a c, rest)
    else (.byte a, b :: c :: rest)

theorem length_nextItem (a : UInt8) : ∀ rest : Bytes, (nextItem a rest).2.length ≤ rest.length
  | [] => Nat.le_refl _
  | [b] => by
    rw [nextItem]
    split_ifs <;> simp
  | b :: c :: rest => by
    rw [nextItem]
    split_ifs <;> simp only [List.length_cons] <;> omega

/-- The items of a class up to its `]`, and the pattern after that. -/
def classItems : Bytes → List ClassItem × Bytes
  | [] => ([], [])
  | a :: rest =>
    if a = 93 then ([], rest)
    else (classItems (nextItem a rest).2).map ((nextItem a rest).1 :: ·) id
termination_by pattern => pattern.length
decreasing_by exact Nat.lt_succ_of_le (length_nextItem a rest)

theorem length_classItems (pattern : Bytes) : (classItems pattern).2.length ≤ pattern.length := by
  fun_induction classItems pattern with
  | case1 => exact Nat.le_refl _
  | case2 rest => exact Nat.le_succ _
  | case3 a rest _ ih => exact ih.trans ((length_nextItem a rest).trans (Nat.le_succ _))

/-- The byte `a`, or the one it escapes, and the pattern after it. -/
def nextLiteral (a : UInt8) : Bytes → GlobToken × Bytes
  | [] => (.literal a, [])
  | b :: rest => if a = 92 then (.literal b, rest) else (.literal a, b :: rest)

/-- The token that the byte `a` starts, and the pattern after it. -/
def nextToken (a : UInt8) (rest : Bytes) : GlobToken × Bytes :=
  if a = 42 then (.star, rest)
  else if a = 63 then (.any, rest)
  else if a = 91 then
    let negate := rest.head? == some 94
    (classItems (if negate then rest.tail else rest)).map (.cls negate) id
  else nextLiteral a rest

theorem length_nextLiteral (a : UInt8) : ∀ rest : Bytes, (nextLiteral a rest).2.length ≤ rest.length
  | [] => Nat.le_refl _
  | b :: rest => by
    rw [nextLiteral]
    split_ifs <;> simp

theorem length_nextToken (a : UInt8) (rest : Bytes) : (nextToken a rest).2.length ≤ rest.length := by
  rw [nextToken]
  split_ifs
  · exact Nat.le_refl _
  · exact Nat.le_refl _
  · exact (length_classItems _).trans (by split_ifs <;> simp)
  · exact length_nextLiteral a rest

/-- The tokens of a pattern. -/
def tokenize : Bytes → List GlobToken
  | [] => []
  | a :: rest => (nextToken a rest).1 :: tokenize (nextToken a rest).2
termination_by pattern => pattern.length
decreasing_by exact Nat.lt_succ_of_le (length_nextToken a rest)

theorem length_tokenize (pattern : Bytes) : (tokenize pattern).length ≤ pattern.length := by
  fun_induction tokenize pattern with
  | case1 => exact Nat.le_refl _
  | case2 a rest ih => exact Nat.succ_le_succ (ih.trans (length_nextToken a rest))

/-! ## The token at a position -/

section Position

variable {pattern : Bytes} {p q : Nat} {a c : UInt8} {rest : Bytes}

theorem getElem?_of_drop (h : pattern.drop p = a :: rest) : pattern[p]? = some a := by
  rw [← Nat.add_zero p, ← List.getElem?_drop, h]
  rfl

theorem getElem?_add_of_drop (h : pattern.drop p = a :: rest) (i : Nat) :
    pattern[p + (i + 1)]? = rest[i]? := by
  rw [← List.getElem?_drop, h, List.getElem?_cons_succ]

theorem drop_add_of_drop (h : pattern.drop p = a :: rest) (i : Nat) :
    pattern.drop (p + (i + 1)) = rest.drop i := by
  rw [← List.drop_drop, h, List.drop_succ_cons]

theorem length_of_drop (h : pattern.drop p = a :: rest) : pattern.length = p + 1 + rest.length := by
  have := congrArg List.length h
  rw [List.length_drop, List.length_cons] at this
  omega

/-- An iteration over a class reads the next item. -/
theorem classScan_item (h : pattern.drop q = a :: rest) (ha : a ≠ 93) :
    ∃ q' > q, pattern.drop q' = (nextItem a rest).2 ∧ ∀ fuel matched,
      classScan pattern c (fuel + 1) q matched =
        classScan pattern c fuel q' (matched || (nextItem a rest).1.has c) := by
  have hscan (fuel : Nat) (matched : Bool) := classScan.eq_2 pattern c q matched fuel
  rw [getElem?_of_drop h, getElem?_add_of_drop h 0, getElem?_add_of_drop h 1, length_of_drop h] at hscan
  simp only [if_neg ha] at hscan
  rcases rest with - | ⟨b, - | ⟨d, rest⟩⟩
  · refine ⟨q + 1, by omega, drop_add_of_drop h 0, fun fuel matched => ?_⟩
    rw [hscan, if_neg (by simp)]
    rfl
  · rw [nextItem]
    split_ifs with h92
    · refine ⟨q + 2, by omega, drop_add_of_drop h 1, fun fuel matched => ?_⟩
      rw [hscan, if_pos ⟨h92, by simp⟩]
      rfl
    · refine ⟨q + 1, by omega, drop_add_of_drop h 0, fun fuel matched => ?_⟩
      rw [hscan, if_neg (fun h => h92 h.1)]
      split
      · rename_i hnone
        cases hnone
      · rfl
  · rw [nextItem]
    split_ifs with h92 hrange
    · refine ⟨q + 2, by omega, drop_add_of_drop h 1, fun fuel matched => ?_⟩
      rw [hscan, if_pos ⟨h92, by simp⟩]
      rfl
    · refine ⟨q + 3, by omega, drop_add_of_drop h 2, fun fuel matched => ?_⟩
      rw [hscan, if_neg (fun h => h92 h.1)]
      obtain ⟨rfl, h93⟩ := hrange
      simp only [List.getElem?_cons_zero, List.getElem?_cons_succ, if_neg h93]
      rfl
    · refine ⟨q + 1, by omega, drop_add_of_drop h 0, fun fuel matched => ?_⟩
      rw [hscan, if_neg (fun h => h92 h.1)]
      simp only [List.getElem?_cons_zero, List.getElem?_cons_succ]
      split
      · rename_i h45 hd
        obtain ⟨rfl, rfl⟩ := And.intro (Option.some.inj h45) (Option.some.inj hd)
        rw [if_pos (not_not.mp fun h93 => hrange ⟨rfl, h93⟩)]
        rfl
      · rfl

/-- The position after a class that was read up to `q`. -/
def afterClass (pattern : Bytes) (q : Nat) : Nat := if q < pattern.length then q + 1 else q

theorem classScan_end (hq : pattern.length ≤ q) : ∀ (fuel : Nat) (matched : Bool),
    classScan pattern c fuel q matched = (matched, q)
  | 0, _ => rfl
  | fuel + 1, _ => by rw [classScan, List.getElem?_eq_none hq]

/-- A class is read up to its end, whether or not the byte is among its items. -/
theorem classScan_eq (c : UInt8) (fuel : Nat) (matched : Bool) (hfuel : pattern.length ≤ q + fuel) :
    (classScan pattern c fuel q matched).1 = (matched || (classItems (pattern.drop q)).1.any (·.has c)) ∧
      pattern.drop (afterClass pattern (classScan pattern c fuel q matched).2) =
        (classItems (pattern.drop q)).2 := by
  induction fuel generalizing q matched with
  | zero =>
    have hlen : pattern.length ≤ q := hfuel
    have hq : pattern.drop q = [] := List.drop_eq_nil_iff.mpr hlen
    rw [classScan, hq, classItems, afterClass, if_neg (Nat.not_lt.mpr hlen)]
    exact ⟨(Bool.or_false _).symm, hq⟩
  | succ fuel ih =>
    cases hq : pattern.drop q with
    | nil =>
      have hlen : pattern.length ≤ q := List.drop_eq_nil_iff.mp hq
      rw [classScan_end hlen, classItems, afterClass, if_neg (Nat.not_lt.mpr hlen)]
      exact ⟨(Bool.or_false _).symm, hq⟩
    | cons a rest =>
      have hlen := length_of_drop hq
      by_cases ha : a = 93
      · rw [classScan, getElem?_of_drop hq, classItems, if_pos ha]
        simp only [if_pos ha, afterClass, if_pos (show q < pattern.length by omega)]
        exact ⟨(Bool.or_false _).symm, drop_add_of_drop hq 0⟩
      · obtain ⟨q', hq', hdrop, hscan⟩ := classScan_item hq ha (c := c)
        obtain ⟨hany, hafter⟩ := ih (q := q') (matched || (nextItem a rest).1.has c) (by omega)
        rw [hscan, classItems, if_neg ha, ← hdrop]
        exact ⟨by rw [hany, Bool.or_assoc]; rfl, hafter⟩

/-- The matcher accepts what the token at its position does, and goes on after that token. -/
def Reads (pattern : Bytes) (p : Nat) (a c : UInt8) (next : GlobToken × Bytes) : Prop :=
  ∃ accepts, next.1.token = .one accepts ∧
    (globToken pattern p a c).map pattern.drop = if accepts c then some next.2 else none

theorem reads_class (h : pattern.drop p = 91 :: rest) (c : UInt8) :
    Reads pattern p 91 c (nextToken 91 rest) := by
  have hhead : pattern[p + 1]? = rest.head? := by
    rw [getElem?_add_of_drop h 0, List.head?_eq_getElem?]
  rw [Reads, nextToken, globToken, if_neg (by decide), if_neg (by decide), if_pos rfl,
    if_neg (by decide), if_pos rfl, hhead]
  dsimp only
  generalize (rest.head? == some 94) = negate
  generalize hq : (if negate = true then p + 2 else p + 1) = q
  have hdrop : pattern.drop q = if negate then rest.tail else rest := by
    rw [← hq]
    split_ifs
    · rw [drop_add_of_drop h 1, List.drop_one]
    · exact drop_add_of_drop h 0
  obtain ⟨hany, hafter⟩ := classScan_eq (q := q) c pattern.length false (Nat.le_add_left _ _)
  rw [Bool.false_or] at hany
  rw [← hdrop]
  refine ⟨_, rfl, ?_⟩
  rw [hany]
  by_cases hm : ((classItems (pattern.drop q)).1.any (·.has c) != negate) = true
  · rw [if_pos hm]
    exact (congrArg some hafter).trans (if_pos hm).symm
  · rw [if_neg hm]
    exact (if_neg hm).symm

/-- The comparison with a byte `b`, after which the pattern goes on at `q`. -/
theorem reads_byte {b : UInt8} (hq : pattern.drop q = rest)
    (h : globToken pattern p a c = if b = c then some q else none) :
    Reads pattern p a c (.literal b, rest) := by
  refine ⟨_, rfl, ?_⟩
  rw [h]
  by_cases hb : b = c
  · simp [hb, hq]
  · simp [hb]

theorem reads_literal (h : pattern.drop p = a :: rest) (h63 : a ≠ 63) (h91 : a ≠ 91) :
    Reads pattern p a c (nextLiteral a rest) := by
  have htoken := globToken.eq_1 pattern p a c
  rw [if_neg h63, if_neg h91, length_of_drop h, getElem?_add_of_drop h 0] at htoken
  rcases rest with - | ⟨b, rest⟩
  · exact reads_byte (drop_add_of_drop h 0) (htoken.trans (if_neg (by simp)))
  · rw [nextLiteral]
    split_ifs with h92
    · refine reads_byte (drop_add_of_drop h 1) (htoken.trans ((if_pos ⟨h92, by simp⟩).trans ?_))
      simp only [List.getElem?_cons_zero, Option.some_inj]
    · exact reads_byte (drop_add_of_drop h 0) (htoken.trans (if_neg fun h => h92 h.1))

theorem reads_nextToken (h : pattern.drop p = a :: rest) (ha : a ≠ 42) (c : UInt8) :
    Reads pattern p a c (nextToken a rest) := by
  by_cases h63 : a = 63
  · rw [Reads, nextToken, globToken, if_neg ha, if_pos h63, if_pos h63]
    exact ⟨_, rfl, congrArg some (drop_add_of_drop h 0)⟩
  by_cases h91 : a = 91
  · subst h91
    exact reads_class h c
  · rw [nextToken, if_neg ha, if_neg h63, if_neg h91]
    exact reads_literal h h63 h91

end Position

/-! ## The loop -/

/-- What a pattern matches, token by token. -/
def globTokens (pattern : Bytes) : List (Token UInt8) := (tokenize pattern).map GlobToken.token

theorem globTokens_cons (a : UInt8) (rest : Bytes) :
    globTokens (a :: rest) = (nextToken a rest).1.token :: globTokens (nextToken a rest).2 := by
  rw [globTokens, tokenize, List.map_cons, globTokens]

/-- The matcher's state, by what is left of pattern and string at its positions. -/
def GlobState.state (pattern string : Bytes) (g : GlobState) : State UInt8 where
  tokens := globTokens (pattern.drop g.p)
  input := string.drop g.s
  star := g.star.map fun star => (globTokens (pattern.drop (star.1 + 1)), string.drop star.2)

theorem isStar_nextToken {a : UInt8} (ha : a ≠ 42) (rest : Bytes) :
    (nextToken a rest).1.token.isStar = false := by
  obtain ⟨accepts, htoken, -⟩ := @reads_nextToken (a :: rest) 0 a rest rfl ha 0
  rw [htoken, Token.isStar]

/-- The tokens are stars where the pattern has nothing but stars left. -/
theorem all_isStar (pattern : Bytes) :
    (globTokens pattern).all Token.isStar = pattern.all (· == 42) := by
  unfold globTokens
  fun_induction tokenize pattern with
  | case1 => rfl
  | case2 a rest ih =>
    rw [List.map_cons, List.all_cons, List.all_cons]
    by_cases ha : a = 42
    · rw [ih, ha]
      rfl
    · rw [isStar_nextToken ha, beq_false_of_ne ha, Bool.false_and, Bool.false_and]

section Step

variable {pattern string : Bytes} {g : GlobState}

theorem backtrack_state : backtrack (g.state pattern string) =
    (g.star.map fun (starP, starS) => (⟨starP + 1, starS + 1, some (starP, starS + 1)⟩ : GlobState)).elim
      (.inl false) fun g => .inr (g.state pattern string) := by
  cases hstar : g.star with
  | none => simp [backtrack, GlobState.state, hstar]
  | some star => simp [backtrack, GlobState.state, hstar, List.tail_drop]

/-- An iteration of the loop is a step of the matcher on the tokens. -/
theorem step_state : step (g.state pattern string) =
    (string[g.s]?).elim (.inl ((pattern.drop g.p).all (· == 42))) fun c =>
      (globStep pattern c g).elim (.inl false) fun g => .inr (g.state pattern string) := by
  cases hs : string.drop g.s with
  | nil =>
    rw [List.getElem?_eq_none (List.drop_eq_nil_iff.mp hs), Option.elim, ← all_isStar, step.eq_def,
      GlobState.state, hs]
  | cons c input =>
    have hinput : (g.state pattern string).input = c :: input := hs
    rw [getElem?_of_drop hs, Option.elim, globStep]
    cases hp : pattern.drop g.p with
    | nil =>
      have htokens : (g.state pattern string).tokens = [] := by
        rw [GlobState.state, hp, globTokens, tokenize, List.map_nil]
      rw [List.getElem?_eq_none (List.drop_eq_nil_iff.mp hp), step_nil hinput htokens, backtrack_state]
    | cons a rest =>
      have htokens : (g.state pattern string).tokens =
          (nextToken a rest).1.token :: globTokens (nextToken a rest).2 := by
        rw [GlobState.state, hp, globTokens_cons]
      rw [getElem?_of_drop hp]
      by_cases ha : a = 42
      · subst ha
        rw [step_star hinput htokens, ← hs]
        dsimp only
        rw [if_pos rfl, Option.elim, GlobState.state, Option.map_some, drop_add_of_drop hp 0]
        rfl
      · obtain ⟨accepts, htoken, hread⟩ := reads_nextToken hp ha c
        rw [htoken] at htokens
        rw [step_one hinput htokens, backtrack_state]
        dsimp only
        rw [if_neg ha]
        by_cases hc : accepts c = true
        · rw [if_pos hc] at hread ⊢
          obtain ⟨p, hnext, hp'⟩ := Option.map_eq_some_iff.mp hread
          have hs' : string.drop (g.s + 1) = input := drop_add_of_drop hs 0
          rw [hnext, ← hp', ← hs']
          rfl
        · rw [if_neg hc] at hread ⊢
          rw [Option.map_eq_none_iff.mp hread]

/-- The loop is the matcher of wildcard patterns, iteration by iteration. -/
theorem globLoop_eq (pattern string : Bytes) : ∀ (fuel : Nat) (g : GlobState),
    globLoop pattern string fuel g = run fuel (g.state pattern string)
  | 0, _ => rfl
  | fuel + 1, g => by
    rw [globLoop, run, step_state]
    cases string[g.s]? with
    | none => rfl
    | some c =>
      dsimp only [Option.elim]
      cases globStep pattern c g with
      | none => rfl
      | some g => exact globLoop_eq pattern string fuel g

end Step

/-- With enough fuel the loop ends, and with the same answer. -/
theorem globLoop_decides {pattern string : Bytes} {fuel : Nat} (hfuel : globFuel pattern string ≤ fuel) :
    ∃ b, globLoop pattern string fuel {} = some b ∧ (b = true ↔ Matches (globTokens pattern) string) := by
  have hlen : (globTokens pattern).length ≤ pattern.length := by
    rw [globTokens, List.length_map]
    exact length_tokenize pattern
  have hbound := Nat.mul_le_mul_left string.length (Nat.add_le_add_right hlen 1)
  rw [globLoop_eq]
  refine run_decides (globTokens pattern) string ?_
  rw [globFuel, Nat.succ_mul, Nat.mul_succ] at hfuel
  omega

theorem globMatch_iff_matches (pattern string : Bytes) :
    globMatch pattern string = true ↔ Matches (globTokens pattern) string := by
  obtain ⟨b, hb, hiff⟩ := @globLoop_decides pattern string _ (Nat.le_refl _)
  rw [globMatch, hb, Option.getD_some, hiff]

/-- `glob_match` comes to an end, and its answer is whether the pattern's tokens match the string. -/
theorem globMatch_decides (pattern string : Bytes) :
    (∃ enough, ∀ fuel ≥ enough, globLoop pattern string fuel {} = some (globMatch pattern string)) ∧
      (globMatch pattern string = true ↔ Matches (globTokens pattern) string) := by
  have hiff := globMatch_iff_matches pattern string
  refine ⟨⟨globFuel pattern string, fun fuel hfuel => ?_⟩, hiff⟩
  obtain ⟨b, hb, hiff'⟩ := globLoop_decides hfuel
  rw [hb, Bool.eq_iff_iff.mpr (hiff'.trans hiff.symm)]

end RP
