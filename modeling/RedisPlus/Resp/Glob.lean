import RedisPlus.Bytes

/-!
# Glob patterns

`glob_match`, the matcher of `KEYS` and `CONFIG GET`: `*`, `?`, classes and backslash
escapes. It keeps the position of the last `*` and, on a mismatch, lets that `*` swallow one
more byte.
-/

namespace RP

/-- A byte as a `char`, which is signed. -/
def charVal (c : UInt8) : Int := if c.toNat < 128 then c.toNat else c.toNat - 256

/-- The class from position `q` of the pattern, up to its `]`: whether the byte `c` is in it,
given `matched` so far, and where the class ends. -/
def classScan (pattern : Bytes) (c : UInt8) : Nat → Nat → Bool → Bool × Nat
  | 0, q, matched => (matched, q)
  | fuel + 1, q, matched =>
    match pattern[q]? with
    | none => (matched, q)
    | some pc =>
      if pc = 93 then (matched, q)
      else if pc = 92 ∧ q + 1 < pattern.length then
        classScan pattern c fuel (q + 2) (matched || pattern[q + 1]? == some c)
      else match pattern[q + 1]?, pattern[q + 2]? with
        | some 45, some hi =>
          if hi = 93 then classScan pattern c fuel (q + 1) (matched || pc == c)
          else
            let lo := min (charVal pc) (charVal hi)
            let hi := max (charVal pc) (charVal hi)
            classScan pattern c fuel (q + 3) (matched || (lo ≤ charVal c && charVal c ≤ hi))
        | _, _ => classScan pattern c fuel (q + 1) (matched || pc == c)

/-- The matcher's positions in the pattern and the string, and those of the last `*`. -/
structure GlobState where
  p : Nat := 0
  s : Nat := 0
  star : Option (Nat × Nat) := none

/-- Where the pattern's token at `p` leads if it accepts the byte `c`: the position after it. -/
def globToken (pattern : Bytes) (p : Nat) (pc c : UInt8) : Option Nat :=
  if pc = 63 then some (p + 1)
  else if pc = 91 then
    let negate := pattern[p + 1]? == some 94
    let (matched, q) := classScan pattern c pattern.length (if negate then p + 2 else p + 1) false
    if matched != negate then some (if q < pattern.length then q + 1 else q) else none
  else if pc = 92 ∧ p + 1 < pattern.length then
    if pattern[p + 1]? = some c then some (p + 2) else none
  else if pc = c then some (p + 1) else none

/-- One iteration of the loop, at the byte `c` of the string; `none` if there is no match. -/
def globStep (pattern : Bytes) (c : UInt8) (g : GlobState) : Option GlobState :=
  let backtrack : Option GlobState := g.star.map fun (starP, starS) =>
    ⟨starP + 1, starS + 1, some (starP, starS + 1)⟩
  match pattern[g.p]? with
  | none => backtrack
  | some pc =>
    if pc = 42 then some ⟨g.p + 1, g.s, some (g.p, g.s)⟩
    else match globToken pattern g.p pc c with
      | some p => some ⟨p, g.s + 1, g.star⟩
      | none => backtrack

/-- The loop, `none` if it takes more than `fuel` iterations. -/
def globLoop (pattern string : Bytes) : Nat → GlobState → Option Bool
  | 0, _ => none
  | fuel + 1, g =>
    match string[g.s]? with
    | none => some ((pattern.drop g.p).all (· == 42))
    | some c =>
      match globStep pattern c g with
      | none => some false
      | some g => globLoop pattern string fuel g

/-- Each iteration moves on in the pattern or lets the last `*` swallow a byte: the pairs of the two
bound their number. -/
def globFuel (pattern string : Bytes) : Nat := (string.length + 1) * (pattern.length + 2) + 1

/-- `glob_match` -/
def globMatch (pattern string : Bytes) : Bool :=
  (globLoop pattern string (globFuel pattern string) {}).getD false

example : globMatch (str "h[a-c]*o\\?") (str "hbello?") = true := by decide
example : globMatch (str "h[^a-c]*") (str "hbello") = false := by decide

/-- A `*` at the end of the pattern swallows what is left of the string. -/
theorem globLoop_star (string : Bytes) : ∀ (fuel s : Nat), s ≤ string.length → string.length < s + fuel →
    globLoop (str "*") string fuel ⟨1, s, some (0, s)⟩ = some true
  | 0, _, hs, h => by omega
  | fuel + 1, s, _, h => by
    unfold globLoop
    cases hc : string[s]? with
    | none => rfl
    | some c =>
      have hlt : s < string.length := (List.getElem?_eq_some_iff.mp hc).1
      exact globLoop_star string fuel (s + 1) hlt (by omega)

/-- `*` matches everything. -/
theorem globMatch_star (string : Bytes) : globMatch (str "*") string = true := by
  rw [globMatch, globFuel, show (str "*").length + 2 = 3 from rfl, globLoop]
  cases hc : string[(0 : Nat)]? with
  | none => rfl
  | some c =>
    have hloop := globLoop_star string ((string.length + 1) * 3) 0 (Nat.zero_le _) (by omega)
    exact congrArg (Option.getD · false) hloop

end RP
