import RedisPlus.Command.Canonical
import RedisPlus.Framework.Choices

/-!
# The options of SET

The options of SET come in groups: a time with its keyword, or a keyword alone. The loop takes the groups
one after the other and remembers in `expire_at` whether there was a time, as a deadline other than
`kNoExpiry`. What it accepts are the lists of groups that are `Loose` (`setAccepted_iff`).

They are to be those of the `Grammar`, and the order of the groups is not to matter. But PXAT -1 has the
deadline that stands for no time (`timeOf_eq_noExpiry`), so that a time or KEEPTTL may follow it, and only
follow it; and a number of seconds far below zero gets past the check for the largest. There is nothing
else (`grammar_exact_iff`).
-/

namespace RP

open Framework (Choices)

/-! ## Groups -/

/-- The options that take no argument. -/
inductive SetFlag where
  | keepttl | nx | xx | get
deriving DecidableEq

/-- The options of SET that have no argument. -/
def flagOption (opt : Bytes) : Option SetFlag :=
  if opt = str "KEEPTTL" then some .keepttl
  else if opt = str "NX" then some .nx
  else if opt = str "XX" then some .xx
  else if opt = str "GET" then some .get
  else none

/-- A group of the options, as it is spelled in a request. -/
inductive SetGroup where
  | expiry (opt arg : Bytes) (relative seconds : Bool)
      (h : expiryOption (upper opt) = some (relative, seconds))
  | flag (opt : Bytes) (f : SetFlag) (h : flagOption (upper opt) = some f)

namespace SetGroup

/-- The arguments of a group. -/
def tokens : SetGroup → List Bytes
  | .expiry opt arg _ _ _ => [opt, arg]
  | .flag opt _ _ => [opt]

/-- The options of a request that has these groups. -/
def tail (gs : List SetGroup) : List Bytes := gs.flatMap tokens

/-- What the loop does at a group. -/
def take (now : Int64) (o : SetOptions) : SetGroup → Except Bytes SetOptions
  | .expiry _ arg relative seconds _ =>
    if o.expireAt ≠ kNoExpiry ∨ o.keepttl then .error kSyntaxError
    else match setDeadline now relative seconds arg with
      | .error e => .error e
      | .ok expireAt => .ok { o with expireAt }
  | .flag opt _ _ => setFlag o (upper opt)

end SetGroup

theorem expiryOption_of_flag {opt : Bytes} {f : SetFlag} (h : flagOption opt = some f) :
    expiryOption opt = none := by
  unfold flagOption at h
  split_ifs at h with h1 h2 h3 h4
  · subst h1; decide
  · subst h2; decide
  · subst h3; decide
  · subst h4; decide

theorem setOptions_expiry {now : Int64} {o : SetOptions} {opt arg : Bytes} {relative seconds : Bool}
    (h : expiryOption (upper opt) = some (relative, seconds)) (rest : List Bytes) :
    setOptions now o (opt :: arg :: rest) =
      (SetGroup.take now o (.expiry opt arg relative seconds h)).bind (setOptions now · rest) := by
  rw [setOptions, h, SetGroup.take]
  dsimp only
  split
  · rfl
  · cases setDeadline now relative seconds arg <;> rfl

theorem setOptions_flag {now : Int64} {o : SetOptions} {opt : Bytes} (h : expiryOption (upper opt) = none) :
    ∀ rest : List Bytes,
      setOptions now o (opt :: rest) = (setFlag o (upper opt)).bind (setOptions now · rest)
  | [] => by
    rw [setOptions, if_neg (by simp [h])]
    cases setFlag o (upper opt) <;> rfl
  | arg :: rest => by
    rw [setOptions, h]
    cases setFlag o (upper opt) <;> rfl

/-- The loop, group by group. -/
theorem setOptions_tail (now : Int64) : ∀ (gs : List SetGroup) (o : SetOptions),
    setOptions now o (SetGroup.tail gs) = gs.foldlM (SetGroup.take now) o
  | [], o => rfl
  | .expiry opt arg relative seconds h :: gs, o => by
    rw [List.foldlM_cons]
    refine (setOptions_expiry h (SetGroup.tail gs)).trans ?_
    exact congrArg _ (funext (setOptions_tail now gs))
  | .flag opt f h :: gs, o => by
    rw [List.foldlM_cons]
    refine (setOptions_flag (expiryOption_of_flag h) (SetGroup.tail gs)).trans ?_
    exact congrArg _ (funext (setOptions_tail now gs))

theorem flagOption_of_setFlag {o o' : SetOptions} {opt : Bytes} (h : setFlag o opt = .ok o') :
    ∃ f, flagOption opt = some f := by
  unfold setFlag at h
  unfold flagOption
  split_ifs at h ⊢
  all_goals exact ⟨_, rfl⟩

theorem ok_of_bind {ε σ τ : Type} {x : Except ε σ} {f : σ → Except ε τ} {r : τ} (h : x.bind f = .ok r) :
    ∃ s, x = .ok s ∧ f s = .ok r := by
  cases x with
  | error e => cases h
  | ok s => exact ⟨s, rfl, h⟩

/-- What is accepted comes in groups. -/
theorem exists_groups {now : Int64} : ∀ {l : List Bytes} {o o' : SetOptions}, setOptions now o l = .ok o' →
    ∃ gs, l = SetGroup.tail gs
  | [], _, _, _ => ⟨[], rfl⟩
  | [opt], o, o', h => by
    cases hopt : expiryOption (upper opt) with
    | some times => simp [setOptions, hopt] at h
    | none =>
      rw [setOptions_flag hopt] at h
      obtain ⟨o₁, hflag, -⟩ := ok_of_bind h
      obtain ⟨f, hf⟩ := flagOption_of_setFlag hflag
      exact ⟨[.flag opt f hf], rfl⟩
  | opt :: arg :: rest, o, o', h => by
    cases hopt : expiryOption (upper opt) with
    | some times =>
      rw [setOptions_expiry hopt] at h
      obtain ⟨o₁, -, h⟩ := ok_of_bind h
      obtain ⟨gs, rfl⟩ := exists_groups h
      exact ⟨.expiry opt arg times.1 times.2 hopt :: gs, rfl⟩
    | none =>
      rw [setOptions_flag hopt] at h
      obtain ⟨o₁, hflag, h⟩ := ok_of_bind h
      obtain ⟨f, hf⟩ := flagOption_of_setFlag hflag
      obtain ⟨gs, hgs⟩ := exists_groups h
      exact ⟨.flag opt f hf :: gs, by rw [hgs]; rfl⟩

/-! ## Times -/

/-- A time in milliseconds, in `int64_t` arithmetic. -/
def millis (seconds : Bool) (n : Int64) : Int64 := if seconds then n * 1000 else n

theorem toInt_millis {seconds : Bool} {n : Int64} (h : fitsInt64 (inMillis seconds n) = true) :
    (millis seconds n).toInt = inMillis seconds n := by
  cases seconds with
  | true => exact toInt_mul_of_fits h
  | false => rfl

theorem toInt_maxSeconds : (Int64.maxValue / 1000).toInt = 9223372036854775 := by decide

/-- Where the product is in range, the check for the largest number of seconds passes, and the product is
positive if the number is. -/
theorem checks_of_fits {seconds : Bool} {n : Int64} (h : fitsInt64 (inMillis seconds n) = true) :
    (seconds = true → n ≤ Int64.maxValue / 1000) ∧ (0 < millis seconds n ↔ 0 < n) := by
  have hms := toInt_millis h
  rw [fitsInt64_iff] at h
  rw [Int64.lt_iff_toInt_lt, Int64.lt_iff_toInt_lt, hms, Int64.toInt_zero, Int64.le_iff_toInt_le,
    toInt_maxSeconds]
  cases seconds with
  | true =>
    simp only [inMillis, if_true] at h ⊢
    omega
  | false => simp [inMillis]

/-- The check keeps the product from being too large. -/
theorem fits_of_check {seconds : Bool} {n : Int64} (hbig : seconds = true → n ≤ Int64.maxValue / 1000)
    (hbelow : -2 ^ 63 ≤ inMillis seconds n) : fitsInt64 (inMillis seconds n) = true := by
  rw [fitsInt64_iff]
  refine ⟨hbelow, ?_⟩
  cases seconds with
  | true =>
    have := hbig rfl
    rw [Int64.le_iff_toInt_le, toInt_maxSeconds] at this
    simp only [inMillis, if_true]
    omega
  | false => exact n.toInt_lt

/-- The deadline of a time. -/
def timeOf (now : Int64) (relative seconds : Bool) (n : Int64) : Int64 :=
  if relative then now + millis seconds n else millis seconds n

theorem setDeadline_ok_iff {now d : Int64} {relative seconds : Bool} {arg : Bytes} :
    setDeadline now relative seconds arg = .ok d ↔ ∃ n, toInt64 arg = some n ∧
      (seconds = true → n ≤ Int64.maxValue / 1000) ∧ (relative = true → 0 < millis seconds n) ∧
      d = timeOf now relative seconds n := by
  unfold setDeadline
  cases toInt64 arg with
  | none => simp
  | some n =>
    simp only [Option.some.injEq, exists_eq_left']
    show (if seconds = true ∧ Int64.maxValue / 1000 < n then _ else
      if relative = true ∧ millis seconds n ≤ 0 then _ else Except.ok _) = _ ↔ _
    by_cases hbig : seconds = true ∧ Int64.maxValue / 1000 < n
    · rw [if_pos hbig]
      refine iff_of_false (by simp) fun h => ?_
      exact absurd hbig.2 (Int64.not_lt.mpr (h.1 hbig.1))
    by_cases hpos : relative = true ∧ millis seconds n ≤ 0
    · rw [if_neg hbig, if_pos hpos]
      refine iff_of_false (by simp) fun h => ?_
      exact absurd hpos.2 (Int64.not_le.mpr (h.2.1 hpos.1))
    · rw [if_neg hbig, if_neg hpos, Except.ok.injEq]
      refine ⟨fun h => ⟨fun hs => ?_, fun hr => ?_, h.symm⟩, fun h => h.2.2.symm⟩
      · exact Int64.not_lt.mp fun hlt => hbig ⟨hs, hlt⟩
      · exact Int64.not_le.mp fun hle => hpos ⟨hr, hle⟩

/-- With a clock that is not negative, the only time whose deadline stands for none is PXAT -1. -/
theorem timeOf_eq_noExpiry {now n : Int64} (hnow : 0 ≤ now) {relative seconds : Bool}
    (hpos : relative = true → 0 < millis seconds n) :
    timeOf now relative seconds n = kNoExpiry ↔ relative = false ∧ seconds = false ∧ n = -1 := by
  have hnone : kNoExpiry.toInt = -1 := rfl
  rw [← Int64.toInt_inj, hnone]
  cases relative with
  | true =>
    -- a clock and a time that are not negative do not add up to -1, even if they overflow
    have hm := hpos rfl
    rw [Int64.lt_iff_toInt_lt, Int64.toInt_zero] at hm
    rw [Int64.le_iff_toInt_le, Int64.toInt_zero] at hnow
    have := now.toInt_lt
    have := (millis seconds n).toInt_lt
    refine iff_of_false ?_ (by simp)
    rw [timeOf, if_pos rfl, Int64.toInt_add, Int.bmod_def]
    omega
  | false =>
    cases seconds with
    | true =>
      refine iff_of_false ?_ (by simp)
      have hk : (1000 : Int64).toInt = 1000 := rfl
      rw [timeOf, if_neg (by simp), millis, if_pos rfl, Int64.toInt_mul, hk, Int.bmod_def]
      omega
    | false =>
      rw [← Int64.toInt_inj]
      simp [timeOf, millis]

/-! ## What the loop accepts -/

namespace SetGroup

/-- Does the group give a deadline? -/
def isExpiry : SetGroup → Bool
  | .expiry .. => true
  | .flag .. => false

/-- Is the group this flag? -/
def isFlag (f : SetFlag) : SetGroup → Bool
  | .expiry .. => false
  | .flag _ f' _ => f' == f

/-- A time whose deadline is the one that stands for none. -/
def isSentinel (now : Int64) : SetGroup → Bool
  | .expiry _ arg relative seconds _ =>
    (toInt64 arg).any fun n => timeOf now relative seconds n == kNoExpiry
  | .flag .. => false

/-- A time, or KEEPTTL. -/
def Timed (g : SetGroup) : Prop := g.isExpiry = true ∨ g.isFlag .keepttl = true

/-- The time of the group, if it has one, passes the checks of the loop. -/
def Passes : SetGroup → Prop
  | .expiry _ arg relative seconds _ => ∃ n, toInt64 arg = some n ∧
      (seconds = true → n ≤ Int64.maxValue / 1000) ∧ (relative = true → 0 < millis seconds n)
  | .flag .. => True

/-- The second group may come after the first: not two times, or a time and KEEPTTL, unless the deadline
of the first stands for none; and not NX and XX. -/
structure Allowed (now : Int64) (g g' : SetGroup) : Prop where
  timed : g.Timed → g'.Timed →
    g.isSentinel now = true ∨ g.isFlag .keepttl = true ∧ g'.isFlag .keepttl = true
  nx : g.isFlag .nx = true → g'.isFlag .xx = false
  xx : g.isFlag .xx = true → g'.isFlag .nx = false

/-- What the loop accepts. -/
structure Loose (now : Int64) (gs : List SetGroup) : Prop where
  passes : ∀ g ∈ gs, g.Passes
  allowed : gs.Pairwise (Allowed now)

/-- The deadline that the group gives. -/
def deadline (now : Int64) : SetGroup → Int64
  | .expiry _ arg relative seconds _ =>
    match setDeadline now relative seconds arg with
    | .ok d => d
    | .error _ => kNoExpiry
  | .flag .. => kNoExpiry

/-- What a group does to the options read so far. -/
def put (now : Int64) (o : SetOptions) (g : SetGroup) : SetOptions :=
  match g with
  | .expiry .. => { o with expireAt := g.deadline now }
  | .flag _ .keepttl _ => { o with keepttl := true }
  | .flag _ .nx _ => { o with nx := true }
  | .flag _ .xx _ => { o with xx := true }
  | .flag _ .get _ => { o with get := true }

/-- The options so far do not stand against the group. -/
def Ready (o : SetOptions) : SetGroup → Prop
  | .expiry .. => o.expireAt = kNoExpiry ∧ o.keepttl = false
  | .flag _ .keepttl _ => o.expireAt = kNoExpiry
  | .flag _ .nx _ => o.xx = false
  | .flag _ .xx _ => o.nx = false
  | .flag _ .get _ => True

theorem passes_iff (now : Int64) {opt arg : Bytes} {relative seconds : Bool}
    {h : expiryOption (upper opt) = some (relative, seconds)} :
    Passes (.expiry opt arg relative seconds h) ↔ ∃ d, setDeadline now relative seconds arg = .ok d := by
  simp only [setDeadline_ok_iff, Passes]
  constructor
  · rintro ⟨n, hn, hbig, hpos⟩
    exact ⟨_, n, hn, hbig, hpos, rfl⟩
  · rintro ⟨_, n, hn, hbig, hpos, -⟩
    exact ⟨n, hn, hbig, hpos⟩

theorem setFlag_eq {o : SetOptions} {opt : Bytes} {f : SetFlag} (h : flagOption opt = some f) :
    setFlag o opt = match f with
      | .keepttl => if o.expireAt ≠ kNoExpiry then .error kSyntaxError else .ok { o with keepttl := true }
      | .nx => if o.xx then .error kSyntaxError else .ok { o with nx := true }
      | .xx => if o.nx then .error kSyntaxError else .ok { o with xx := true }
      | .get => .ok { o with get := true } := by
  unfold flagOption at h
  split_ifs at h with h1 h2 h3 h4
  all_goals cases h
  · rw [setFlag, if_pos h1]
  · rw [setFlag, if_neg h1, if_pos h2]
  · rw [setFlag, if_neg h1, if_neg h2, if_pos h3]
  · rw [setFlag, if_neg h1, if_neg h2, if_neg h3, if_pos h4]

/-- A check that fails, and what is done where it does not. -/
theorem check_ok_iff {c : Prop} [Decidable c] {e : Bytes} {o o' : SetOptions} :
    (if c then Except.error e else Except.ok o) = Except.ok o' ↔ ¬ c ∧ o' = o := by
  split
  · simp [*]
  · simp [*, eq_comm]

theorem take_ok_iff (now : Int64) (o : SetOptions) (g : SetGroup) (o' : SetOptions) :
    take now o g = .ok o' ↔ (g.Passes ∧ Ready o g) ∧ o' = put now o g := by
  cases g with
  | expiry opt arg relative seconds h =>
    rw [passes_iff now, take, put, deadline]
    cases hd : setDeadline now relative seconds arg with
    | error e => exact iff_of_false (by split <;> simp) (by simp)
    | ok d =>
      rw [check_ok_iff]
      simp [Ready]
  | flag opt f h =>
    rw [take, setFlag_eq h]
    cases f with
    | keepttl =>
      rw [check_ok_iff]
      simp [Passes, Ready, put]
    | nx =>
      rw [check_ok_iff]
      simp [Passes, Ready, put]
    | xx =>
      rw [check_ok_iff]
      simp [Passes, Ready, put]
    | get => simp [Passes, Ready, put, eq_comm]

theorem deadline_of_passes (now : Int64) {g : SetGroup} (hg : g.isExpiry = true) (h : g.Passes) :
    g.deadline now = kNoExpiry ↔ g.isSentinel now = true := by
  cases g with
  | flag opt f h => cases hg
  | expiry opt arg relative seconds h' =>
    obtain ⟨n, hn, hbig, hpos⟩ := h
    rw [deadline, setDeadline_ok_iff.mpr ⟨n, hn, hbig, hpos, rfl⟩, isSentinel, hn]
    simp

theorem allowed_iff {now : Int64} {g g' : SetGroup} : Allowed now g g' ↔
    (g.Timed → g'.Timed →
      g.isSentinel now = true ∨ g.isFlag .keepttl = true ∧ g'.isFlag .keepttl = true) ∧
    (g.isFlag .nx = true → g'.isFlag .xx = false) ∧ (g.isFlag .xx = true → g'.isFlag .nx = false) :=
  ⟨fun h => ⟨h.timed, h.nx, h.xx⟩, fun h => ⟨h.1, h.2.1, h.2.2⟩⟩

/-- How a group changes what may follow. -/
theorem ready_put {now : Int64} {o : SetOptions} {g : SetGroup} (hg : g.Passes) (h : Ready o g)
    (g' : SetGroup) : Ready (put now o g) g' ↔ Ready o g' ∧ Allowed now g g' := by
  rw [allowed_iff]
  cases g with
  | expiry opt arg relative seconds hopt =>
    have hd := deadline_of_passes now rfl hg
    obtain ⟨hnone, hkeep⟩ := h
    cases g' with
    | expiry => simp [Ready, put, hd, hnone, hkeep, Timed, isExpiry, isFlag]
    | flag opt' f' h' =>
      cases f' with
      | keepttl => simp [Ready, put, hd, hnone, Timed, isExpiry, isFlag]
      | _ => simp [Ready, put, Timed, isExpiry, isFlag]
  | flag opt f hopt =>
    have hs : isSentinel now (.flag opt f hopt) = false := rfl
    cases g' with
    | expiry => cases f <;> simp [Ready, put, Timed, isExpiry, isFlag, hs]
    | flag opt' f' h' => cases f <;> cases f' <;> simp [Ready, put, Timed, isExpiry, isFlag, hs] at h ⊢

/-- The loop over the groups. -/
def choices (now : Int64) : Choices (take now) where
  ready o g := g.Passes ∧ Ready o g
  put := put now
  allowed := Allowed now
  ok_iff := take_ok_iff now
  ready_put _ _ g' h := (and_congr_right fun _ => ready_put h.1 h.2 g').trans and_assoc.symm

/-- At the start nothing stands against any group. -/
theorem ready_start (g : SetGroup) : Ready {} g := by
  cases g with
  | expiry => exact ⟨rfl, rfl⟩
  | flag opt f h => cases f <;> first | rfl | trivial

theorem setOptions_ok_iff {now : Int64} {gs : List SetGroup} {o : SetOptions} :
    setOptions now {} (tail gs) = .ok o ↔ Loose now gs ∧ o = gs.foldl (put now) {} := by
  rw [setOptions_tail, (choices now).foldlM_ok_iff]
  refine and_congr_left fun _ => ⟨fun h => ⟨fun g hg => (h.1 g hg).1, h.2⟩, fun h => ⟨fun g hg => ?_, h.2⟩⟩
  exact ⟨h.passes g hg, ready_start g⟩

/-! ## The grammar -/

/-- The time of the group, if it has one, is a number in range, and positive if it is relative. -/
def InRange : SetGroup → Prop
  | .expiry _ arg relative seconds _ => ∃ n, toInt64 arg = some n ∧
      fitsInt64 (inMillis seconds n) = true ∧ (relative = true → 0 < n)
  | .flag .. => True

/-- What is to be accepted. -/
structure Grammar (gs : List SetGroup) : Prop where
  times : ∀ g ∈ gs, g.InRange
  once : (gs.filter isExpiry).length ≤ 1
  keepttl : (∃ g ∈ gs, g.isExpiry = true) → ∀ g ∈ gs, g.isFlag .keepttl = false
  nx : (∃ g ∈ gs, g.isFlag .nx = true) → ∀ g ∈ gs, g.isFlag .xx = false

/-- The seconds of the group, if it has a time in seconds, are not too far below zero. -/
def NotBelow : SetGroup → Prop
  | .expiry _ arg _ seconds _ => ∀ n, toInt64 arg = some n → -2 ^ 63 ≤ inMillis seconds n
  | .flag .. => True

/-- The groups have none of the two irregularities. -/
structure Tame (now : Int64) (gs : List SetGroup) : Prop where
  notBelow : ∀ g ∈ gs, g.NotBelow
  alone : gs.Pairwise fun g g' => g.Timed → g'.Timed → g.isSentinel now = false

variable {now : Int64} {gs gs' : List SetGroup} {g g' : SetGroup}

theorem Grammar.perm (h : Grammar gs) (hp : gs'.Perm gs) : Grammar gs' := by
  have hmem {g : SetGroup} (hg : g ∈ gs') : g ∈ gs := hp.mem_iff.mp hg
  refine ⟨fun g hg => h.times g (hmem hg), ?_, fun ⟨g, hg, he⟩ g' hg' => ?_, fun ⟨g, hg, he⟩ g' hg' => ?_⟩
  · rw [(hp.filter _).length_eq]
    exact h.once
  · exact h.keepttl ⟨g, hmem hg, he⟩ g' (hmem hg')
  · exact h.nx ⟨g, hmem hg, he⟩ g' (hmem hg')

/-- There are no two times. -/
theorem not_two_expiries (h : (gs.filter isExpiry).length ≤ 1) (hs : [g, g'].Sublist gs)
    (hg : g.isExpiry = true) (hg' : g'.isExpiry = true) : False := by
  have hle := (hs.filter isExpiry).length_le
  simp only [List.filter_cons, hg, hg', if_true, List.filter_nil, List.length_cons, List.length_nil] at hle
  omega

theorem Grammar.not_timed (h : Grammar gs) (hs : [g, g'].Sublist gs) (hg : g.Timed) (hg' : g'.Timed) :
    g.isFlag .keepttl = true ∧ g'.isFlag .keepttl = true := by
  have hmem := hs.subset
  have hkeep {a b : SetGroup} (ha : a ∈ gs) (hb : b ∈ gs) (hae : a.isExpiry = true)
      (hbk : b.isFlag .keepttl = true) : False := by
    rw [h.keepttl ⟨a, ha, hae⟩ b hb] at hbk
    cases hbk
  rcases hg with he | hk
  · rcases hg' with he' | hk'
    · exact (not_two_expiries h.once hs he he').elim
    · exact (hkeep (hmem (by simp)) (hmem (by simp)) he hk').elim
  · rcases hg' with he' | hk'
    · exact (hkeep (hmem (by simp)) (hmem (by simp)) he' hk).elim
    · exact ⟨hk, hk'⟩

/-- What keeps one keyword from another keeps the other from it. -/
theorem excluded_symm {a b : Bool} (h : a = true → b = false) (hb : b = true) : a = false := by
  cases a with
  | false => rfl
  | true => exact hb.symm.trans (h rfl)

theorem passes_of_inRange (h : g.InRange) : g.Passes := by
  cases g with
  | flag => trivial
  | expiry opt arg relative seconds hopt =>
    obtain ⟨n, hn, hfits, hpos⟩ := h
    obtain ⟨hbig, hiff⟩ := checks_of_fits hfits
    exact ⟨n, hn, hbig, fun hr => hiff.mpr (hpos hr)⟩

theorem notBelow_of_inRange (h : g.InRange) : g.NotBelow := by
  cases g with
  | flag => trivial
  | expiry opt arg relative seconds hopt =>
    obtain ⟨n, hn, hfits, -⟩ := h
    intro n' hn'
    obtain rfl : n = n' := Option.some.inj (hn.symm.trans hn')
    exact (fitsInt64_iff.mp hfits).1

theorem inRange_of_passes (h : g.Passes) (hbelow : g.NotBelow) : g.InRange := by
  cases g with
  | flag => trivial
  | expiry opt arg relative seconds hopt =>
    obtain ⟨n, hn, hbig, hpos⟩ := h
    have hfits := fits_of_check hbig (hbelow n hn)
    exact ⟨n, hn, hfits, fun hr => (checks_of_fits hfits).2.mp (hpos hr)⟩

theorem Grammar.loose (h : Grammar gs) : Loose now gs := by
  refine ⟨fun g hg => passes_of_inRange (h.times g hg), List.pairwise_iff_forall_sublist.mpr ?_⟩
  intro g g' hs
  have hmem := hs.subset
  refine ⟨fun hg hg' => .inr (h.not_timed hs hg hg'), fun hg => ?_, fun hg => ?_⟩
  · exact h.nx ⟨g, hmem (by simp), hg⟩ g' (hmem (by simp))
  · exact excluded_symm (fun hg' => h.nx ⟨g', hmem (by simp), hg'⟩ g (hmem (by simp))) hg

theorem Grammar.tame (h : Grammar gs) : Tame now gs := by
  refine ⟨fun g hg => notBelow_of_inRange (h.times g hg), List.pairwise_iff_forall_sublist.mpr ?_⟩
  intro g g' hs hg hg'
  have hkeep := (h.not_timed hs hg hg').1
  cases g with
  | flag => rfl
  | expiry => cases hkeep

theorem not_keepttl (h : g.isExpiry = true) : ¬ g.isFlag .keepttl = true := by
  cases g with
  | expiry => exact Bool.false_ne_true
  | flag => cases h

/-- Two groups, in either order, that are not NX and XX. -/
structure Exclusive (g g' : SetGroup) : Prop where
  nx : g.isFlag .nx = true → g'.isFlag .xx = false
  xx : g.isFlag .xx = true → g'.isFlag .nx = false

instance : Std.Symm Exclusive where
  symm _ _ h := ⟨excluded_symm h.xx, excluded_symm h.nx⟩

theorem Exclusive.refl (g : SetGroup) : Exclusive g g := by
  cases g with
  | expiry => exact ⟨fun _ => rfl, fun _ => rfl⟩
  | flag opt f h => cases f <;> constructor <;> simp [isFlag]

/-- NX and XX are not accepted together, whichever comes first. -/
theorem Loose.exclusive (h : Loose now gs) (hg : g ∈ gs) (hg' : g' ∈ gs) : Exclusive g g' :=
  (h.allowed.imp fun ha => Exclusive.mk ha.nx ha.xx).forall_of_forall (fun g _ => Exclusive.refl g) hg hg'

/-- Two groups, in either order, that are not a time and KEEPTTL. -/
structure Apart (g g' : SetGroup) : Prop where
  left : g.isExpiry = true → g'.isFlag .keepttl = false
  right : g'.isExpiry = true → g.isFlag .keepttl = false

instance : Std.Symm Apart where
  symm _ _ h := ⟨h.right, h.left⟩

theorem Apart.refl (g : SetGroup) : Apart g g := by
  cases g with
  | expiry => exact ⟨fun _ => rfl, fun _ => rfl⟩
  | flag opt f h => constructor <;> simp [isExpiry]

/-- Where the irregularities are missing, the loop accepts what is in the grammar. -/
theorem Loose.grammar (h : Loose now gs) (ht : Tame now gs) : Grammar gs := by
  have hkeep {g g' : SetGroup} (hs : [g, g'].Sublist gs) (hg : g.Timed) (hg' : g'.Timed) :
      g.isFlag .keepttl = true ∧ g'.isFlag .keepttl = true := by
    have hone := List.pairwise_iff_forall_sublist.mp ht.alone hs hg hg'
    rcases (List.pairwise_iff_forall_sublist.mp h.allowed hs).timed hg hg' with hsent | hk
    · rw [hone] at hsent
      cases hsent
    · exact hk
  have hapart : gs.Pairwise Apart := by
    refine List.pairwise_iff_forall_sublist.mpr fun {g g'} hs => ?_
    refine ⟨excluded_symm fun hk => ?_, excluded_symm fun hk => ?_⟩
    · exact Bool.eq_false_iff.mpr fun he => not_keepttl he (hkeep hs (.inl he) (.inr hk)).1
    · exact Bool.eq_false_iff.mpr fun he => not_keepttl he (hkeep hs (.inr hk) (.inl he)).2
  have hall := hapart.forall_of_forall fun g _ => Apart.refl g
  refine ⟨fun g hg => inRange_of_passes (h.passes g hg) (ht.notBelow g hg), ?_, ?_, ?_⟩
  · by_contra hlen
    obtain ⟨a, b, l, hl⟩ : ∃ a b l, gs.filter isExpiry = a :: b :: l := by
      rcases hf : gs.filter isExpiry with - | ⟨a, - | ⟨b, l⟩⟩
      · simp [hf] at hlen
      · simp [hf] at hlen
      · exact ⟨a, b, l, rfl⟩
    have hs : [a, b].Sublist (gs.filter isExpiry) := by
      rw [hl]
      simp
    have ha : a.isExpiry = true := List.of_mem_filter (hs.subset (by simp))
    have hb : b.isExpiry = true := List.of_mem_filter (hs.subset (by simp))
    exact not_keepttl ha (hkeep (hs.trans List.filter_sublist) (.inl ha) (.inl hb)).1
  · rintro ⟨g, hg, he⟩ g' hg'
    exact (hall hg hg').left he
  · rintro ⟨g, hg, he⟩ g' hg'
    exact (h.exclusive hg hg').nx he

/-! ## The order of the groups -/

theorem put_comm (now : Int64) {g g' : SetGroup} (h : g.isExpiry = true → g'.isExpiry = true → g = g')
    (o : SetOptions) : put now (put now o g) g' = put now (put now o g') g := by
  cases g with
  | expiry =>
    cases g' with
    | expiry => rw [h rfl rfl]
    | flag opt' f' h' => cases f' <;> rfl
  | flag opt f hf =>
    cases g' with
    | expiry => cases f <;> rfl
    | flag opt' f' h' => cases f <;> cases f' <;> rfl

theorem Grammar.eq_of_isExpiry (h : Grammar gs) (hg : g ∈ gs) (hg' : g' ∈ gs) (he : g.isExpiry = true)
    (he' : g'.isExpiry = true) : g = g' := by
  have hm : g ∈ gs.filter isExpiry := List.mem_filter.mpr ⟨hg, he⟩
  have hm' : g' ∈ gs.filter isExpiry := List.mem_filter.mpr ⟨hg', he'⟩
  have hlen := h.once
  rcases hf : gs.filter isExpiry with - | ⟨a, - | ⟨b, l⟩⟩
  · rw [hf] at hm
    cases hm
  · rw [hf, List.mem_singleton] at hm hm'
    rw [hm, hm']
  · simp [hf] at hlen

/-- What the loop makes of groups in the grammar does not depend on their order. -/
theorem Grammar.foldl_put (h : Grammar gs) (hp : gs'.Perm gs) (now : Int64) (o : SetOptions) :
    gs'.foldl (put now) o = gs.foldl (put now) o :=
  (hp.symm.foldl_eq' (fun _ hg _ hg' o => put_comm now (h.eq_of_isExpiry hg hg') o) o).symm

end SetGroup

/-- The options are accepted. -/
def SetAccepted (now : Int64) (l : List Bytes) : Prop := ∃ o, setOptions now {} l = .ok o

/-- Two lists of options do the same: both are accepted or neither is, the store and what is propagated
are the same, and so is the reply, unless it is an error. -/
structure SameSet (now : Int64) (l l' : List Bytes) : Prop where
  accepted : SetAccepted now l ↔ SetAccepted now l'
  store : ∀ S c k v, (cmdSet now S (c :: k :: v :: l)).2 = (cmdSet now S (c :: k :: v :: l')).2
  propagate : ∀ S c k v,
    (cmdSet now S (c :: k :: v :: l)).1.propagate = (cmdSet now S (c :: k :: v :: l')).1.propagate
  reply : SetAccepted now l → ∀ S c k v,
    (cmdSet now S (c :: k :: v :: l)).1.reply = (cmdSet now S (c :: k :: v :: l')).1.reply

theorem setAccepted_iff {now : Int64} {gs : List SetGroup} :
    SetAccepted now (SetGroup.tail gs) ↔ SetGroup.Loose now gs := by
  rw [SetAccepted]
  simp only [SetGroup.setOptions_ok_iff]
  exact ⟨fun ⟨_, h, _⟩ => h, fun h => ⟨_, h, rfl⟩⟩

/-- Options that were read alike do the same. -/
theorem sameSet_of_eq {now : Int64} {l l' : List Bytes}
    (h : setOptions now {} l = setOptions now {} l') : SameSet now l l' := by
  have hset (S : Store) (c k v : Bytes) :
      cmdSet now S (c :: k :: v :: l) = cmdSet now S (c :: k :: v :: l') := by
    rw [cmdSet, cmdSet, h]
  refine ⟨by rw [SetAccepted, SetAccepted, h], ?_, ?_, ?_⟩
  · exact fun S c k v => congrArg Prod.snd (hset S c k v)
  · exact fun S c k v => congrArg (fun r => r.1.propagate) (hset S c k v)
  · exact fun _ S c k v => congrArg (fun r => r.1.reply) (hset S c k v)

/-- So do options that are both refused. -/
theorem sameSet_of_refused {now : Int64} {l l' : List Bytes} (h : ¬ SetAccepted now l)
    (h' : ¬ SetAccepted now l') : SameSet now l l' := by
  have hset {l : List Bytes} (h : ¬ SetAccepted now l) (S : Store) (c k v : Bytes) :
      (cmdSet now S (c :: k :: v :: l)).2 = S ∧ (cmdSet now S (c :: k :: v :: l)).1.propagate = [] := by
    cases ho : setOptions now {} l with
    | ok o => exact absurd ⟨o, ho⟩ h
    | error e =>
      rw [cmdSet, ho]
      exact ⟨rfl, rfl⟩
  refine ⟨iff_of_false h h', fun S c k v => ?_, fun S c k v => ?_, fun ha => absurd ha h⟩
  · rw [(hset h S c k v).1, (hset h' S c k v).1]
  · rw [(hset h S c k v).2, (hset h' S c k v).2]

open SetGroup in
/-- What SET accepts comes in groups. In whatever order they come, it accepts them exactly if they are in
the grammar, with the same outcome in each order, if and only if no order in which it accepts them has an
irregularity. -/
theorem grammar_exact_iff (now : Int64) :
    (∀ l, SetAccepted now l → ∃ gs, l = tail gs) ∧
      ∀ gs : List SetGroup,
        (∀ gs', gs'.Perm gs → (SetAccepted now (tail gs') ↔ Grammar gs') ∧
          SameSet now (tail gs') (tail gs)) ↔
        ∀ gs', gs'.Perm gs → Loose now gs' → Tame now gs' := by
  refine ⟨fun l ⟨o, ho⟩ => exists_groups ho, fun gs => ⟨fun h gs' hp hloose => ?_, fun h gs' hp => ?_⟩⟩
  · exact ((h gs' hp).1.mp (setAccepted_iff.mpr hloose)).tame
  · have hiff {gs' : List SetGroup} (hp : gs'.Perm gs) : SetAccepted now (tail gs') ↔ Grammar gs' := by
      rw [setAccepted_iff]
      exact ⟨fun hloose => hloose.grammar (h gs' hp hloose), Grammar.loose⟩
    refine ⟨hiff hp, ?_⟩
    by_cases hg : Grammar gs
    · refine sameSet_of_eq ?_
      rw [setOptions_ok_iff.mpr ⟨(hg.perm hp).loose, rfl⟩, setOptions_ok_iff.mpr ⟨hg.loose, rfl⟩,
        hg.foldl_put hp]
    · refine sameSet_of_refused ?_ ?_
      · rw [hiff hp]
        exact fun hg' => hg (hg'.perm hp.symm)
      · rw [hiff (List.Perm.refl gs)]
        exact hg

/-- PXAT -1 -/
def pxatMinusOne : SetGroup := .expiry (str "PXAT") (str "-1") false false rfl

/-- EX 10 -/
def exTen : SetGroup := .expiry (str "EX") (str "10") true true rfl

/-- EX and the largest negative number, which is 1000 when it is multiplied by 1000. -/
def exFarBelow : SetGroup := .expiry (str "EX") (str "-9223372036854775807") true true rfl

/-- PXAT -1 and a time are accepted in one order, and a negative number of seconds is. -/
theorem irregular_options_accepted :
    (SetAccepted 0 (SetGroup.tail [pxatMinusOne, exTen]) ∧ ¬ SetGroup.Grammar [pxatMinusOne, exTen] ∧
      ¬ SetAccepted 0 (SetGroup.tail [exTen, pxatMinusOne])) ∧
    SetAccepted 0 (SetGroup.tail [exFarBelow]) ∧ ¬ SetGroup.Grammar [exFarBelow] := by
  have hrefused : setOptions 0 {} (SetGroup.tail [exTen, pxatMinusOne]) = .error kSyntaxError := by decide
  have hn : toInt64 (str "-9223372036854775807") = some (-9223372036854775807) := by decide
  refine ⟨⟨⟨{ expireAt := 10000 }, by decide⟩, fun h => ?_, ?_⟩, ⟨{ expireAt := 1000 }, by decide⟩,
    fun h => ?_⟩
  · exact absurd h.once (by decide)
  · rintro ⟨o, ho⟩
    rw [hrefused] at ho
    cases ho
  · obtain ⟨n, hn', -, hpos⟩ := h.times exFarBelow List.mem_cons_self
    obtain rfl := Option.some.inj (hn.symm.trans hn')
    exact absurd (hpos rfl) (by decide)

end RP
