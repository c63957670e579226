import RedisPlus.Command.Options

/-!
# The deadlines that commands compute

SET and EXPIRE multiply seconds by 1000 and add the clock, in `int64_t`. SET checks the number of seconds
against the largest only, and neither checks the sum. And the deadline -1 is taken for none, so that PXAT -1
installs no deadline. So the deadline is what the request stands for exactly if the seconds are not too far
below zero, a relative time does not reach past the largest number from where the clock is, and the time is
not PXAT -1 (`deadlines_exact_iff`).

GET then returns the value of a key set with PXAT -1 for ever, where any other absolute deadline is kept to
(`absolute_deadline_iff`).
-/

namespace RP

open Framework (Keyspace Write)

/-- The deadline that a request stands for. -/
def denoted (now : Int64) (relative seconds : Bool) (n : Int64) : Int :=
  (if relative then now.toInt else 0) + inMillis seconds n

/-- The product and the sum that a time takes are in range. -/
def TimeFits (now : Int64) (relative seconds : Bool) (n : Int64) : Prop :=
  fitsInt64 (inMillis seconds n) = true ∧
    (relative = true → fitsInt64 (now.toInt + inMillis seconds n) = true)

theorem toInt_timeOf {now n : Int64} {relative seconds : Bool} (h : TimeFits now relative seconds n) :
    (timeOf now relative seconds n).toInt = denoted now relative seconds n := by
  have hms := toInt_millis h.1
  cases relative with
  | true =>
    have hsum := h.2 rfl
    rw [← hms] at hsum
    rw [timeOf, denoted, if_pos rfl, if_pos rfl, toInt_add_of_fits hsum, hms]
  | false =>
    rw [timeOf, denoted, if_neg (by simp), if_neg (by simp), hms, Int.zero_add]

/-- From a clock that is not negative, a time ahead does not pass the largest number. -/
def Reaches (now : Int64) (seconds : Bool) (n : Int64) : Prop :=
  inMillis seconds n ≤ 2 ^ 63 - 1 - now.toInt

theorem sum_fits_iff {now n : Int64} (hnow : 0 ≤ now) {seconds : Bool}
    (h : fitsInt64 (inMillis seconds n) = true) :
    fitsInt64 (now.toInt + inMillis seconds n) = true ↔ Reaches now seconds n := by
  rw [Int64.le_iff_toInt_le, Int64.toInt_zero] at hnow
  rw [fitsInt64_iff] at h ⊢
  unfold Reaches
  omega

theorem Store.expires_set (S : Store) (k v : Bytes) (d : Int64) :
    (S.set k v d).expires.lookup k = Store.deadline d := by
  rw [set, Store.deadline]
  split <;> simp

/-! ## SET -/

/-- Whether an option without an argument was given. -/
def SetOptions.flag (o : SetOptions) : SetFlag → Bool
  | .keepttl => o.keepttl
  | .nx => o.nx
  | .xx => o.xx
  | .get => o.get

namespace SetGroup

/-- The last group that has a time. -/
def lastExpiry (gs : List SetGroup) : Option SetGroup := (gs.filter isExpiry).getLast?

variable {now : Int64} {gs : List SetGroup}

theorem expireAt_foldl_put (now : Int64) : ∀ (gs : List SetGroup) (o : SetOptions),
    (gs.foldl (put now) o).expireAt = ((lastExpiry gs).map (deadline now)).getD o.expireAt
  | [], o => rfl
  | .expiry opt arg relative seconds h :: gs, o => by
    rw [List.foldl_cons, expireAt_foldl_put now gs, lastExpiry, lastExpiry, List.filter_cons,
      if_pos (by rfl), List.getLast?_cons]
    cases (gs.filter isExpiry).getLast? <;> rfl
  | .flag opt f h :: gs, o => by
    rw [List.foldl_cons, expireAt_foldl_put now gs, lastExpiry, lastExpiry, List.filter_cons,
      if_neg (by simp [isExpiry])]
    cases f <;> rfl

theorem flag_foldl_put (now : Int64) (f : SetFlag) : ∀ (gs : List SetGroup) (o : SetOptions),
    (gs.foldl (put now) o).flag f = (o.flag f || gs.any (isFlag f))
  | [], o => by simp
  | g :: gs, o => by
    rw [List.foldl_cons, flag_foldl_put now f gs, List.any_cons, ← Bool.or_assoc]
    congr 1
    cases g with
    | expiry => cases f <;> simp [put, isFlag, SetOptions.flag]
    | flag opt f' h => cases f <;> cases f' <;> simp [put, isFlag, SetOptions.flag]

/-- The group's time, if it has one, takes no product or sum out of range, and is positive if it is
relative. -/
def Sound (now : Int64) : SetGroup → Prop
  | .expiry _ arg relative seconds _ => ∀ n, toInt64 arg = some n →
      TimeFits now relative seconds n ∧ (relative = true → 0 < n)
  | .flag .. => True

/-- The deadline that the group stands for. -/
def Denotes (now : Int64) (d : Int) : SetGroup → Prop
  | .expiry _ arg relative seconds _ => ∃ n, toInt64 arg = some n ∧ d = denoted now relative seconds n
  | .flag .. => False

/-- The bounds for the group's time: seconds are not below the least number of them, and a relative time
does not pass the largest number. -/
def Bounded (now : Int64) : SetGroup → Prop
  | .expiry _ arg relative seconds _ => ∀ n, toInt64 arg = some n →
      (seconds = true → -9223372036854775 ≤ n.toInt) ∧ (relative = true → Reaches now seconds n)
  | .flag .. => True

/-- PXAT -1, whose deadline stands for none. -/
def Absent : SetGroup → Prop
  | .expiry _ arg relative seconds _ => relative = false ∧ seconds = false ∧ toInt64 arg = some (-1)
  | .flag .. => False

/-- The deadlines of SET are exact for these groups: the arithmetic stays in range, and what is installed and
propagated is the deadline that each time stands for. -/
structure Exact (now : Int64) (gs : List SetGroup) : Prop where
  sound : ∀ g ∈ gs, g.Sound now
  written : ∀ g ∈ gs, g.isExpiry = true → ∀ (S : Store) (c k v : Bytes),
    (cmdSet now S (c :: k :: v :: tail gs)).1.dirty = true →
    ∃ d : Int64, g.Denotes now d.toInt ∧
      (cmdSet now S (c :: k :: v :: tail gs)).1.propagate =
        [str "SET", k, v, str "PXAT", intToString d.toInt] ∧
      (cmdSet now S (c :: k :: v :: tail gs)).2.expires.lookup k = some d

theorem sound_iff_bounded (hnow : 0 ≤ now) {g : SetGroup} (h : g.Passes) : g.Sound now ↔ g.Bounded now := by
  cases g with
  | flag => exact Iff.rfl
  | expiry opt arg relative seconds hopt =>
    obtain ⟨n, hn, hbig, hpos⟩ := h
    have hbelow : -2 ^ 63 ≤ inMillis seconds n ↔ (seconds = true → -9223372036854775 ≤ n.toInt) := by
      cases seconds with
      | true =>
        simp only [inMillis, if_true, true_implies]
        omega
      | false => exact iff_of_true n.le_toInt (by simp)
    simp only [Sound, Bounded, hn, Option.some.injEq, forall_eq', ← hbelow, TimeFits]
    constructor
    · rintro ⟨⟨hfits, hsum⟩, -⟩
      exact ⟨(fitsInt64_iff.mp hfits).1, fun hr => (sum_fits_iff hnow hfits).mp (hsum hr)⟩
    · rintro ⟨hlow, hreach⟩
      have hfits := fits_of_check hbig hlow
      exact ⟨⟨hfits, fun hr => (sum_fits_iff hnow hfits).mpr (hreach hr)⟩,
        fun hr => (checks_of_fits hfits).2.mp (hpos hr)⟩

theorem Grammar.lastExpiry {g : SetGroup} (h : Grammar gs) (hg : g ∈ gs) (he : g.isExpiry = true) :
    lastExpiry gs = some g := by
  have hne : gs.filter isExpiry ≠ [] := List.ne_nil_of_mem (List.mem_filter.mpr ⟨hg, he⟩)
  obtain ⟨g', hg'⟩ := Option.isSome_iff_exists.mp (List.getLast?_isSome.mpr hne)
  obtain ⟨hmem, he'⟩ := List.mem_filter.mp (List.mem_of_getLast? hg')
  rw [h.eq_of_isExpiry hg hmem he he']
  exact hg'

/-- From a clock that is not negative, PXAT -1 is the only time that is taken for none. -/
theorem isSentinel_iff_absent (hnow : 0 ≤ now) {g : SetGroup} (h : g.Passes) :
    g.isSentinel now = true ↔ g.Absent := by
  cases g with
  | flag => exact iff_of_false Bool.false_ne_true id
  | expiry opt arg relative seconds hopt =>
    obtain ⟨n, hn, -, hpos⟩ := h
    simp only [isSentinel, Absent, hn, Option.any_some, beq_iff_eq, Option.some.injEq]
    exact timeOf_eq_noExpiry hnow hpos

theorem notBelow_of_sound {g : SetGroup} (h : g.Sound now) : g.NotBelow := by
  cases g with
  | flag => trivial
  | expiry opt arg relative seconds hopt =>
    intro n hn
    exact (fitsInt64_iff.mp (h n hn).1.1).1

/-- Groups whose times are in range and are not taken for none are those of the grammar. -/
theorem Loose.grammar_of_sound (h : Loose now gs) (hs : ∀ g ∈ gs, g.Sound now)
    (hsent : ∀ g ∈ gs, g.isSentinel now = false) : Grammar gs := by
  refine h.grammar ⟨fun g hg => notBelow_of_sound (hs g hg), ?_⟩
  exact List.pairwise_of_forall_mem_list fun g hg _ _ _ _ => hsent g hg

theorem denotes_deadline {g : SetGroup} (hg : g.isExpiry = true) (hpass : g.Passes) (h : g.Sound now) :
    g.Denotes now (g.deadline now).toInt := by
  cases g with
  | flag => cases hg
  | expiry opt arg relative seconds hopt =>
    obtain ⟨n, hn, hbig, hpos⟩ := hpass
    refine ⟨n, hn, ?_⟩
    rw [deadline, setDeadline_ok_iff.mpr ⟨n, hn, hbig, hpos, rfl⟩]
    exact toInt_timeOf (h n hn).1

/-- What SET writes without KEEPTTL. -/
theorem cmdSet_written {o : SetOptions} {l : List Bytes} (h : setOptions now {} l = .ok o)
    (hkeep : o.keepttl = false) {S : Store} {c k v : Bytes}
    (hd : (cmdSet now S (c :: k :: v :: l)).1.dirty = true) :
    (cmdSet now S (c :: k :: v :: l)).1.propagate = setCanonical k v o.expireAt ∧
      (cmdSet now S (c :: k :: v :: l)).2.expires.lookup k = Store.deadline o.expireAt := by
  simp only [cmdSet, h] at hd ⊢
  split at hd
  · cases hd
  · rename_i hwrite
    rw [if_neg hwrite]
    simp only [hkeep, Bool.false_eq_true, if_false, true_and]
    exact Store.expires_set _ k v _

/-- A deadline of -1 is never installed. -/
theorem expires_ne_noExpiry {S : Store} {c k v : Bytes} {l : List Bytes}
    (hd : (cmdSet now S (c :: k :: v :: l)).1.dirty = true) :
    (cmdSet now S (c :: k :: v :: l)).2.expires.lookup k ≠ some kNoExpiry := by
  have hset (S : Store) (d : Int64) : (S.set k v d).expires.lookup k ≠ some kNoExpiry := by
    rw [Store.expires_set, Store.deadline]
    split
    · simp
    · rename_i hne
      simpa using hne
  unfold cmdSet at hd ⊢
  dsimp only at hd ⊢
  split at hd
  · cases hd
  · split at hd
    · cases hd
    · rename_i hwrite
      rw [if_neg hwrite]
      exact hset _ _

/-- NX and XX are not accepted together. -/
theorem Loose.nx_or_xx (h : Loose now gs) :
    gs.any (isFlag .nx) = false ∨ gs.any (isFlag .xx) = false := by
  by_cases hnx : gs.any (isFlag .nx) = true
  · obtain ⟨g, hg, hn⟩ := List.any_eq_true.mp hnx
    exact .inr (List.any_eq_false.mpr fun g' hg' => by simp [(h.exclusive hg hg').nx hn])
  · exact .inl (Bool.eq_false_iff.mpr hnx)

/-- Options that are accepted set a key in some store: one that has it, if it is to be there. -/
theorem Loose.exists_dirty (h : Loose now gs) (c k v : Bytes) :
    ∃ S, (cmdSet now S (c :: k :: v :: tail gs)).1.dirty = true := by
  have hset := setOptions_ok_iff.mpr ⟨h, rfl⟩
  have hnx := flag_foldl_put now .nx gs {}
  have hxx := flag_foldl_put now .xx gs {}
  rcases h.nx_or_xx with hn | hx
  · refine ⟨Store.set {} k v kNoExpiry, ?_⟩
    have hget : (Store.get (Store.set {} k v kNoExpiry) now k).1 = some v := by
      rw [Store.get_fst, Store.live_set, Write.run, if_pos rfl]
      rfl
    simp only [cmdSet, hset, hget]
    rw [if_neg]
    rintro (⟨hn', -⟩ | ⟨-, hx'⟩)
    · exact absurd (hn'.symm.trans (hnx.trans hn)) (by decide)
    · cases hx'
  · refine ⟨{}, ?_⟩
    have hget : (Store.get {} now k).1 = none := rfl
    simp only [cmdSet, hset, hget]
    rw [if_neg]
    rintro (⟨-, hn'⟩ | ⟨hx', -⟩)
    · cases hn'
    · exact absurd (hx'.symm.trans (hxx.trans hx)) (by decide)

theorem Exact.not_absent (h : Exact now gs) (hloose : Loose now gs) {g : SetGroup} (hg : g ∈ gs) :
    ¬ g.Absent := by
  intro ha
  cases g with
  | flag => exact ha
  | expiry opt arg relative seconds hopt =>
    obtain ⟨rfl, rfl, hn⟩ := ha
    obtain ⟨S, hd⟩ := hloose.exists_dirty [] [] []
    obtain ⟨d, ⟨n, hn', hden⟩, -, hstore⟩ := h.written _ hg rfl S [] [] [] hd
    obtain rfl := Option.some.inj (hn.symm.trans hn')
    have hnone : d = kNoExpiry := Int64.toInt_inj.mp hden
    rw [hnone] at hstore
    exact expires_ne_noExpiry hd hstore

theorem exact_iff (hnow : 0 ≤ now) (h : SetAccepted now (tail gs)) :
    Exact now gs ↔ ∀ g ∈ gs, g.Bounded now ∧ ¬ g.Absent := by
  have hloose := setAccepted_iff.mp h
  have hsound {g : SetGroup} (hg : g ∈ gs) : g.Sound now ↔ g.Bounded now :=
    sound_iff_bounded hnow (hloose.passes g hg)
  refine ⟨fun he g hg => ⟨(hsound hg).mp (he.sound g hg), he.not_absent hloose hg⟩, fun hb => ?_⟩
  have hs (g : SetGroup) (hg : g ∈ gs) : g.Sound now := (hsound hg).mpr (hb g hg).1
  have hsent (g : SetGroup) (hg : g ∈ gs) : g.isSentinel now = false :=
    Bool.eq_false_iff.mpr fun ha => (hb g hg).2 ((isSentinel_iff_absent hnow (hloose.passes g hg)).mp ha)
  have hgrammar := hloose.grammar_of_sound hs hsent
  refine ⟨hs, fun g hg he S c k v hd => ⟨g.deadline now, ?_⟩⟩
  have hkeep : gs.any (isFlag .keepttl) = false :=
    List.any_eq_false.mpr fun g' hg' => by simp [hgrammar.keepttl ⟨g, hg, he⟩ g' hg']
  have hset := setOptions_ok_iff.mpr ⟨hloose, rfl⟩
  obtain ⟨hprop, hstore⟩ := cmdSet_written hset ((flag_foldl_put now .keepttl gs {}).trans hkeep) hd
  rw [expireAt_foldl_put, hgrammar.lastExpiry hg he, Option.map_some, Option.getD_some] at hprop hstore
  have hne : g.deadline now ≠ kNoExpiry := fun hnone => by
    have := (deadline_of_passes now he (hloose.passes g hg)).mp hnone
    rw [hsent g hg] at this
    cases this
  refine ⟨denotes_deadline he (hloose.passes g hg) (hs g hg), ?_, ?_⟩
  · rw [hprop, setCanonical, if_pos hne]
    rfl
  · rw [hstore, Store.deadline, if_neg hne]

end SetGroup

/-! ## EXPIRE and its variants -/

/-- The arithmetic of EXPIRE is exact for this time: it stays in range, and what is stored and propagated is
the deadline that the request stands for. -/
structure ExpireExact (now : Int64) (seconds absolute : Bool) (time : Bytes) (n : Int64) : Prop where
  fits : TimeFits now (!absolute) seconds n
  written : ∀ (S : Store) (name c k : Bytes),
    (cmdExpire now S seconds absolute name [c, k, time]).1.dirty = true →
    (cmdExpire now S seconds absolute name [c, k, time]).1.propagate =
        [str "PEXPIREAT", k, intToString (denoted now (!absolute) seconds n)] ∧
      ∀ d, (cmdExpire now S seconds absolute name [c, k, time]).2.expires.lookup k = some d →
        d.toInt = denoted now (!absolute) seconds n

theorem expireDeadline_eq_some {now n d : Int64} {seconds absolute : Bool}
    (h : expireDeadline now n seconds absolute = some d) :
    fitsInt64 (inMillis seconds n) = true ∧ d = timeOf now (!absolute) seconds n := by
  unfold expireDeadline at h
  split at h
  · cases h
  rename_i hrange
  refine ⟨?_, ?_⟩
  · rw [fitsInt64_iff]
    cases seconds with
    | true =>
      have hmin : (Int64.minValue / 1000).toInt = -9223372036854775 := by decide
      simp only [true_and, not_or, Int64.not_lt, Int64.le_iff_toInt_le, toInt_maxSeconds, hmin] at hrange
      simp only [inMillis, if_true]
      omega
    | false => exact ⟨n.le_toInt, n.toInt_lt⟩
  · obtain rfl := Option.some.inj h
    cases absolute <;> rfl

/-- What EXPIRE leaves of the deadlines, where it applies. -/
theorem Store.expires_expireAt {S : Store} {now d : Int64} {k : Bytes}
    (h : (S.expireAt now k d).1 = true) {d' : Int64}
    (hd : (S.expireAt now k d).2.expires.lookup k = some d') :
    d' = d := by
  unfold expireAt at h hd
  cases hm : S.map.lookup k with
  | none => simp [hm] at h
  | some v =>
    simp only [hm] at h hd
    split at hd
    · rename_i hdead
      simp [hdead] at h
    split at hd
    · simp [remove] at hd
    · simpa using hd.symm

theorem expireExact_iff {now n : Int64} (hnow : 0 ≤ now) {seconds absolute : Bool} {time : Bytes}
    (hn : toInt64 time = some n) (h : (expireDeadline now n seconds absolute).isSome = true) :
    ExpireExact now seconds absolute time n ↔ (absolute = false → Reaches now seconds n) := by
  obtain ⟨d, hd⟩ := Option.isSome_iff_exists.mp h
  obtain ⟨hfits, rfl⟩ := expireDeadline_eq_some hd
  have hiff : TimeFits now (!absolute) seconds n ↔ (absolute = false → Reaches now seconds n) := by
    rw [TimeFits, and_iff_right hfits, sum_fits_iff hnow hfits, Bool.not_eq_true']
  rw [← hiff]
  refine ⟨ExpireExact.fits, fun ht => ⟨ht, fun S name c k hdirty => ?_⟩⟩
  rw [cmdExpire_of_deadline hn hd] at hdirty ⊢
  dsimp only at hdirty ⊢
  rw [if_pos hdirty, toInt_timeOf ht]
  refine ⟨rfl, fun d' hd' => ?_⟩
  rw [Store.expires_expireAt hdirty hd', toInt_timeOf ht]

open SetGroup in
/-- For options that SET accepts, and times that EXPIRE or a variant accepts, the deadlines are exact if and
only if the times are within bounds, and none of SET is PXAT -1. -/
theorem deadlines_exact_iff {now : Int64} (hnow : 0 ≤ now) :
    (∀ gs, SetAccepted now (tail gs) → (Exact now gs ↔ ∀ g ∈ gs, g.Bounded now ∧ ¬ g.Absent)) ∧
      ∀ (seconds absolute : Bool) (time : Bytes) (n : Int64), toInt64 time = some n →
        (expireDeadline now n seconds absolute).isSome = true →
        (ExpireExact now seconds absolute time n ↔ (absolute = false → Reaches now seconds n)) :=
  ⟨fun _ h => exact_iff hnow h, fun _ _ _ _ hn h => expireExact_iff hnow hn h⟩

theorem deadlines_exact_ten :
    SetGroup.Exact 1000 [exTen] ∧ ExpireExact 1000 true false (str "10") 10 := by
  have hn : toInt64 (str "10") = some 10 := by decide
  have hreach : Reaches 1000 true 10 := by
    unfold Reaches
    decide
  obtain ⟨hset, hexpire⟩ := deadlines_exact_iff (show (0 : Int64) ≤ 1000 by decide)
  refine ⟨(hset [exTen] ⟨{ expireAt := 11000 }, by decide⟩).mpr ?_,
    (hexpire true false (str "10") 10 hn (by decide)).mpr fun _ => hreach⟩
  intro g hg
  obtain rfl := List.mem_singleton.mp hg
  refine ⟨fun n hn' => ?_, fun ha => absurd ha.1 (by decide)⟩
  obtain rfl := Option.some.inj (hn.symm.trans hn')
  exact ⟨fun _ => by decide, fun _ => hreach⟩

/-- PX and the largest number. -/
def pxMax : SetGroup := .expiry (str "PX") (str "9223372036854775807") true false rfl

/-- A sum of SET and one of PEXPIRE pass the largest number, and a product of SET falls below the least, so
that a negative time is accepted. PXAT -1 is accepted, and installs no deadline. -/
theorem overflowing_times_accepted :
    ((cmdSet 1 {} [str "SET", str "k", str "v", str "PX", str "9223372036854775807"]).1.propagate =
        setCanonical (str "k") (str "v") Int64.minValue ∧ ¬ SetGroup.Exact 1 [pxMax]) ∧
    ((cmdSet 1 {} [str "SET", str "k", str "v", str "EX", str "-9223372036854775807"]).1.propagate =
        setCanonical (str "k") (str "v") 1001 ∧ ¬ SetGroup.Exact 1 [exFarBelow]) ∧
    ((cmdSet 1 {} [str "SET", str "k", str "v", str "PXAT", str "-1"]).1.propagate =
        [str "SET", str "k", str "v"] ∧ ¬ SetGroup.Exact 1 [pxatMinusOne]) ∧
    expireDeadline 1 Int64.maxValue false false = some Int64.minValue ∧
      ¬ ExpireExact 1 false false (str "9223372036854775807") Int64.maxValue := by
  have hmax : toInt64 (str "9223372036854775807") = some Int64.maxValue := by decide
  have hbelow : toInt64 (str "-9223372036854775807") = some (-9223372036854775807) := by decide
  have hnone : SetGroup.Loose 1 [pxatMinusOne] := setAccepted_iff.mp ⟨{}, by decide⟩
  refine ⟨⟨by decide, fun h => ?_⟩, ⟨by decide, fun h => ?_⟩, ⟨by decide, fun h => ?_⟩, by decide, fun h => ?_⟩
  · exact absurd ((h.sound pxMax List.mem_cons_self Int64.maxValue hmax).1.2 rfl) (by decide)
  · exact absurd ((h.sound exFarBelow List.mem_cons_self _ hbelow).2 rfl) (by decide)
  · exact h.not_absent hnone List.mem_cons_self ⟨rfl, rfl, by decide⟩
  · exact absurd (h.fits.2 rfl) (by decide)

/-! ## Absolute deadlines -/

/-- SET with an absolute deadline, if it is in range. -/
theorem cmdSet_absolute {t n : Int64} {opt arg : Bytes} {seconds : Bool}
    (hopt : expiryOption (upper opt) = some (false, seconds)) (hn : toInt64 arg = some n)
    (hfits : fitsInt64 (inMillis seconds n) = true) (S : Store) (c k v : Bytes) :
    (cmdSet t S [c, k, v, opt, arg]).2 = (S.get t k).2.set k v (millis seconds n) := by
  have hdeadline : setDeadline t false seconds arg = .ok (millis seconds n) :=
    setDeadline_ok_iff.mpr ⟨n, hn, (checks_of_fits hfits).1, by simp, rfl⟩
  refine cmdSet_of_deadline ?_ S c k v
  rw [setOptions_expiry hopt, SetGroup.take, if_neg (by simp), hdeadline]
  rfl

theorem bulk_ne_nullBulk (v : Bytes) : Reply.bulk v ≠ Reply.nullBulk := by
  intro h
  have hlen := congrArg List.length h
  have hpos : 0 < (natToString v.length).length :=
    List.length_pos_of_ne_nil (Framework.decimal_ne_nil v.length)
  have hbulk : (Reply.bulk v).length = 1 + (natToString v.length).length + 2 + v.length + 2 := by
    simp only [Reply.bulk, List.length_append]
    rfl
  rw [hbulk, show Reply.nullBulk.length = 5 by decide] at hlen
  omega

/-- What GET replies at `u`, of a key that was set to `v` with the deadline `d`. -/
theorem cmdGet_set (S : Store) (c k v : Bytes) (d u : Int64) :
    (cmdGet u (S.set k v d) [c, k]).1 = Reply.bulk v ↔ d = kNoExpiry ∨ u < d := by
  rw [cmdGet, Store.get_fst, Store.live_set, Write.run, if_pos rfl, Store.deadline]
  by_cases hd : d = kNoExpiry
  · simp [hd, bulkOrNull]
  · by_cases hu : u < d
    · simp [hd, hu, bulkOrNull]
    · simp [hd, hu, bulkOrNull, (bulk_ne_nullBulk v).symm]

/-- A key is set with an absolute deadline in range, at a time that is not negative. From then on GET
returns its value just until the deadline, unless the option is PXAT -1. -/
theorem absolute_deadline_iff {t n : Int64} (ht : 0 ≤ t) {opt arg : Bytes} {seconds : Bool}
    (hopt : expiryOption (upper opt) = some (false, seconds)) (hn : toInt64 arg = some n)
    (hfits : fitsInt64 (inMillis seconds n) = true) (S : Store) (c k v : Bytes) :
    (∀ u c', t ≤ u → ((cmdGet u (cmdSet t S [c, k, v, opt, arg]).2 [c', k]).1 = Reply.bulk v ↔
        u.toInt < inMillis seconds n)) ↔ ¬ (seconds = false ∧ n = -1) := by
  rw [cmdSet_absolute hopt hn hfits]
  have hnone : millis seconds n = kNoExpiry ↔ seconds = false ∧ n = -1 := by
    simpa [timeOf] using @timeOf_eq_noExpiry t n ht false seconds (by simp)
  simp only [cmdGet_set, Int64.lt_iff_toInt_lt, toInt_millis hfits, ← hnone]
  constructor
  · intro h hd
    -- the value is returned at once, though the deadline is over
    have hlt := (h t [] (Int64.le_refl t)).mp (.inl hd)
    rw [← toInt_millis hfits, hd] at hlt
    rw [Int64.le_iff_toInt_le, Int64.toInt_zero] at ht
    have hnone : kNoExpiry.toInt = -1 := rfl
    omega
  · intro hd u c' _
    simp [hd]

theorem absolute_deadline_hundred :
    (cmdGet 99 (cmdSet 0 {} [str "SET", str "k", str "v", str "PXAT", str "100"]).2
      [str "GET", str "k"]).1 = Reply.bulk (str "v") ↔ (99 : Int64).toInt < inMillis false 100 := by
  have hopt : expiryOption (upper (str "PXAT")) = some (false, false) := by decide
  have hn : toInt64 (str "100") = some 100 := by decide
  exact (absolute_deadline_iff (show (0 : Int64) ≤ 0 by decide) hopt hn (by decide) {} (str "SET") (str "k")
    (str "v")).mpr (by decide) 99 (str "GET") (by decide)

/-- A deadline that was over before the clock started is never kept to. -/
theorem pxat_minus_one_stays :
    (cmdGet 1000 (cmdSet 0 {} [str "SET", str "k", str "v", str "PXAT", str "-1"]).2
      [str "GET", str "k"]).1 = Reply.bulk (str "v") ∧ ¬ (1000 : Int64).toInt < inMillis false (-1) := by
  decide

end RP
