import RedisPlus.Command.Deadline

/-!
# SET under a running clock

A command reads the clock wherever it needs the time. Elsewhere all these readings are one; here SET gets
them one by one, in the order of its calls, and `cmdSet_still` says that the two are the same where the
clock stands still.

With KEEPTTL, SET reads it in `get`, twice in `pttl`, and once more to make a deadline of the time that was
left. So the deadline stays what it was only if the last two readings are the same, and the key may be found
expired after its value was read. `keepttl_keeps_iff` says for which readings that is in order.
-/

namespace RP

/-- The readings of the clock from now on. -/
def Clock : Type := Nat → Int64

/-- Those after the next. -/
def Clock.tail (clock : Clock) : Clock := fun i => clock (i + 1)

namespace Clocked

/-- The clock is read only for a key that has a deadline. -/
def isExpired (S : Store) (clock : Clock) (key : Bytes) : Bool × Clock :=
  match S.expires.lookup key with
  | some deadline => (decide (deadline ≤ clock 0), clock.tail)
  | none => (false, clock)

/-- `Store::get`, which reads the clock for a key that is there. -/
def get (S : Store) (clock : Clock) (key : Bytes) : Option Bytes × Store × Clock :=
  match S.map.lookup key with
  | none => (none, S, clock)
  | some value =>
    let (expired, clock) := isExpired S clock key
    if expired then (none, S.reap key, clock) else (some value, S, clock)

/-- `Store::pttl`, which reads the clock a second time if the key has a deadline. -/
def pttl (S : Store) (clock : Clock) (key : Bytes) : Int64 × Store × Clock :=
  match S.map.lookup key with
  | none => (-2, S, clock)
  | some _ =>
    let (expired, clock) := isExpired S clock key
    if expired then (-2, S.reap key, clock)
    else match S.expires.lookup key with
      | none => (-1, S, clock)
      | some deadline => (deadline - clock 0, S, clock.tail)

/-- The loop over the options; a relative time reads the clock. -/
def setOptions : Clock → SetOptions → List Bytes → Except Bytes (SetOptions × Clock)
  | clock, o, [] => .ok (o, clock)
  | clock, o, [arg] =>
    if (expiryOption (upper arg)).isSome then .error kSyntaxError
    else (setFlag o (upper arg)).map (·, clock)
  | clock, o, opt :: arg :: rest =>
    match expiryOption (upper opt) with
    | some (relative, seconds) =>
      if o.expireAt ≠ kNoExpiry ∨ o.keepttl then .error kSyntaxError
      else match setDeadline (clock 0) relative seconds arg with
        | .error e => .error e
        | .ok expireAt => setOptions (if relative then clock.tail else clock) { o with expireAt } rest
    | none =>
      match setFlag o (upper opt) with
      | .error e => .error e
      | .ok o => setOptions clock o (arg :: rest)

/-- `cmd_set` -/
def cmdSet (clock : Clock) (S : Store) : Args → CommandResult × Store
  | _ :: key :: value :: rest =>
    match setOptions clock {} rest with
    | .error e => ({ reply := Reply.error e }, S)
    | .ok (o, clock) =>
      let (previous, S, clock) := get S clock key
      if (o.nx ∧ previous.isSome) ∨ (o.xx ∧ previous.isNone) then
        ({ reply := if o.get then bulkOrNull previous else Reply.nullBulk }, S)
      else
        let (expireAt, S) :=
          if o.keepttl then
            let (remaining, S, clock) := pttl S clock key
            (if 0 ≤ remaining then clock 0 + remaining else kNoExpiry, S)
          else (o.expireAt, S)
        ({ reply := if o.get then bulkOrNull previous else Reply.ok
           dirty := true
           propagate := setCanonical key value expireAt }, S.set key value expireAt)
  | _ => ({ reply := Reply.wrongArity (str "set") }, S)

/-! ## A clock that stands still -/

/-- All the readings are the same. -/
def still (now : Int64) : Clock := fun _ => now

theorem isExpired_still (S : Store) (now : Int64) (key : Bytes) :
    isExpired S (still now) key = (S.isExpired now key, still now) := by
  unfold isExpired Store.isExpired
  cases S.expires.lookup key <;> rfl

theorem get_still (S : Store) (now : Int64) (key : Bytes) :
    get S (still now) key = ((S.get now key).1, (S.get now key).2, still now) := by
  unfold get Store.get
  rw [isExpired_still]
  cases S.map.lookup key with
  | none => rfl
  | some v =>
    dsimp only
    split <;> rfl

theorem pttl_still (S : Store) (now : Int64) (key : Bytes) :
    pttl S (still now) key = ((S.pttl now key).1, (S.pttl now key).2, still now) := by
  unfold pttl Store.pttl
  rw [isExpired_still]
  cases S.map.lookup key with
  | none => rfl
  | some v =>
    dsimp only
    split
    · rfl
    · cases S.expires.lookup key <;> rfl

theorem setOptions_still (now : Int64) : ∀ (l : List Bytes) (o : SetOptions),
    setOptions (still now) o l = (RP.setOptions now o l).map (·, still now)
  | [], _ => rfl
  | [arg], o => by
    rw [setOptions, RP.setOptions]
    split <;> rfl
  | opt :: arg :: rest, o => by
    rw [setOptions, RP.setOptions]
    cases expiryOption (upper opt) with
    | some times =>
      obtain ⟨relative, seconds⟩ := times
      dsimp only
      split
      · rfl
      · rw [show still now 0 = now from rfl]
        cases setDeadline now relative seconds arg with
        | error e => rfl
        | ok d => cases relative <;> exact setOptions_still now rest _
    | none =>
      dsimp only
      cases setFlag o (upper opt) with
      | error e => rfl
      | ok o' => exact setOptions_still now (arg :: rest) o'

/-- With one reading for all, this is the SET of the other modules. -/
theorem cmdSet_still (now : Int64) (S : Store) (a : Args) : cmdSet (still now) S a = RP.cmdSet now S a := by
  rcases a with - | ⟨c, - | ⟨k, - | ⟨v, rest⟩⟩⟩
  · rfl
  · rfl
  · rfl
  rw [cmdSet, RP.cmdSet, setOptions_still]
  cases RP.setOptions now {} rest with
  | error e => rfl
  | ok o =>
    dsimp only [Except.map]
    rw [get_still]
    dsimp only
    split
    · rfl
    · rw [pttl_still]
      split <;> rfl

/-! ## KEEPTTL -/

theorem setOptions_flag {clock : Clock} {o : SetOptions} {opt : Bytes}
    (h : expiryOption (upper opt) = none) : ∀ rest : List Bytes,
      setOptions clock o (opt :: rest) = (setFlag o (upper opt)).bind (setOptions clock · rest)
  | [] => by
    rw [setOptions, if_neg (by simp [h])]
    cases setFlag o (upper opt) <;> rfl
  | arg :: rest => by
    rw [setOptions, h]
    cases setFlag o (upper opt) <;> rfl

/-- Without a time among them, the options are read without the clock. -/
theorem setOptions_flags (now : Int64) (clock : Clock) : ∀ (gs : List SetGroup) (o : SetOptions),
    (∀ g ∈ gs, g.isExpiry = false) →
    setOptions clock o (SetGroup.tail gs) = (RP.setOptions now o (SetGroup.tail gs)).map (·, clock)
  | [], _, _ => rfl
  | .expiry .. :: gs, _, h => by
    have := h _ List.mem_cons_self
    cases this
  | .flag opt f hopt :: gs, o, h => by
    have hnone := expiryOption_of_flag hopt
    have hrest (o' : SetOptions) := setOptions_flags now clock gs o' (List.forall_mem_cons.mp h).2
    show setOptions clock o (opt :: SetGroup.tail gs) =
      (RP.setOptions now o (opt :: SetGroup.tail gs)).map _
    rw [setOptions_flag hnone, RP.setOptions_flag hnone]
    cases setFlag o (upper opt) with
    | error e => rfl
    | ok o' => exact hrest o'

/-- The options of a SET that has KEEPTTL, and no time. -/
structure Keeping (gs : List SetGroup) : Prop where
  times : ∀ g ∈ gs, g.isExpiry = false
  keepttl : gs.any (SetGroup.isFlag .keepttl) = true

theorem Keeping.grammar {gs : List SetGroup} (h : Keeping gs)
    (hnx : gs.any (SetGroup.isFlag .nx) = false) : SetGroup.Grammar gs := by
  refine ⟨fun g hg => ?_, ?_, ?_, ?_⟩
  · cases g with
    | expiry => cases h.times _ hg
    | flag => trivial
  · rw [List.filter_eq_nil_iff.mpr fun g hg => by simp [h.times g hg]]
    exact Nat.zero_le 1
  · rintro ⟨g, hg, he⟩
    rw [h.times g hg] at he
    cases he
  · rintro ⟨g, hg, hn⟩
    rw [List.any_eq_false] at hnx
    exact absurd hn (hnx g hg)

/-- How they are read, unless NX and XX are both among them. -/
theorem Keeping.setOptions {gs : List SetGroup} (h : Keeping gs) (clock : Clock) :
    (∃ e, setOptions clock {} (SetGroup.tail gs) = .error e ∧ gs.any (SetGroup.isFlag .nx) = true) ∨
    ∃ o, setOptions clock {} (SetGroup.tail gs) = .ok (o, clock) ∧ o.keepttl = true ∧
      o.nx = gs.any (SetGroup.isFlag .nx) ∧ o.xx = gs.any (SetGroup.isFlag .xx) ∧
      o.get = gs.any (SetGroup.isFlag .get) := by
  rw [setOptions_flags 0 clock gs {} h.times]
  cases ho : RP.setOptions 0 {} (SetGroup.tail gs) with
  | ok o =>
    obtain ⟨-, rfl⟩ := SetGroup.setOptions_ok_iff.mp ho
    have hflag (f : SetFlag) := SetGroup.flag_foldl_put 0 f gs {}
    exact .inr ⟨_, rfl, (hflag .keepttl).trans h.keepttl, hflag .nx, hflag .xx, hflag .get⟩
  | error e =>
    refine .inl ⟨e, rfl, by_contra fun hnx => ?_⟩
    obtain ⟨o, ho'⟩ := setAccepted_iff.mpr (h.grammar (by simpa using hnx)).loose
    rw [ho] at ho'
    cases ho'

/-- After the command the key has its deadline, or it was treated as expired: it was removed, has no
deadline now, its old value was not reported, and with `xx` the command did not take it for present and
set it. -/
def KeepsDeadline (S : Store) (k old : Bytes) (d : Int64) (xx : Bool) (r : CommandResult × Store) : Prop :=
  r.2.expires.lookup k = some d ∨
    r.2.stats.expiredLazy = S.stats.expiredLazy + 1 ∧ r.2.expires.lookup k = none ∧
      r.1.reply ≠ Reply.bulk old ∧ (xx = true → r.1.dirty = false)

theorem bulk_ne_ok (v : Bytes) : Reply.ok ≠ Reply.bulk v := by
  intro h
  have := congrArg List.head? h
  simp [Reply.bulk, show str "$" = [36] by decide, show Reply.ok = 43 :: str "OK\r\n" by decide] at this

theorem pttl_of_expired {S : Store} {k old : Bytes} {d : Int64} (hmap : S.map.lookup k = some old)
    (hexp : S.expires.lookup k = some d) {clock : Clock} (h : d ≤ clock 1) :
    pttl S clock.tail k = (-2, S.reap k, clock.tail.tail) := by
  simp only [pttl, hmap, isExpired, hexp]
  exact if_pos (decide_eq_true h)

theorem pttl_of_live {S : Store} {k old : Bytes} {d : Int64} (hmap : S.map.lookup k = some old)
    (hexp : S.expires.lookup k = some d) {clock : Clock} (h : ¬ d ≤ clock 1) :
    pttl S clock.tail k = (d - clock 2, S, clock.tail.tail.tail) := by
  simp only [pttl, hmap, isExpired, hexp]
  exact if_neg fun hd => h (of_decide_eq_true hd)

/-- The key was removed, and is set without a deadline. -/
theorem keepsDeadline_expired (S : Store) (k v old : Bytes) (d : Int64) (xx get : Bool) :
    KeepsDeadline S k old d xx
      ({ reply := if get then bulkOrNull (some old) else Reply.ok
         dirty := true
         propagate := setCanonical k v kNoExpiry }, (S.reap k).set k v kNoExpiry) ↔
      get = false ∧ xx = false := by
  have hnone : ((S.reap k).set k v kNoExpiry).expires.lookup k = none := Store.expires_set _ k v kNoExpiry
  rw [KeepsDeadline, hnone, or_iff_right (by simp)]
  cases get with
  | true => simp [bulkOrNull]
  | false =>
    constructor
    · exact fun h => ⟨rfl, Bool.eq_false_iff.mpr fun hxx => Bool.noConfusion (h.2.2.2 hxx)⟩
    · exact fun h => ⟨rfl, rfl, bulk_ne_ok old, fun hxx => absurd (h.2.symm.trans hxx) (by decide)⟩

/-- The key is set with the time that was left. -/
theorem keepsDeadline_live (S : Store) (k v old : Bytes) (d t u : Int64) (xx get : Bool) :
    KeepsDeadline S k old d xx
      ({ reply := if get then bulkOrNull (some old) else Reply.ok
         dirty := true
         propagate := setCanonical k v (if 0 ≤ d - t then u + (d - t) else kNoExpiry) },
        S.set k v (if 0 ≤ d - t then u + (d - t) else kNoExpiry)) ↔
      0 ≤ d - t ∧ u = t ∧ d ≠ kNoExpiry := by
  have hstats (e : Int64) : ¬ (S.set k v e).stats.expiredLazy = S.stats.expiredLazy + 1 :=
    Nat.ne_of_lt (Nat.lt_succ_self _)
  rw [KeepsDeadline, or_iff_left fun h => hstats _ h.1, Store.expires_set]
  by_cases hleft : 0 ≤ d - t
  · have hsame : u + (d - t) = d ↔ u = t := by grind
    rw [if_pos hleft, and_iff_right hleft, Store.deadline]
    split
    · rename_i hnone
      refine iff_of_false (by simp) fun h => h.2 ?_
      rw [← hnone, hsame.mpr h.1]
    · rename_i hsome
      rw [Option.some_inj, hsame]
      refine (and_iff_left_of_imp fun h hd => hsome ?_).symm
      rw [hsame.mpr h, hd]
  · rw [if_neg hleft]
    exact iff_of_false (by simp [Store.deadline]) fun h => hleft h.1

/-- A key with the deadline `d` that is live at the first reading is set with KEEPTTL. It keeps the
deadline, or is treated as expired, if and only if NX keeps it from being set; or it is expired at the
second reading, and neither its value was asked for nor its presence; or it is not, the time left is not
negative at the third reading, and the fourth is the same. -/
theorem keepttl_keeps_iff {S : Store} {k old : Bytes} {d : Int64} (hmap : S.map.lookup k = some old)
    (hexp : S.expires.lookup k = some d) {clock : Clock} (hlive : clock 0 < d) {gs : List SetGroup}
    (hgs : Keeping gs) (c v : Bytes) :
    KeepsDeadline S k old d (gs.any (SetGroup.isFlag .xx)) (cmdSet clock S (c :: k :: v :: SetGroup.tail gs)) ↔
      gs.any (SetGroup.isFlag .nx) = true ∨
      d ≤ clock 1 ∧ gs.any (SetGroup.isFlag .get) = false ∧ gs.any (SetGroup.isFlag .xx) = false ∨
      clock 1 < d ∧ 0 ≤ d - clock 2 ∧ clock 3 = clock 2 ∧ d ≠ kNoExpiry := by
  have hget : get S clock k = (some old, S, clock.tail) := by
    simp [get, hmap, isExpired, hexp, Int64.not_le.mpr hlive]
  rcases hgs.setOptions clock with ⟨e, he, hnx⟩ | ⟨o, ho, hkeep, hnx, hxx, hgetFlag⟩
  · rw [cmdSet, he]
    exact iff_of_true (.inl hexp) (.inl hnx)
  rw [cmdSet, ho, ← hnx, ← hxx, ← hgetFlag]
  dsimp only
  rw [hget]
  dsimp only
  by_cases hn : o.nx = true
  · rw [if_pos (.inl ⟨hn, rfl⟩)]
    exact iff_of_true (.inl hexp) (.inl hn)
  rw [if_neg (by simp [hn]), if_pos hkeep, or_iff_right hn]
  by_cases hdead : d ≤ clock 1
  · rw [pttl_of_expired hmap hexp hdead, or_iff_left fun h => absurd hdead (Int64.not_le.mpr h.1),
      and_iff_right hdead]
    dsimp only
    rw [if_neg (show ¬ (0 : Int64) ≤ -2 by decide)]
    exact keepsDeadline_expired S k v old d o.xx o.get
  · rw [pttl_of_live hmap hexp hdead, or_iff_right fun h => hdead h.1,
      and_iff_right (Int64.not_le.mp hdead)]
    dsimp only
    rw [show clock.tail.tail.tail 0 = clock 3 from rfl]
    exact keepsDeadline_live S k v old d (clock 2) (clock 3) o.xx o.get

/-- A clock with these readings, which then stands still. -/
def readings (first second third last : Int64) : Clock
  | 0 => first
  | 1 => second
  | 2 => third
  | _ => last

/-- KEEPTTL and GET -/
def keepttlGet : List SetGroup := [.flag (str "KEEPTTL") .keepttl rfl, .flag (str "GET") .get rfl]

theorem keeping_keepttlGet : Keeping keepttlGet := ⟨by decide, by decide⟩

/-- A key that expires at 100. -/
def oneKey : Store := ({} : Store).set (str "k") (str "old") 100

/-- `SET k v KEEPTTL GET` -/
def setKeepttlGet (clock : Clock) : CommandResult × Store :=
  cmdSet clock oneKey (str "SET" :: str "k" :: str "v" :: SetGroup.tail keepttlGet)

theorem keepttl_keeps_hundred :
    KeepsDeadline oneKey (str "k") (str "old") 100 false (setKeepttlGet (readings 10 20 30 30)) :=
  (keepttl_keeps_iff (by decide) (by decide) (by decide) keeping_keepttlGet (str "SET") (str "v")).mpr
    (.inr (.inr (by decide)))

/-- `SET k v XX KEEPTTL` -/
def setXxKeepttl (clock : Clock) : CommandResult × Store :=
  cmdSet clock oneKey [str "SET", str "k", str "v", str "XX", str "KEEPTTL"]

/-- A millisecond between the last two readings moves the deadline. One that passes between the second
reading and the third is lost, and so is one that passes between the first and the second, though the value
is reported, or though XX takes the key for present. -/
theorem keepttl_loses_deadline :
    (setKeepttlGet (readings 10 10 10 11)).2.expires.lookup (str "k") = some 101 ∧
    ((setKeepttlGet (readings 99 99 101 101)).2.expires.lookup (str "k") = none ∧
      (setKeepttlGet (readings 99 99 101 101)).2.stats.expiredLazy = 0) ∧
    ((setKeepttlGet (readings 99 100 100 100)).2.expires.lookup (str "k") = none ∧
      (setKeepttlGet (readings 99 100 100 100)).1.reply = Reply.bulk (str "old")) ∧
    ((setXxKeepttl (readings 99 100 100 100)).2.expires.lookup (str "k") = none ∧
      (setXxKeepttl (readings 99 100 100 100)).1.reply = Reply.ok) ∧
    (∀ clock ∈ [readings 10 10 10 11, readings 99 99 101 101, readings 99 100 100 100],
      ¬ KeepsDeadline oneKey (str "k") (str "old") 100 false (setKeepttlGet clock)) ∧
    ¬ KeepsDeadline oneKey (str "k") (str "old") 100 true (setXxKeepttl (readings 99 100 100 100)) := by
  unfold KeepsDeadline
  decide

end Clocked

end RP
