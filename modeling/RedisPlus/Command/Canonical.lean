import RedisPlus.Command.Effect

/-!
# Canonical forms are fixpoints

What a dirty command propagates does to any store with the same live keys what the command did,
is dirty again, and propagates itself (`canonical_fixpoint`), provided that the deadlines the
command computes stay in `int64_t` (`deadlinesFit`): then none of them is the one that
`to_int64` cannot read back.
-/

namespace RP

open Framework (Keyspace Write)

/-! ## Deadlines that fit -/

/-- A time in milliseconds. -/
def inMillis (seconds : Bool) (n : Int64) : Int := if seconds then n.toInt * 1000 else n.toInt

/-- The products and sums of `setDeadline`. -/
def setDeadlineFits (now : Int64) (relative seconds : Bool) (arg : Bytes) : Bool :=
  match toInt64 arg with
  | none => true
  | some n =>
    if seconds ∧ Int64.maxValue / 1000 < n then true
    else fitsInt64 (inMillis seconds n) &&
      (!relative || decide (inMillis seconds n ≤ 0) || fitsInt64 (now.toInt + inMillis seconds n))

/-- Those of the options of SET, as far as the loop over them gets. -/
def setOptionsFit (now : Int64) : SetOptions → List Bytes → Bool
  | o, opt :: arg :: rest =>
    match expiryOption (upper opt) with
    | some (relative, seconds) =>
      if o.expireAt ≠ kNoExpiry ∨ o.keepttl then true
      else setDeadlineFits now relative seconds arg &&
        match setDeadline now relative seconds arg with
        | .error _ => true
        | .ok expireAt => setOptionsFit now { o with expireAt } rest
    | none =>
      match setFlag o (upper opt) with
      | .error _ => true
      | .ok o => setOptionsFit now o (arg :: rest)
  | _, _ => true

/-- Those of `expireDeadline`. -/
def expireDeadlineFits (now : Int64) (seconds absolute : Bool) : Args → Bool
  | [_, _, time] =>
    match toInt64 time with
    | none => true
    | some n =>
      if seconds ∧ (Int64.maxValue / 1000 < n ∨ n < Int64.minValue / 1000) then true
      else fitsInt64 (inMillis seconds n) && (absolute || fitsInt64 (now.toInt + inMillis seconds n))
  | _ => true

/-- The arithmetic of a command on deadlines stays in `int64_t`. -/
def deadlinesFit (now : Int64) (args : Args) : Bool :=
  match args.head?.bind commandName with
  | some .set => setOptionsFit now {} (args.drop 3)
  | some .expire => expireDeadlineFits now true false args
  | some .pexpire => expireDeadlineFits now false false args
  | some .expireat => expireDeadlineFits now true true args
  | some .pexpireat => expireDeadlineFits now false true args
  | _ => true

theorem ne_minValue_of_toInt {d : Int64} (h : d.toInt ≠ -2 ^ 63) : d ≠ Int64.minValue := by
  rintro rfl
  exact h Int64.toInt_minValue

/-- A time that fits, in milliseconds, is not the least number: that is no multiple of 1000. -/
theorem toInt_inMillis {seconds : Bool} {n : Int64} (hn : n ≠ Int64.minValue)
    (h : fitsInt64 (inMillis seconds n) = true) :
    (if seconds then n * 1000 else n).toInt = inMillis seconds n ∧ inMillis seconds n ≠ -2 ^ 63 := by
  cases seconds with
  | true =>
    refine ⟨toInt_mul_of_fits h, ?_⟩
    simp only [inMillis, if_true]
    omega
  | false =>
    refine ⟨rfl, fun he => hn (Int64.toInt_inj.mp ?_)⟩
    rw [Int64.toInt_minValue]
    exact he

theorem setDeadline_ne_minValue {now d : Int64} {relative seconds : Bool} {arg : Bytes}
    (hnow : 0 ≤ now) (hfit : setDeadlineFits now relative seconds arg = true)
    (h : setDeadline now relative seconds arg = .ok d) : d ≠ Int64.minValue := by
  unfold setDeadline at h
  unfold setDeadlineFits at hfit
  split at h
  · cases h
  rename_i n hn
  simp only [hn] at hfit
  split at h
  · cases h
  rename_i hbig
  rw [if_neg hbig, Bool.and_eq_true] at hfit
  obtain ⟨hms, hsum⟩ := hfit
  obtain ⟨hval, hne⟩ := toInt_inMillis (toInt64_ne_minValue hn) hms
  simp only at h
  generalize (if seconds = true then n * 1000 else n) = m at h hval
  split at h
  · cases h
  rename_i hpos
  obtain rfl := Except.ok.inj h
  refine ne_minValue_of_toInt ?_
  cases relative with
  | false => simpa [hval] using hne
  | true =>
    have hm : 0 < m.toInt := by
      simp only [true_and, Int64.not_le, Int64.lt_iff_toInt_lt, Int64.toInt_zero] at hpos
      exact hpos
    have h0 : 0 ≤ now.toInt := by simpa [Int64.le_iff_toInt_le] using hnow
    rw [hval] at hm
    simp only [Bool.not_true, Bool.false_or, Bool.or_eq_true, decide_eq_true_eq] at hsum
    have hfits : fitsInt64 (now.toInt + m.toInt) = true := by
      rw [hval]
      exact hsum.resolve_left (by omega)
    simp only [if_true, toInt_add_of_fits hfits]
    omega

theorem setFlag_expireAt {o o' : SetOptions} {opt : Bytes} (h : setFlag o opt = .ok o') :
    o'.expireAt = o.expireAt := by
  unfold setFlag at h
  repeat' split at h
  all_goals cases h
  all_goals rfl

/-- The options of SET give a deadline that can be read back. -/
theorem setOptions_ne_minValue {now : Int64} (hnow : 0 ≤ now) :
    ∀ (l : List Bytes) {o o' : SetOptions}, o.expireAt ≠ Int64.minValue →
      setOptionsFit now o l = true → setOptions now o l = .ok o' → o'.expireAt ≠ Int64.minValue
  | [], o, o', ho, _, h => by
    obtain rfl := Except.ok.inj h
    exact ho
  | [arg], o, o', ho, _, h => by
    simp only [setOptions] at h
    split at h
    · cases h
    · rw [setFlag_expireAt h]
      exact ho
  | opt :: arg :: rest, o, o', ho, hfit, h => by
    simp only [setOptions] at h
    simp only [setOptionsFit] at hfit
    split at h
    · rename_i relative seconds hopt
      simp only [hopt] at hfit
      split at h
      · cases h
      rename_i hfree
      rw [if_neg hfree, Bool.and_eq_true] at hfit
      split at h
      · cases h
      rename_i d hd
      simp only [hd] at hfit
      exact setOptions_ne_minValue hnow rest (setDeadline_ne_minValue hnow hfit.1 hd) hfit.2 h
    · rename_i hopt
      simp only [hopt] at hfit
      split at h
      · cases h
      rename_i o₁ hflag
      simp only [hflag] at hfit
      exact setOptions_ne_minValue hnow (arg :: rest) (by rw [setFlag_expireAt hflag]; exact ho) hfit h

theorem expireDeadline_ne_minValue {now n d : Int64} {seconds absolute : Bool} {c k time : Bytes}
    (hnow : 0 ≤ now) (hn : toInt64 time = some n)
    (hfit : expireDeadlineFits now seconds absolute [c, k, time] = true)
    (h : expireDeadline now n seconds absolute = some d) : d ≠ Int64.minValue := by
  simp only [expireDeadlineFits, hn] at hfit
  unfold expireDeadline at h
  split at h
  · cases h
  rename_i hrange
  rw [if_neg hrange, Bool.and_eq_true] at hfit
  obtain ⟨hms, hsum⟩ := hfit
  obtain ⟨hval, hne⟩ := toInt_inMillis (toInt64_ne_minValue hn) hms
  simp only at h
  generalize (if seconds = true then n * 1000 else n) = m at h hval
  obtain rfl := Option.some.inj h
  refine ne_minValue_of_toInt ?_
  cases absolute with
  | true => simpa [hval] using hne
  | false =>
    have h0 : 0 ≤ now.toInt := by simpa [Int64.le_iff_toInt_le] using hnow
    rw [Bool.false_or, ← hval] at hsum
    rw [fitsInt64_iff] at hms
    simp only [Bool.false_eq_true, if_false, toInt_add_of_fits hsum, hval]
    omega

/-! ## The writes again -/

theorem readable {d : Int64} (h : d ≠ Int64.minValue) : Store.deadline d ≠ some Int64.minValue := by
  unfold Store.deadline
  split
  · simp
  · simpa using h

/-- KEEPTTL keeps a deadline that lies ahead, or none. -/
theorem keptDeadline_ne_minValue (S : Store) (now : Int64) (k : Bytes) :
    (if 0 ≤ (S.pttl now k).1 then now + (S.pttl now k).1 else kNoExpiry) ≠ Int64.minValue := by
  split
  · rename_i hpos
    rw [Store.pttl_fst] at hpos ⊢
    split at hpos
    · exact absurd hpos (by decide)
    · exact absurd hpos (by decide)
    · rename_i v d hlive
      have hd : now < d := by simpa using (Keyspace.eq_some_of_live hlive).2
      have hsum : now + (d - now) = d := by rw [Int64.add_comm, Int64.sub_add_cancel]
      rw [hsum]
      rintro rfl
      exact absurd hd (Int64.not_lt.mpr now.minValue_le)
  · decide

/-- What the propagated form `p` of a write on `S` should do to any store with the same live keys:
end with the keys live that are in `S'`, and be propagated as it is. `f` is the command it is. -/
structure Refires (now : Int64) (S S' : Store) (f : Store → Args → CommandResult × Store) (p : Args) :
    Prop where
  live {S₂ : Store} : S₂.live now = S.live now → (f S₂ p).2.live now = S'.live now
  dirty {S₂ : Store} : S₂.live now = S.live now → (f S₂ p).1.dirty = true
  propagate {S₂ : Store} : S₂.live now = S.live now → (f S₂ p).1.propagate = p

theorem cmdSet_fst_of_deadline {now d : Int64} {rest : Args}
    (h : setOptions now {} rest = .ok { expireAt := d }) (S : Store) (c k v : Bytes) :
    (cmdSet now S (c :: k :: v :: rest)).1 =
      { reply := Reply.ok, dirty := true, propagate := setCanonical k v d } := by
  simp [cmdSet, h]

theorem cmdSet_setCanonical {now d : Int64} (h : d ≠ Int64.minValue) (S : Store) (k v : Bytes) :
    (cmdSet now S (setCanonical k v d)).1 =
      { reply := Reply.ok, dirty := true, propagate := setCanonical k v d } :=
  cmdSet_fst_of_deadline (setOptions_canonical (readable h) now) S _ k v

theorem refires_setCanonical {now d : Int64} {S S' : Store} {k v : Bytes} (h : d ≠ Int64.minValue)
    (hS : S'.live now = (Write.set k v (Store.deadline d)).run now (S.live now)) :
    Refires now S S' (cmdSet now) (setCanonical k v d) where
  live h₂ := by rw [live_cmdSet_canonical (readable h), h₂, hS]
  dirty _ := by rw [cmdSet_setCanonical h]
  propagate _ := by rw [cmdSet_setCanonical h]

/-- SET, with its options resolved. -/
theorem cmdSet_refires {now : Int64} (hnow : 0 ≤ now) {S : Store} {a : Args}
    (hfit : setOptionsFit now {} (a.drop 3) = true) (hd : (cmdSet now S a).1.dirty = true) :
    ∃ k v d, (cmdSet now S a).1.propagate = setCanonical k v d ∧
      Refires now S (cmdSet now S a).2 (cmdSet now) (setCanonical k v d) := by
  unfold cmdSet at hd ⊢
  split at hd
  · rename_i c key value rest
    split at hd
    · cases hd
    rename_i o ho
    have hne : o.expireAt ≠ Int64.minValue := setOptions_ne_minValue hnow rest (by decide) hfit ho
    simp only at hd ⊢
    split at hd
    · cases hd
    rename_i hcond
    rw [if_neg hcond]
    cases o.keepttl with
    | false =>
      refine ⟨key, value, o.expireAt, rfl, refires_setCanonical hne ?_⟩
      simp only [Bool.false_eq_true, if_false]
      rw [Store.live_set, Store.live_get]
    | true =>
      refine ⟨key, value, _, rfl, refires_setCanonical (keptDeadline_ne_minValue _ now key) ?_⟩
      simp only [if_true]
      rw [Store.live_set, Store.live_pttl, Store.live_get]
  · cases hd

/-- How many keys are erased depends on the live ones only. -/
theorem eraseAll_fst_congr {now : Int64} : ∀ (ks : List Bytes) {S S₂ : Store},
    S₂.live now = S.live now → (eraseAll now ks S₂).1 = (eraseAll now ks S).1
  | [], _, _, _ => rfl
  | k :: ks, S, S₂, h => by
    have hrest : (S₂.erase now k).2.live now = (S.erase now k).2.live now := by
      rw [Store.live_erase, Store.live_erase, h]
    simp only [eraseAll, Store.erase_fst, h, eraseAll_fst_congr ks hrest]

theorem cmdDel_refires {now : Int64} {S : Store} {a : Args} (hd : (cmdDel now S a).1.dirty = true) :
    (cmdDel now S a).1.propagate = a ∧ Refires now S (cmdDel now S a).2 (cmdDel now) a := by
  unfold cmdDel at hd
  split at hd
  · rename_i c k ks
    have hpos : 0 < (eraseAll now (k :: ks) S).1 := by simpa using hd
    refine ⟨by simp [cmdDel, hpos], ?_, ?_, ?_⟩
    · intro S₂ h₂
      show (eraseAll now (k :: ks) S₂).2.live now = (eraseAll now (k :: ks) S).2.live now
      rw [live_eraseAll, live_eraseAll, h₂]
    · intro S₂ h₂
      simp [cmdDel, eraseAll_fst_congr (k :: ks) h₂, hpos]
    · intro S₂ h₂
      simp [cmdDel, eraseAll_fst_congr (k :: ks) h₂, hpos]
  · cases hd

theorem cmdExpire_of_deadline {now n d : Int64} {seconds absolute : Bool} {time : Bytes}
    (hn : toInt64 time = some n) (hd : expireDeadline now n seconds absolute = some d) (S : Store)
    (name c k : Bytes) :
    cmdExpire now S seconds absolute name [c, k, time] =
      ({ reply := Reply.integer (if (S.expireAt now k d).1 then 1 else 0)
         dirty := (S.expireAt now k d).1
         propagate := if (S.expireAt now k d).1 then [str "PEXPIREAT", k, intToString d.toInt] else [] },
        (S.expireAt now k d).2) := by
  simp only [cmdExpire, hn, hd]

theorem cmdExpire_dirty {now : Int64} {S : Store} {seconds absolute : Bool} {name : Bytes} {a : Args}
    (hd : (cmdExpire now S seconds absolute name a).1.dirty = true) :
    ∃ c k time n d, a = [c, k, time] ∧ toInt64 time = some n ∧
      expireDeadline now n seconds absolute = some d := by
  unfold cmdExpire at hd
  split at hd
  · split at hd
    · cases hd
    rename_i n hn
    split at hd
    · cases hd
    rename_i d hdl
    exact ⟨_, _, _, n, d, rfl, hn, hdl⟩
  · cases hd

/-- EXPIRE and its variants, with the deadline resolved. -/
theorem cmdExpire_refires {now : Int64} (hnow : 0 ≤ now) {S : Store} {seconds absolute : Bool}
    {name : Bytes} {a : Args} (hfit : expireDeadlineFits now seconds absolute a = true)
    (hd : (cmdExpire now S seconds absolute name a).1.dirty = true) :
    ∃ k d, (cmdExpire now S seconds absolute name a).1.propagate =
        [str "PEXPIREAT", k, intToString d] ∧
      Refires now S (cmdExpire now S seconds absolute name a).2
        (fun S => cmdExpire now S false true (str "pexpireat")) [str "PEXPIREAT", k, intToString d] := by
  obtain ⟨c, k, time, n, d, rfl, hn, hdl⟩ := cmdExpire_dirty hd
  have hne := expireDeadline_ne_minValue hnow hn hfit hdl
  have hre (S₂ : Store) := cmdExpire_of_deadline (toInt64_intToString hne)
    (show expireDeadline now d false true = some d from rfl) S₂ (str "pexpireat") (str "PEXPIREAT") k
  rw [cmdExpire_of_deadline hn hdl] at hd ⊢
  simp only at hd ⊢
  have happ {S₂ : Store} (h₂ : S₂.live now = S.live now) : (S₂.expireAt now k d).1 = true := by
    rw [Store.expireAt_fst, h₂, ← Store.expireAt_fst S now k d]
    exact hd
  refine ⟨k, d.toInt, by rw [if_pos hd], ?_, ?_, ?_⟩
  · intro S₂ h₂
    rw [hre, Store.live_expireAt, Store.live_expireAt, h₂]
  · intro S₂ h₂
    rw [hre]
    exact happ h₂
  · intro S₂ h₂
    rw [hre, happ h₂]
    rfl

theorem cmdPersist_refires {now : Int64} {S : Store} {a : Args}
    (hd : (cmdPersist now S a).1.dirty = true) :
    (cmdPersist now S a).1.propagate = a ∧ Refires now S (cmdPersist now S a).2 (cmdPersist now) a := by
  unfold cmdPersist at hd
  split at hd
  · rename_i c k
    have happ : (S.persist now k).1 = true := hd
    have happ₂ {S₂ : Store} (h₂ : S₂.live now = S.live now) : (S₂.persist now k).1 = true := by
      rw [Store.persist_fst, h₂, ← Store.persist_fst, happ]
    refine ⟨by simp [cmdPersist, happ], ?_, ?_, ?_⟩
    · intro S₂ h₂
      show (S₂.persist now k).2.live now = (S.persist now k).2.live now
      rw [Store.live_persist, Store.live_persist, h₂]
    · intro S₂ h₂
      exact happ₂ h₂
    · intro S₂ h₂
      simp [cmdPersist, happ₂ h₂]
  · cases hd

theorem cmdFlushall_refires (now : Int64) (S : Store) (a : Args) :
    Refires now S (cmdFlushall S a).2 cmdFlushall a where
  live h₂ := by
    show (Store.clear _).live now = S.clear.live now
    rw [Store.live_clear, Store.live_clear, h₂]
  dirty _ := rfl
  propagate _ := rfl

/-! ## Dispatch -/

/-- The commands that write, as they are on the store. -/
def writeCommand (now : Int64) : CommandName → Option (Store → Args → CommandResult × Store)
  | .set => some (cmdSet now)
  | .del => some (cmdDel now)
  | .expire => some fun S => cmdExpire now S true false (str "expire")
  | .pexpire => some fun S => cmdExpire now S false false (str "pexpire")
  | .expireat => some fun S => cmdExpire now S true true (str "expireat")
  | .pexpireat => some fun S => cmdExpire now S false true (str "pexpireat")
  | .persist => some (cmdPersist now)
  | .flushall => some cmdFlushall
  | _ => none

/-- What a dirty command propagates is a command that does the same again. -/
theorem writeCommand_refires {now : Int64} (hnow : 0 ≤ now) {c : Bytes} {a : Args} {name : CommandName}
    (hc : commandName c = some name) {f : Store → Args → CommandResult × Store}
    (hf : writeCommand now name = some f) {S : Store} (hfit : deadlinesFit now (c :: a) = true)
    (hd : (f S (c :: a)).1.dirty = true) :
    ∃ c' a' name' f', (f S (c :: a)).1.propagate = c' :: a' ∧ commandName c' = some name' ∧
      writeCommand now name' = some f' ∧ Refires now S (f S (c :: a)).2 f' (c' :: a') := by
  have hexpire {seconds absolute : Bool} {s : Bytes}
      (hfit : expireDeadlineFits now seconds absolute (c :: a) = true)
      (hd : (cmdExpire now S seconds absolute s (c :: a)).1.dirty = true) :
      ∃ c' a' name' f', (cmdExpire now S seconds absolute s (c :: a)).1.propagate = c' :: a' ∧
        commandName c' = some name' ∧ writeCommand now name' = some f' ∧
        Refires now S (cmdExpire now S seconds absolute s (c :: a)).2 f' (c' :: a') := by
    obtain ⟨k, d, hp, hr⟩ := cmdExpire_refires hnow hfit hd
    exact ⟨_, _, .pexpireat, _, hp, by decide, rfl, hr⟩
  simp only [deadlinesFit, List.head?_cons, Option.bind_some, hc] at hfit
  cases name with
  | set =>
    obtain rfl := Option.some.inj hf
    obtain ⟨k, v, d, hp, hr⟩ := cmdSet_refires hnow hfit hd
    exact ⟨_, _, .set, _, hp, by decide, rfl, hr⟩
  | del =>
    obtain rfl := Option.some.inj hf
    obtain ⟨hp, hr⟩ := cmdDel_refires hd
    exact ⟨c, a, .del, _, hp, hc, rfl, hr⟩
  | expire | pexpire | expireat | pexpireat =>
    obtain rfl := Option.some.inj hf
    exact hexpire hfit hd
  | persist =>
    obtain rfl := Option.some.inj hf
    obtain ⟨hp, hr⟩ := cmdPersist_refires hd
    exact ⟨c, a, .persist, _, hp, hc, rfl, hr⟩
  | flushall =>
    obtain rfl := Option.some.inj hf
    exact ⟨c, a, .flushall, _, rfl, hc, rfl, cmdFlushall_refires now S _⟩
  | _ => cases hf

section

variable {π ρ : Type} (table : CommandTable π ρ)

/-- Commands that write are not refused. -/
def Accepts (link : Option ClientLink) (N : Node π ρ) : Prop :=
  ¬ (link.isSome ∧ table.replication.any fun ops => ops.isReplica N.repl)

theorem runCommand_write {amb : Ambient} {name : CommandName}
    {f : Store → Args → CommandResult × Store} (hf : writeCommand amb.now name = some f)
    (link : Option ClientLink) (args : Args) (N : Node π ρ) :
    runCommand table amb (some name) link args N = N.writes (f N.store args) := by
  cases name with
  | set | del | expire | pexpire | expireat | pexpireat | persist | flushall =>
    obtain rfl := Option.some.inj hf
    rfl
  | _ => cases hf

/-- They are those that a replica refuses. -/
theorem isSome_writeCommand (now : Int64) (name : Option CommandName) :
    (name.bind (writeCommand now)).isSome = isWriteCommand name := by
  rcases name with _ | name
  · rfl
  · cases name <;> rfl

theorem dispatch_write {amb : Ambient} {link : Option ClientLink} {N : Node π ρ}
    (hacc : Accepts table link N) {c : Bytes} {name : CommandName} (hc : commandName c = some name)
    {f : Store → Args → CommandResult × Store} (hf : writeCommand amb.now name = some f) (a : Args) :
    dispatch table amb link (c :: a) N =
      (if (f N.store (c :: a)).1.dirty ∧ (f N.store (c :: a)).1.propagate = [] then
          { (f N.store (c :: a)).1 with propagate := c :: a }
        else (f N.store (c :: a)).1, { N with store := (f N.store (c :: a)).2 }) := by
  unfold dispatch
  dsimp only
  rw [if_neg fun h => hacc ⟨h.1, h.2.1⟩, hc, runCommand_write table hf]
  rfl

/-- A dirty dispatch is a command that writes, and was not refused. -/
theorem dispatch_dirty {amb : Ambient} {link : Option ClientLink} {args : Args} {N : Node π ρ}
    (hd : (dispatch table amb link args N).1.dirty = true) :
    Accepts table link N ∧ ∃ c a name f, args = c :: a ∧ commandName c = some name ∧
      writeCommand amb.now name = some f ∧ (f N.store args).1.dirty = true := by
  rcases args with _ | ⟨c, a⟩
  · cases hd
  unfold dispatch at hd
  dsimp only at hd
  split at hd
  · cases hd
  rename_i hnot
  have hrun : (runCommand table amb (commandName c) link (c :: a) N).1.dirty = true := by
    split at hd
    · exact hd
    · exact hd
  cases hb : (commandName c).bind (writeCommand amb.now) with
  | none =>
    have hw : isWriteCommand (commandName c) = false := by
      rw [← isSome_writeCommand amb.now, hb]; rfl
    rw [(runCommand_clean table amb link (c :: a) N hw).1] at hrun
    cases hrun
  | some f =>
    obtain ⟨name, hc, hf⟩ := Option.bind_eq_some_iff.mp hb
    rw [hc, runCommand_write table hf] at hrun
    refine ⟨fun h => hnot ⟨h.1, h.2, ?_⟩, c, a, name, f, rfl, hc, hf, hrun⟩
    rw [← isSome_writeCommand amb.now, hb]
    rfl

variable {π' ρ' : Type} (table' : CommandTable π' ρ')

/-- A command that is not dirty leaves what is live as it was. What a dirty one propagates, run
where commands that write are accepted on a store with the same live keys, leaves the same keys
live as the command did, is dirty and propagates itself; and the place where the command ran is
one where such commands are accepted. -/
theorem canonical_fixpoint (amb : Ambient) (hnow : 0 ≤ amb.now) (link : Option ClientLink) (args : Args)
    (hfit : deadlinesFit amb.now args = true) (N : Node π ρ) :
    ((dispatch table amb link args N).1.dirty = false →
      (dispatch table amb link args N).2.store.live amb.now = N.store.live amb.now) ∧
    ((dispatch table amb link args N).1.dirty = true →
      Accepts table link N ∧
      ∀ (link' : Option ClientLink) (N' : Node π' ρ'), Accepts table' link' N' →
        N'.store.live amb.now = N.store.live amb.now →
        (dispatch table' amb link' (dispatch table amb link args N).1.propagate N').2.store.live amb.now =
            (dispatch table amb link args N).2.store.live amb.now ∧
          (dispatch table' amb link' (dispatch table amb link args N).1.propagate N').1.dirty = true ∧
          (dispatch table' amb link' (dispatch table amb link args N).1.propagate N').1.propagate =
            (dispatch table amb link args N).1.propagate) := by
  refine ⟨fun hclean => ?_, fun hdirty => ?_⟩
  · rcases dispatch_effect table amb link args N with ⟨-, h⟩ | ⟨w, hd, -, -⟩
    · exact h
    · rw [hclean] at hd
      cases hd
  · obtain ⟨hacc, c, a, name, f, rfl, hc, hf, hd⟩ := dispatch_dirty table hdirty
    obtain ⟨c', a', name', f', hp, hc', hf', hre⟩ := writeCommand_refires hnow hc hf hfit hd
    refine ⟨hacc, fun link' N' hacc' hlive => ?_⟩
    have hdisp : dispatch table amb link (c :: a) N =
        ((f N.store (c :: a)).1, { N with store := (f N.store (c :: a)).2 }) := by
      rw [dispatch_write table hacc hc hf, if_neg (by rw [hp]; simp)]
    have hdisp' : dispatch table' amb link' (c' :: a') N' =
        ((f' N'.store (c' :: a')).1, { N' with store := (f' N'.store (c' :: a')).2 }) := by
      rw [dispatch_write table' hacc' hc' hf', if_neg (by rw [hre.propagate hlive]; simp)]
    simp only [hdisp, hp, hdisp']
    exact ⟨hre.live hlive, hre.dirty hlive, hre.propagate hlive⟩

end

/-- SET with a relative deadline, on a store that still has an expired entry for another key. -/
theorem canonical_fixpoint_set :
    (dispatch {} ⟨0, []⟩ none (dispatch {} ⟨0, []⟩ none
        [str "set", str "k", str "v", str "PX", str "100", str "NX"] bareNode).1.propagate
      (⟨Store.set {} (str "j") (str "w") (-5), (), ()⟩ : Node Unit Unit)).1.propagate =
      [str "SET", str "k", str "v", str "PXAT", str "100"] := by
  have hfix := (canonical_fixpoint {} ({} : CommandTable Unit Unit) ⟨0, []⟩ (by decide) none
    [str "set", str "k", str "v", str "PX", str "100", str "NX"] (by decide) bareNode).2 (by decide)
  rw [(hfix.2 none ⟨Store.set {} (str "j") (str "w") (-5), (), ()⟩ (by simp [Accepts]) ?_).2.2]
  · decide
  · funext k
    by_cases hk : k = str "j"
    · subst hk
      decide
    · rw [Store.live_set]
      simp [Write.run, hk, bareNode]

end RP
