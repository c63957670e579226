import RedisPlus.Command.Frame
import RedisPlus.Store.View

/-!
# What a command does to the live keyspace

A dispatch leaves what is live as it was, or is one write of `Framework.Write` and
propagates a canonical form of it (`dispatch_effect`). Dispatching that form, at another time
and on another store, is the same write again (`applySilently_canonical`), unless its
deadline is the one that `to_int64` cannot read: then it changes nothing
(`applySilently_unreadable`).
-/

namespace RP

open Framework (Keyspace Write)

/-- The propagated forms, and the writes they stand for. -/
inductive Canonical : Args → Write Bytes Bytes Int64 → Prop where
  | set (k v : Bytes) (d : Int64) : Canonical (setCanonical k v d) (.set k v (Store.deadline d))
  | del {c : Bytes} (hc : commandName c = some .del) (k : Bytes) (ks : List Bytes) :
    Canonical (c :: k :: ks) (.del (k :: ks))
  | expire (k : Bytes) (d : Int64) :
    Canonical [str "PEXPIREAT", k, intToString d.toInt] (.expire k d)
  | persist {c : Bytes} (hc : commandName c = some .persist) (k : Bytes) :
    Canonical [c, k] (.persist k)
  | flush {c : Bytes} (hc : commandName c = some .flushall) (rest : Args) :
    Canonical (c :: rest) .flush

theorem Canonical.ne_nil {cmd : Args} {w : Write Bytes Bytes Int64} (h : Canonical cmd w) :
    cmd ≠ [] := by
  cases h <;> simp [setCanonical]

/-- What a command that took the store from `S` to `S'` did to the keys live at `now`. -/
inductive Effect (now : Int64) (S S' : Store) (r : CommandResult) : Prop where
  | quiet (hd : r.dirty = false) (h : S'.live now = S.live now)
  | write (w : Write Bytes Bytes Int64) (hd : r.dirty = true) (hc : Canonical r.propagate w)
    (h : S'.live now = w.run now (S.live now))

/-! ## The commands that read -/

theorem live_countExisting {now : Int64} : ∀ (ks : List Bytes) (S : Store),
    (countExisting now ks S).2.live now = S.live now
  | [], _ => rfl
  | k :: ks, S => by
    show (countExisting now ks (S.contains now k).2).2.live now = S.live now
    rw [live_countExisting ks, Store.live_contains]

theorem live_cmdGet (now : Int64) (S : Store) (a : Args) :
    (cmdGet now S a).2.live now = S.live now := by
  unfold cmdGet
  split
  · exact Store.live_get S now _
  · rfl

theorem live_cmdExists (now : Int64) (S : Store) (a : Args) :
    (cmdExists now S a).2.live now = S.live now := by
  unfold cmdExists
  split
  · exact live_countExisting _ S
  · rfl

theorem live_cmdType (now : Int64) (S : Store) (a : Args) :
    (cmdType now S a).2.live now = S.live now := by
  unfold cmdType
  split
  · exact Store.live_contains S now _
  · rfl

theorem live_cmdKeys (now : Int64) (S : Store) (a : Args) :
    (cmdKeys now S a).2.live now = S.live now := by
  unfold cmdKeys
  split
  · rename_i pattern
    exact Store.live_keys S now pattern
  · rfl

theorem live_cmdTtl (now : Int64) (S : Store) (seconds : Bool) (name : Bytes) (a : Args) :
    (cmdTtl now S seconds name a).2.live now = S.live now := by
  unfold cmdTtl
  split
  · rename_i key
    show (if (S.pttl now key).1 < 0 then _ else _ : Bytes × Store).2.live now = _
    split <;> exact Store.live_pttl S now key
  · rfl

/-! ## The commands that write -/

theorem cmdSet_effect (now : Int64) (S : Store) (a : Args) :
    Effect now S (cmdSet now S a).2 (cmdSet now S a).1 := by
  unfold cmdSet
  split
  · rename_i key value rest
    split
    · exact .quiet rfl rfl
    · rename_i o _
      simp only
      split
      · exact .quiet rfl (Store.live_get S now key)
      · cases o.keepttl with
        | false => exact .write _ rfl (.set key value _) (by rw [Store.live_set, ← Store.live_get S now key]; rfl)
        | true =>
          refine .write _ rfl (.set key value _) ?_
          simp only [if_true]
          rw [Store.live_set, Store.live_pttl, Store.live_get]
  · exact .quiet rfl rfl

/-- Erasing a key and then others is erasing all. -/
theorem live_eraseAll {now : Int64} : ∀ (ks : List Bytes) (S : Store),
    (eraseAll now ks S).2.live now = (Write.del ks).run now (S.live now)
  | [], S => by funext k; simp [eraseAll, Write.run]
  | k :: ks, S => by
    show (eraseAll now ks (S.erase now k).2).2.live now = _
    rw [live_eraseAll ks, Store.live_erase]
    funext k'
    by_cases hk : k' = k <;> by_cases hks : k' ∈ ks <;> simp [Write.run, hk, hks]

/-- When no key was there, erasing them changes nothing that is live. -/
theorem live_eraseAll_of_zero {now : Int64} : ∀ (ks : List Bytes) (S : Store),
    (eraseAll now ks S).1 = 0 → (eraseAll now ks S).2.live now = S.live now
  | [], _, _ => rfl
  | k :: ks, S, h => by
    have hcount : (if (S.erase now k).1 then (eraseAll now ks (S.erase now k).2).1 + 1
        else (eraseAll now ks (S.erase now k).2).1) = 0 := h
    split at hcount
    · omega
    rename_i hfalse
    rw [Store.erase_fst, Bool.not_eq_true, Option.isSome_eq_false_iff, Option.isNone_iff_eq_none]
      at hfalse
    show (eraseAll now ks (S.erase now k).2).2.live now = S.live now
    rw [live_eraseAll_of_zero ks _ hcount, Store.live_erase]
    funext k'
    by_cases hk : k' = k
    · rw [hk, hfalse]; simp [Write.run]
    · simp [Write.run, hk]

theorem cmdDel_effect {now : Int64} {S : Store} {c : Bytes} {a : Args}
    (hc : commandName c = some .del) :
    Effect now S (cmdDel now S (c :: a)).2 (cmdDel now S (c :: a)).1 := by
  cases a with
  | nil => exact .quiet rfl rfl
  | cons k ks =>
    by_cases h : (eraseAll now (k :: ks) S).1 = 0
    · exact .quiet (by simp [cmdDel, h]) (live_eraseAll_of_zero _ S h)
    · refine .write (.del (k :: ks)) ?_ ?_ (live_eraseAll (k :: ks) S)
      · simp [cmdDel, Nat.pos_of_ne_zero h]
      · simpa [cmdDel, Nat.pos_of_ne_zero h] using .del hc k ks

theorem cmdExpire_effect (now : Int64) (S : Store) (seconds absolute : Bool) (name : Bytes) (a : Args) :
    Effect now S (cmdExpire now S seconds absolute name a).2 (cmdExpire now S seconds absolute name a).1 := by
  unfold cmdExpire
  split
  · rename_i key time
    split
    · exact .quiet rfl rfl
    · split
      · exact .quiet rfl rfl
      · rename_i d _
        cases hb : (S.expireAt now key d).1 with
        | false =>
          refine .quiet hb ?_
          rw [Store.expireAt_fst, Option.isSome_eq_false_iff, Option.isNone_iff_eq_none] at hb
          show (S.expireAt now key d).2.live now = S.live now
          rw [Store.live_expireAt, (Store.run_of_dead hb d).1]
        | true =>
          refine .write (.expire key d) hb ?_ (Store.live_expireAt S now key d)
          simpa [hb] using .expire key d
  · exact .quiet rfl rfl

theorem cmdPersist_effect {now : Int64} {S : Store} {c : Bytes} {a : Args}
    (hc : commandName c = some .persist) :
    Effect now S (cmdPersist now S (c :: a)).2 (cmdPersist now S (c :: a)).1 := by
  unfold cmdPersist
  split
  · rename_i hca
    obtain ⟨rfl, rfl⟩ := List.cons_eq_cons.mp hca
    rename_i key
    cases hb : (S.persist now key).1 with
    | false =>
      refine .quiet hb ?_
      show (S.persist now key).2.live now = S.live now
      rw [Store.live_persist]
      -- no live key, or one without a deadline to remove
      rw [Store.persist_fst] at hb
      funext k
      simp only [Write.run]
      split
      · rename_i hk
        subst hk
        split at hb
        · exact absurd hb (by decide)
        · rename_i hno
          cases hl : S.live now k with
          | none => rfl
          | some e =>
            obtain ⟨v, d⟩ := e
            cases d with
            | none => rfl
            | some d => exact absurd hl (hno v d)
      · rfl
    | true =>
      refine .write (.persist key) hb ?_ (Store.live_persist S now key)
      simpa [hb] using .persist hc key
  · exact .quiet rfl rfl

/-! ## Dispatch -/

section

variable {π ρ : Type} (table : CommandTable π ρ)

/-- A command that is no business of the store's. -/
theorem Effect.of_store {now : Int64} {S S' : Store} {r : CommandResult} (hs : S' = S)
    (hd : r.dirty = false) : Effect now S S' r := .quiet hd (by rw [hs])

theorem cmdReplconf_effect (now : Int64) (link : Option ClientLink) (args : Args) (N : Node π ρ) :
    Effect now N.store (cmdReplconf table link args N).2.store (cmdReplconf table link args N).1 := by
  obtain ⟨reply, repl, he, -⟩ := cmdReplconf_cases table link args N
  rw [he]
  exact .of_store rfl rfl

theorem cmdPsync_effect (now : Int64) (link : Option ClientLink) (N : Node π ρ) :
    Effect now N.store (cmdPsync table link N).2.store (cmdPsync table link N).1 := by
  obtain ⟨reply, repl, he, -⟩ := cmdPsync_cases table link N
  rw [he]
  exact .of_store rfl rfl

theorem cmdReplicaof_effect (now : Int64) (args : Args) (N : Node π ρ) :
    Effect now N.store (cmdReplicaof table args N).2.store (cmdReplicaof table args N).1 := by
  obtain ⟨reply, repl, he, -⟩ := cmdReplicaof_cases table args N
  rw [he]
  exact .of_store rfl rfl

theorem cmdPersistence_effect (now : Int64)
    (op : PersistenceOps π → Store → π → Except Bytes Unit × π) (started : Bytes) (N : Node π ρ) :
    Effect now N.store (cmdPersistence table op started N).2.store
      (cmdPersistence table op started N).1 := by
  obtain ⟨reply, pers, he, -⟩ := cmdPersistence_cases table N op started
  rw [he]
  exact .of_store rfl rfl

theorem runCommand_effect (amb : Ambient) (link : Option ClientLink) (c : Bytes) (a : Args)
    (N : Node π ρ) :
    Effect amb.now N.store (runCommand table amb (commandName c) link (c :: a) N).2.store
      (runCommand table amb (commandName c) link (c :: a) N).1 := by
  cases hc : commandName c with
  | none => exact .of_store rfl rfl
  | some name =>
    cases name with
    | replconf => exact cmdReplconf_effect table _ link _ N
    | psync => exact cmdPsync_effect table _ link N
    | replicaof => exact cmdReplicaof_effect table _ _ N
    | set => exact cmdSet_effect _ _ _
    | get => exact .quiet rfl (live_cmdGet _ _ _)
    | del => exact cmdDel_effect hc
    | exists' => exact .quiet rfl (live_cmdExists _ _ _)
    | type => exact .quiet rfl (live_cmdType _ _ _)
    | keys => exact .quiet rfl (live_cmdKeys _ _ _)
    | expire | pexpire | expireat | pexpireat => exact cmdExpire_effect _ _ _ _ _ _
    | ttl | pttl => exact .quiet rfl (live_cmdTtl _ _ _ _ _)
    | persist => exact cmdPersist_effect hc
    | flushall => exact .write .flush rfl (.flush hc a) (Store.live_clear _ _)
    | save | bgsave | bgrewriteaof => exact cmdPersistence_effect table _ _ _ N
    | ping | echo | config | dbsize | info | command | select | quit => exact .of_store rfl rfl

/-- A dispatch is quiet, or one write, and propagates that write. -/
theorem dispatch_effect (amb : Ambient) (link : Option ClientLink) (args : Args) (N : Node π ρ) :
    Effect amb.now N.store (dispatch table amb link args N).2.store
      (dispatch table amb link args N).1 := by
  unfold dispatch
  split
  · exact .of_store rfl rfl
  · rename_i c a
    simp only
    split
    · exact .of_store rfl rfl
    · rcases runCommand_effect table amb link c a N with ⟨hd, h⟩ | ⟨w, hd, hc, h⟩
      · exact .quiet (by rw [if_neg (by simp [hd])]; exact hd) h
      · exact .write w (by rw [if_neg (by simp [hc.ne_nil])]; exact hd)
          (by rw [if_neg (by simp [hc.ne_nil])]; exact hc) h

/-! ## Dispatching a canonical form -/

/-- The deadline that a write gives a key. -/
def writtenDeadline : Write Bytes Bytes Int64 → Option Int64
  | .set _ _ d => d
  | .expire _ d => some d
  | _ => none

theorem store_applySilently (amb : Ambient) (c : Bytes) (a : Args) (N : Node π ρ) :
    (applySilently table amb (c :: a) N).store =
      (runCommand table amb (commandName c) none (c :: a) N).2.store := by
  simp [applySilently, dispatch]

/-- The options of a canonical SET. -/
theorem setOptions_canonical {d : Int64} (h : Store.deadline d ≠ some Int64.minValue) (now : Int64) :
    setOptions now {} (if d ≠ kNoExpiry then [str "PXAT", intToString d.toInt] else []) =
      .ok { expireAt := d } := by
  by_cases hd : d = kNoExpiry
  · rw [if_neg (by simp [hd]), hd]; rfl
  · have hmin : d ≠ Int64.minValue := fun e => h (by rw [Store.deadline, if_neg hd, e])
    have hopt : expiryOption (upper (str "PXAT")) = some (false, false) := by decide
    have hset : setDeadline now false false (intToString d.toInt) = .ok d := by
      simp [setDeadline, toInt64_intToString hmin]
    rw [if_pos hd]
    simp [setOptions, hopt, hset]

theorem setOptions_unreadable (now : Int64) :
    setOptions now {} [str "PXAT", intToString Int64.minValue.toInt] = .error kNotInteger := by
  have hopt : expiryOption (upper (str "PXAT")) = some (false, false) := by decide
  simp only [setOptions, hopt, setDeadline, toInt64_intToString_minValue]
  rfl

theorem cmdSet_of_error {now : Int64} {rest : Args} {e : Bytes}
    (h : setOptions now {} rest = .error e) (S : Store) (c k v : Bytes) :
    (cmdSet now S (c :: k :: v :: rest)).2 = S := by
  simp [cmdSet, h]

theorem cmdSet_of_deadline {now d : Int64} {rest : Args}
    (h : setOptions now {} rest = .ok { expireAt := d }) (S : Store) (c k v : Bytes) :
    (cmdSet now S (c :: k :: v :: rest)).2 = (S.get now k).2.set k v d := by
  simp [cmdSet, h]

theorem live_cmdSet_canonical {now : Int64} {S : Store} {k v : Bytes} {d : Int64}
    (h : Store.deadline d ≠ some Int64.minValue) :
    (cmdSet now S (setCanonical k v d)).2.live now =
      (Write.set k v (Store.deadline d)).run now (S.live now) := by
  have hset : (cmdSet now S (setCanonical k v d)).2 = (S.get now k).2.set k v d :=
    cmdSet_of_deadline (setOptions_canonical h now) S _ k v
  rw [hset, Store.live_set, Store.live_get]

theorem live_cmdExpire_canonical {now : Int64} {S : Store} {k : Bytes} {d : Int64} {name c : Bytes}
    (h : d ≠ Int64.minValue) :
    (cmdExpire now S false true name [c, k, intToString d.toInt]).2.live now =
      (Write.expire k d).run now (S.live now) := by
  simp only [cmdExpire, toInt64_intToString h]
  exact Store.live_expireAt S now k d

/-- A canonical form is the write it stands for, whenever it is run. -/
theorem applySilently_canonical {cmd : Args} {w : Write Bytes Bytes Int64} (hc : Canonical cmd w)
    (h : writtenDeadline w ≠ some Int64.minValue) (amb : Ambient) (N : Node π ρ) :
    (applySilently table amb cmd N).store.live amb.now = w.run amb.now (N.store.live amb.now) := by
  cases hc with
  | set k v d =>
    rw [setCanonical, List.cons_append, store_applySilently,
      show commandName (str "SET") = some .set by decide]
    exact live_cmdSet_canonical h
  | del hc k ks =>
    rw [store_applySilently, hc]
    exact live_eraseAll (k :: ks) N.store
  | expire k d =>
    rw [store_applySilently, show commandName (str "PEXPIREAT") = some .pexpireat by decide]
    exact live_cmdExpire_canonical fun e => h (congrArg some e)
  | persist hc k =>
    rw [store_applySilently, hc]
    exact Store.live_persist N.store amb.now k
  | flush hc rest =>
    rw [store_applySilently, hc]
    exact Store.live_clear N.store amb.now

/-- A canonical form with the least deadline is refused. -/
theorem applySilently_unreadable {cmd : Args} {w : Write Bytes Bytes Int64} (hc : Canonical cmd w)
    (h : writtenDeadline w = some Int64.minValue) (amb : Ambient) (N : Node π ρ) :
    (applySilently table amb cmd N).store = N.store := by
  cases hc with
  | set k v d =>
    obtain rfl : d = Int64.minValue := Store.eq_of_deadline h
    rw [setCanonical, if_pos (by decide), List.cons_append, store_applySilently,
      show commandName (str "SET") = some .set by decide]
    exact cmdSet_of_error (setOptions_unreadable amb.now) N.store (str "SET") k v
  | expire k d =>
    obtain rfl : d = Int64.minValue := Option.some.inj h
    rw [store_applySilently, show commandName (str "PEXPIREAT") = some .pexpireat by decide]
    show (cmdExpire amb.now N.store false true _ _).2 = N.store
    simp only [cmdExpire, toInt64_intToString_minValue]
  | del _ _ _ => exact absurd h (by simp [writtenDeadline])
  | persist _ _ => exact absurd h (by simp [writtenDeadline])
  | flush _ _ => exact absurd h (by simp [writtenDeadline])

end

end RP
