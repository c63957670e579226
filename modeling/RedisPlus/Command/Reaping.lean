import RedisPlus.Command.Effect
import RedisPlus.Framework.Machine
import RedisPlus.Persistence.Basic
import RedisPlus.Replication.Fanout
import RedisPlus.Store.Index

/-!
# Active expiry is not observed

Two stores with the same live keys answer every operation the same, and have the same live keys
afterwards (`Store.Alike`, `AlikeResult`). So do two servers every command, apart from the order in
which KEYS lists what it found and from the statistics of INFO (`dispatch_alike`). Cycles of
active expiry between the commands, at any time and however the index of deadlines is laid out,
therefore change no result (`reaping_unobserved`).
-/

namespace RP

open Framework (Keyspace run collect collect_filter)

/-! ## Stores -/

/-- The same keys are live, and in both stores the index is in order. -/
structure Store.Alike (now : Int64) (S S' : Store) : Prop where
  live : S'.live now = S.live now
  left : S.Indexed
  right : S'.Indexed

/-- Two results that are the same and leave stores that are alike. -/
structure AlikeResult {α : Type} (now : Int64) (r r' : α × Store) : Prop where
  fst : r'.1 = r.1
  snd : Store.Alike now r.2 r'.2

namespace Store.Alike

variable {now : Int64} {S S' : Store}

theorem refl (now : Int64) (h : S.Indexed) : Alike now S S := ⟨rfl, h, h⟩

theorem mono {t : Int64} (h : Alike now S S') (hle : now ≤ t) : Alike t S S' :=
  ⟨Keyspace.live_congr hle h.live, h.left, h.right⟩

theorem get (h : Alike now S S') (k : Bytes) : AlikeResult now (S.get now k) (S'.get now k) where
  fst := by rw [get_fst, get_fst, h.live]
  snd := ⟨by rw [live_get, live_get, h.live], h.left.run now (.get k), h.right.run now (.get k)⟩

theorem contains (h : Alike now S S') (k : Bytes) : AlikeResult now (S.contains now k) (S'.contains now k) where
  fst := congrArg Option.isSome (h.get k).fst
  snd := (h.get k).snd

theorem pttl (h : Alike now S S') (k : Bytes) : AlikeResult now (S.pttl now k) (S'.pttl now k) where
  fst := by rw [pttl_fst, pttl_fst, h.live]
  snd := ⟨by rw [live_pttl, live_pttl, h.live], h.left.run now (.pttl k), h.right.run now (.pttl k)⟩

theorem set (h : Alike now S S') (k v : Bytes) (d : Int64) : Alike now (S.set k v d) (S'.set k v d) :=
  ⟨by rw [live_set, live_set, h.live], h.left.run now (.set k v d), h.right.run now (.set k v d)⟩

theorem erase (h : Alike now S S') (k : Bytes) : AlikeResult now (S.erase now k) (S'.erase now k) where
  fst := by rw [erase_fst, erase_fst, h.live]
  snd := ⟨by rw [live_erase, live_erase, h.live], h.left.run now (.erase k), h.right.run now (.erase k)⟩

theorem expireAt (h : Alike now S S') (k : Bytes) (d : Int64) :
    AlikeResult now (S.expireAt now k d) (S'.expireAt now k d) where
  fst := by rw [expireAt_fst, expireAt_fst, h.live]
  snd := ⟨by rw [live_expireAt, live_expireAt, h.live], h.left.run now (.expireAt k d),
    h.right.run now (.expireAt k d)⟩

theorem persist (h : Alike now S S') (k : Bytes) : AlikeResult now (S.persist now k) (S'.persist now k) where
  fst := by rw [persist_fst, persist_fst, h.live]
  snd := ⟨by rw [live_persist, live_persist, h.live], h.left.run now (.persist k), h.right.run now (.persist k)⟩

theorem keys (h : Alike now S S') (pattern : Bytes) :
    (S'.keys now pattern).1.Perm (S.keys now pattern).1 ∧
      Alike now (S.keys now pattern).2 (S'.keys now pattern).2 := by
  refine ⟨?_, by rw [live_keys, live_keys, h.live], h.left.run now (.keys pattern),
    h.right.run now (.keys pattern)⟩
  rw [keys_fst, keys_fst]
  exact (liveKeys_perm h.live).filter _

theorem size (h : Alike now S S') : S'.size now = S.size now := by
  rw [h.left.size_eq, h.right.size_eq, (liveKeys_perm h.live).length_eq]

theorem clear (h : Alike now S S') : Alike now S.clear S'.clear :=
  ⟨by rw [live_clear, live_clear, h.live], h.left.run now .clear, h.right.run now .clear⟩

end Store.Alike

/-! ## Commands on the store -/

section

variable {now : Int64} {S S' : Store}

theorem cmdGet_agree (h : Store.Alike now S S') : ∀ a, AlikeResult now (cmdGet now S a) (cmdGet now S' a)
  | [_, key] => ⟨congrArg bulkOrNull (h.get key).fst, (h.get key).snd⟩
  | [] | [_] | _ :: _ :: _ :: _ => ⟨rfl, h⟩

theorem countExisting_agree : ∀ (ks : List Bytes) {S S' : Store}, Store.Alike now S S' →
    AlikeResult now (countExisting now ks S) (countExisting now ks S')
  | [], _, _, h => ⟨rfl, h⟩
  | k :: ks, S, S', h => by
    have hk := h.contains k
    have hks := countExisting_agree ks hk.snd
    refine ⟨?_, hks.snd⟩
    simp only [countExisting, hk.fst, hks.fst]

theorem cmdExists_agree (h : Store.Alike now S S') :
    ∀ a, AlikeResult now (cmdExists now S a) (cmdExists now S' a)
  | _ :: key :: keys => by
    have hks := countExisting_agree (key :: keys) h
    refine ⟨?_, hks.snd⟩
    simp only [cmdExists, hks.fst]
  | [] | [_] => ⟨rfl, h⟩

theorem cmdType_agree (h : Store.Alike now S S') :
    ∀ a, AlikeResult now (cmdType now S a) (cmdType now S' a)
  | [_, key] => by
    refine ⟨?_, (h.contains key).snd⟩
    simp only [cmdType, (h.contains key).fst]
  | [] | [_] | _ :: _ :: _ :: _ => ⟨rfl, h⟩

theorem cmdTtl_agree (h : Store.Alike now S S') (seconds : Bool) (name : Bytes) :
    ∀ a, AlikeResult now (cmdTtl now S seconds name a) (cmdTtl now S' seconds name a)
  | [_, key] => by
    have hms := h.pttl key
    simp only [cmdTtl, hms.fst]
    split
    · exact ⟨rfl, hms.snd⟩
    · exact ⟨rfl, hms.snd⟩
  | [] | [_] | _ :: _ :: _ :: _ => ⟨rfl, h⟩

theorem cmdSet_agree (h : Store.Alike now S S') : ∀ a, AlikeResult now (cmdSet now S a) (cmdSet now S' a)
  | _ :: key :: value :: rest => by
    have hprevious := h.get key
    have hremaining := hprevious.snd.pttl key
    cases ho : setOptions now {} rest with
    | error e =>
      simp only [cmdSet, ho]
      exact ⟨rfl, h⟩
    | ok o =>
      simp only [cmdSet, ho, hprevious.fst]
      split
      · exact ⟨rfl, hprevious.snd⟩
      by_cases hkeep : o.keepttl = true
      · simp only [if_pos hkeep, hremaining.fst]
        exact ⟨rfl, hremaining.snd.set _ _ _⟩
      · simp only [if_neg hkeep]
        exact ⟨rfl, hprevious.snd.set _ _ _⟩
  | [] | [_] | [_, _] => ⟨rfl, h⟩

theorem eraseAll_agree : ∀ (ks : List Bytes) {S S' : Store}, Store.Alike now S S' →
    AlikeResult now (eraseAll now ks S) (eraseAll now ks S')
  | [], _, _, h => ⟨rfl, h⟩
  | k :: ks, S, S', h => by
    have hk := h.erase k
    have hks := eraseAll_agree ks hk.snd
    refine ⟨?_, hks.snd⟩
    simp only [eraseAll, hk.fst, hks.fst]

theorem cmdDel_agree (h : Store.Alike now S S') : ∀ a, AlikeResult now (cmdDel now S a) (cmdDel now S' a)
  | _ :: key :: keys => by
    have hks := eraseAll_agree (key :: keys) h
    refine ⟨?_, hks.snd⟩
    simp only [cmdDel, hks.fst]
  | [] | [_] => ⟨rfl, h⟩

theorem cmdExpire_agree (h : Store.Alike now S S') (seconds absolute : Bool) (name : Bytes) :
    ∀ a, AlikeResult now (cmdExpire now S seconds absolute name a) (cmdExpire now S' seconds absolute name a)
  | [_, key, time] => by
    simp only [cmdExpire]
    cases toInt64 time with
    | none => exact ⟨rfl, h⟩
    | some n =>
      simp only
      cases expireDeadline now n seconds absolute with
      | none => exact ⟨rfl, h⟩
      | some deadline =>
        have happlied := h.expireAt key deadline
        refine ⟨?_, happlied.snd⟩
        simp only [happlied.fst]
  | [] | [_] | [_, _] | _ :: _ :: _ :: _ :: _ => ⟨rfl, h⟩

theorem cmdPersist_agree (h : Store.Alike now S S') :
    ∀ a, AlikeResult now (cmdPersist now S a) (cmdPersist now S' a)
  | [_, key] => by
    refine ⟨?_, (h.persist key).snd⟩
    simp only [cmdPersist, (h.persist key).fst]
  | [] | [_] | _ :: _ :: _ :: _ => ⟨rfl, h⟩

theorem cmdFlushall_agree (h : Store.Alike now S S') (a : Args) :
    AlikeResult now (cmdFlushall S a) (cmdFlushall S' a) := ⟨rfl, h.clear⟩

theorem cmdDbsize_congr (h : Store.Alike now S S') (a : Args) : cmdDbsize now S' a = cmdDbsize now S a := by
  unfold cmdDbsize
  split
  · rw [h.size]
  · rfl

end

/-! ## Persistence and replication

What the commands are answered does not depend on the contents of the store. -/

/-- What the answers of persistence depend on. -/
structure Persistence.Alike (p p' : Persistence) : Prop where
  config : p'.config = p.config
  saving : p'.saving = p.saving
  isOpen : p'.aof.isOpen = p.aof.isOpen

/-- What the answers of replication depend on. -/
structure Net.Alike (R R' : Net) : Prop where
  attached : R'.repl.attached = R.repl.attached
  port : R'.repl.replicaOfPort = R.repl.replicaOfPort

theorem Persistence.Alike.refl (p : Persistence) : Persistence.Alike p p := ⟨rfl, rfl, rfl⟩

theorem Net.Alike.refl (R : Net) : Net.Alike R R := ⟨rfl, rfl⟩

theorem Net.Alike.trans {R R' R'' : Net} (h : Net.Alike R R') (h' : Net.Alike R' R'') : Net.Alike R R'' :=
  ⟨h'.attached.trans h.attached, h'.port.trans h.port⟩

theorem Net.Alike.symm {R R' : Net} (h : Net.Alike R R') : Net.Alike R' R := ⟨h.attached.symm, h.port.symm⟩

/-- An operation of persistence that gives states that are alike the same answer, and leaves them
alike. -/
def Blind (op : Store → Persistence → Except Bytes Unit × Persistence) : Prop :=
  ∀ (S S' : Store) {p p' : Persistence}, Persistence.Alike p p' →
    (op S' p').1 = (op S p).1 ∧ Persistence.Alike (op S p).2 (op S' p').2

theorem open_fst (room : Nat) (opens : Bool) (path : Bytes) (policy : FsyncPolicy) (a : Aof) :
    (a.open room opens path policy).1 =
      if opens then .ok () else .error (str "cannot open AOF " ++ path ++ str " for appending") := by
  unfold Aof.open
  cases opens <;> rfl

theorem isOpen_open (room : Nat) (opens : Bool) (path : Bytes) (policy : FsyncPolicy) (a : Aof) :
    (a.open room opens path policy).2.isOpen = opens := by
  unfold Aof.open
  cases opens with
  | true => rfl
  | false => exact Aof.isOpen_close room a

theorem rewrite_alike {a a' : Aof} (h : a'.isOpen = a.isOpen) (room : Nat) (io : Aof.RewriteIo)
    (path : Bytes) (rs rs' : List Record) :
    (a'.rewrite room io path rs').1 = (a.rewrite room io path rs).1 ∧
      (a'.rewrite room io path rs').2.isOpen = (a.rewrite room io path rs).2.isOpen := by
  unfold Aof.rewrite
  split
  · exact ⟨rfl, h⟩
  split
  · exact ⟨rfl, h⟩
  dsimp only
  rw [h]
  split
  · refine ⟨rfl, ?_⟩
    split
    · rw [isOpen_open, isOpen_open]
    · split
      · rw [Aof.isOpen_close, Aof.isOpen_close]
      · rw [Aof.isOpen_close, Aof.isOpen_close]
  · split
    · exact ⟨by rw [open_fst, open_fst], by rw [isOpen_open, isOpen_open]⟩
    · exact ⟨rfl, by rw [Aof.isOpen_close, Aof.isOpen_close]⟩

theorem blind_save (now : Int64) (written : Except Bytes Unit) :
    Blind fun _ p => p.save now written := by
  intro _ _ p p' h
  dsimp only
  unfold Persistence.save
  rw [h.config]
  split
  · exact ⟨rfl, h⟩
  split
  · exact ⟨rfl, rfl, h.saving, h.isOpen⟩
  · exact ⟨rfl, rfl, h.saving, h.isOpen⟩

theorem blind_backgroundSave (now : Int64) :
    Blind fun S p => p.backgroundSave now (S.snapshot now) := by
  intro _ _ p p' h
  dsimp only
  unfold Persistence.backgroundSave
  rw [h.config, h.saving]
  split
  · exact ⟨rfl, h⟩
  split
  · exact ⟨rfl, h⟩
  · exact ⟨rfl, rfl, rfl, h.isOpen⟩

theorem blind_rewriteAof (now : Int64) (room : Nat) (io : Aof.RewriteIo) :
    Blind fun S p => p.rewriteAof room io (S.snapshot now) := by
  intro S S' p p' h
  dsimp only
  unfold Persistence.rewriteAof
  rw [h.config]
  split
  · exact ⟨rfl, h⟩
  · have ⟨hfst, hopen⟩ := rewrite_alike h.isOpen room io p.config.aofPath (S.snapshot now) (S'.snapshot now)
    exact ⟨hfst, rfl, h.saving, hopen⟩

/-- Sending, and being closed for it, is nothing to the server's own role. -/
theorem Net.alike_send (cfg : ServerConfig) (link : ClientLink) (data : Bytes) (R : Net) :
    Net.Alike R (R.send cfg link data) := by
  unfold Net.send Net.doClose
  split
  · exact .refl R
  · dsimp only
    split
    · split
      · exact ⟨rfl, rfl⟩
      · exact ⟨rfl, rfl⟩
    · exact ⟨rfl, rfl⟩

theorem Net.alike_startFullResync (cfg : ServerConfig) (now : Int64) (S : Store) (link : Option ClientLink)
    (R : Net) : Net.Alike R (R.startFullResync cfg now S link) := by
  cases link with
  | none => exact .refl R
  | some link =>
    have hpush (R' : Net) : Net.Alike R' (R'.pushReplica link) := ⟨rfl, rfl⟩
    exact ((alike_send cfg link _ R).trans (alike_send cfg link _ _)).trans
      ((alike_send cfg link _ _).trans (hpush _))

/-! ## Dispatch -/

/-- The pointers of the server's command table. -/
structure Setup where
  persistence : Bool := false
  replication : Option ServerConfig := none

/-- A dispatch: what it reads from outside, how the system answers it, and the request. -/
structure Call where
  amb : Ambient
  written : Except Bytes Unit := .ok ()
  room : Nat := 0
  io : Aof.RewriteIo := {}
  link : Option ClientLink := none
  args : Args

/-- The command table that a call meets. -/
def Setup.table (setup : Setup) (c : Call) : CommandTable Persistence Net where
  persistence :=
    if setup.persistence then some (Persistence.ops c.amb.now c.written c.room c.io) else none
  replication := setup.replication.map fun cfg => Net.ops cfg c.amb.now

/-- Two nodes that differ in expired keys, in counters of them, and in statistics only. -/
structure Node.Alike (now : Int64) (N N' : Node Persistence Net) : Prop where
  store : Store.Alike now N.store N'.store
  pers : Persistence.Alike N.pers N'.pers
  repl : Net.Alike N.repl N'.repl

theorem Node.Alike.mono {now t : Int64} {N N' : Node Persistence Net} (h : Node.Alike now N N')
    (hle : now ≤ t) : Node.Alike t N N' := ⟨h.store.mono hle, h.pers, h.repl⟩

/-- KEYS's reply. -/
def keysReply (found : List Bytes) : Bytes := Reply.arrayHeader found.length ++ found.flatMap Reply.bulk

/-- The same reply; for KEYS the same keys in any order, and for INFO anything. -/
def SameReply (name : Option CommandName) (r r' : Bytes) : Prop :=
  match name with
  | some .info => True
  | some .keys => r' = r ∨ ∃ found found', found'.Perm found ∧ r = keysReply found ∧ r' = keysReply found'
  | _ => r' = r

theorem SameReply.of_eq {name : Option CommandName} {r r' : Bytes} (h : r' = r) : SameReply name r r' := by
  unfold SameReply
  split
  · trivial
  · exact .inl h
  · exact h

/-- Two results of one command. -/
structure SameResult (name : Option CommandName) (r r' : CommandResult) : Prop where
  reply : SameReply name r.reply r'.reply
  dirty : r'.dirty = r.dirty
  propagate : r'.propagate = r.propagate

theorem SameResult.of_eq {name : Option CommandName} {r r' : CommandResult} (h : r' = r) :
    SameResult name r r' := by
  subst h
  exact ⟨.of_eq rfl, rfl, rfl⟩

/-- What two servers that are alike make of a command. -/
structure AlikeOutcome (now : Int64) (name : Option CommandName)
    (x x' : CommandResult × Node Persistence Net) : Prop where
  result : SameResult name x.1 x'.1
  node : Node.Alike now x.2 x'.2

section

variable {now : Int64} {name : Option CommandName} {N N' : Node Persistence Net}

theorem alikeOutcome_writes (h : Node.Alike now N N') {r r' : CommandResult × Store}
    (hr : AlikeResult now r r') :
    AlikeOutcome now name (N.writes r) (N'.writes r') :=
  ⟨.of_eq hr.fst, hr.snd, h.pers, h.repl⟩

theorem alikeOutcome_reads (h : Node.Alike now N N') {r r' : Bytes × Store} (hr : AlikeResult now r r') :
    AlikeOutcome now name (N.reads r) (N'.reads r') :=
  ⟨.of_eq (congrArg (CommandResult.mk · false []) hr.fst), hr.snd, h.pers, h.repl⟩

theorem alikeOutcome_reply (h : Node.Alike now N N') {r r' : CommandResult} (hr : r' = r) :
    AlikeOutcome now name (r, N) (r', N') := ⟨.of_eq hr, h⟩

theorem alikeOutcome_info (h : Node.Alike now N N') (r r' : Bytes) :
    AlikeOutcome now (some .info) ({ reply := r }, N) ({ reply := r' }, N') := ⟨⟨trivial, rfl, rfl⟩, h⟩

theorem cmdKeys_outcome (h : Node.Alike now N N') : ∀ a,
    AlikeOutcome now (some .keys) (N.reads (cmdKeys now N.store a)) (N'.reads (cmdKeys now N'.store a))
  | [_, pattern] => by
    obtain ⟨hperm, hS⟩ := h.store.keys pattern
    exact ⟨⟨.inr ⟨_, _, hperm, rfl, rfl⟩, rfl, rfl⟩, hS, h.pers, h.repl⟩
  | [] | [_] | _ :: _ :: _ :: _ => ⟨.of_eq rfl, h⟩

theorem cmdPersistence_outcome (h : Node.Alike now N N') {table : CommandTable Persistence Net}
    (op : PersistenceOps Persistence → Store → Persistence → Except Bytes Unit × Persistence)
    (hop : ∀ ops ∈ table.persistence, Blind (op ops)) (started : Bytes) :
    AlikeOutcome now name (cmdPersistence table op started N) (cmdPersistence table op started N') := by
  unfold cmdPersistence
  cases hops : table.persistence with
  | none => exact alikeOutcome_reply h rfl
  | some ops =>
    obtain ⟨hfst, hpers⟩ := hop ops hops N.store N'.store h.pers
    simp only
    generalize op ops N.store N.pers = x at hfst hpers ⊢
    generalize op ops N'.store N'.pers = x' at hfst hpers ⊢
    obtain ⟨r, p⟩ := x
    obtain ⟨r', p'⟩ := x'
    obtain rfl : r' = r := hfst
    cases r' with
    | ok u => exact ⟨.of_eq rfl, h.store, hpers, h.repl⟩
    | error e => exact ⟨.of_eq rfl, h.store, hpers, h.repl⟩

variable {setup : Setup} {c : Call}

theorem cmdReplconf_outcome (h : Node.Alike now N N') (link : Option ClientLink) (args : Args) :
    AlikeOutcome now name (cmdReplconf (setup.table c) link args N)
      (cmdReplconf (setup.table c) link args N') := by
  obtain ⟨persistence, replication⟩ := setup
  cases replication with
  | none => exact alikeOutcome_reply h rfl
  | some cfg =>
    rcases args with _ | ⟨_, _ | ⟨sub, _ | ⟨value, rest⟩⟩⟩
    · exact alikeOutcome_reply h rfl
    · exact alikeOutcome_reply h rfl
    · exact alikeOutcome_reply h rfl
    simp only [cmdReplconf, Setup.table, Option.map_some]
    split
    · exact ⟨.of_eq rfl, h.store, h.pers, h.repl.attached, h.repl.port⟩
    split
    · split
      · split
        · exact ⟨.of_eq rfl, h.store, h.pers, h.repl.attached, h.repl.port⟩
        · exact alikeOutcome_reply h rfl
      · exact alikeOutcome_reply h rfl
    · exact alikeOutcome_reply h rfl

theorem cmdPsync_outcome (h : Node.Alike now N N') (link : Option ClientLink) :
    AlikeOutcome now name (cmdPsync (setup.table c) link N) (cmdPsync (setup.table c) link N') := by
  obtain ⟨persistence, replication⟩ := setup
  cases replication with
  | none => exact alikeOutcome_reply h rfl
  | some cfg =>
    refine ⟨.of_eq rfl, h.store, h.pers, ?_⟩
    exact ((Net.alike_startFullResync cfg _ _ link _).symm.trans h.repl).trans
      (Net.alike_startFullResync cfg _ _ link _)

theorem cmdReplicaof_outcome (h : Node.Alike now N N') (args : Args) :
    AlikeOutcome now name (cmdReplicaof (setup.table c) args N)
      (cmdReplicaof (setup.table c) args N') := by
  obtain ⟨persistence, replication⟩ := setup
  unfold cmdReplicaof
  split
  · cases replication with
    | none => exact alikeOutcome_reply h rfl
    | some cfg =>
      simp only [Setup.table, Option.map_some]
      split
      · exact ⟨.of_eq rfl, h.store, h.pers, h.repl.attached, rfl⟩
      split
      · exact alikeOutcome_reply h rfl
      split
      · exact alikeOutcome_reply h rfl
      · simp only [Net.ops, Replication.replicaof, h.repl.attached]
        cases N.repl.repl.attached with
        | true => exact ⟨.of_eq rfl, h.store, h.pers, h.repl.attached, rfl⟩
        | false => exact ⟨.of_eq rfl, h.store, h.pers, h.repl.attached, h.repl.port⟩
  · exact alikeOutcome_reply h rfl

theorem runCommand_outcome (setup : Setup) (h : Node.Alike c.amb.now N N')
    (name : Option CommandName) (args : Args) :
    AlikeOutcome c.amb.now name (runCommand (setup.table c) c.amb name c.link args N)
      (runCommand (setup.table c) c.amb name c.link args N') := by
  have hops {P : PersistenceOps Persistence → Prop}
      (hP : P (Persistence.ops c.amb.now c.written c.room c.io)) :
      ∀ ops ∈ (setup.table c).persistence, P ops := by
    intro ops hmem
    simp only [Setup.table] at hmem
    split at hmem
    · obtain rfl := Option.some.inj hmem
      exact hP
    · cases hmem
  cases name with
  | none => exact alikeOutcome_reply h rfl
  | some name =>
    cases name with
    | replconf => exact cmdReplconf_outcome h c.link args
    | psync => exact cmdPsync_outcome h c.link
    | replicaof => exact cmdReplicaof_outcome h args
    | set => exact alikeOutcome_writes h (cmdSet_agree h.store args)
    | get => exact alikeOutcome_reads h (cmdGet_agree h.store args)
    | del => exact alikeOutcome_writes h (cmdDel_agree h.store args)
    | exists' => exact alikeOutcome_reads h (cmdExists_agree h.store args)
    | type => exact alikeOutcome_reads h (cmdType_agree h.store args)
    | keys => exact cmdKeys_outcome h args
    | expire => exact alikeOutcome_writes h (cmdExpire_agree h.store _ _ _ args)
    | pexpire => exact alikeOutcome_writes h (cmdExpire_agree h.store _ _ _ args)
    | expireat => exact alikeOutcome_writes h (cmdExpire_agree h.store _ _ _ args)
    | pexpireat => exact alikeOutcome_writes h (cmdExpire_agree h.store _ _ _ args)
    | ttl => exact alikeOutcome_reads h (cmdTtl_agree h.store _ _ args)
    | pttl => exact alikeOutcome_reads h (cmdTtl_agree h.store _ _ args)
    | persist => exact alikeOutcome_writes h (cmdPersist_agree h.store args)
    | dbsize => exact alikeOutcome_reply h (by rw [cmdDbsize_congr h.store])
    | flushall => exact alikeOutcome_writes h (cmdFlushall_agree h.store args)
    | save => exact cmdPersistence_outcome h _ (hops (blind_save _ _)) _
    | bgsave => exact cmdPersistence_outcome h _ (hops (blind_backgroundSave _)) _
    | bgrewriteaof => exact cmdPersistence_outcome h _ (hops (blind_rewriteAof _ _ _)) _
    | info => exact alikeOutcome_info h _ _
    | _ => exact alikeOutcome_reply h rfl

/-- A command that says nothing to propagate is propagated as it came. -/
theorem SameResult.canonical {r r' : CommandResult} (h : SameResult name r r') (args : Args) :
    SameResult name (if r.dirty ∧ r.propagate = [] then { r with propagate := args } else r)
      (if r'.dirty ∧ r'.propagate = [] then { r' with propagate := args } else r') := by
  rw [h.dirty, h.propagate]
  split
  · exact ⟨h.reply, rfl, rfl⟩
  · exact h

theorem dispatch_alike (setup : Setup) (h : Node.Alike c.amb.now N N') :
    AlikeOutcome c.amb.now (c.args.head?.bind commandName)
      (dispatch (setup.table c) c.amb c.link c.args N) (dispatch (setup.table c) c.amb c.link c.args N') := by
  have hrole : ((setup.table c).replication.any fun ops => ops.isReplica N'.repl) =
      (setup.table c).replication.any fun ops => ops.isReplica N.repl := by
    simp only [Setup.table, Option.any_map]
    congr 1
    funext cfg
    simp only [Net.ops, Replication.isReplica, h.repl.port]
  unfold dispatch
  cases c.args with
  | nil => exact alikeOutcome_reply h rfl
  | cons arg rest =>
    dsimp only
    rw [hrole]
    split
    · exact alikeOutcome_reply h rfl
    · have hrun := runCommand_outcome setup h (commandName arg) (arg :: rest)
      exact ⟨hrun.result.canonical _, hrun.node⟩

end

/-! ## Runs -/

namespace Reaping

/-- A command, or upkeep of the store: a cycle of active expiry, for an index laid out in these
buckets, and `reap_expired`. -/
inductive Event where
  | call (c : Call)
  | cycle (now : Int64) (layout : Table Int64 → List (List Bytes)) (cfg : ExpiryConfig)
  | reap (now : Int64) (limit : Nat)

/-- What the clock reads. -/
def Event.time : Event → Int64
  | .call c => c.amb.now
  | .cycle now _ _ => now
  | .reap now _ => now

/-- Is this not a command? -/
def Event.upkeep : Event → Bool
  | .call _ => false
  | _ => true

variable (setup : Setup)

/-- A command, or a removal of expired keys. -/
def step (e : Event) (N : Node Persistence Net) : Node Persistence Net :=
  match e with
  | .call c => (dispatch (setup.table c) c.amb c.link c.args N).2
  | .cycle now layout cfg => { N with store := (N.store.activeExpireCycle layout cfg now).2 }
  | .reap now limit => { N with store := (N.store.reapExpired limit now).2 }

/-- A command's arguments and its result. -/
def answer (e : Event) (N : Node Persistence Net) : List (Args × CommandResult) :=
  match e with
  | .call c => [(c.args, (dispatch (setup.table c) c.amb c.link c.args N).1)]
  | _ => []

/-- The commands of a run with their results, in order. -/
def answers : List Event → Node Persistence Net → List (Args × CommandResult) :=
  collect (step setup) (answer setup)

/-- The same command with the same result. -/
def SameAnswer (x x' : Args × CommandResult) : Prop :=
  x'.1 = x.1 ∧ SameResult (x.1.head?.bind commandName) x.2 x'.2

theorem upkeep_alike {e : Event} (he : e.upkeep = true) {N N' : Node Persistence Net}
    (h : Node.Alike e.time N N') :
    answer setup e N = [] ∧ Node.Alike e.time (step setup e N) N' := by
  cases e with
  | call c => cases he
  | cycle now layout cfg =>
    refine ⟨rfl, ⟨?_, h.store.left.run now (.activeExpireCycle layout cfg), h.store.right⟩, h.pers, h.repl⟩
    exact h.store.live.trans (Store.live_activeExpireCycle layout cfg now N.store).symm
  | reap now limit =>
    refine ⟨rfl, ⟨?_, h.store.left.run now (.reapExpired limit), h.store.right⟩, h.pers, h.repl⟩
    exact h.store.live.trans (Store.live_reapExpired limit now N.store).symm

/-- Whatever upkeep comes between the commands, at non-decreasing times, it changes the result of
none of them. -/
theorem reaping_unobserved {N : Node Persistence Net} (hN : N.store.Indexed) {es : List Event}
    (htime : es.Pairwise fun e e' => e.time ≤ e'.time) :
    List.Forall₂ SameAnswer (answers setup es N) (answers setup (es.filter fun e => !e.upkeep) N) := by
  refine collect_filter (R := Node.Alike) (t := Int64.minValue) ?_ ?_ ?_ ?_ htime ?_
  · exact fun t u N N' hle h => h.mono hle
  · intro e N N' he h
    cases e with
    | call c =>
      have hd := dispatch_alike setup h
      exact ⟨.cons ⟨rfl, hd.result⟩ .nil, hd.node⟩
    | cycle => cases he
    | reap => cases he
  · exact fun e N N' he h => upkeep_alike setup he h
  · exact fun e _ => Int64.minValue_le e.time
  · exact ⟨.refl _ hN, .refl _, .refl _⟩

/-- A key that expires, and is reaped in either way before it is asked for. -/
def expiring : List Event :=
  [.call { amb := ⟨0, []⟩, args := [str "SET", str "k", str "v", str "PX", str "100"] },
    .cycle 50 (fun index => [index.keys]) {}, .cycle 100 (fun index => [index.keys]) {}, .reap 150 10,
    .call { amb := ⟨200, []⟩, args := [str "GET", str "k"] },
    .call { amb := ⟨200, []⟩, args := [str "DBSIZE"] }]

theorem expiring_unobserved :
    expiring.Pairwise (fun e e' => e.time ≤ e'.time) ∧
      List.Forall₂ SameAnswer (answers {} expiring ⟨{}, {}, { repl := { replid := Net.zeroReplid } }⟩)
        (answers {} (expiring.filter fun e => !e.upkeep) ⟨{}, {}, { repl := { replid := Net.zeroReplid } }⟩) :=
  ⟨by decide, reaping_unobserved {} Store.indexed_empty (by decide)⟩

end Reaping

end RP
