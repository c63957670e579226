import RedisPlus.Command.Operations
import RedisPlus.Persistence.Phases
import RedisPlus.Persistence.Rewrite
import RedisPlus.Server.Durability

/-!
# Restarts with the log

A process serves requests and runs its cron, shuts down, and the next one boots from the log it has left:
`Process` goes through any number of lives. In between BGREWRITEAOF or the cron may replace the log, and
expiry cycles remove keys without a record of it.

The log stands for the keyspace at every time `u` at which it may be read: replaying it then gives what is
live then (`Inv.logs`). A request keeps this if what it logs is in time for each such `u`
(`Inv.request`), and a rewrite establishes it anew, whatever was logged before (`replayed_snapshot`). So a
restart changes nothing that is live (`restarts_keep`).
-/

namespace RP

open Framework (Along run Keyspace Write)
open Durability (Surroundings)
open Persistence (SameAof)

/-! ## Shutting down and booting -/

namespace Persistence

/-- `Persistence::shutdown`: the saver is waited for, and the log closed. -/
def shutdown (room : Nat) (p : Persistence) : Persistence :=
  { p with saving := false, saver := none, aof := p.aof.close room }

/-- `Persistence::Persistence`, where the log's file holds `data`. -/
def start (now : Int64) (config : PersistenceConfig) (data : Option Bytes) : Persistence :=
  { boot config data with lastSaveMs := now }

end Persistence

/-- A node, the time of the last event, and whether the last boot went well. -/
structure Process (ρ : Type) where
  node : Node Persistence ρ
  clock : Int64
  up : Bool := true

/-- What a boot meets: the time, how the system answers, the snapshot file, and what replication starts
with. -/
structure Boot (ρ : Type) where
  now : Int64
  room : Nat := 0
  opens : Bool := true
  rounds : Nat := 0
  rdbFile : Option Bytes := none
  repl : ρ

namespace Process

variable {ρ : Type}

/-- `main` up to where it serves. The handler that loads has neither persistence nor replication yet. -/
def boot (config : PersistenceConfig) (data : Option Bytes) (b : Boot ρ) : Process ρ :=
  let p := Persistence.start b.now config data
  let failed : Process ρ := { node := ⟨{}, p, b.repl⟩, clock := b.now, up := false }
  match p.load {} ⟨b.now, []⟩ b.rounds b.room b.opens b.rdbFile bareNode with
  | none => failed
  | some L =>
    match L.result with
    | .error _ => failed
    | .ok _ => { node := ⟨L.node.store, L.pers, b.repl⟩, clock := b.now }

/-- The handler: the reply goes to the connection, and a write to persistence and to replication. -/
def host (m : Surroundings ρ) (link : ClientLink) : Host (Node Persistence ρ) where
  dispatch := dispatch m.table m.amb (some link)
  reply _ N := N
  propagate args N := { N with pers := N.pers.onWrite args, repl := m.stream args N.repl }

/-- What happens to a process. -/
inductive Event (ρ : Type) where
  | request (m : Surroundings ρ) (link : ClientLink) (args : Args)
  | cron (layout : Table Int64 → List (List Bytes)) (expiry : ExpiryConfig) (now : Int64) (room : Nat)
    (io : Aof.RewriteIo)
  | saverDone (written : Except Bytes Unit)
  | restart (room : Nat) (b : Boot ρ)

/-- An event; the cron runs an expiry cycle first. -/
def step (e : Event ρ) (P : Process ρ) : Process ρ :=
  match e with
  | .request m link args => { P with node := handleRequest (host m link) args P.node, clock := m.amb.now }
  | .cron layout expiry now room io =>
    let store := (P.node.store.activeExpireCycle layout expiry now).2
    { P with
      node := { P.node with store, pers := P.node.pers.cron now room io (store.snapshot now) }
      clock := now }
  | .saverDone written => { P with node := { P.node with pers := P.node.pers.saverDone written } }
  | .restart room b =>
    let p := P.node.pers.shutdown room
    boot p.config p.aof.data b

end Process

/-! ## The log through the operations of persistence -/

/-- A rewrite that gets as far as closing the old log goes through. -/
def Aof.RewriteIo.Whole (io : RewriteIo) : Prop :=
  io.opens = true → io.writes = true → io.renames = true ∧ io.reopens = true

instance (io : Aof.RewriteIo) : Decidable io.Whole :=
  inferInstanceAs (Decidable (io.opens = true → io.writes = true → io.renames = true ∧ io.reopens = true))

/-- The commands of a rewritten log. -/
def recordCommands (records : List Record) : List Args :=
  records.map fun r => setCanonical r.key r.value r.expireAt

namespace Logs

variable {log : List Args} {p p' : Persistence}

theorem of_sameAof (h : Logs log p) (hs : SameAof p p') : Logs log p' :=
  ⟨h.toHolds.of_sameAof hs, h.loggable⟩

/-- A rewrite leaves the log as it is, or makes it one of the records. -/
theorem rewriteAof (h : Logs log p) (room : Nat) {io : Aof.RewriteIo} (hio : io.Whole) {records : List Record}
    (hrecords : ∀ args ∈ recordCommands records, Loggable args) :
    Logs log (p.rewriteAof room io records).2 ∨
      Logs (recordCommands records) (p.rewriteAof room io records).2 := by
  rw [Persistence.rewriteAof, if_neg (not_not.mpr h.enabled)]
  dsimp only
  unfold Aof.rewrite
  by_cases hopens : io.opens = true
  · by_cases hwrites : io.writes = true
    · obtain ⟨hrenames, hreopens⟩ := hio hopens hwrites
      refine .inr ?_
      rw [if_neg (by simp [hopens]), if_neg (by simp [hwrites])]
      dsimp only
      rw [if_neg (by simp [hrenames]), if_pos h.isOpen, Aof.open, if_pos hreopens]
      have hclosed := Aof.isOpen_close room p.aof
      generalize Aof.close room p.aof = a at hclosed ⊢
      refine ⟨⟨h.enabled, rfl, rfl, ?_⟩, hrecords⟩
      simp [Aof.contents, Aof.close, hclosed, Aof.rewritten_eq_encs, recordCommands]
    · exact .inl (by rw [if_neg (by simp [hopens]), if_pos (by simp [hwrites])]; exact h)
  · exact .inl (by rw [if_pos (by simp [hopens])]; exact h)

theorem cronAof (h : Logs log p) {now : Int64} {room : Nat} (hroom : p.aof.buffer.length ≤ room)
    {io : Aof.RewriteIo} (hio : io.Whole) {records : List Record}
    (hrecords : ∀ args ∈ recordCommands records, Loggable args) :
    Logs log (p.cronAof now room io records) ∨
      Logs (recordCommands records) (p.cronAof now room io records) := by
  have hflush : Logs log (p.flushAof now room) := ⟨h.toHolds.flushAof hroom now, h.loggable⟩
  rw [Persistence.cronAof_eq h.enabled]
  split
  · exact (hflush.rewriteAof room hio hrecords).imp (of_sameAof · (Persistence.sameAof_keepError _))
      (of_sameAof · (Persistence.sameAof_keepError _))
  · exact .inl hflush

theorem cron (h : Logs log p) {now : Int64} {room : Nat} (hroom : p.aof.buffer.length ≤ room)
    {io : Aof.RewriteIo} (hio : io.Whole) {records : List Record}
    (hrecords : ∀ args ∈ recordCommands records, Loggable args) :
    Logs log (p.cron now room io records) ∨ Logs (recordCommands records) (p.cron now room io records) :=
  have hsame := p.sameAof_cron now room io records
  (h.cronAof hroom hio hrecords).imp (of_sameAof · hsame) (of_sameAof · hsame)

end Logs

theorem replay_encs {log : List Args} (hlog : ∀ args ∈ log, Loggable args) :
    Aof.replay (some (encs log)) = ⟨log, .ok 0⟩ := by
  refine (Aof.replay_drains (commandCode.drains_all fun args h => (hlog args h).toWithin)).trans ?_
  rw [dispatched_loggable hlog]
  rfl

/-- A boot on a whole log applies it, and goes on with it. -/
theorem Process.boot_log {ρ : Type} {config : PersistenceConfig} (haof : config.aofEnabled = true)
    {log : List Args} (hlog : ∀ args ∈ log, Loggable args) {data : Option Bytes}
    (hdata : data.getD [] = encs log) (hreplay : Aof.replay data = ⟨log, .ok 0⟩) {b : Boot ρ}
    (hopens : b.opens = true) :
    ∃ pers, boot config data b = { node := ⟨(replayed b.now log).store, pers, b.repl⟩, clock := b.now } ∧
      Logs log pers := by
  have hload := Persistence.load_of_aof (p := .start b.now config data) {} ⟨b.now, []⟩ haof b.rounds b.room
    b.rdbFile bareNode
  simp only [boot, hopens, hload]
  simp only [Persistence.loadAof, Persistence.start, Persistence.boot, hreplay, Nat.lt_irrefl, if_false]
  refine ⟨_, rfl, ⟨haof, rfl, rfl, ?_⟩, hlog⟩
  simp [Aof.contents, Aof.open, Aof.close, hdata]

/-! ## What a log stands for -/

theorem sound_replayed {u : Int64} (hu : 0 ≤ u) (log : List Args) : (replayed u log).store.Sound := by
  refine List.foldlRecOn (motive := fun N : Node Unit Unit => N.store.Sound) log _ ?_ fun N hN args _ => ?_
  · intro k
    simp [bareNode]
  · exact (dispatch_operates {} ⟨u, []⟩ none args N).sound hu hN

/-- The log that a rewrite makes of a store. -/
theorem replayed_snapshot {S : Store} (hS : S.Sound) {t u : Int64} (htu : t ≤ u) :
    (replayed u (recordCommands (S.snapshot t))).store.live u = S.live u := by
  rw [replayed, recordCommands, live_replayed {} ⟨u, []⟩ (S.snapshot t) bareNode {} (Store.nodup_snapshot S t)
    (fun r hr => Store.snapshot_deadline hr) (fun r _ => rfl) rfl]
  have hview := view_resyncTask hS htu {}
  show ((S.snapshot t).foldl (fun R r => R.loadRecord u r) ({} : Store)).view.live u = _
  rw [show ((S.snapshot t).foldl (fun R r => R.loadRecord u r) ({} : Store)).view = S.live u from
    (Store.view_foldl_loadRecord_congr u (S.snapshot t) rfl).trans hview]
  exact Keyspace.live_live (Int64.le_refl u) S.view

/-! ## What the parser has read is small enough to be logged -/

/-- No key and no value is longer than the parser takes. -/
def Bounded (K : Keyspace Bytes Bytes Int64) : Prop :=
  ∀ k e, K k = some e → k.length ≤ kMaxBulkLength ∧ e.1.length ≤ kMaxBulkLength

theorem Bounded.run {K : Keyspace Bytes Bytes Int64} (hK : Bounded K) {cmd : Args}
    {w : Write Bytes Bytes Int64} (hc : Canonical cmd w) (hcmd : Within cmd) (t : Int64) :
    Bounded (w.run t K) := by
  intro k e hk
  cases hc with
  | set k' v d =>
    have hmem {a : Bytes} (ha : a = k' ∨ a = v) : a ∈ setCanonical k' v d := by
      rcases ha with rfl | rfl <;> simp [setCanonical]
    simp only [Write.run] at hk
    split at hk
    · rename_i hkk
      split at hk
      · obtain rfl := Option.some.inj hk
        exact ⟨hcmd.size k (hmem (.inl hkk)), hcmd.size v (hmem (.inr rfl))⟩
      · cases hk
    · exact hK k e hk
  | del hc k' ks =>
    simp only [Write.run] at hk
    split at hk
    · cases hk
    · exact hK k e hk
  | expire k' d =>
    simp only [Write.run] at hk
    split at hk
    · rename_i hkk
      obtain ⟨e', he', hk⟩ := Option.bind_eq_some_iff.mp hk
      split at hk
      · obtain rfl := Option.some.inj hk
        exact hK k e' (hkk ▸ he')
      · cases hk
    · exact hK k e hk
  | persist hc k' =>
    simp only [Write.run] at hk
    split at hk
    · rename_i hkk
      obtain ⟨e', he', rfl⟩ := Option.map_eq_some_iff.mp hk
      exact hK k e' (hkk ▸ he')
    · exact hK k e hk
  | flush hc rest => cases hk

theorem Bounded.live {S : Store} {t u : Int64} (h : Bounded (S.live t)) (htu : t ≤ u) : Bounded (S.live u) := by
  intro k e hk
  rw [Store.live, ← Keyspace.live_live htu] at hk
  exact h k e (Keyspace.eq_some_of_live hk).1

/-- So that the records of a store may be logged. -/
theorem loggable_snapshot {S : Store} (hS : S.Sound) {t : Int64} (h : Bounded (S.live t)) :
    ∀ args ∈ recordCommands (S.snapshot t), Loggable args := by
  intro args hargs
  obtain ⟨r, hr, rfl⟩ := List.mem_map.mp hargs
  obtain ⟨v, hv, hrec⟩ := Store.mem_snapshot.mp hr
  have hlive := Store.live_of_some hv (T := t)
  rw [hS.record_eq] at hrec
  split at hrec
  · cases hrec
  · rename_i hexpired
    rw [if_neg hexpired] at hlive
    obtain ⟨hk, hv⟩ := h _ _ hlive
    rw [← Option.some.inj hrec] at hk ⊢
    exact ⟨within_setCanonical hk hv _, (Canonical.set _ _ _).ne_nil⟩

namespace Process

variable {ρ : Type}

/-- The log may be read at the times in `U`, and then stands for what is live. -/
structure Inv (U : Int64 → Prop) (P : Process ρ) : Prop where
  up : P.up = true
  clock : 0 ≤ P.clock
  sound : P.node.store.Sound
  bounded : Bounded (P.node.store.live P.clock)
  logs : ∃ log, Logs log P.node.pers ∧
    ∀ u, U u → P.clock ≤ u → (replayed u log).store.live u = P.node.store.live u

/-- What is assumed of an event: the clock does not go back, files are written whole, and what a request
logs is in time whenever the log may be read. -/
def Orderly (U : Int64 → Prop) (e : Event ρ) (P : Process ρ) : Prop :=
  match e with
  | .request m link args => P.clock ≤ m.amb.now ∧ m.io.Whole ∧ Within args ∧
    ∀ u, U u → m.amb.now ≤ u → Prompt m.table ⟨args, some link, m.amb, ⟨u, []⟩⟩ P.node
  | .cron _ _ now room io => P.clock ≤ now ∧ P.node.pers.aof.buffer.length ≤ room ∧ io.Whole
  | .saverDone _ => True
  | .restart room b => P.clock ≤ b.now ∧ U b.now ∧ P.node.pers.aof.buffer.length ≤ room ∧ b.opens = true

instance (times : List Int64) : ∀ (e : Event ρ) (P : Process ρ), Decidable (Orderly (· ∈ times) e P)
  | .request m link args, P =>
    -- the instances for finite types would go through all of `Int64`
    haveI : Decidable (∀ u ∈ times, m.amb.now ≤ u → Prompt m.table ⟨args, some link, m.amb, ⟨u, []⟩⟩ P.node) :=
      List.decidableBAll _ times
    inferInstanceAs (Decidable (P.clock ≤ m.amb.now ∧ m.io.Whole ∧ Within args ∧
      ∀ u ∈ times, m.amb.now ≤ u → Prompt m.table ⟨args, some link, m.amb, ⟨u, []⟩⟩ P.node))
  | .cron _ _ now room io, P =>
    inferInstanceAs (Decidable (P.clock ≤ now ∧ P.node.pers.aof.buffer.length ≤ room ∧ io.Whole))
  | .saverDone _, _ => inferInstanceAs (Decidable True)
  | .restart room b, P => inferInstanceAs (Decidable (P.clock ≤ b.now ∧ b.now ∈ times ∧
    P.node.pers.aof.buffer.length ≤ room ∧ b.opens = true))

variable {U : Int64 → Prop} {P : Process ρ}

theorem Inv.restart (h : Inv U P) {room : Nat} {b : Boot ρ} (he : Orderly U (.restart room b) P) :
    Inv U (step (.restart room b) P) ∧
      (step (.restart room b) P).node.store.live b.now = P.node.store.live b.now := by
  obtain ⟨hclock, hU, hroom, hopens⟩ := he
  obtain ⟨log, hlogs, hlive⟩ := h.logs
  have hnow : 0 ≤ b.now := Int64.le_trans h.clock hclock
  obtain ⟨pers, hboot, hpers⟩ := boot_log hlogs.enabled hlogs.loggable rfl (replay_encs hlogs.loggable) hopens
  have hstep : step (.restart room b) P =
      { node := ⟨(replayed b.now log).store, pers, b.repl⟩, clock := b.now } := by
    rw [← hboot, ← hlogs.toHolds.data_close hroom]
    rfl
  rw [hstep]
  have hsame := hlive b.now hU hclock
  refine ⟨⟨rfl, hnow, sound_replayed hnow log, ?_, log, hpers, fun u hu hle => ?_⟩, hsame⟩
  · show Bounded ((replayed b.now log).store.live b.now)
    rw [hsame]
    exact h.bounded.live hclock
  · rw [hlive u hu (Int64.le_trans hclock hle)]
    exact (Keyspace.live_congr hle hsame).symm

theorem Inv.cron (h : Inv U P) {layout : Table Int64 → List (List Bytes)} {expiry : ExpiryConfig} {now : Int64}
    {room : Nat} {io : Aof.RewriteIo} (he : Orderly U (.cron layout expiry now room io) P) :
    Inv U (step (.cron layout expiry now room io) P) := by
  obtain ⟨hclock, hroom, hio⟩ := he
  obtain ⟨log, hlogs, hlive⟩ := h.logs
  have hnow : 0 ≤ now := Int64.le_trans h.clock hclock
  have hcycle := Store.live_activeExpireCycle layout expiry now P.node.store
  have hsound : (P.node.store.activeExpireCycle layout expiry now).2.Sound :=
    h.sound.edits hnow (Store.Operation.edits now P.node.store (.activeExpireCycle layout expiry))
  have hbounded : Bounded ((P.node.store.activeExpireCycle layout expiry now).2.live now) := by
    rw [hcycle]
    exact h.bounded.live hclock
  refine ⟨h.up, hnow, hsound, hbounded, ?_⟩
  rcases hlogs.cron hroom hio (loggable_snapshot hsound hbounded) with hlogs | hlogs
  · refine ⟨log, hlogs, fun u hu hle => ?_⟩
    rw [hlive u hu (Int64.le_trans hclock hle)]
    exact (Keyspace.live_congr hle hcycle).symm
  · exact ⟨_, hlogs, fun u _ hle => replayed_snapshot hsound hle⟩

/-- BGREWRITEAOF writes nothing, and rewrites the log of what there is, if anything. -/
theorem dispatch_rewrites (m : Surroundings ρ) (link : Option ClientLink) {args : Args}
    (h : Durability.rewrites args = true) (N : Node Persistence ρ) :
    (dispatch m.table m.amb link args N).1.dirty = false ∧
      (dispatch m.table m.amb link args N).2.store = N.store ∧
      ((dispatch m.table m.amb link args N).2.pers = N.pers ∨
        (dispatch m.table m.amb link args N).2.pers =
          (N.pers.rewriteAof m.room m.io (N.store.snapshot m.amb.now)).2) := by
  rcases args with _ | ⟨arg, args⟩
  · cases h
  have hname : commandName arg = some .bgrewriteaof := of_decide_eq_true h
  obtain ⟨reply, pers, hrun, hpers⟩ := cmdPersistence_cases m.table N (fun ops => ops.rewriteAof)
    (str "+Background append only file rewriting started\r\n")
  have hcommand : runCommand m.table m.amb (some .bgrewriteaof) link (arg :: args) N =
      ({ reply }, { N with pers }) := hrun
  have hdispatch : dispatch m.table m.amb link (arg :: args) N = ({ reply }, { N with pers }) := by
    simp [dispatch, hname, hcommand, isWriteCommand]
  rw [hdispatch]
  refine ⟨rfl, rfl, hpers.imp_right ?_⟩
  rintro ⟨ops, hops, rfl⟩
  obtain rfl : Persistence.ops m.amb.now m.written m.room m.io = ops := Option.some.inj hops
  rfl

theorem Inv.later (h : Inv U P) {now : Int64} (hle : P.clock ≤ now) : Inv U { P with clock := now } := by
  obtain ⟨log, hlogs, hlive⟩ := h.logs
  exact ⟨h.up, Int64.le_trans h.clock hle, h.sound, h.bounded.live hle, log, hlogs,
    fun u hu hu' => hlive u hu (Int64.le_trans hle hu')⟩

theorem Inv.request (h : Inv U P) {m : Surroundings ρ} {link : ClientLink} {args : Args}
    (he : Orderly U (.request m link args) P) : Inv U (step (.request m link args) P) := by
  obtain ⟨hclock, hio, hargs, hprompt⟩ := he
  have hnow : 0 ≤ m.amb.now := Int64.le_trans h.clock hclock
  obtain ⟨log, hlogs, hlive⟩ := (h.later hclock).logs
  have hbounded := h.bounded.live hclock
  by_cases hnil : args = []
  · subst hnil
    exact h.later hclock
  have hsound := (dispatch_operates m.table m.amb (some link) args P.node).sound hnow h.sound
  have hwithin := within_propagate m.table m.amb (some link) P.node hargs
  -- the log and the store have answered for each other so far, and do so after an exchange
  have hagree (u : Int64) (hu : U u) (hle : m.amb.now ≤ u) :=
    (agree_exchange m.table {}).mp ((agree_exchange_iff m.table {} (x := ⟨args, some link, m.amb, ⟨u, []⟩⟩)
      (P := ⟨P.node, replayed u log⟩) hle (hlive u hu hle).symm).mpr (hprompt u hu hle))
  have hbounded' : Bounded ((dispatch m.table m.amb (some link) args P.node).2.store.live m.amb.now) := by
    rcases dispatch_effect m.table m.amb (some link) args P.node with ⟨-, hS⟩ | ⟨w, -, hc, hS⟩ <;> rw [hS]
    · exact hbounded
    · exact hbounded.run hc hwithin _
  show Inv U { P with node := handleRequest (host m link) args P.node, clock := m.amb.now }
  by_cases hrewrites : Durability.rewrites args = true
  · obtain ⟨hclean, hstore, hpers⟩ := dispatch_rewrites m (some link) hrewrites P.node
    rw [handleRequest_of_clean (host m link) hnil (by exact Bool.eq_false_iff.mp hclean)]
    suffices hlogs' : Logs log (dispatch m.table m.amb (some link) args P.node).2.pers ∨
        Logs (recordCommands (P.node.store.snapshot m.amb.now))
          (dispatch m.table m.amb (some link) args P.node).2.pers by
      refine ⟨h.up, hnow, hsound, hbounded', ?_⟩
      show ∃ log, Logs log (dispatch m.table m.amb (some link) args P.node).2.pers ∧ ∀ u, U u → m.amb.now ≤ u →
        (replayed u log).store.live u = (dispatch m.table m.amb (some link) args P.node).2.store.live u
      rw [hstore]
      rcases hlogs' with hlogs' | hlogs'
      · exact ⟨log, hlogs', hlive⟩
      · exact ⟨_, hlogs', fun u _ hle => replayed_snapshot h.sound hle⟩
    rcases hpers with hpers | hpers <;> rw [hpers]
    · exact .inl hlogs
    · exact hlogs.rewriteAof m.room hio (loggable_snapshot h.sound hbounded)
  · have hsame := Durability.sameAof_dispatch m (some link) args P.node (Bool.eq_false_iff.mpr hrewrites)
    by_cases hdirty : (dispatch m.table m.amb (some link) args P.node).1.dirty = true
    · rw [handleRequest_of_dirty (host m link) hnil (by exact hdirty)]
      have hlog : Loggable (dispatch m.table m.amb (some link) args P.node).1.propagate :=
        { hwithin with ne_nil := propagate_ne_nil m.table m.amb (some link) args P.node hdirty }
      refine ⟨h.up, hnow, hsound, hbounded', _, (hlogs.of_sameAof hsame).onWrite hlog, fun u hu hle => ?_⟩
      rw [replayed_snoc]
      have := hagree u hu hle
      rw [if_pos hdirty] at this
      exact this.symm
    · rw [handleRequest_of_clean (host m link) hnil (by exact hdirty)]
      refine ⟨h.up, hnow, hsound, hbounded', log, hlogs.of_sameAof hsame, fun u hu hle => ?_⟩
      have := hagree u hu hle
      rw [if_neg hdirty] at this
      exact this.symm

theorem Inv.step (h : Inv U P) {e : Event ρ} (he : Orderly U e P) : Inv U (step e P) := by
  cases e with
  | request m link args => exact h.request he
  | cron layout expiry now room io => exact h.cron he
  | saverDone written =>
    obtain ⟨log, hlogs, hlive⟩ := h.logs
    exact ⟨h.up, h.clock, h.sound, h.bounded, log, hlogs.of_sameAof ⟨rfl, rfl⟩, hlive⟩
  | restart room b => exact (h.restart he).1

theorem inv_boot {config : PersistenceConfig} (haof : config.aofEnabled = true) {b : Boot ρ}
    (hopens : b.opens = true)
    (hnow : 0 ≤ b.now) (U : Int64 → Prop) : Inv U (boot config none b) := by
  have hlog : ∀ args ∈ ([] : List Args), Loggable args := fun _ h => absurd h List.not_mem_nil
  obtain ⟨pers, hboot, hpers⟩ := boot_log haof hlog
    (show (none : Option Bytes).getD [] = encs [] from rfl) rfl hopens
  rw [hboot]
  refine ⟨rfl, hnow, sound_replayed hnow [], fun k e hk => ?_, [], hpers, fun u _ _ => rfl⟩
  cases hk

/-- Through every history of requests, crons, rewrites of the log and restarts that starts without a log,
in which what is logged is in time whenever the log may be read: every restart boots, and what is live at
its time, with its values and deadlines, is what was live in the process before it. -/
theorem restarts_keep {config : PersistenceConfig} (haof : config.aofEnabled = true) {first : Boot ρ}
    (hopens : first.opens = true) (hnow : 0 ≤ first.now) {U : Int64 → Prop} {es : List (Event ρ)}
    (h : Along Process.step (Orderly U) es (boot config none first)) {es₁ es₂ : List (Event ρ)} {room : Nat}
    {b : Boot ρ} (hes : es = es₁ ++ .restart room b :: es₂) :
    let P := run Process.step es₁ (boot config none first)
    (Process.step (.restart room b) P).up = true ∧
      (Process.step (.restart room b) P).node.store.live b.now = P.node.store.live b.now := by
  subst hes
  obtain ⟨h₁, hrestart, -⟩ := Framework.along_append.mp h
  have hinv := Along.invariant (I := Inv U) (fun e P hP he => hP.step he) (inv_boot haof hopens hnow U) h₁
  exact ⟨(hinv.restart hrestart).1.up, (hinv.restart hrestart).2⟩

/-- A key with a deadline, one that a cycle removes, and one whose deadline is taken off after a rewrite;
the log is read at 500 and at 900. -/
def lives : List (Event Unit) :=
  [.request { amb := ⟨10, []⟩ } 1 [str "SET", str "a", str "1", str "PX", str "990"],
    .request { amb := ⟨10, []⟩ } 1 [str "SET", str "b", str "2", str "PX", str "50"],
    .cron (fun t => [t.keys]) {} 100 1000 {},
    .request { amb := ⟨200, []⟩ } 1 [str "SET", str "c", str "3", str "EXAT", str "1"],
    .restart 1000 { now := 500, repl := () },
    .request { amb := ⟨600, []⟩ } 1 [str "BGREWRITEAOF"],
    .request { amb := ⟨700, []⟩ } 1 [str "PERSIST", str "a"],
    .restart 1000 { now := 900, repl := () }]

theorem lives_keep :
    let P := run Process.step (lives.take 7) (boot { aofEnabled := true } none { now := 0, repl := () })
    let P' := Process.step (.restart 1000 { now := 900, repl := () }) P
    P'.up = true ∧ P'.node.store.live 900 = P.node.store.live 900 ∧
      P'.node.store.live 900 (str "a") = some (str "1", none) ∧
      P'.node.store.live 900 (str "c") = some (str "3", some 1000) := by
  have horderly : Along Process.step (Orderly (· ∈ [500, 900])) lives
      (boot { aofEnabled := true } none { now := 0, repl := () }) := by decide +kernel
  have hlives : lives = lives.take 7 ++ [.restart 1000 { now := 900, repl := () }] := rfl
  have hkeep := restarts_keep rfl rfl (by decide) horderly hlives
  exact ⟨hkeep.1, hkeep.2, by decide +kernel, by decide +kernel⟩

end Process

end RP
