import RedisPlus.Command.Operations
import RedisPlus.Command.ReadOnly
import RedisPlus.Replication.Cluster

/-!
# A replica converges

While the link is open and a snapshot of it has been loaded, the replica's keys are those that the
master had before the commands that are still due, and once none is due they are the master's
(`cluster_converges`), however often the link has broken before. What is assumed of a run is in
`Orderly`: that clocks do not go back, that transfers fit the output cap, that the master has closed a
lost link before the replica connects anew, and that commands come in time: a replica that runs a
PERSIST after the key's deadline has lost the key.
-/

namespace RP

open Asio (Moment)
open Framework (Keyspace Write Due Trail run Along)

/-! ## One command, run late -/

/-- Run late, but in time, a propagated command does what it did when the master ran it. -/
theorem live_applySilently {π ρ : Type} (table : CommandTable π ρ) {cmd : Args}
    {w : Write Bytes Bytes Int64} (hc : Canonical cmd w) {amb : Ambient} {t : Int64} (htu : t ≤ amb.now)
    {K : Keyspace Bytes Bytes Int64} {N : Node π ρ} (hN : N.store.live amb.now = K.live amb.now)
    (h : InTime amb.now K cmd) :
    (applySilently table amb cmd N).store.live amb.now = (w.run t K).live amb.now := by
  by_cases hmin : writtenDeadline w = some Int64.minValue
  · rw [applySilently_unreadable table hc hmin, hN]
    exact ((inTime_iff_unreadable hc hmin t _ K).mp h).symm
  · rw [applySilently_canonical table hc hmin, hN]
    exact ((Write.live_run htu K w).mpr ((inTime_iff_timely hc hmin _ K).mp h)).symm

theorem handedOn_of_commandName {c : Bytes} (hr : commandName c ≠ some .replconf)
    (hp : commandName c ≠ some .ping) (rest : Args) : handedOn (c :: rest) = true := by
  have hr' : upper c ≠ str "REPLCONF" := fun h => hr (by rw [commandName, h]; decide)
  have hp' : upper c ≠ str "PING" := fun h => hp (by rw [commandName, h]; decide)
  simp [handedOn, hr', hp']

/-- A replica consumes none of the propagated forms. -/
theorem handedOn_of_canonical {cmd : Args} {w : Write Bytes Bytes Int64} (h : Canonical cmd w) :
    handedOn cmd = true := by
  cases h with
  | set k v d => exact handedOn_of_commandName (by decide) (by decide) _
  | del hc k ks => exact handedOn_of_commandName (by simp [hc]) (by simp [hc]) _
  | expire k d => exact handedOn_of_commandName (by decide) (by decide) _
  | persist hc k => exact handedOn_of_commandName (by simp [hc]) (by simp [hc]) _
  | flush hc rest => exact handedOn_of_commandName (by simp [hc]) (by simp [hc]) _

namespace Cluster

variable {π ρ : Type} {cfg : ServerConfig} {port : UInt16} {table : CommandTable π ρ} {C : Cluster π ρ}

/-! ## The invariant -/

/-- The master has closed the link. -/
structure Broken (C : Cluster π ρ) : Prop where
  closed : C.sync.master.repl.closed C.link = true
  links : C.sync.master.repl.links = []

/-- From what the replica has, the commands due lead to what the master has. Before the snapshot is
loaded, they do so from the snapshot. -/
def Behind (C : Cluster π ρ) : Prop :=
  match C.ran with
  | 0 => C.sync.resync.isSome = true →
    Trail Canonical C.origin.1 C.origin.2.view C.due C.masterClock C.sync.master.store.view
  | j + 1 => ∃ t A, Trail Canonical t A (C.due.drop j) C.masterClock C.sync.master.store.view ∧
    ∀ u, t ≤ u → C.replicaClock ≤ u → C.replica.store.live u = A.live u

/-- The link is up to date with the stream: what the replica has still to run leads to the master's
keyspace. -/
structure Following (port : UInt16) (C : Cluster π ρ) : Prop where
  inv : Sync.Inv port C.link C.sync
  since : C.sync.since = C.due.map Due.cmd
  canonical : ∀ d ∈ C.due, ∃ w, Canonical d.cmd w
  ran : C.ran ≤ C.sync.replica.posted.length
  queue : C.queue ≠ [] → C.ran = 0
  resync : ∀ records offset, C.sync.resync = some (records, offset) →
    records = C.origin.2.snapshot C.origin.1 ∧ C.origin.2.Sound
  behind : Behind C

/-- What holds in every orderly run. -/
structure Inv (port : UInt16) (C : Cluster π ρ) : Prop where
  sound : C.sync.master.store.Sound
  clock : 0 ≤ C.masterClock
  link : Broken C ∨ Following port C

theorem Inv.following (hi : Inv port C) (hc : C.sync.master.repl.closed C.link = false) :
    Following port C := by
  rcases hi.link with hb | hf
  · exact absurd (hc.symm.trans hb.closed) (by decide)
  · exact hf

/-- The master moves on, and the trail gets longer or stays. -/
theorem Behind.master {C C' : Cluster π ρ} (h : Behind C) (hran : C'.ran = C.ran)
    (hreplica : C'.replica = C.replica) (hrclock : C'.replicaClock = C.replicaClock)
    (hresync : C'.sync.resync = C.sync.resync) (horigin : C'.origin = C.origin)
    {new : List (Due Args Bytes Bytes Int64)} (hdue : C'.due = C.due ++ new) (hlen : C.ran ≤ C.due.length + 1)
    (htrail : ∀ {t : Int64} {A : Keyspace Bytes Bytes Int64} {ds : List (Due Args Bytes Bytes Int64)},
      Trail Canonical t A ds C.masterClock C.sync.master.store.view →
      Trail Canonical t A (ds ++ new) C'.masterClock C'.sync.master.store.view) : Behind C' := by
  unfold Behind at h ⊢
  rw [hran, hdue]
  cases hj : C.ran with
  | zero =>
    rw [hj] at h
    rw [hresync, horigin]
    exact fun hs => htrail (h hs)
  | succ j =>
    rw [hj] at h hlen
    obtain ⟨t, A, ht, hA⟩ := h
    refine ⟨t, A, ?_, by rw [hreplica, hrclock]; exact hA⟩
    rw [List.drop_append_of_le_length (by omega)]
    exact htrail ht

theorem Following.ran_le (h : Following port C) : C.ran ≤ C.due.length + 1 := by
  have hran := h.ran
  rcases h.inv.stage.waiting_or_streaming with hw | ⟨-, records, offset, past, ahead, hs⟩
  · have hposted : C.sync.replica.posted = [] := hw.posted
    rw [hposted] at hran
    exact Nat.le_trans hran (Nat.zero_le _)
  · have hposted : C.sync.replica.posted = .reload records :: (past.filter handedOn).map .apply := hs.posted
    have hlen : C.due.length = past.length + ahead.length := by
      rw [← List.length_map Due.cmd, ← h.since, show C.sync.since = past ++ ahead from hs.split,
        List.length_append]
    have hfilter := List.length_filter_le handedOn past
    rw [hposted, List.length_cons, List.length_map] at hran
    omega

/-! ## The master's clients, and its cron -/

theorem store_request (m : Moment Unit) (l : ClientLink) {args : Args} (hargs : args ≠ [])
    (N : Node Unit Net) :
    (Asio.step cfg (.request m l args) N).store = (Asio.outcome cfg m l args N).2.store := by
  show (handleRequest (Asio.sessionHost cfg m l) args N).store = _
  by_cases hd : (Asio.outcome cfg m l args N).1.dirty = true
  · rw [handleRequest_of_dirty (Asio.sessionHost cfg m l) hargs hd]
    rfl
  · rw [handleRequest_of_clean (Asio.sessionHost cfg m l) hargs hd]
    rfl

theorem operates_client {link : ClientLink} {e : Asio.Event Unit} (he : e.OnOther link) (t : Int64)
    (N : Node Unit Net) : Store.Operates (e.clock t) N.store (Asio.step cfg e N).store := by
  cases e with
  | request m l args =>
    by_cases hargs : args = []
    · subst hargs
      exact .refl ..
    · rw [store_request m l hargs]
      exact dispatch_operates (m.table cfg) m.amb (some l) args N
  | accept l peer =>
    unfold Asio.step
    dsimp only
    split <;> exact .refl ..
  | apply m args => exact he.elim
  | cron store pers => exact he.elim
  | _ => exact .refl ..

theorem trail_client {link : ClientLink} {e : Asio.Event Unit} (he : e.OnOther link) {t t₀ : Int64}
    (hle : t ≤ e.clock t) {N : Node Unit Net} {A : Keyspace Bytes Bytes Int64}
    {ds : List (Due Args Bytes Bytes Int64)} (h : Trail Canonical t₀ A ds t N.store.view) :
    Trail Canonical t₀ A (ds ++ dueOf cfg e t N) (e.clock t) (Asio.step cfg e N).store.view := by
  have hquiet (hstore : (Asio.step cfg e N).store = N.store) (hnil : Asio.propagates cfg e N = []) :
      Trail Canonical t₀ A (ds ++ dueOf cfg e t N) (e.clock t) (Asio.step cfg e N).store.view := by
    rw [hstore, dueOf, hnil, List.map_nil, List.append_nil]
    exact h.later hle rfl
  cases e with
  | request m l args =>
    by_cases hargs : args = []
    · subst hargs
      exact hquiet rfl rfl
    have hstore : (Asio.step cfg (.request m l args) N).store = _ := store_request m l hargs N
    rw [hstore, dueOf, Asio.propagates]
    have heffect : Effect m.amb.now N.store (Asio.outcome cfg m l args N).2.store
        (Asio.outcome cfg m l args N).1 := dispatch_effect ..
    rcases heffect with ⟨hd, hS⟩ | ⟨w, hd, hc, hS⟩
    · rw [if_neg (by simp [hd]), List.map_nil, List.append_nil]
      exact h.later hle hS
    · rw [if_pos hd]
      refine h.push hle hc ?_
      have hlive := congrArg (Keyspace.live m.amb.now) hS
      rw [Store.live, Keyspace.live_live (Int64.le_refl _)] at hlive
      exact hlive
  | accept l peer =>
    refine hquiet ?_ rfl
    unfold Asio.step
    dsimp only
    split <;> rfl
  | apply m args => exact he.elim
  | cron store pers => exact he.elim
  | _ => exact hquiet rfl rfl

theorem canonical_dueOf {e : Asio.Event Unit} {t : Int64} {N : Node Unit Net}
    {d : Due Args Bytes Bytes Int64} (hd : d ∈ dueOf cfg e t N) : ∃ w, Canonical d.cmd w := by
  obtain ⟨args, hargs, rfl⟩ := List.mem_map.mp hd
  cases e with
  | request m l cmd =>
    have heffect : Effect m.amb.now N.store (Asio.outcome cfg m l cmd N).2.store
        (Asio.outcome cfg m l cmd N).1 := dispatch_effect ..
    rw [Asio.propagates] at hargs
    rcases heffect with ⟨hclean, -⟩ | ⟨w, hdirty, hc, -⟩
    · rw [if_neg (by simp [hclean])] at hargs
      cases hargs
    · rw [if_pos hdirty, List.mem_singleton] at hargs
      exact ⟨w, hargs ▸ hc⟩
  | _ => cases hargs

theorem not_syncs {link : ClientLink} {e : Asio.Event Unit} (he : e.OnOther link) (l : ClientLink) :
    Asio.syncs l e = false := by
  cases e with
  | request m l' args => simp [Asio.syncs, he.2.1]
  | _ => rfl

/-- With no replica on the list, other connections do not come near the link. -/
theorem closed_client {link : ClientLink} {e : Asio.Event Unit} (he : e.OnOther link) {N : Node Unit Net}
    (hlinks : N.repl.links = []) : (Asio.step cfg e N).repl.closed link = N.repl.closed link := by
  have hput {M : Net} {l : ClientLink} (hl : l ≠ link) (s : Session) :
      (M.put l s).closed link = M.closed link := by
    rw [Net.closed, Net.sessions_put, if_neg hl.symm]; rfl
  have hclose {M : Net} {l : ClientLink} (hl : l ≠ link) : (M.doClose l).closed link = M.closed link := by
    rw [Net.closed_doClose, beq_eq_false_iff_ne.mpr hl.symm, Bool.or_false]
  cases e with
  | request m l args =>
    have hq := @Asio.quiet_dispatch Unit cfg args he.2.1 m (some l) N
    have hreplied : (Asio.replied cfg m l args N).closed link = N.repl.closed link := by
      rw [Asio.replied_eq, hput he.1, Net.closed, Asio.outcome, hq.sessions]; rfl
    have hnil : (Asio.replied cfg m l args N).links = [] := hq.links.trans hlinks
    rw [Asio.repl_request]
    split
    · rfl
    · split
      · rw [Net.propagate, if_pos hnil]
        exact hreplied
      · exact hreplied
  | accept l peer =>
    unfold Asio.step
    dsimp only
    split
    · exact hput he _
    · rfl
  | refuse l error => exact hput he _
  | readEnd l input =>
    unfold Asio.step Asio.readEnd
    dsimp only
    split
    · exact (hclose he).trans (hput he _)
    · exact hput he _
  | readFailed l => exact hclose he
  | written l => exact hput he _
  | writeFailed l => exact (hclose he).trans (hput he _)
  | apply m args => exact he.elim
  | cron store pers => exact he.elim

/-- A link that the master has closed stays so, and so does the list. -/
theorem Broken.client (h : Broken C) {e : Asio.Event Unit} (he : e.OnOther C.link) :
    Broken (C.step cfg port table (.client e)) := by
  refine ⟨(closed_client he h.links).trans h.closed, ?_⟩
  have hshrinks : Net.Shrinks C.sync.master.repl (Asio.step cfg e C.sync.master).repl :=
    Asio.shrinks_step (not_syncs he)
  exact List.sublist_nil.mp (h.links ▸ hshrinks.links)

theorem inv_client (hi : Inv port C) {e : Asio.Event Unit} (he : e.OnOther C.link)
    (hle : C.masterClock ≤ e.clock C.masterClock) : Inv port (C.step cfg port table (.client e)) := by
  have hclock : 0 ≤ e.clock C.masterClock := Int64.le_trans hi.clock hle
  refine ⟨(operates_client he _ _).sound hclock hi.sound, hclock, ?_⟩
  rcases hi.link with hb | hf
  · exact .inl (hb.client he)
  cases hc : (Asio.step cfg e C.sync.master).repl.closed C.link with
  | true =>
    exact .inl ⟨hc, hf.inv.links_of_closed (Asio.shrinks_step (not_syncs he)) hc⟩
  | false =>
    refine .inr ⟨Sync.inv_client hf.inv he hc, ?_, ?_, hf.ran, hf.queue, hf.resync, ?_⟩
    · show C.sync.since ++ _ = (C.due ++ _).map Due.cmd
      rw [List.map_append, hf.since, dueOf, List.map_map]
      exact congrArg _ (List.map_id' _).symm
    · intro d hd
      rcases List.mem_append.mp hd with hd | hd
      · exact hf.canonical d hd
      · exact canonical_dueOf hd
    · exact hf.behind.master rfl rfl rfl rfl rfl rfl hf.ran_le fun h => trail_client he hle h

theorem inv_cron (hi : Inv port C) (layout : Table Int64 → List (List Bytes)) (expiry : ExpiryConfig)
    {now : Int64} (hle : C.masterClock ≤ now) :
    Inv port (C.step cfg port table (.cron layout expiry now)) := by
  have hclock : 0 ≤ now := Int64.le_trans hi.clock hle
  refine ⟨hi.sound.edits hclock ((Store.Removes.activeExpireCycle now _ layout expiry).edits now), hclock, ?_⟩
  rcases hi.link with hb | hf
  · exact .inl ⟨hb.closed, hb.links⟩
  refine .inr ⟨hf.inv.of_quiet rfl rfl rfl hf.inv.live, hf.since, hf.canonical, hf.ran, hf.queue,
    hf.resync, ?_⟩
  refine hf.behind.master rfl rfl rfl rfl rfl (List.append_nil _).symm hf.ran_le fun h => ?_
  rw [List.append_nil]
  exact h.later hle (Store.live_activeExpireCycle layout expiry now _)

/-! ## The replica's commands -/

variable (table) in
/-- A PSYNC is a new start: nothing is due after the snapshot. -/
theorem following_psync (hf : Following port C) (hS : C.sync.master.store.Sound) {m : Moment Unit}
    {args : Args} {up : List Args} (hup : C.sync.up = args :: up) (hp : psyncs args = true)
    (hinv : Sync.Inv port C.link (C.sync.step cfg port C.link (.serve m))) :
    (C.step cfg port table (.serve m)).sync.master.store = C.sync.master.store ∧
      Following port (C.step cfg port table (.serve m)) := by
  have hargs : args ≠ [] := by rintro rfl; cases hp
  have hstore : (Asio.step cfg (.request m C.link args) C.sync.master).store = C.sync.master.store := by
    rw [store_request m C.link hargs, Asio.outcome, Asio.dispatch_psync hp]
  have hsync : C.sync.step cfg port C.link (.serve m) = { C.sync with
      master := Asio.step cfg (.request m C.link args) C.sync.master
      up
      resync := some (C.sync.master.store.snapshot m.amb.now, C.sync.master.repl.repl.masterOffset)
      since := [] } := by
    simp only [Sync.step, hup, Sync.serve, hp, if_true]
  have hstep : C.step cfg port table (.serve m) = { C with
      sync := C.sync.step cfg port C.link (.serve m)
      masterClock := m.amb.now
      origin := (m.amb.now, C.sync.master.store)
      due := [] } := by
    simp only [step, noted, hup, hp, if_true]
  have hposted : C.sync.replica.posted = [] := (hf.inv.stage.psync hup hp).2.1.posted
  have hran : C.ran = 0 := by
    have := hf.ran
    rw [hposted] at this
    exact Nat.le_zero.mp this
  rw [hstep]
  rw [hsync] at hinv ⊢
  refine ⟨hstore, hinv, rfl, fun d hd => absurd hd List.not_mem_nil, hf.ran, hf.queue, ?_, ?_⟩
  · rintro records offset he
    obtain ⟨rfl, -⟩ := Prod.mk.inj (Option.some.inj he)
    exact ⟨rfl, hS⟩
  · simp only [Behind, hran]
    intro _
    exact ⟨Int64.le_refl _, by rw [hstore]⟩

variable (table) in
/-- The other commands of the replica change nothing that is live. -/
theorem following_reply (hf : Following port C) {m : Moment Unit} (hle : C.masterClock ≤ m.amb.now)
    {args : Args} {up : List Args} (hup : C.sync.up = args :: up) (hp : psyncs args = false)
    (hinv : Sync.Inv port C.link (C.sync.step cfg port C.link (.serve m))) :
    Store.Operates m.amb.now C.sync.master.store (C.step cfg port table (.serve m)).sync.master.store ∧
      Following port (C.step cfg port table (.serve m)) := by
  have hargs : args ≠ [] ∧ (Asio.outcome cfg m C.link args C.sync.master).1.dirty = false := by
    rcases hf.inv.stage.command hup hp with rfl | ⟨sub, value, rfl⟩
    · exact ⟨by decide, by rw [Asio.outcome_ping]⟩
    · exact ⟨by simp, by rw [Asio.outcome_replconf]; split <;> rfl⟩
  have hstore : (Asio.step cfg (.request m C.link args) C.sync.master).store = _ :=
    store_request m C.link hargs.1 C.sync.master
  have hsync : C.sync.step cfg port C.link (.serve m) = { C.sync with
      master := Asio.step cfg (.request m C.link args) C.sync.master, up } := by
    simp only [Sync.step, hup, Sync.serve, hp]
    rfl
  have hstep : C.step cfg port table (.serve m) = { C with
      sync := C.sync.step cfg port C.link (.serve m), masterClock := m.amb.now } := by
    simp only [step, noted, hup, hp]
    rfl
  have hlive : (Asio.outcome cfg m C.link args C.sync.master).2.store.live m.amb.now =
      C.sync.master.store.live m.amb.now := by
    rcases dispatch_effect (m.table cfg) m.amb (some C.link) args C.sync.master with ⟨-, h⟩ | ⟨w, hd, -⟩
    · exact h
    · exact absurd (hd.symm.trans hargs.2) (by decide)
  rw [hstep]
  rw [hsync] at hinv ⊢
  refine ⟨?_, hinv, hf.since, hf.canonical, hf.ran, hf.queue, hf.resync, ?_⟩
  · rw [show (Asio.step cfg (.request m C.link args) C.sync.master).store = _ from hstore]
    exact dispatch_operates (m.table cfg) m.amb (some C.link) args C.sync.master
  · refine hf.behind.master rfl rfl rfl rfl rfl (List.append_nil _).symm hf.ran_le fun h => ?_
    rw [List.append_nil]
    exact h.later hle (by rw [hstore]; exact hlive)

theorem inv_serve (hi : Inv port C) {m : Moment Unit} (hle : C.masterClock ≤ m.amb.now)
    (hopen : C.sync.master.repl.closed C.link = false)
    (hc : (C.sync.step cfg port C.link (.serve m)).master.repl.closed C.link = false) :
    Inv port (C.step cfg port table (.serve m)) := by
  have hclock : 0 ≤ m.amb.now := Int64.le_trans hi.clock hle
  have hf := hi.following hopen
  have hinv : Sync.Inv port C.link (C.sync.step cfg port C.link (.serve m)) :=
    Sync.inv_step hf.inv ⟨trivial, hc⟩
  cases hup : C.sync.up with
  | nil =>
    have hstep : C.step cfg port table (.serve m) = { C with masterClock := m.amb.now } := by
      simp only [step, Sync.step, noted, hup]
    rw [hstep]
    refine ⟨hi.sound, hclock, .inr ⟨hf.inv, hf.since, hf.canonical, hf.ran, hf.queue, hf.resync, ?_⟩⟩
    refine hf.behind.master rfl rfl rfl rfl rfl (List.append_nil _).symm hf.ran_le fun h => ?_
    rw [List.append_nil]
    exact h.later hle rfl
  | cons args up =>
    by_cases hp : psyncs args = true
    · obtain ⟨hstore, hf'⟩ := following_psync table hf hi.sound hup hp hinv
      exact ⟨hstore ▸ hi.sound, hclock, .inr hf'⟩
    · obtain ⟨hops, hf'⟩ := following_reply table hf hle hup (Bool.eq_false_iff.mpr hp) hinv
      exact ⟨hops.sound hclock hi.sound, hclock, .inr hf'⟩

/-! ## The thread and the socket -/

theorem posted_act (T : ReplicaThread) : T.posted <+: (T.act port).1.posted := by
  have hexpect (expected error : Bytes) (next : Phase) (command : Args) :
      (T.expect expected error next command).1.posted = T.posted := by
    unfold ReplicaThread.expect
    split
    · rfl
    · split <;> rfl
  unfold ReplicaThread.act
  split
  · rw [hexpect]
  · rw [hexpect]
  · rw [hexpect]
  · unfold ReplicaThread.onFullresync
    split
    · exact List.prefix_rfl
    · split <;> exact List.prefix_rfl
  · unfold ReplicaThread.onRdbHeader
    split
    · exact List.prefix_rfl
    · split <;> exact List.prefix_rfl
  · unfold ReplicaThread.onRdbPayload
    split
    · exact List.prefix_rfl
    · dsimp only
      split
      · exact List.prefix_rfl
      · exact List.prefix_rfl
      · exact List.prefix_append ..
  · unfold ReplicaThread.onStream
    split
    · dsimp only
      split
      · exact List.prefix_rfl
      · split
        · exact List.prefix_rfl
        · split
          · exact List.prefix_rfl
          · exact List.prefix_append ..
    · exact List.prefix_rfl
  · exact List.prefix_rfl
  · exact List.prefix_rfl

/-- What these events leave as it is. -/
structure LinkStep (link : ClientLink) (S S' : Sync) : Prop where
  store : S'.master.store = S.master.store
  since : S'.since = S.since
  resync : S'.resync = S.resync
  posted : S.replica.posted <+: S'.replica.posted
  shrinks : Net.Shrinks S.master.repl S'.master.repl
  closed : S.master.repl.closed link = true → S'.master.repl.closed link = true

theorem linkStep {link : ClientLink} {e : SyncEvent} (he : e.onLink = true) (S : Sync) :
    LinkStep link S (S.step cfg port link e) := by
  have hmaster {M : Net} (hs : Net.Shrinks S.master.repl M)
      (hc : S.master.repl.closed link = true → M.closed link = true) :
      LinkStep link S { S with master := { S.master with repl := M } } :=
    ⟨rfl, rfl, rfl, List.prefix_rfl, hs, hc⟩
  cases e with
  | readEnd =>
    refine hmaster (Asio.shrinks_readEnd ..) fun h => ?_
    unfold Asio.readEnd
    dsimp only
    split
    · simp
    · rw [Net.closed, Net.sessions_put, if_pos rfl, Session.closed_flush]
      exact h
  | written =>
    refine hmaster (Net.shrinks_put fun h => by rw [Session.closed_onWritten]; exact h) fun h => ?_
    rw [Net.closed, Net.sessions_put, if_pos rfl, Session.closed_onWritten]
    exact h
  | deliver n => exact ⟨rfl, rfl, rfl, List.prefix_rfl, .refl _, fun h => h⟩
  | act => exact ⟨rfl, rfl, rfl, posted_act S.replica, .refl _, fun h => h⟩
  | tick => exact ⟨rfl, rfl, rfl, List.prefix_rfl, .refl _, fun h => h⟩
  | serve m => cases he
  | propagate args => cases he
  | write store => cases he

theorem inv_link (hi : Inv port C) {e : SyncEvent} (he : e.onLink = true) :
    Inv port (C.step cfg port table (.link e)) := by
  have hl : LinkStep C.link C.sync (C.sync.step cfg port C.link e) := linkStep he C.sync
  refine ⟨?_, hi.clock, ?_⟩
  · show (C.sync.step cfg port C.link e).master.store.Sound
    rw [hl.store]
    exact hi.sound
  rcases hi.link with hb | hf
  · exact .inl ⟨hl.closed hb.closed, List.sublist_nil.mp (hb.links ▸ hl.shrinks.links)⟩
  cases hc : (C.sync.step cfg port C.link e).master.repl.closed C.link with
  | true => exact .inl ⟨hc, hf.inv.links_of_closed hl.shrinks hc⟩
  | false =>
    have hfair : Sync.Fair cfg port C.link e C.sync := by
      refine ⟨?_, hc⟩
      cases e with
      | propagate args => cases he
      | _ => trivial
    refine .inr ⟨Sync.inv_step hf.inv hfair, hl.since.trans hf.since, hf.canonical,
      Nat.le_trans hf.ran hl.posted.length_le, hf.queue, ?_, ?_⟩
    · intro records offset h
      exact hf.resync records offset (hl.resync.symm.trans h)
    · refine hf.behind.master rfl rfl rfl hl.resync rfl (List.append_nil _).symm hf.ran_le fun h => ?_
      rw [List.append_nil]
      show Trail _ _ _ _ C.masterClock (C.sync.step cfg port C.link e).master.store.view
      rw [hl.store]
      exact h

/-! ## The replica's event loop -/

/-- The replica moves on without a task. -/
theorem Inv.replica (hi : Inv port C) {replica : Node π ρ} {now : Int64} (hle : C.replicaClock ≤ now)
    (hlive : replica.store.live now = C.replica.store.live now) :
    Inv port { C with replica, replicaClock := now } := by
  refine ⟨hi.sound, hi.clock, ?_⟩
  rcases hi.link with hb | hf
  · exact .inl ⟨hb.closed, hb.links⟩
  refine .inr ⟨hf.inv, hf.since, hf.canonical, hf.ran, hf.queue, hf.resync, ?_⟩
  have hb := hf.behind
  unfold Behind at hb ⊢
  dsimp only
  cases hj : C.ran with
  | zero => rw [hj] at hb; exact hb
  | succ j =>
    rw [hj] at hb
    obtain ⟨t, A, htrail, hA⟩ := hb
    refine ⟨t, A, htrail, fun u hu hnow => ?_⟩
    rw [← hA u hu (Int64.le_trans hle hnow)]
    exact Keyspace.live_congr hnow hlive

/-- The snapshot is loaded. -/
theorem behind_reload {records : List Record} {amb : Ambient} (hran : C.ran = 0) (hb : Behind C)
    (hresync : C.sync.resync.isSome = true) (hrecords : records = C.origin.2.snapshot C.origin.1)
    (hS : C.origin.2.Sound) (hle : C.origin.1 ≤ amb.now) :
    Behind { C with
      ran := C.ran + 1
      replica := runTask table amb (.reload records) C.replica
      replicaClock := amb.now } := by
  unfold Behind at hb ⊢
  rw [hran] at hb ⊢
  refine ⟨C.origin.1, C.origin.2.view, hb hresync, fun u _ hu => ?_⟩
  show (resyncTask amb.now records C.replica.store).view.live u = _
  rw [hrecords, view_resyncTask hS hle]
  exact Keyspace.live_live hu C.origin.2.view

/-- The next command is run. -/
theorem behind_apply {d : Due Args Bytes Bytes Int64} {amb : Ambient} {j : Nat} (hran : C.ran = j + 1)
    (hb : Behind C) (hclock : C.replicaClock ≤ amb.now) (hd : C.due[j]? = some d) (hle : d.time ≤ amb.now)
    (hin : InTime amb.now d.before d.cmd) :
    Behind { C with
      ran := C.ran + 1
      replica := runTask table amb (.apply d.cmd) C.replica
      replicaClock := amb.now } := by
  unfold Behind at hb ⊢
  rw [hran] at hb ⊢
  obtain ⟨t, A, htrail, hA⟩ := hb
  obtain ⟨hj, hget⟩ := List.getElem?_eq_some_iff.mp hd
  rw [List.drop_eq_getElem_cons hj, hget] at htrail
  obtain ⟨htd, hbefore, w, hc, hrest⟩ := htrail
  have hN : C.replica.store.live amb.now = d.before.live amb.now := by
    rw [hA amb.now (Int64.le_trans htd hle) hclock, hbefore, Keyspace.live_live hle]
  exact ⟨d.time, _, hrest, fun u _ hu => Keyspace.live_congr hu (live_applySilently table hc hle hN hin)⟩

/-- A task that was posted before the link was made: it does not matter what it does. -/
theorem inv_task_queued (hi : Inv port C) {task : Task} {queue : List Task} (hq : C.queue = task :: queue)
    (amb : Ambient) : Inv port { C with
      queue, replica := runTask table amb task C.replica, replicaClock := amb.now } := by
  refine ⟨hi.sound, hi.clock, ?_⟩
  rcases hi.link with hb | hf
  · exact .inl ⟨hb.closed, hb.links⟩
  have hran : C.ran = 0 := hf.queue (by simp [hq])
  refine .inr ⟨hf.inv, hf.since, hf.canonical, hf.ran, fun _ => hran, hf.resync, ?_⟩
  have hb := hf.behind
  unfold Behind at hb ⊢
  dsimp only
  rw [hran] at hb ⊢
  exact hb

/-- All the commands that were parsed were posted. -/
theorem Following.posted (hf : Following port C) {records : List Record} {offset : Int64}
    {past ahead : List Args} (hs : View.Streaming C.link records offset past ahead (C.sync.view C.link)) :
    C.due.map Due.cmd = past ++ ahead ∧ C.sync.replica.posted = .reload records :: past.map .apply := by
  have hsince : C.due.map Due.cmd = past ++ ahead := hf.since.symm.trans hs.split
  have hall : past.filter handedOn = past := by
    refine List.filter_eq_self.mpr fun cmd hcmd => ?_
    have hmem : cmd ∈ C.due.map Due.cmd := hsince ▸ List.mem_append_left ahead hcmd
    obtain ⟨d, hd, rfl⟩ := List.mem_map.mp hmem
    obtain ⟨w, hw⟩ := hf.canonical d hd
    exact handedOn_of_canonical hw
  refine ⟨hsince, ?_⟩
  rw [← hall]
  exact hs.posted

/-- The next task of this connection: the snapshot first, then each command that is due. -/
theorem task_cases (hf : Following port C) {task : Task} (h : C.sync.replica.posted[C.ran]? = some task) :
    (∃ records offset, C.ran = 0 ∧ task = .reload records ∧ C.sync.resync = some (records, offset)) ∨
      ∃ j d, C.ran = j + 1 ∧ C.due[j]? = some d ∧ task = .apply d.cmd := by
  rcases hf.inv.stage.waiting_or_streaming with hw | ⟨-, records, offset, past, ahead, hs⟩
  · rw [show C.sync.replica.posted = [] from hw.posted] at h
    cases h
  obtain ⟨hsince, hposted⟩ := hf.posted hs
  rw [hposted] at h
  cases hj : C.ran with
  | zero =>
    rw [hj] at h
    exact .inl ⟨records, offset, rfl, (Option.some.inj h).symm, hs.resync⟩
  | succ j =>
    rw [hj, List.getElem?_cons_succ, List.getElem?_map, Option.map_eq_some_iff] at h
    obtain ⟨cmd, hcmd, rfl⟩ := h
    have hget : (C.due.map Due.cmd)[j]? = some cmd := by
      obtain ⟨hlt, -⟩ := List.getElem?_eq_some_iff.mp hcmd
      rw [hsince, List.getElem?_append_left hlt, hcmd]
    rw [List.getElem?_map, Option.map_eq_some_iff] at hget
    obtain ⟨d, hd, rfl⟩ := hget
    exact .inr ⟨j, d, rfl, hd, rfl⟩

theorem inv_task (hi : Inv port C) {amb : Ambient} (hclock : C.replicaClock ≤ amb.now)
    (hin : C.TaskInTime amb.now) : Inv port (C.step cfg port table (.task amb)) := by
  unfold step
  dsimp only
  cases hq : C.queue with
  | cons task queue => exact inv_task_queued hi hq amb
  | nil =>
    dsimp only
    cases hp : C.sync.replica.posted[C.ran]? with
    | none => exact hi
    | some task =>
      refine ⟨hi.sound, hi.clock, ?_⟩
      rcases hi.link with hb | hf
      · exact .inl ⟨hb.closed, hb.links⟩
      have hran := (List.getElem?_eq_some_iff.mp hp).1
      refine .inr ⟨hf.inv, hf.since, hf.canonical, hran, fun hne => absurd rfl hne, hf.resync, ?_⟩
      rcases task_cases hf hp with ⟨records, offset, h0, rfl, hresync⟩ | ⟨j, d, hj, hd, rfl⟩
      · replace hin := hin hq
        rw [if_pos h0] at hin
        obtain ⟨hrecords, hS⟩ := hf.resync records offset hresync
        exact behind_reload h0 hf.behind (by rw [hresync]; rfl) hrecords hS hin
      · replace hin := hin hq
        rw [if_neg (by omega), hj] at hin
        obtain ⟨hle, hin⟩ := hin d hd
        exact behind_apply hj hf.behind hclock hd hle hin

/-! ## Whole runs -/

variable (cfg) in
/-- The master accepts another connection, after it has closed the one before. -/
theorem accepted (hi : Inv port C) {link : ClientLink}
    (hc : (C.sync.master.repl.doClose C.link).closed link = true) (peer : Bytes) :
    Asio.step cfg (.accept link peer) (Asio.step cfg (.readFailed C.link) C.sync.master) =
      { C.sync.master with repl := (C.sync.master.repl.doClose C.link).put link { peer } } ∧
    Sync.Fresh link ((C.sync.master.repl.doClose C.link).put link { peer }) := by
  have hlinks : (C.sync.master.repl.doClose C.link).links = [] := by
    rcases hi.link with hb | hf
    · rw [Net.doClose, if_pos hb.closed]
      exact hb.links
    · exact hf.inv.links_of_closed (Net.shrinks_doClose ..) (by simp)
  refine ⟨if_pos hc, hlinks, ?_, ?_⟩
  · rw [Net.closed, Net.sessions_put, if_pos rfl]
  · rw [Net.sent, Net.sessions_put, if_pos rfl]; rfl

theorem inv_reconnect (hi : Inv port C) {link : ClientLink} {peer : Bytes}
    (hc : (C.sync.master.repl.doClose C.link).closed link = true) :
    Inv port (C.step cfg port table (.reconnect link peer)) := by
  obtain ⟨haccept, hfresh⟩ := accepted cfg hi hc peer
  unfold step
  dsimp only
  rw [haccept]
  refine ⟨hi.sound, hi.clock, .inr ⟨Sync.inv_start hfresh, rfl, fun d hd => absurd hd List.not_mem_nil,
    Nat.zero_le _, fun _ => rfl, fun records offset h => ?_, fun h => ?_⟩⟩
  · cases h
  · cases h

theorem inv_step {e : ClusterEvent} (hi : Inv port C) (h : Orderly cfg port table e C) :
    Inv port (C.step cfg port table e) := by
  cases e with
  | client e => exact inv_client hi h.1 h.2
  | cron layout expiry now => exact inv_cron hi layout expiry h
  | serve m => exact inv_serve hi h.1 h.2.1 h.2.2
  | link e => exact inv_link hi h
  | task amb => exact inv_task hi h.1 h.2
  | reader amb client args =>
    obtain ⟨hle, -, ops, hops, hr⟩ := h
    have hclean := (dispatch_replica_clean table amb args C.replica hops hr client).1
    refine hi.replica hle ?_
    rcases dispatch_effect table amb (some client) args C.replica with ⟨-, hlive⟩ | ⟨w, hd, -⟩
    · exact hlive
    · exact absurd (hd.symm.trans hclean) (by decide)
  | replicaCron layout expiry now => exact hi.replica h (Store.live_activeExpireCycle layout expiry now _)
  | reconnect link peer => exact inv_reconnect hi h

/-- The replica has connected to a master without replicas; its own store may be any. -/
structure Start (C : Cluster π ρ) : Prop where
  sync : C.sync = Sync.start C.sync.master
  fresh : Sync.Fresh C.link C.sync.master.repl
  sound : C.sync.master.store.Sound
  clock : 0 ≤ C.masterClock
  ran : C.ran = 0
  due : C.due = []

theorem inv_init (h : Start C) : Inv port C := by
  have hsync := h.sync
  refine ⟨h.sound, h.clock, .inr ⟨?_, ?_, ?_, ?_, fun _ => h.ran, fun records offset he => ?_, ?_⟩⟩
  · rw [hsync]; exact Sync.inv_start h.fresh
  · rw [hsync, h.due]; rfl
  · rw [h.due]; exact fun d hd => absurd hd List.not_mem_nil
  · rw [h.ran]; exact Nat.zero_le _
  · rw [hsync] at he; cases he
  · simp only [Behind, h.ran]
    rw [hsync]
    exact fun he => by cases he

/-- The link is open, and the replica has received and run all that was sent. -/
structure Settled (C : Cluster π ρ) : Prop where
  live : C.sync.master.repl.closed C.link = false
  phase : C.sync.replica.phase = .streaming
  down : C.sync.down C.link = []
  queue : C.queue = []
  ran : C.ran = C.sync.replica.posted.length

theorem due_of_settled (hf : Following port C) (hs : Settled C) :
    ∃ j, C.ran = j + 1 ∧ C.due.drop j = [] := by
  rcases hf.inv.stage.waiting_or_streaming with hw | ⟨-, records, offset, past, ahead, hst⟩
  · exact absurd hs.phase hw.phase.1
  obtain ⟨hsince, hposted⟩ := hf.posted hst
  have hahead : ahead = [] := by
    have hnil : encs ahead = [] := hst.down.symm.trans hs.down
    cases ahead with
    | nil => rfl
    | cons args ahead =>
      have := length_encode_pos args
      rw [encs_cons, List.append_eq_nil_iff] at hnil
      rw [hnil.1] at this
      cases this
  have hlen : C.due.length = past.length := by
    rw [← List.length_map Due.cmd, hsince, hahead, List.append_nil]
  refine ⟨past.length, ?_, List.drop_eq_nil_of_le (Nat.le_of_eq hlen)⟩
  rw [hs.ran, hposted, List.length_cons, List.length_map]

theorem Following.lags (hf : Following port C) {j : Nat} (hj : C.ran = j + 1) :
    ∃ t A, Trail Canonical t A (C.due.drop j) C.masterClock C.sync.master.store.view ∧
      ∀ u, t ≤ u → C.replicaClock ≤ u → C.replica.store.live u = A.live u := by
  have hb := hf.behind
  rw [Behind, hj] at hb
  exact hb

theorem Inv.live_of_settled (hi : Inv port C) (hs : Settled C) {u : Int64} (hm : C.masterClock ≤ u)
    (hr : C.replicaClock ≤ u) : C.replica.store.live u = C.sync.master.store.live u := by
  have hf := hi.following hs.live
  obtain ⟨j, hj, hdue⟩ := due_of_settled hf hs
  obtain ⟨t, A, htrail, hA⟩ := hf.lags hj
  rw [hdue] at htrail
  rw [hA u (Int64.le_trans htrail.1 hm) hr]
  exact htrail.settled hm

/-- In every orderly run of a master and its one replica, with any number of lost links, each closed by
the master before the next one is made: while the link is open and its snapshot is loaded, the replica
lags behind by the commands due, and when it has received and run all, the same keys are live on both,
with the same values and deadlines. -/
theorem cluster_converges (h₀ : Start C) {es : List ClusterEvent}
    (h : Along (step cfg port table) (Orderly cfg port table) es C) :
    let C' := run (step cfg port table) es C
    (C'.sync.master.repl.closed C'.link = false → ∀ j, C'.ran = j + 1 →
      ∃ t A, Trail Canonical t A (C'.due.drop j) C'.masterClock C'.sync.master.store.view ∧
        ∀ u, t ≤ u → C'.replicaClock ≤ u → C'.replica.store.live u = A.live u) ∧
    (Settled C' → ∀ u, C'.masterClock ≤ u → C'.replicaClock ≤ u →
      C'.replica.store.live u = C'.sync.master.store.live u) := by
  intro C'
  have hi : Inv port C' := h.invariant (fun _ _ hi ho => inv_step hi ho) (inv_init h₀)
  exact ⟨fun hc j hj => (hi.following hc).lags hj, fun hs u hm hr => hi.live_of_settled hs hm hr⟩

/-- A replica that has connected to a master with an empty store. -/
def connected : Cluster Unit Unit := { sync := Sync.connected, link := 1, replica := bareNode }

/-- The replica reads what the master has put out, and its thread acts on it. -/
def received : List ClusterEvent :=
  [.link .readEnd, .link .written, .link .written, .link (.deliver 1000), .link .act]

/-- The handshake, and the transfer. -/
def resyncAt (t : Int64) : List ClusterEvent :=
  (List.replicate 4 (.serve { amb := ⟨t, []⟩ } :: received)).flatten ++ [.link .act, .link .act]

/-- A client's SET at `t`. -/
def setAt (t : Int64) (args : Args) : ClusterEvent :=
  .client (.request { amb := ⟨t, []⟩ } 2 (str "SET" :: args))

/-- When the link breaks, one write has been posted, and one is on its way. -/
def lostRun : List ClusterEvent :=
  resyncAt 0 ++ [.task ⟨1, []⟩, .client (.accept 2 []), setAt 10 [str "a", str "1", str "PX", str "100"]] ++
    received ++ [setAt 20 [str "b", str "2"]]

/-- The replica connects anew, and a write comes after. -/
def lossyRun : List ClusterEvent :=
  lostRun ++ [.reconnect 1 []] ++ resyncAt 30 ++ [setAt 35 [str "c", str "3"]] ++ received ++
    List.replicate 3 (.task ⟨40, []⟩)

theorem start_connected : Start connected :=
  ⟨rfl, ⟨rfl, rfl, rfl⟩, Store.Reachable.sound .empty, by decide, rfl, rfl⟩

theorem lossyRun_converges :
    let C := run (step {} 6380 {}) lossyRun connected
    C.replica.store.live 40 = C.sync.master.store.live 40 ∧
      [str "a", str "b", str "c"].map (C.replica.store.live 40) =
        [some (str "1", some 110), some (str "2", none), some (str "3", none)] := by
  -- one evaluation of the run
  have hrun : Along (step {} 6380 {}) (Orderly {} 6380 {}) lossyRun connected ∧
      let C := run (step {} 6380 {}) lossyRun connected
      (C.sync.master.repl.closed C.link = false ∧ C.sync.replica.phase = .streaming ∧
        C.sync.down C.link = [] ∧ C.queue = [] ∧ C.ran = C.sync.replica.posted.length) ∧
      (C.masterClock ≤ 40 ∧ C.replicaClock ≤ 40) ∧
      [str "a", str "b", str "c"].map (C.replica.store.live 40) =
        [some (str "1", some 110), some (str "2", none), some (str "3", none)] := by
    decide +kernel
  obtain ⟨horderly, ⟨hlive, hphase, hdown, hqueue, hran⟩, ⟨hm, hr⟩, hkeys⟩ := hrun
  exact ⟨(cluster_converges start_connected horderly).2 ⟨hlive, hphase, hdown, hqueue, hran⟩ 40 hm hr, hkeys⟩

end Cluster

end RP
