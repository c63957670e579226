import RedisPlus.Replication.Follow

/-!
# The stream is exact

While the link stays open, and whatever the interleaving, the thread parses the snapshot that the
master serialized, hands on the commands propagated since in order, apart from those it consumes
itself, and from the moment it has stored its offset that offset and the bytes it has yet to parse
make up the master's (`stream_exact`). Before that moment they need not (`upToPsync_offset`).
-/

namespace RP

open Asio (Moment)
open Framework (run Along)

namespace Sync

open View

variable {cfg : ServerConfig} {port : UInt16} {link : ClientLink} {S : Sync}

/-! ## The master's side -/

/-- The invariant of the whole system. -/
structure Inv (port : UInt16) (link : ClientLink) (S : Sync) : Prop where
  live : S.master.repl.closed link = false
  read : S.read ≤ (S.master.repl.sent link).length
  stage : Stage port link (S.view link)

/-- The master moved, and sent `data` on the link. -/
theorem Inv.of_sent (hi : Inv port link S) {S' : Sync} {data : Bytes} (hreplica : S'.replica = S.replica)
    (hread : S'.read = S.read) (hs : S'.master.repl.sent link = S.master.repl.sent link ++ data)
    (hc : S'.master.repl.closed link = false)
    (hstage : Stage port link { S'.view link with down := S.down link ++ data }) : Inv port link S' := by
  have hdown : S'.down link = S.down link ++ data := by
    rw [down, inFlight, hreplica, hread, hs, List.drop_append_of_le_length hi.read, ← List.append_assoc]
    rfl
  refine ⟨hc, ?_, ?_⟩
  · have := hi.read
    rw [hread, hs, List.length_append]
    omega
  · rw [← hdown] at hstage
    exact hstage

/-- The master moved without sending anything on the link. -/
theorem Inv.of_quiet (hi : Inv port link S) {M : Node Unit Net} (hl : M.repl.links = S.master.repl.links)
    (ho : M.repl.repl.masterOffset = S.master.repl.repl.masterOffset)
    (hs : M.repl.sent link = S.master.repl.sent link) (hc : M.repl.closed link = false) :
    Inv port link { S with master := M } := by
  refine hi.of_sent rfl rfl (hs.trans (List.append_nil _).symm) hc ?_
  rw [List.append_nil]
  show Stage port link { S.view link with links := M.repl.links, masterOffset := M.repl.repl.masterOffset }
  rw [hl, ho]
  exact hi.stage

theorem inv_propagate (hi : Inv port link S) {args : Args} (hw : Within args)
    (hc : (S.step cfg port link (.propagate args)).master.repl.closed link = false) :
    Inv port link (S.step cfg port link (.propagate args)) := by
  have hstep : (S.step cfg port link (.propagate args)).master.repl =
      (S.master.repl.advance (encode args).length).fanOut cfg (encode args) S.master.repl.links.length 0 :=
    Net.propagate_eq args S.master.repl
  have hlinks : S.master.repl.links = [] ∨ S.master.repl.links = [link] := hi.stage.links
  suffices hsuff : (S.step cfg port link (.propagate args)).master.repl.links = S.master.repl.links ∧
      (S.step cfg port link (.propagate args)).master.repl.repl.masterOffset =
        S.master.repl.repl.masterOffset + Int64.ofNat (encode args).length ∧
      (S.step cfg port link (.propagate args)).master.repl.sent link =
        if S.master.repl.links = [] then S.master.repl.sent link
        else S.master.repl.sent link ++ encode args by
    obtain ⟨hl, ho, hs⟩ := hsuff
    have hstage := hi.stage.propagated hw
    have hview (down : Bytes) : ({ (S.step cfg port link (.propagate args)).view link with down } : View) =
        { (S.view link).propagated args with down } := by
      simp only [view, hl, ho]
      rfl
    split at hs
    · rename_i h
      replace h : (S.view link).links = [] := h
      refine hi.of_sent rfl rfl (hs.trans (List.append_nil _).symm) hc ?_
      rw [hview, List.append_nil]
      rw [View.propagated, if_pos h] at hstage
      exact hstage
    · rename_i h
      replace h : ¬ (S.view link).links = [] := h
      refine hi.of_sent rfl rfl hs hc ?_
      rw [hview]
      rw [View.propagated, if_neg h] at hstage
      exact hstage
  rw [hstep] at hc ⊢
  rcases hlinks with hl | hl
  · rw [hl]
    exact ⟨hl, rfl, (if_pos rfl).symm⟩
  · have hfan : (S.master.repl.advance (encode args).length).fanOut cfg (encode args) S.master.repl.links.length 0 =
        (S.master.repl.advance (encode args).length).send cfg link (encode args) := by
      have hadv : (S.master.repl.advance (encode args).length).links = [link] := hl
      simp [Net.fanOut, hl, hadv]
    rw [hfan] at hc ⊢
    have hover : (S.master.repl.advance (encode args).length).overflows cfg link (encode args) = false := by
      rw [Net.closed_send] at hc
      simpa using (Bool.or_eq_false_iff.mp hc).2
    refine ⟨?_, Net.masterOffset_send .., ?_⟩
    · rw [Net.links_send, hover]; rfl
    · rw [Net.sent_send, if_pos ⟨rfl, hi.live⟩, if_neg (by rw [hl]; simp)]
      rfl

end Sync

/-! ## The master's replies -/

namespace Asio

variable {π : Type} {cfg : ServerConfig}

/-- A dispatch that no replica refuses. -/
theorem dispatch_of_not_write (m : Moment π) (link : Option ClientLink) {arg : Bytes} (rest : Args)
    (N : Node π Net) (hw : isWriteCommand (commandName arg) = false)
    (hd : (runCommand (m.table cfg) m.amb (commandName arg) link (arg :: rest) N).1.dirty = false) :
    dispatch (m.table cfg) m.amb link (arg :: rest) N =
      runCommand (m.table cfg) m.amb (commandName arg) link (arg :: rest) N := by
  simp only [dispatch, hw]
  rw [if_neg (by simp), if_neg (by simp [hd])]

theorem outcome_ping (m : Moment π) (link : ClientLink) (N : Node π Net) :
    (outcome cfg m link pingCommand N).1 = { reply := Reply.simple (str "PONG") } := by
  have hname : commandName (str "PING") = some .ping := by decide
  rw [outcome, pingCommand, dispatch_of_not_write _ _ _ _ (by decide) (by rw [hname]; rfl), hname]
  rfl

theorem cmdReplconf_fst (m : Moment π) (link : Option ClientLink) (name sub value : Bytes) (N : Node π Net) :
    (cmdReplconf (m.table cfg) link [name, sub, value] N).1 =
      if upper sub = str "ACK" then {} else { reply := Reply.ok } := by
  simp only [cmdReplconf, Moment.table]
  split
  · rfl
  split
  · split
    · split <;> rfl
    · rfl
  · rfl

theorem outcome_replconf (m : Moment π) (link : ClientLink) (sub value : Bytes) (N : Node π Net) :
    (outcome cfg m link [str "REPLCONF", sub, value] N).1 =
      if upper sub = str "ACK" then {} else { reply := Reply.ok } := by
  have hname : commandName (str "REPLCONF") = some .replconf := by decide
  have hrun : runCommand (m.table cfg) m.amb (commandName (str "REPLCONF")) (some link)
      [str "REPLCONF", sub, value] N =
      cmdReplconf (m.table cfg) (some link) [str "REPLCONF", sub, value] N := by
    rw [hname]; rfl
  have hd : (cmdReplconf (m.table cfg) (some link) [str "REPLCONF", sub, value] N).1.dirty = false := by
    rw [cmdReplconf_fst]; split <;> rfl
  rw [outcome, dispatch_of_not_write _ _ _ _ (by decide) (by rw [hrun]; exact hd), hrun, cmdReplconf_fst]

/-- The master answers the commands of the replica's thread. -/
theorem answers (m : Moment π) (port : UInt16) (link : ClientLink) (args : Args) (N : Node π Net) :
    View.Answers port args (outcome cfg m link args N).1.reply where
  ping h := by rw [h, outcome_ping]
  listeningPort h := by rw [h, portCommand, outcome_replconf, if_neg (by decide)]
  capa h := by rw [h, capaCommand, outcome_replconf, if_neg (by decide)]
  ack n h := by rw [h, ackCommand, outcome_replconf, if_pos (by decide)]

end Asio

namespace Sync

open View

variable {cfg : ServerConfig} {port : UInt16} {link : ClientLink} {S : Sync}

theorem inv_reply (hi : Inv port link S) (m : Moment Unit) {args : Args} {up : List Args}
    (hup : S.up = args :: up) (hp : psyncs args = false) :
    Inv port link { S.serve cfg link m args with up } := by
  have hdirty : (Asio.outcome cfg m link args S.master).1.dirty = false := by
    rcases hi.stage.command hup hp with rfl | ⟨sub, value, rfl⟩
    · rw [Asio.outcome_ping]
    · rw [Asio.outcome_replconf]; split <;> rfl
  have hargs : args ≠ [] := by
    rcases hi.stage.command hup hp with rfl | ⟨sub, value, rfl⟩
    · decide
    · simp
  have hrepl : (Asio.step cfg (.request m link args) S.master).repl =
      Asio.replied cfg m link args S.master := by
    rw [Asio.repl_request, if_neg hargs, hdirty]; rfl
  have hq := @Asio.quiet_dispatch Unit cfg args hp m (some link) S.master
  have hsent : (Asio.step cfg (.request m link args) S.master).repl.sent link =
      S.master.repl.sent link ++ (Asio.outcome cfg m link args S.master).1.reply := by
    rw [hrepl, Asio.replied_eq, Net.sent, Net.sessions_put, if_pos rfl, Session.sent_append]
    rw [show (Asio.outcome cfg m link args S.master).2.repl.sessions = S.master.repl.sessions from hq.sessions]
    rfl
  have hclosed : (Asio.step cfg (.request m link args) S.master).repl.closed link = false := by
    rw [hrepl, Asio.replied_eq, Net.closed, Net.sessions_put, if_pos rfl, Session.closed_append]
    rw [show (Asio.outcome cfg m link args S.master).2.repl.sessions = S.master.repl.sessions from hq.sessions]
    exact hi.live
  have hserve : ({ S.serve cfg link m args with up } : Sync) =
      { S with master := Asio.step cfg (.request m link args) S.master, up } := by
    simp only [serve, hp]
    rfl
  have hlinks : (Asio.step cfg (.request m link args) S.master).repl.links = S.master.repl.links := by
    rw [hrepl]; exact hq.links
  have hoffset : (Asio.step cfg (.request m link args) S.master).repl.repl.masterOffset =
      S.master.repl.repl.masterOffset := by
    rw [hrepl]; exact hq.offset
  rw [hserve]
  refine hi.of_sent rfl rfl hsent hclosed ?_
  show Stage port link { S.view link with
    up
    down := (S.view link).down ++ (Asio.outcome cfg m link args S.master).1.reply
    links := (Asio.step cfg (.request m link args) S.master).repl.links
    masterOffset := (Asio.step cfg (.request m link args) S.master).repl.repl.masterOffset }
  rw [hlinks, hoffset]
  exact hi.stage.replied hup hp (Asio.answers ..)

end Sync

/-! ## A resync that leaves the link open -/

namespace Net

variable {cfg : ServerConfig} {link : ClientLink} {N : Net}

theorem fits_of_send {data : Bytes} (h : (N.send cfg link data).closed link = false) :
    Fits cfg link data.length N := by
  rw [closed_send] at h
  obtain ⟨hc, ho⟩ := Bool.or_eq_false_iff.mp h
  simp only [overflows, hc, overCap, Session.load_append, beq_self_eq_true, Bool.true_and, Bool.not_false,
    decide_eq_false_iff_not, Nat.not_lt] at ho
  exact ⟨hc, ho⟩

theorem Fits.of_send {data : Bytes} {n : Nat} (h : Fits cfg link n (N.send cfg link data)) :
    Fits cfg link (data.length + n) N := by
  have hf := fits_of_send h.1
  have hload := h.2
  rw [send_of_fits hf.1 (Fits.not_overflows (n := 0) hf)] at hload
  simp only [sessions_put, if_true, Session.load_flush, Session.load_append] at hload
  exact ⟨hf.1, by omega⟩

/-- A resync after which the link is open did fit. -/
theorem fits_of_startFullResync {now : Int64} {S : Store}
    (h : (N.startFullResync cfg now S (some link)).closed link = false) :
    Fits cfg link (N.transfer now S).length N := by
  have hlast : Fits cfg link (rdbSerialize (S.snapshot now)).length
      ((N.send cfg link (fullresyncLine N.repl)).send cfg link
        (rdbLengthLine (rdbSerialize (S.snapshot now)))) := fits_of_send h
  have hall := hlast.of_send.of_send
  have hlen : (N.transfer now S).length = (fullresyncLine N.repl).length +
      ((rdbLengthLine (rdbSerialize (S.snapshot now))).length + (rdbSerialize (S.snapshot now)).length) := by
    simp only [transfer, rdbTransfer, List.length_append]
  rw [hlen]
  exact hall

theorem masterOffset_startFullResync (now : Int64) (S : Store) :
    (N.startFullResync cfg now S (some link)).repl.masterOffset = N.repl.masterOffset := by
  simp only [startFullResync, pushReplica, masterOffset_send]

end Net

namespace Sync

open View

variable {cfg : ServerConfig} {port : UInt16} {link : ClientLink} {S : Sync}

theorem inv_resync (hi : Inv port link S) (m : Moment Unit) {args : Args} {up : List Args}
    (hup : S.up = args :: up) (hp : psyncs args = true)
    (hc : (Asio.step cfg (.request m link args) S.master).repl.closed link = false) :
    Inv port link { S.serve cfg link m args with up } := by
  have hopen :
      (S.master.repl.startFullResync cfg m.amb.now S.master.store (some link)).closed link = false := by
    rw [Asio.repl_psync hp] at hc
    simpa [Net.closed, Net.sessions_put] using hc
  have hfits := Net.fits_of_startFullResync hopen
  obtain ⟨hlinks, -, hsent⟩ := Asio.step_psync (m := m) hp hfits
  have hsent' := (hsent link).trans (if_pos rfl)
  have hoffset : (Asio.step cfg (.request m link args) S.master).repl.repl.masterOffset =
      S.master.repl.repl.masterOffset := by
    rw [Asio.repl_psync hp]
    exact Net.masterOffset_startFullResync ..
  -- an open link's output is within the cap, which is a `size_t`
  have hsize : (rdbSerialize (S.master.store.snapshot m.amb.now)).length < 2 ^ 64 := by
    have hcap := cfg.maxOutputBuffer.toNat_lt
    have hle := hfits.2
    simp only [Net.transfer, Net.rdbTransfer, List.length_append] at hle
    omega
  have hserve : ({ S.serve cfg link m args with up } : Sync) =
      { S with
        master := Asio.step cfg (.request m link args) S.master
        up
        resync := some (S.master.store.snapshot m.amb.now, S.master.repl.repl.masterOffset)
        since := [] } := by
    simp only [serve, hp]
    rfl
  rw [hserve]
  refine hi.of_sent rfl rfl hsent' hc ?_
  show Stage port link { S.view link with
    up
    down := (S.view link).down ++ S.master.repl.transfer m.amb.now S.master.store
    links := (Asio.step cfg (.request m link args) S.master).repl.links
    masterOffset := (Asio.step cfg (.request m link args) S.master).repl.repl.masterOffset
    resync := some (S.master.store.snapshot m.amb.now, S.master.repl.repl.masterOffset)
    since := [] }
  rw [hlinks, hoffset]
  exact hi.stage.resynced hup hp hsize (R := S.master.repl.repl) rfl

theorem inv_readEnd (hi : Inv port link S)
    (hc : (S.step cfg port link .readEnd).master.repl.closed link = false) :
    Inv port link (S.step cfg port link .readEnd) := by
  have hcap : Net.overCap cfg { S.master.repl.sessions link with input := Buffer.empty } = false := by
    by_contra hover
    have hclosed : (Asio.readEnd cfg link Buffer.empty S.master.repl).closed link = true := by
      rw [Asio.readEnd]
      dsimp only
      rw [if_pos (by simpa using hover)]
      simp
    exact absurd (hclosed.symm.trans hc) (by decide)
  have hput : Asio.readEnd cfg link Buffer.empty S.master.repl =
      S.master.repl.put link { S.master.repl.sessions link with input := Buffer.empty : Session }.flush := by
    rw [Asio.readEnd]
    dsimp only
    rw [if_neg (by simp [hcap])]
  refine hi.of_quiet ?_ ?_ ?_ hc
  · show (Asio.readEnd cfg link Buffer.empty S.master.repl).links = _
    rw [hput]; rfl
  · show (Asio.readEnd cfg link Buffer.empty S.master.repl).repl.masterOffset = _
    rw [hput]; rfl
  · show (Asio.readEnd cfg link Buffer.empty S.master.repl).sent link = _
    rw [hput]
    exact Net.sent_put (by rw [Session.sent_flush]; rfl)

/-- What is assumed of an event: a propagated command is within the parser's limits, and the link
is open after it. -/
def Fair (cfg : ServerConfig) (port : UInt16) (link : ClientLink) (e : SyncEvent) (S : Sync) : Prop :=
  (match e with | .propagate args => Within args | _ => True) ∧
    (S.step cfg port link e).master.repl.closed link = false

instance Fair.decide (cfg : ServerConfig) (port : UInt16) (link : ClientLink) (S : Sync) :
    ∀ e, Decidable (Fair cfg port link e S)
  | .propagate args => inferInstanceAs (Decidable (Within args ∧ _))
  | .serve _ | .readEnd | .written | .write _ | .deliver _ | .act | .tick =>
    inferInstanceAs (Decidable (True ∧ _))

theorem inv_step {e : SyncEvent} (hi : Inv port link S) (h : Fair cfg port link e S) :
    Inv port link (S.step cfg port link e) := by
  obtain ⟨hw, hc⟩ := h
  cases e with
  | serve m =>
    cases hup : S.up with
    | nil => simpa [step, hup] using hi
    | cons args up =>
      have hstep : S.step cfg port link (.serve m) = { S.serve cfg link m args with up } := by
        simp only [step, hup]
      rw [hstep] at hc ⊢
      by_cases hp : psyncs args = true
      · refine inv_resync hi m hup hp ?_
        simpa [serve, hp] using hc
      · exact inv_reply hi m hup (by simpa using hp)
  | readEnd => exact inv_readEnd hi hc
  | written => exact hi.of_quiet rfl rfl (Net.sent_put (Session.sent_onWritten _)) hc
  | propagate args => exact inv_propagate hi hw hc
  | write store => exact hi.of_quiet rfl rfl rfl hc
  | deliver n =>
    refine ⟨hc, ?_, by rw [view_deliver]; exact hi.stage⟩
    have hlen := (@chunk_front link S n).length_le
    have := hi.read
    rw [inFlight, List.length_drop] at hlen
    show S.read + _ ≤ (S.master.repl.sent link).length
    omega
  | act => exact ⟨hc, hi.read, stage_act hi.stage⟩
  | tick => exact ⟨hc, hi.read, stage_tick hi.stage⟩

/-- What holds of every state while the link is open: the payload that was parsed is the
serialized snapshot, the commands handed to `apply_` are those propagated since in order, apart
from those that the replica consumes, up to some point, and once the offset is stored it and the
bytes that are yet to be parsed make up the master's offset. -/
structure Exact (link : ClientLink) (S : Sync) : Prop where
  payload : ∀ payload, S.replica.rdb = some payload →
    ∃ records offset, S.resync = some (records, offset) ∧ payload = rdbSerialize records
  applied : S.replica.applied <+: S.since.filter handedOn
  offset : S.replica.phase = .streaming → S.replica.offset +
    Int64.ofNat (S.replica.buffer ++ S.inFlight link).length = S.master.repl.repl.masterOffset
  going : S.replica.phase ≠ .failed ∧ S.replica.phase ≠ .hung

theorem applied_of_posted {T : ReplicaThread} {records : List Record} {cmds : List Args}
    (h : T.posted = .reload records :: cmds.map .apply) : T.applied = cmds := by
  rw [ReplicaThread.applied, h, List.filterMap_cons_none rfl, List.filterMap_map]
  exact List.filterMap_some

theorem exact_of_inv (hi : Inv port link S) : Exact link S := by
  rcases hi.stage.waiting_or_streaming with hw | ⟨hphase, records, offset, past, ahead, hs⟩
  · obtain ⟨hstreaming, hgoing⟩ := hw.phase
    refine ⟨fun payload he => ?_, ?_, fun he => absurd he hstreaming, hgoing⟩
    · exact absurd (he.symm.trans hw.rdb) (by simp)
    · rw [ReplicaThread.applied, show S.replica.posted = [] from hw.posted]
      exact List.nil_prefix
  · have hphase' : S.replica.phase = .streaming := hphase
    refine ⟨fun payload he => ⟨records, offset, hs.resync, ?_⟩, ?_, fun _ => hs.replicaOffset, ?_⟩
    · exact Option.some.inj (he.symm.trans hs.rdb)
    · rw [applied_of_posted hs.posted, show S.since = past ++ ahead from hs.split, List.filter_append]
      exact List.prefix_append ..
    · simp [hphase']

/-- A master without replicas, and an open connection with nothing sent on it yet. -/
structure Fresh (link : ClientLink) (N : Net) : Prop where
  links : N.links = []
  live : N.closed link = false
  sent : N.sent link = []

theorem inv_start {master : Node Unit Net} (h : Fresh link master.repl) : Inv port link (start master) :=
  ⟨h.live, Nat.zero_le _, ⟨h.links, rfl, rfl⟩, .inl ⟨rfl, by simp [view, down, inFlight, start, h.sent]⟩⟩

/-- In every run of a master and a replica on a link that stays open, the stream is exact. -/
theorem stream_exact {master : Node Unit Net} (h₀ : Fresh link master.repl) {es : List SyncEvent}
    (h : Along (step cfg port link) (Fair cfg port link) es (start master)) :
    Exact link (run (step cfg port link) es (start master)) :=
  exact_of_inv (h.invariant (fun _ _ hi hf => inv_step hi hf) (inv_start h₀))

/-- A master with an empty store, to which the replica has connected on link 1. -/
def connected : Sync := start (Asio.step {} (.accept 1 []) Asio.emptyMaster)

/-- One exchange of the handshake: the command is handled, and its reply delivered and read. -/
def exchange : List SyncEvent := [.serve {}, .readEnd, .deliver 100, .act, .written]

/-- The handshake up to the handling of PSYNC. -/
def upToPsync : List SyncEvent := exchange ++ exchange ++ exchange ++ [.serve {}]

/-- A write is propagated, and the replica reads all that is sent. -/
def upToWrite : List SyncEvent := upToPsync ++
  [.propagate [str "SET", str "k", str "v"], .deliver 30, .deliver 100, .act, .written, .deliver 1000,
    .act, .act, .act]

theorem upToWrite_exact :
    let S := run (step {} 6380 1) upToWrite connected
    Exact 1 S ∧ S.replica.applied = [[str "SET", str "k", str "v"]] := by
  refine ⟨stream_exact ⟨rfl, rfl, rfl⟩ (by decide +kernel), by decide +kernel⟩

/-- With the transfer on its way, the replica's offset is still 0, and so is the master's. -/
theorem upToPsync_offset :
    let S := run (step {} 6380 1) upToPsync connected
    S.replica.offset + Int64.ofNat (S.replica.buffer ++ S.inFlight 1).length ≠
      S.master.repl.repl.masterOffset := by
  decide +kernel

end Sync

end RP