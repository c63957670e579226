import RedisPlus.Replication.Convergence

/-!
# A replica catches up

A replica that has connected can always be brought in step with its master: the handshake's
commands are served, what the session puts out is written and read (`run_pump`), and the thread
acts on it (`Ready.expect`, `Ready.resync`). The invariant of the stream leaves the thread no other
way than the next phase. So from every state of an orderly run, however the link was lost, the
replica gets to where the same keys are live on both (`cluster_recovers`).
-/

namespace RP

open Asio (Moment)
open Framework (run run_append run_cons run_nil Along along_append)

/-! ## What a session puts out -/

namespace Session

variable {s : Session}

/-- The write in flight, if there is one, is of all of `out`. -/
def Tidy (s : Session) : Prop := s.writing = none ∧ s.out = [] ∨ s.writing = some s.out.length

/-- All that was put out has been written. -/
def drained (s : Session) : Session := { s with written := s.sent, out := [], pending := [], writing := none }

theorem Tidy.append (h : s.Tidy) (data : Bytes) : (s.append data).Tidy := h

theorem Tidy.flush (h : s.Tidy) : s.flush.Tidy := by
  unfold Session.flush
  rcases h with ⟨hw, ho⟩ | hw
  · rw [if_neg (by simp [hw])]
    dsimp only
    split
    · rename_i hnil
      exact .inl ⟨hw, hnil⟩
    · exact .inr rfl
  · rw [if_pos (by simp [hw])]
    exact .inr hw

/-- Without a write in flight, one write is all it takes. -/
theorem onWritten_flush (hw : s.writing = none) (ho : s.out = []) : s.flush.onWritten = s.drained := by
  obtain ⟨input, out, pending, writing, closed, peer, written⟩ := s
  dsimp only at hw ho
  subst hw ho
  cases pending with
  | nil => simp [flush, onWritten, drained, sent]
  | cons c pending => simp [flush, onWritten, drained, sent]

theorem onWritten_drained (s : Session) : s.drained.onWritten = s.drained := rfl

/-- Two writes are enough. -/
theorem Tidy.drains (h : s.Tidy) : s.flush.onWritten.onWritten = s.drained := by
  rcases h with ⟨hw, ho⟩ | hw
  · rw [onWritten_flush hw ho, onWritten_drained]
  · have hflush : s.flush = s := if_pos (by simp [hw])
    have hfirst : s.onWritten = ({ s with
        writing := none, written := s.written ++ s.out, out := [] } : Session).flush := by
      simp [onWritten, hw]
    rw [hflush, hfirst, onWritten_flush rfl rfl]
    simp [drained, sent]

end Session

namespace Sync

open View

variable {cfg : ServerConfig} {port : UInt16} {link : ClientLink} {S : Sync}

/-- The end of the read callback, the writes of all that was put out, and a read of `n` bytes. -/
def pump (n : Nat) : List SyncEvent := [.readEnd, .written, .written, .deliver n]

/-- All that the master put out has been read. -/
def pumped (link : ClientLink) (S : Sync) : Sync :=
  let session : Session := { S.master.repl.sessions link with input := Buffer.empty }
  { S with
    master := { S.master with repl := S.master.repl.put link session.drained }
    replica := { S.replica with buffer := S.down link }
    read := S.read + (S.inFlight link).length }

theorem put_put (N : Net) (s s' : Session) : (N.put link s).put link s' = N.put link s' := by
  simp [Net.put]

variable (cfg port) in
theorem run_pump (htidy : (S.master.repl.sessions link).Tidy)
    (hcap : (S.master.repl.sessions link).load ≤ cfg.maxOutputBuffer.toNat) :
    run (step cfg port link) (pump (S.inFlight link).length) S = S.pumped link := by
  have htidy' : ({ S.master.repl.sessions link with input := Buffer.empty } : Session).Tidy := htidy
  have hreadEnd : Asio.readEnd cfg link Buffer.empty S.master.repl =
      S.master.repl.put link { S.master.repl.sessions link with input := Buffer.empty : Session }.flush := by
    rw [Asio.readEnd]
    dsimp only
    rw [if_neg]
    simp only [Net.overCap, decide_eq_true_eq, Nat.not_lt]
    exact hcap
  have hsession (s : Session) : (S.master.repl.put link s).sessions link = s := by
    rw [Net.sessions_put, if_pos rfl]
  have htransmitted : (({ S.master.repl.sessions link with input := Buffer.empty } : Session).drained).transmitted =
      S.master.repl.sent link := List.append_nil _
  simp only [pump, run_cons, run_nil, step, Asio.step, hreadEnd, hsession, put_put, htidy'.drains,
    htransmitted]
  have hall : ((S.master.repl.sent link).drop S.read).take (S.inFlight link).length = S.inFlight link :=
    List.take_length
  rw [hall]
  rfl

theorem session_pumped : (S.pumped link).master.repl.sessions link =
    ({ S.master.repl.sessions link with input := Buffer.empty } : Session).drained := by
  rw [pumped, Net.sessions_put, if_pos rfl]

theorem sent_pumped : (S.pumped link).master.repl.sent link = S.master.repl.sent link := by
  rw [Net.sent, session_pumped]
  simp [Session.drained, Session.sent, Net.sent]

theorem inFlight_pumped (hread : S.read ≤ (S.master.repl.sent link).length) :
    (S.pumped link).inFlight link = [] := by
  rw [inFlight, sent_pumped]
  refine List.drop_eq_nil_of_le ?_
  show _ ≤ S.read + (S.inFlight link).length
  rw [inFlight, List.length_drop]
  omega

theorem inv_pumped (hi : Inv port link S) : Inv port link (S.pumped link) := by
  have hview : (S.pumped link).view link = S.view link := by
    have hdown : (S.pumped link).down link = S.down link := by
      rw [down, inFlight_pumped hi.read, List.append_nil]
      rfl
    simp only [view, hdown]
    rfl
  refine ⟨?_, ?_, by rw [hview]; exact hi.stage⟩
  · rw [Net.closed, session_pumped]
    exact hi.live
  · have := hi.read
    rw [sent_pumped]
    show S.read + (S.inFlight link).length ≤ _
    rw [inFlight, List.length_drop]
    omega

/-! ## The handshake -/

/-- The master serves the link at the moment `m`, which leaves it open, or an event is the link's own. -/
def Calm (cfg : ServerConfig) (port : UInt16) (link : ClientLink) (m : Moment Unit) (e : SyncEvent)
    (S : Sync) : Prop :=
  e.onLink = true ∨ e = .serve m ∧ S.master.repl.closed link = false ∧
    (S.step cfg port link (.serve m)).master.repl.closed link = false

/-- Such events lead from `S` to `S'`. -/
def Leads (cfg : ServerConfig) (port : UInt16) (link : ClientLink) (m : Moment Unit) (S S' : Sync) : Prop :=
  ∃ es, Along (step cfg port link) (Calm cfg port link m) es S ∧ run (step cfg port link) es S = S'

theorem Leads.trans {m : Moment Unit} {S S' S'' : Sync} (h : Leads cfg port link m S S')
    (h' : Leads cfg port link m S' S'') : Leads cfg port link m S S'' := by
  obtain ⟨es, ha, rfl⟩ := h
  obtain ⟨es', ha', rfl⟩ := h'
  exact ⟨es ++ es', along_append.mpr ⟨ha, ha'⟩, run_append ..⟩

/-- A command is served, all that was put out is read, and the thread acts `k` times. -/
theorem leads_exchange {m : Moment Unit} {S₁ : Sync} (hserve : S.step cfg port link (.serve m) = S₁)
    (hc : S.master.repl.closed link = false) (hc' : S₁.master.repl.closed link = false)
    (htidy : (S₁.master.repl.sessions link).Tidy)
    (hcap : (S₁.master.repl.sessions link).load ≤ cfg.maxOutputBuffer.toNat) (k : Nat) :
    Leads cfg port link m S (run (step cfg port link) (List.replicate k .act) (S₁.pumped link)) := by
  refine ⟨.serve m :: (pump (S₁.inFlight link).length ++ List.replicate k .act), ⟨?_, ?_⟩, ?_⟩
  · exact .inr ⟨rfl, hc, by rw [hserve]; exact hc'⟩
  · have hall : ∀ e ∈ pump (S₁.inFlight link).length ++ List.replicate k .act, e.onLink = true := by
      intro e he
      rcases List.mem_append.mp he with he | he
      · simp only [pump, List.mem_cons, List.not_mem_nil, or_false] at he
        rcases he with rfl | rfl | rfl | rfl <;> rfl
      · rw [List.eq_of_mem_replicate he]; rfl
    exact (Along.of_mem _ hall).imp (I := fun _ => True) (fun _ _ _ _ => trivial)
      (fun _ _ _ h => .inl h) trivial
  · rw [run_cons, hserve, run_append, run_pump cfg port htidy hcap]

/-- The thread has used all that was put out, and `asked` is on its way to the master. -/
structure Ready (port : UInt16) (link : ClientLink) (phase : Phase) (asked : Args) (S : Sync) : Prop where
  inv : Inv port link S
  phase : S.replica.phase = phase
  up : S.up = [asked]
  buffer : S.replica.buffer = []
  inFlight : S.inFlight link = []
  tidy : (S.master.repl.sessions link).Tidy
  load : (S.master.repl.sessions link).load = 0

theorem readLine_isSome {buffer : Bytes} (h : crlf <:+: buffer) : ∃ p, readLine buffer = some p := by
  cases hf : findCrlf buffer with
  | none => exact absurd h (Framework.find2_eq_none_iff.mp hf)
  | some eol => exact ⟨_, by rw [readLine, hf]; rfl⟩

variable (cfg link) in
/-- What the replica asks, apart from PSYNC, leaves the store and the offset alone. -/
theorem master_of_command {args : Args}
    (hargs : args = pingCommand ∨ ∃ sub value, args = [str "REPLCONF", sub, value])
    (m : Moment Unit) (N : Node Unit Net) :
    (Asio.step cfg (.request m link args) N).store = N.store ∧
      (Asio.step cfg (.request m link args) N).repl.repl.masterOffset = N.repl.repl.masterOffset ∧
      (Asio.step cfg (.request m link args) N).repl.sessions link =
        (N.repl.sessions link).append (Asio.outcome cfg m link args N).1.reply := by
  have hne : args ≠ [] := by
    rcases hargs with rfl | ⟨sub, value, rfl⟩
    · decide
    · simp
  have hp : psyncs args = false := by
    rcases hargs with rfl | ⟨sub, value, rfl⟩ <;> rfl
  have hclean : (Asio.outcome cfg m link args N).1.dirty = false := by
    rcases hargs with rfl | ⟨sub, value, rfl⟩
    · rw [Asio.outcome_ping]
    · rw [Asio.outcome_replconf]; split <;> rfl
  have hstore : (Asio.outcome cfg m link args N).2.store = N.store := by
    rcases dispatch_node (m.table cfg) m.amb (some link) args N with he | he <;> rw [Asio.outcome, he]
    rcases hargs with rfl | ⟨sub, value, rfl⟩
    · rfl
    · obtain ⟨reply, repl, hr, -⟩ := cmdReplconf_cases (m.table cfg) (some link)
        [str "REPLCONF", sub, value] N
      have hname : ([str "REPLCONF", sub, value].head?.bind commandName) = some .replconf := by
        show commandName (str "REPLCONF") = _
        decide
      rw [hname, runCommand, hr]
  have hq := @Asio.quiet_dispatch Unit cfg args hp m (some link) N
  have hrepl : (Asio.step cfg (.request m link args) N).repl = Asio.replied cfg m link args N := by
    rw [Asio.repl_request, if_neg hne, if_neg (by simp [hclean])]
  refine ⟨(Cluster.store_request m link hne N).trans hstore, ?_, ?_⟩
  · rw [hrepl]; exact hq.offset
  · rw [hrepl, Asio.replied_eq, Net.sessions_put, if_pos rfl]
    rw [show (Asio.outcome cfg m link args N).2.repl.sessions = N.repl.sessions from hq.sessions]

variable (cfg port link) in
theorem step_serve {args : Args} {up : List Args} (hup : S.up = args :: up) (m : Moment Unit) :
    S.step cfg port link (.serve m) = { S.serve cfg link m args with up } := by
  simp only [step, hup]

/-- The thread acts on a whole line: if it goes on, then to the next phase, with the next command. -/
theorem act_expect {line expected error : Bytes} {next : Phase} {cmd : Args} (hline : 13 ∉ line)
    (hbuffer : S.replica.buffer = line ++ crlf)
    (hact : S.replica.act port = S.replica.expect expected error next cmd) :
    (S.step cfg port link .act).replica.phase = .failed ∨
      (S.step cfg port link .act).replica.phase = next ∧
        (S.step cfg port link .act).replica.buffer = [] ∧ (S.step cfg port link .act).up = S.up ++ [cmd] := by
  have hread : readLine S.replica.buffer = some (line, []) := by
    have hfind : findCrlf (line ++ crlf) = some line.length := Framework.find2_of_not_mem [] hline
    rw [hbuffer, readLine, hfind, Option.map_some, List.take_left, ← List.drop_drop, List.drop_left]
    rfl
  simp only [step, hact, ReplicaThread.expect, hread]
  split
  · exact .inr ⟨rfl, rfl, rfl⟩
  · exact .inl rfl

/-- A phase of the handshake: the command is answered, and the next one sent. -/
theorem Ready.expect {phase next : Phase} {asked cmd : Args} {expected error : Bytes}
    (h : Ready port link phase asked S) (line : Bytes)
    (hcmd : asked = pingCommand ∨ ∃ sub value, asked = [str "REPLCONF", sub, value])
    (hstage : ∀ V : View, V.phase = phase → Stage port link V → Asks asked (line ++ crlf) V)
    (hact : ∀ T : ReplicaThread, T.phase = phase → T.act port = T.expect expected error next cmd)
    (hline : 13 ∉ line) (hcap : (line ++ crlf).length ≤ cfg.maxOutputBuffer.toNat) (m : Moment Unit) :
    ∃ S', Leads cfg port link m S S' ∧ Ready port link next cmd S' ∧
      S'.master.store = S.master.store ∧
      S'.master.repl.repl.masterOffset = S.master.repl.repl.masterOffset := by
  have hp : psyncs asked = false := by
    rcases hcmd with rfl | ⟨sub, value, rfl⟩ <;> rfl
  obtain ⟨hstore, hoffset, hsession⟩ := master_of_command cfg link hcmd m S.master
  have hstep := step_serve cfg port link h.up m
  have hserve : S.step cfg port link (.serve m) =
      { S with master := Asio.step cfg (.request m link asked) S.master, up := [] } := by
    rw [hstep]
    simp only [serve, hp]
    rfl
  have hi₁ : Inv port link (S.step cfg port link (.serve m)) := by
    rw [hstep]; exact inv_reply h.inv m h.up hp
  generalize hS₁ : S.step cfg port link (.serve m) = S₁ at hserve hi₁
  -- the answer is all there is to read
  have hdown : S₁.down link = line ++ crlf := by
    have hasks := hstage (S₁.view link) (by rw [hserve]; exact h.phase) hi₁.stage
    rcases hasks.either with ⟨hup, -⟩ | ⟨-, hdown⟩
    · rw [hserve] at hup; cases hup
    · exact hdown
  have hsession₁ : S₁.master.repl.sessions link =
      (S.master.repl.sessions link).append (Asio.outcome cfg m link asked S.master).1.reply := by
    rw [hserve]; exact hsession
  have hload : (S₁.master.repl.sessions link).load ≤ cfg.maxOutputBuffer.toNat := by
    have hreply : S₁.down link = (Asio.outcome cfg m link asked S.master).1.reply := by
      have hsent : S₁.master.repl.sent link =
          S.master.repl.sent link ++ (Asio.outcome cfg m link asked S.master).1.reply := by
        rw [Net.sent, hsession₁, Session.sent_append]; rfl
      have hflight : S₁.inFlight link = (Asio.outcome cfg m link asked S.master).1.reply := by
        rw [Sync.inFlight, hsent, show S₁.read = S.read by rw [hserve],
          List.drop_append_of_le_length h.inv.read]
        exact congrArg (· ++ _) h.inFlight
      rw [down, hflight, show S₁.replica.buffer = [] by rw [hserve]; exact h.buffer]
      rfl
    rw [hsession₁, Session.load_append, h.load, Nat.zero_add, ← hreply, hdown]
    exact hcap
  have htidy : (S₁.master.repl.sessions link).Tidy := by rw [hsession₁]; exact h.tidy.append _
  refine ⟨(S₁.pumped link).step cfg port link .act,
    leads_exchange hS₁ h.inv.live hi₁.live htidy hload 1, ?_, ?_, ?_⟩
  · have hi₂ := inv_pumped hi₁
    have hi₃ : Inv port link ((S₁.pumped link).step cfg port link .act) := inv_step hi₂ ⟨trivial, hi₂.live⟩
    have hphase : (S₁.pumped link).replica.phase = phase := by rw [hserve]; exact h.phase
    rcases act_expect hline hdown (hact _ hphase) with hfailed | ⟨hnext, hbuffer, hup⟩
    · exact absurd hfailed (exact_of_inv hi₃).going.1
    refine ⟨hi₃, hnext, ?_, hbuffer, inFlight_pumped hi₁.read, ?_, ?_⟩
    · rw [hup, hserve]; rfl
    · rw [show ((S₁.pumped link).step cfg port link .act).master = (S₁.pumped link).master from rfl,
        session_pumped]
      exact .inl ⟨rfl, rfl⟩
    · rw [show ((S₁.pumped link).step cfg port link .act).master = (S₁.pumped link).master from rfl,
        session_pumped]
      rfl
  · show S₁.master.store = _
    rw [hserve]; exact hstore
  · show S₁.master.repl.repl.masterOffset = _
    rw [hserve]; exact hoffset

end Sync

/-! ## The transfer -/

namespace Net

variable {cfg : ServerConfig} {link : ClientLink} {N : Net}

theorem Fits.tidy_send {data : Bytes} {n : Nat} (h : Fits cfg link (data.length + n) N)
    (htidy : (N.sessions link).Tidy) : ((N.send cfg link data).sessions link).Tidy := by
  rw [send_of_fits h.1 h.not_overflows, sessions_put, if_pos rfl]
  exact (htidy.append data).flush

theorem startFullResync_tidy {now : Int64} {S : Store} (h : Fits cfg link (N.transfer now S).length N)
    (htidy : (N.sessions link).Tidy) :
    ((N.startFullResync cfg now S (some link)).sessions link).Tidy ∧
      ((N.startFullResync cfg now S (some link)).sessions link).load ≤ cfg.maxOutputBuffer.toNat := by
  have hlen : (N.transfer now S).length = (fullresyncLine N.repl).length +
      ((rdbLengthLine (rdbSerialize (S.snapshot now))).length + ((rdbSerialize (S.snapshot now)).length + 0)) := by
    simp only [transfer, rdbTransfer, List.length_append, Nat.add_zero]
  rw [hlen] at h
  exact ⟨h.send.send.tidy_send (h.send.tidy_send (h.tidy_send htidy)), h.send.send.send.2⟩

/-- How long the transfer is depends on the offset and the snapshot only. -/
theorem length_transfer {N' : Net} (h : N'.repl.masterOffset = N.repl.masterOffset) (now : Int64) (S : Store) :
    (N'.transfer now S).length = (N.transfer now S).length := by
  simp only [transfer, fullresyncLine, List.length_append, h, N.repl.replid.length_eq, N'.repl.replid.length_eq]

end Net

namespace Sync

open View

variable {cfg : ServerConfig} {port : UInt16} {link : ClientLink} {S : Sync}

section

variable (cfg port link)

/-- The thread waits for a line, and has read one. -/
theorem act_fullresync (hphase : S.replica.phase = .fullresync) (hline : crlf <:+: S.replica.buffer) :
    (S.step cfg port link .act).replica.phase = .failed ∨
      ∃ offset, (S.step cfg port link .act).replica.phase = .rdbHeader offset := by
  obtain ⟨p, hp⟩ := readLine_isSome hline
  simp only [step, ReplicaThread.act, hphase, ReplicaThread.onFullresync, hp]
  split
  · exact .inr ⟨_, rfl⟩
  · exact .inl rfl

theorem act_rdbHeader {offset : Int64} (hphase : S.replica.phase = .rdbHeader offset)
    (hline : crlf <:+: S.replica.buffer) :
    (S.step cfg port link .act).replica.phase = .failed ∨
      ∃ len, (S.step cfg port link .act).replica.phase = .rdbPayload offset len := by
  obtain ⟨p, hp⟩ := readLine_isSome hline
  simp only [step, ReplicaThread.act, hphase, ReplicaThread.onRdbHeader, hp]
  split
  · exact .inr ⟨_, rfl⟩
  · exact .inl rfl

theorem act_rdbPayload {offset : Int64} {len : Nat} (hphase : S.replica.phase = .rdbPayload offset len)
    (hlen : len ≤ S.replica.buffer.length) :
    (S.step cfg port link .act).replica.phase = .failed ∨
      (S.step cfg port link .act).replica.phase = .hung ∨
      (S.step cfg port link .act).replica.phase = .streaming := by
  simp only [step, ReplicaThread.act, hphase, ReplicaThread.onRdbPayload]
  rw [if_neg (by omega)]
  split
  · exact .inr (.inl rfl)
  · exact .inl rfl
  · exact .inr (.inr rfl)

end

theorem inv_act (hi : Inv port link S) : Inv port link (S.step cfg port link .act) :=
  inv_step hi ⟨trivial, hi.live⟩

theorem stage_of_phase {phase : Phase} (hi : Inv port link S) (h : S.replica.phase = phase) :
    Stage port link { S.view link with phase } := by
  rw [← h]; exact hi.stage

/-- With all of the transfer read, three actions load it. -/
theorem streaming_of_transfer (hi : Inv port link S) (hphase : S.replica.phase = .fullresync)
    (hup : S.up = []) (hflight : S.inFlight link = []) :
    Inv port link (run (step cfg port link) (List.replicate 3 .act) S) ∧
      (run (step cfg port link) (List.replicate 3 .act) S).replica.phase = .streaming := by
  have hbuffer (T : Sync) {ahead : Bytes} (hT : T.inFlight link = []) (h : T.down link = ahead) :
      T.replica.buffer = ahead := by
    rw [← h, down, hT, List.append_nil]
  have hi₁ : Inv port link (S.step cfg port link .act) := inv_act hi
  have hi₂ : Inv port link ((S.step cfg port link .act).step cfg port link .act) := inv_act hi₁
  have hi₃ : Inv port link (((S.step cfg port link .act).step cfg port link .act).step cfg port link .act) :=
    inv_act hi₂
  refine ⟨hi₃, ?_⟩
  have hstage := stage_of_phase hi hphase
  rcases hstage with ⟨-, hask, -⟩ | ⟨records, R, hl⟩
  · exact absurd (hup.symm.trans hask) (by simp)
  have hline : crlf <:+: S.replica.buffer := by
    rw [hbuffer S hflight hl.down, fullresyncLine_eq, List.append_assoc, List.append_assoc]
    exact ⟨fullresyncText R, _, List.append_assoc ..⟩
  rcases act_fullresync cfg port link hphase hline with hf | ⟨offset, hphase₁⟩
  · exact absurd hf (exact_of_inv hi₁).going.1
  obtain ⟨records₁, hl₁⟩ := stage_of_phase hi₁ hphase₁
  have hline₁ : crlf <:+: (S.step cfg port link .act).replica.buffer := by
    rw [hbuffer (S.step cfg port link .act) hflight hl₁.down, Net.rdbTransfer, Net.rdbLengthLine,
      List.append_assoc, List.append_assoc]
    exact ⟨str "$" ++ natToString (rdbSerialize records₁).length, _, List.append_assoc ..⟩
  rcases act_rdbHeader cfg port link hphase₁ hline₁ with hf | ⟨len, hphase₂⟩
  · exact absurd hf (exact_of_inv hi₂).going.1
  obtain ⟨records₂, hlen, hl₂⟩ := stage_of_phase hi₂ hphase₂
  have hlen₂ : len ≤ ((S.step cfg port link .act).step cfg port link .act).replica.buffer.length := by
    rw [hbuffer ((S.step cfg port link .act).step cfg port link .act) hflight hl₂.down, hlen, List.length_append]
    exact Nat.le_add_right ..
  rcases act_rdbPayload cfg port link hphase₂ hlen₂ with hf | hh | hs
  · exact absurd hf (exact_of_inv hi₃).going.1
  · exact absurd hh (exact_of_inv hi₃).going.2
  · exact hs

/-- PSYNC is served, and the snapshot loaded. -/
theorem Ready.resync (h : Ready port link .fullresync psyncCommand S) {m : Moment Unit}
    (hfits : (S.master.repl.transfer m.amb.now S.master.store).length ≤ cfg.maxOutputBuffer.toNat) :
    ∃ S', Leads cfg port link m S S' ∧ Inv port link S' ∧ S'.replica.phase = .streaming ∧ S'.since = [] ∧
      S'.master.store = S.master.store := by
  have hp : psyncs psyncCommand = true := by decide
  have hf : Net.Fits cfg link (S.master.repl.transfer m.amb.now S.master.store).length S.master.repl :=
    ⟨h.inv.live, by rw [h.load, Nat.zero_add]; exact hfits⟩
  have hserve : S.step cfg port link (.serve m) = { S with
      master := Asio.step cfg (.request m link psyncCommand) S.master
      up := []
      resync := some (S.master.store.snapshot m.amb.now, S.master.repl.repl.masterOffset)
      since := [] } := by
    rw [step_serve cfg port link h.up m]
    simp only [serve, hp, if_true]
  have hclosed : (S.step cfg port link (.serve m)).master.repl.closed link = false := by
    rw [hserve]
    exact ((Asio.step_psync hp hf).2.1 link).trans h.inv.live
  have hi₁ : Inv port link (S.step cfg port link (.serve m)) := inv_step h.inv ⟨trivial, hclosed⟩
  have hsession : ((S.step cfg port link (.serve m)).master.repl.sessions link).Tidy ∧
      ((S.step cfg port link (.serve m)).master.repl.sessions link).load ≤ cfg.maxOutputBuffer.toNat := by
    have hr : (Asio.step cfg (.request m link psyncCommand) S.master).repl = _ := Asio.repl_psync hp
    rw [hserve]
    dsimp only
    rw [hr, Net.sessions_put, if_pos rfl, Session.load_append]
    exact Net.startFullResync_tidy hf h.tidy
  generalize hS₁ : S.step cfg port link (.serve m) = S₁ at hserve hclosed hi₁ hsession
  obtain ⟨hi, hphase⟩ := @streaming_of_transfer cfg port link _ (inv_pumped hi₁) (by rw [hserve]; exact h.phase)
    (by rw [hserve]; rfl) (inFlight_pumped hi₁.read)
  refine ⟨_, leads_exchange hS₁ h.inv.live hclosed hsession.1 hsession.2 3, hi, hphase, ?_, ?_⟩
  · show S₁.since = []
    rw [hserve]
  · show S₁.master.store = S.master.store
    rw [hserve]
    exact (Cluster.store_request m link (by decide) S.master).trans
      (congrArg (fun r => r.2.store) (Asio.dispatch_psync hp m (some link) S.master))

/-- From the start of the handshake the replica gets to where it has posted the snapshot. -/
theorem Ready.catches_up (h : Ready port link .pong pingCommand S) {m : Moment Unit}
    (hfits : (S.master.repl.transfer m.amb.now S.master.store).length ≤ cfg.maxOutputBuffer.toNat) :
    ∃ S', Leads cfg port link m S S' ∧ Inv port link S' ∧ S'.replica.phase = .streaming ∧ S'.since = [] ∧
      S'.master.store = S.master.store := by
  have hcap : 7 ≤ cfg.maxOutputBuffer.toNat := by
    refine Nat.le_trans ?_ hfits
    simp only [Net.transfer, Net.fullresyncLine, List.length_append]
    have : (str "+FULLRESYNC ").length = 12 := by decide
    omega
  obtain ⟨S₁, hl₁, h₁, hS₁, ho₁⟩ := h.expect (str "+PONG") (.inl rfl)
    (fun V hV hs => by unfold Stage at hs; rw [hV] at hs; exact hs)
    (fun T hT => by rw [ReplicaThread.act, hT]) (by decide) (Nat.le_trans (by decide) hcap) m
  obtain ⟨S₂, hl₂, h₂, hS₂, ho₂⟩ := h₁.expect (str "+OK") (.inr ⟨_, _, rfl⟩)
    (fun V hV hs => by unfold Stage at hs; rw [hV] at hs; exact hs)
    (fun T hT => by rw [ReplicaThread.act, hT]) (by decide) (Nat.le_trans (by decide) hcap) m
  obtain ⟨S₃, hl₃, h₃, hS₃, ho₃⟩ := h₂.expect (str "+OK") (.inr ⟨_, _, rfl⟩)
    (fun V hV hs => by unfold Stage at hs; rw [hV] at hs; exact hs)
    (fun T hT => by rw [ReplicaThread.act, hT]) (by decide) (Nat.le_trans (by decide) hcap) m
  have hstore : S₃.master.store = S.master.store := hS₃.trans (hS₂.trans hS₁)
  have hfits₃ : (S₃.master.repl.transfer m.amb.now S₃.master.store).length ≤ cfg.maxOutputBuffer.toNat := by
    rw [hstore, Net.length_transfer (ho₃.trans (ho₂.trans ho₁))]
    exact hfits
  obtain ⟨S₄, hl₄, hi, hphase, hsince, hS₄⟩ := h₃.resync hfits₃
  exact ⟨S₄, hl₁.trans (hl₂.trans (hl₃.trans hl₄)), hi, hphase, hsince, hS₄.trans hstore⟩

end Sync

/-- The cluster's event that is this one of the link. -/
def ClusterEvent.ofSync : SyncEvent → ClusterEvent
  | .serve m => .serve m
  | e => .link e

namespace Cluster

variable {π ρ : Type} {cfg : ServerConfig} {port : UInt16} {table : CommandTable π ρ} {C : Cluster π ρ}

/-- What the link does leaves the replica's event loop and its queue alone. -/
structure Kept (t : Int64) (C C' : Cluster π ρ) : Prop where
  link : C'.link = C.link
  replica : C'.replica = C.replica
  queue : C'.queue = C.queue
  ran : C'.ran = C.ran
  replicaClock : C'.replicaClock = C.replicaClock
  masterClock : C'.masterClock ≤ t
  origin : C'.origin.1 ≤ t

theorem Kept.trans {t : Int64} {C C' C'' : Cluster π ρ} (h : Kept t C C') (h' : Kept t C' C'') :
    Kept t C C'' :=
  ⟨h'.link.trans h.link, h'.replica.trans h.replica, h'.queue.trans h.queue, h'.ran.trans h.ran,
    h'.replicaClock.trans h.replicaClock, h'.masterClock, h'.origin⟩

theorem kept_serve {m : Moment Unit} (ho : C.origin.1 ≤ m.amb.now) :
    Kept m.amb.now C (C.step cfg port table (.serve m)) := by
  unfold step noted
  dsimp only
  split
  · exact ⟨rfl, rfl, rfl, rfl, rfl, Int64.le_refl _, ho⟩
  · split
    · exact ⟨rfl, rfl, rfl, rfl, rfl, Int64.le_refl _, Int64.le_refl _⟩
    · exact ⟨rfl, rfl, rfl, rfl, rfl, Int64.le_refl _, ho⟩

variable (table) in
/-- A calm event of the link is an orderly event of the cluster. -/
theorem step_of_calm {m : Moment Unit} {e : SyncEvent} (h : Sync.Calm cfg port C.link m e C.sync)
    (hle : C.masterClock ≤ m.amb.now) (ho : C.origin.1 ≤ m.amb.now) :
    Orderly cfg port table (.ofSync e) C ∧
      (C.step cfg port table (.ofSync e)).sync = C.sync.step cfg port C.link e ∧
      Kept m.amb.now C (C.step cfg port table (.ofSync e)) := by
  rcases h with he | ⟨rfl, hopen, hc⟩
  · have hof : ClusterEvent.ofSync e = .link e := by
      cases e with
      | serve m => cases he
      | _ => rfl
    rw [hof]
    exact ⟨he, rfl, rfl, rfl, rfl, rfl, rfl, hle, ho⟩
  · exact ⟨⟨hle, hopen, hc⟩, rfl, kept_serve ho⟩

variable (table) in
theorem run_of_calm {m : Moment Unit} : ∀ (es : List SyncEvent) (C : Cluster π ρ),
    Along (Sync.step cfg port C.link) (Sync.Calm cfg port C.link m) es C.sync →
    C.masterClock ≤ m.amb.now → C.origin.1 ≤ m.amb.now →
    Along (step cfg port table) (Orderly cfg port table) (es.map .ofSync) C ∧
      (run (step cfg port table) (es.map .ofSync) C).sync = run (Sync.step cfg port C.link) es C.sync ∧
      Kept m.amb.now C (run (step cfg port table) (es.map .ofSync) C)
  | [], C, _, hle, ho => ⟨trivial, rfl, rfl, rfl, rfl, rfl, rfl, hle, ho⟩
  | e :: es, C, h, hle, ho => by
    obtain ⟨horderly, hsync, hk⟩ := step_of_calm table h.1 hle ho
    obtain ⟨hrest, hsync', hk'⟩ := run_of_calm es (C.step cfg port table (.ofSync e))
      (by rw [hk.link, hsync]; exact h.2) hk.masterClock hk.origin
    refine ⟨⟨horderly, hrest⟩, ?_, hk.trans hk'⟩
    rw [hk.link, hsync] at hsync'
    exact hsync'

/-- The event loop has run all there was to run. -/
structure CaughtUp (now : Int64) (C C' : Cluster π ρ) : Prop where
  sync : C'.sync = C.sync
  link : C'.link = C.link
  queue : C'.queue = []
  ran : C'.ran = 1
  masterClock : C'.masterClock = C.masterClock
  replicaClock : C'.replicaClock = now

variable (cfg port table) in
/-- The event loop runs what is left of former connections, and then the snapshot. -/
theorem run_tasks (amb : Ambient) {task : Task} : ∀ (queue : List Task) (C : Cluster π ρ), C.queue = queue →
    C.ran = 0 → C.sync.replica.posted = [task] → C.replicaClock ≤ amb.now → C.origin.1 ≤ amb.now →
    Along (step cfg port table) (Orderly cfg port table) (List.replicate (queue.length + 1) (.task amb)) C ∧
      CaughtUp amb.now C (run (step cfg port table) (List.replicate (queue.length + 1) (.task amb)) C)
  | [], C, hq, hran, hposted, hle, ho => by
    have hstep : C.step cfg port table (.task amb) = { C with
        ran := C.ran + 1, replica := runTask table amb task C.replica, replicaClock := amb.now } := by
      simp only [step, hq, hposted, hran]
      rfl
    have horderly : Orderly cfg port table (.task amb) C := by
      refine ⟨hle, fun _ => ?_⟩
      rw [if_pos hran]
      exact ho
    refine ⟨⟨horderly, trivial⟩, ?_⟩
    show CaughtUp amb.now C (C.step cfg port table (.task amb))
    rw [hstep]
    exact ⟨rfl, rfl, hq, congrArg (· + 1) hran, rfl, rfl⟩
  | t :: queue, C, hq, hran, hposted, hle, ho => by
    have hstep : C.step cfg port table (.task amb) = { C with
        queue, replica := runTask table amb t C.replica, replicaClock := amb.now } := by
      simp only [step, hq]
    have horderly : Orderly cfg port table (.task amb) C :=
      ⟨hle, fun hnil => absurd (hq.symm.trans hnil) (by simp)⟩
    obtain ⟨hrest, hrun⟩ := run_tasks amb queue (C.step cfg port table (.task amb))
      (by rw [hstep]) (by rw [hstep]; exact hran) (by rw [hstep]; exact hposted)
      (by rw [hstep]; exact Int64.le_refl _) (by rw [hstep]; exact ho)
    refine ⟨⟨horderly, hrest⟩, hrun.sync.trans ?_, hrun.link.trans ?_, hrun.queue, hrun.ran,
      hrun.masterClock.trans ?_, hrun.replicaClock⟩
    all_goals rw [hstep]

variable (cfg table) in
/-- A connection has just been made. -/
theorem ready_reconnect (hi : Inv port C) (peer : Bytes) :
    let C' := C.step cfg port table (.reconnect C.link peer)
    Sync.Ready port C.link .pong pingCommand C'.sync ∧ C'.sync.master.store = C.sync.master.store ∧
      C'.sync.master.repl.repl.masterOffset = C.sync.master.repl.repl.masterOffset := by
  have hclosed : (C.sync.master.repl.doClose C.link).closed C.link = true := by simp
  obtain ⟨haccept, hfresh⟩ := accepted cfg hi hclosed peer
  have hsync : (C.step cfg port table (.reconnect C.link peer)).sync = Sync.start
      { C.sync.master with repl := (C.sync.master.repl.doClose C.link).put C.link { peer } } := by
    unfold step
    dsimp only
    rw [haccept]
  have hsession : ((C.sync.master.repl.doClose C.link).put C.link { peer }).sessions C.link = { peer } := by
    rw [Net.sessions_put, if_pos rfl]
  dsimp only
  rw [hsync]
  refine ⟨⟨Sync.inv_start hfresh, rfl, rfl, rfl, ?_, ?_, ?_⟩, rfl, Net.masterOffset_doClose ..⟩
  · exact hfresh.sent
  · rw [Sync.start, hsession]
    exact .inl ⟨rfl, rfl⟩
  · rw [Sync.start, hsession]
    rfl

/-- A thread that has loaded a snapshot after which nothing was propagated has posted just that. -/
theorem posted_of_streaming {link : ClientLink} {S : Sync} (hi : Sync.Inv port link S)
    (hphase : S.replica.phase = .streaming) (hsince : S.since = []) :
    S.down link = [] ∧ ∃ records, S.replica.posted = [.reload records] := by
  rcases hi.stage.waiting_or_streaming with hw | ⟨-, records, offset, past, ahead, hs⟩
  · exact absurd hphase hw.phase.1
  obtain ⟨rfl, rfl⟩ := List.append_eq_nil_iff.mp (hs.split.symm.trans hsince)
  exact ⟨hs.down, records, hs.posted⟩

/-- From every state of an orderly run the replica can be brought in step again by an orderly one,
however its link was lost, if the master's output has room for a snapshot: the master closes the former
link, the replica connects anew, and when it has been served, and has run all it had to run, the same
keys are live on both. -/
theorem cluster_recovers (h₀ : Start C) {es : List ClusterEvent}
    (h : Along (step cfg port table) (Orderly cfg port table) es C) :
    let C' := run (step cfg port table) es C
    ∀ t u, C'.masterClock ≤ t → t ≤ u → C'.replicaClock ≤ u →
      (C'.sync.master.repl.transfer t C'.sync.master.store).length ≤ cfg.maxOutputBuffer.toNat →
      ∃ es', Along (step cfg port table) (Orderly cfg port table) es' C' ∧
        let C'' := run (step cfg port table) es' C'
        Settled C'' ∧ C''.sync.master.store = C'.sync.master.store ∧
          C''.replica.store.live u = C'.sync.master.store.live u := by
  intro C' t u hm htu hr hfits
  have hi : Inv port C' := h.invariant (fun _ _ hi ho => inv_step hi ho) (inv_init h₀)
  -- the replica connects
  obtain ⟨hready, hstore, hoffset⟩ := ready_reconnect cfg table hi []
  have hreconnect : Orderly cfg port table (.reconnect C'.link []) C' := by
    show Net.closed _ _ = true
    simp
  generalize hC₁ : C'.step cfg port table (.reconnect C'.link []) = C₁ at hready hstore hoffset
  have hlink₁ : C₁.link = C'.link := by rw [← hC₁]; rfl
  have hran₁ : C₁.ran = 0 := by rw [← hC₁]; rfl
  have hclock₁ : C₁.masterClock ≤ t := by rw [← hC₁]; exact hm
  have horigin₁ : C₁.origin.1 ≤ t := by rw [← hC₁]; exact hm
  have hreplica₁ : C₁.replicaClock ≤ u := by rw [← hC₁]; exact hr
  -- it is served at `t`
  obtain ⟨S', ⟨es₁, hcalm, hrun⟩, hinv, hphase, hsince, hS'⟩ := @Sync.Ready.catches_up cfg _ _ _ hready
    { amb := ⟨t, []⟩ } (by rw [hstore, Net.length_transfer hoffset]; exact hfits)
  rw [← hlink₁] at hcalm hrun hinv
  obtain ⟨horderly₁, hsync₂, hk⟩ := run_of_calm table es₁ C₁ hcalm hclock₁ horigin₁
  generalize hC₂ : run (step cfg port table) (es₁.map .ofSync) C₁ = C₂ at hsync₂ hk
  obtain ⟨hdown, records, hposted⟩ := posted_of_streaming hinv hphase hsince
  -- and runs its tasks at `u`
  obtain ⟨htasks, hc⟩ := run_tasks cfg port table ⟨u, []⟩ C₂.queue C₂ rfl
    (hk.ran.trans hran₁) (by rw [hsync₂, hrun]; exact hposted) (by rw [hk.replicaClock]; exact hreplica₁)
    (Int64.le_trans hk.origin htu)
  have horderly : Along (step cfg port table) (Orderly cfg port table)
      (.reconnect C'.link [] :: (es₁.map .ofSync ++ List.replicate (C₂.queue.length + 1) (.task ⟨u, []⟩))) C' := by
    refine ⟨hreconnect, ?_⟩
    rw [hC₁]
    exact along_append.mpr ⟨horderly₁, by rw [hC₂]; exact htasks⟩
  refine ⟨_, horderly, ?_⟩
  have hi₃ := horderly.invariant (fun _ _ hi ho => inv_step hi ho) hi
  rw [run_cons, hC₁, run_append, hC₂] at hi₃ ⊢
  generalize run (step cfg port table) (List.replicate (C₂.queue.length + 1) (.task ⟨u, []⟩)) C₂ = C₃ at hc hi₃
  have hsync₃ : C₃.sync = S' := hc.sync.trans (hsync₂.trans hrun)
  have hlink₃ : C₃.link = C₁.link := hc.link.trans hk.link
  have hsettled : Settled C₃ := by
    refine ⟨?_, ?_, ?_, hc.queue, ?_⟩
    · rw [hsync₃, hlink₃]; exact hinv.live
    · rw [hsync₃]; exact hphase
    · rw [hsync₃, hlink₃]; exact hdown
    · rw [hsync₃, hc.ran, hposted]; rfl
  have hmaster : C₃.sync.master.store = C'.sync.master.store := by rw [hsync₃, hS', hstore]
  refine ⟨hsettled, hmaster, ?_⟩
  rw [← hmaster]
  refine hi₃.live_of_settled hsettled ?_ ?_
  · rw [hc.masterClock]; exact Int64.le_trans hk.masterClock htu
  · rw [hc.replicaClock]; exact Int64.le_refl _

theorem lostRun_recovers :
    let C := run (step {} 6380 {}) lostRun connected
    ∃ es, Along (step {} 6380 {}) (Orderly {} 6380 {}) es C ∧
      let C' := run (step {} 6380 {}) es C
      Settled C' ∧ C'.sync.master.store = C.sync.master.store ∧
        C'.replica.store.live 40 = C.sync.master.store.live 40 := by
  have hrun : Along (step {} 6380 {}) (Orderly {} 6380 {}) lostRun connected ∧
      let C := run (step {} 6380 {}) lostRun connected
      C.masterClock ≤ 30 ∧ C.replicaClock ≤ 40 ∧
        (C.sync.master.repl.transfer 30 C.sync.master.store).length ≤
          ({} : ServerConfig).maxOutputBuffer.toNat := by
    decide +kernel
  obtain ⟨horderly, hm, hr, hfits⟩ := hrun
  exact cluster_recovers start_connected horderly 30 40 hm (by decide) hr hfits

end Cluster

end RP
