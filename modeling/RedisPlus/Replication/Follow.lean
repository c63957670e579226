import RedisPlus.Rdb.RoundTrip
import RedisPlus.Replication.Sync

/-!
# The replica follows

The moves of the replica's thread keep the stage: a read changes nothing (`view_deliver`), and an
action of the thread either has too little to go on or takes the thread to its next phase, with
what it used gone from what is still to come (`stage_act`, with a lemma for each phase).
-/

namespace RP

namespace Sync

open View

variable {cfg : ServerConfig} {port : UInt16} {link : ClientLink} {S : Sync}

theorem view_act {T : ReplicaThread} {commands : List Args} (h : S.replica.act port = (T, commands)) :
    (S.step cfg port link .act).view link = { S.view link with
      phase := T.phase
      rdb := T.rdb
      posted := T.posted
      replicaOffset := T.offset
      up := S.up ++ commands
      down := T.buffer ++ S.inFlight link } := by
  simp only [step, h]
  rfl

/-- The thread has not read enough. -/
theorem view_act_of_wait (h : S.replica.act port = (S.replica, [])) :
    (S.step cfg port link .act).view link = S.view link := by
  rw [view_act h, List.append_nil]
  rfl

theorem readLine_of_down_nil (h : S.down link = []) : readLine S.replica.buffer = none := by
  rw [(List.append_eq_nil_iff.mp h).1]; rfl

/-- A step of the handshake: the thread waits, or sends the next command. -/
theorem stage_act_expect {command cmd : Args} {line expected error : Bytes} {next : Phase}
    (hact : S.replica.act port = S.replica.expect expected error next cmd)
    (ha : Asks command (line ++ crlf) (S.view link)) (hl : 13 ∉ line)
    (hp : expected.isPrefixOf line = true)
    (hnext : Stage port link { S.view link with phase := next, up := [cmd], down := [] }) :
    (S.step cfg port link .act).view link = S.view link ∨
      Stage port link ((S.step cfg port link .act).view link) := by
  have hwait (hnone : readLine S.replica.buffer = none) :
      (S.step cfg port link .act).view link = S.view link :=
    view_act_of_wait (by rw [hact, ReplicaThread.expect, hnone])
  rcases ha.either with ⟨-, hdown⟩ | ⟨hup, hdown⟩
  · exact .inl (hwait (readLine_of_down_nil hdown))
  · have hdown' : S.replica.buffer ++ S.inFlight link = line ++ (crlf ++ []) := by
      rw [List.append_nil]; exact hdown
    rcases readLine_of_line hl hdown' with hnone | ⟨buffer, hsome, hrest⟩
    · exact .inl (hwait hnone)
    · refine .inr ?_
      have hexpect : S.replica.act port = ({ S.replica with buffer, phase := next }, [cmd]) := by
        rw [hact, ReplicaThread.expect, hsome]
        exact if_pos hp
      have hup' : S.up = [] := hup
      rw [view_act hexpect, hup', hrest]
      exact hnext

/-- A line of the resync. -/
theorem readLine_of_loading {records : List Record} {offset : Int64} {line ahead : Bytes}
    (h : Loading link records offset (line ++ crlf ++ ahead) (S.view link)) (hl : 13 ∉ line) :
    readLine S.replica.buffer = none ∨ ∃ buffer, readLine S.replica.buffer = some (line, buffer) ∧
      buffer ++ S.inFlight link = ahead ++ encs S.since := by
  refine readLine_of_line hl ?_
  have hdown : S.replica.buffer ++ S.inFlight link = line ++ crlf ++ ahead ++ encs S.since := h.down
  rw [hdown]
  simp only [List.append_assoc]

/-- The `+FULLRESYNC` line without its end. -/
def fullresyncText (R : Replication) : Bytes :=
  str "+FULLRESYNC " ++ R.replid.bytes ++ 32 :: intToString R.masterOffset.toInt

theorem fullresyncLine_eq (R : Replication) : Net.fullresyncLine R = fullresyncText R ++ crlf := by
  simp [Net.fullresyncLine, fullresyncText, show str " " = [32] by decide]

theorem cr_not_mem_fullresyncText (R : Replication) : 13 ∉ fullresyncText R := by
  simp only [fullresyncText, List.mem_append, List.mem_cons, not_or]
  refine ⟨⟨by decide, fun h => ?_⟩, by decide, fun h => ?_⟩
  · exact absurd (R.replid.hex 13 h) (by decide)
  · rcases mem_intToString h with h | h
    · exact absurd h (by decide)
    · exact absurd h (by decide)

theorem afterLastSpace_fullresyncText (R : Replication) :
    afterLastSpace (fullresyncText R) = some (intToString R.masterOffset.toInt) := by
  refine afterLastSpace_append fun h => ?_
  rcases mem_intToString h with h | h
  · exact absurd h (by decide)
  · exact absurd h (by decide)

theorem stage_act_fullresync {records : List Record} {R : Replication}
    (hphase : S.replica.phase = .fullresync)
    (h : Loading link records R.masterOffset
      (Net.fullresyncLine R ++ Net.rdbTransfer (rdbSerialize records)) (S.view link)) :
    (S.step cfg port link .act).view link = S.view link ∨
      Stage port link ((S.step cfg port link .act).view link) := by
  have hact : S.replica.act port = (S.replica.onFullresync, []) := by rw [ReplicaThread.act, hphase]
  rw [fullresyncLine_eq] at h
  rcases readLine_of_loading h (cr_not_mem_fullresyncText R) with hnone | ⟨buffer, hsome, hrest⟩
  · exact .inl (view_act_of_wait (by rw [hact, ReplicaThread.onFullresync, hnone]))
  · refine .inr ?_
    have hprefix : (str "+FULLRESYNC").isPrefixOf (fullresyncText R) = true := by
      rw [List.isPrefixOf_iff_prefix]
      refine ⟨32 :: (R.replid.bytes ++ 32 :: intToString R.masterOffset.toInt), ?_⟩
      simp [fullresyncText, show str "+FULLRESYNC " = str "+FULLRESYNC" ++ [32] by decide]
    have hread : S.replica.act port = ({ S.replica with
        buffer, phase := .rdbHeader R.masterOffset, linkState := .syncing }, []) := by
      rw [hact, ReplicaThread.onFullresync, hsome]
      dsimp only
      rw [if_pos hprefix, afterLastSpace_fullresyncText, Option.map_some, strtoll_intToString]
      rfl
    rw [view_act hread, List.append_nil]
    exact ⟨records, ⟨h.resync, h.size, h.links, h.masterOffset, h.within⟩, h.up, hrest, h.rdb, h.posted⟩

theorem stage_act_rdbHeader {records : List Record} {offset : Int64}
    (hphase : S.replica.phase = .rdbHeader offset)
    (h : Loading link records offset (Net.rdbTransfer (rdbSerialize records)) (S.view link)) :
    (S.step cfg port link .act).view link = S.view link ∨
      Stage port link ((S.step cfg port link .act).view link) := by
  have hact : S.replica.act port = (S.replica.onRdbHeader offset, []) := by rw [ReplicaThread.act, hphase]
  have hline : Net.rdbTransfer (rdbSerialize records) =
      (36 :: natToString (rdbSerialize records).length) ++ crlf ++ rdbSerialize records := by
    simp [Net.rdbTransfer, Net.rdbLengthLine, show str "$" = [36] by decide]
  have hcr : 13 ∉ 36 :: natToString (rdbSerialize records).length := by
    simp only [List.mem_cons, not_or]
    exact ⟨by decide, fun hm => absurd (Framework.decimal_isDigit _ _ hm) (by decide)⟩
  rw [hline] at h
  rcases readLine_of_loading h hcr with hnone | ⟨buffer, hsome, hrest⟩
  · exact .inl (view_act_of_wait (by rw [hact, ReplicaThread.onRdbHeader, hnone]))
  · refine .inr ?_
    have hread : S.replica.act port = ({ S.replica with
        buffer, phase := .rdbPayload offset (rdbSerialize records).length }, []) := by
      rw [hact, ReplicaThread.onRdbHeader, hsome]
      dsimp only
      rw [if_pos List.head?_cons, List.tail_cons, strtoull_natToString h.size]
    rw [view_act hread, List.append_nil]
    exact ⟨records, rfl, ⟨h.resync, h.size, h.links, h.masterOffset, h.within⟩, h.up, hrest, h.rdb, h.posted⟩

theorem stage_act_rdbPayload {records : List Record} {offset : Int64}
    (hphase : S.replica.phase = .rdbPayload offset (rdbSerialize records).length)
    (h : Loading link records offset (rdbSerialize records) (S.view link)) :
    (S.step cfg port link .act).view link = S.view link ∨
      Stage port link ((S.step cfg port link .act).view link) := by
  have hact : S.replica.act port =
      (S.replica.onRdbPayload offset (rdbSerialize records).length, []) := by
    rw [ReplicaThread.act, hphase]
  by_cases hlen : S.replica.buffer.length < (rdbSerialize records).length
  · exact .inl (view_act_of_wait (by rw [hact, ReplicaThread.onRdbPayload, if_pos hlen]))
  · refine .inr ?_
    have hdown : S.replica.buffer ++ S.inFlight link = rdbSerialize records ++ encs S.since := h.down
    have htake : S.replica.buffer.take (rdbSerialize records).length = rdbSerialize records := by
      rw [← List.take_append_of_le_length (Nat.le_of_not_lt hlen), hdown, List.take_left]
    have hdrop : S.replica.buffer.drop (rdbSerialize records).length ++ S.inFlight link = encs S.since := by
      rw [← List.drop_append_of_le_length (Nat.le_of_not_lt hlen), hdown, List.drop_left]
    have hparse : rdbParse (rdbSerialize records).length (rdbSerialize records) = some ⟨.ok (), records⟩ :=
      rdbParse_rdbSerialize h.size (rounds_le_length records)
    have hread : S.replica.act port = ({ S.replica with
        buffer := S.replica.buffer.drop (rdbSerialize records).length
        rdb := some (rdbSerialize records)
        posted := [.reload records]
        offset := offset
        linkState := .connected
        linkError := []
        phase := .streaming }, []) := by
      have hposted : S.replica.posted = [] := h.posted
      rw [hact, ReplicaThread.onRdbPayload, if_neg hlen, htake]
      dsimp only
      rw [hparse, hposted]
      rfl
    rw [view_act hread, List.append_nil]
    refine ⟨records, offset, [], S.since, ⟨h.resync, h.size, h.links, h.masterOffset, h.within⟩, rfl, ?_,
      hdrop, rfl, rfl, ?_⟩
    · intro c hc
      rw [show S.up = [] from h.up] at hc; cases hc
    · show offset + Int64.ofNat (_ ++ S.inFlight link).length = _
      rw [hdrop]
      exact h.masterOffset.symm

/-- What the thread does with the first command of its buffer. -/
theorem onStream_of_ok {T : ReplicaThread} {args : Args} {n : Nat} (h : parseRequest T.buffer = .ok args n) :
    ∃ commands, T.onStream = ({ T with
        buffer := T.buffer.drop n
        offset := T.offset + Int64.ofNat n
        posted := T.posted ++ ([args].filter handedOn).map .apply }, commands) ∧
      ∀ c ∈ commands, ∃ n, c = ackCommand n := by
  rw [ReplicaThread.onStream, h]
  rcases args with _ | ⟨name, rest⟩
  · exact ⟨[], by simp [handedOn], fun c hc => nomatch hc⟩
  · dsimp only
    by_cases hr : upper name = str "REPLCONF" ∧ rest ≠ []
    · refine ⟨_, by rw [if_pos hr]; simp [handedOn, hr]; rfl, ?_⟩
      intro c hc
      exact ⟨_, List.mem_singleton.mp hc⟩
    · rw [if_neg hr]
      by_cases hp : upper name = str "PING"
      · exact ⟨[], by rw [if_pos hp]; simp [handedOn, hp], fun c hc => nomatch hc⟩
      · refine ⟨[], ?_, fun c hc => nomatch hc⟩
        have hon : handedOn (name :: rest) = true := by
          by_cases hn : upper name = str "REPLCONF"
          · have hrest : rest = [] := by
              by_contra hne
              exact hr ⟨hn, hne⟩
            simp [handedOn, hp, hrest]
          · simp [handedOn, hp, hn]
        rw [if_neg hp]
        simp [hon]

theorem stage_act_streaming {records : List Record} {offset : Int64} {past ahead : List Args}
    (hphase : S.replica.phase = .streaming) (h : Streaming link records offset past ahead (S.view link)) :
    (S.step cfg port link .act).view link = S.view link ∨
      Stage port link ((S.step cfg port link .act).view link) := by
  have hact : S.replica.act port = S.replica.onStream := by rw [ReplicaThread.act, hphase]
  have hwithin : ∀ c ∈ ahead, Within c := fun c hc =>
    h.within c (by rw [h.split]; exact List.mem_append_right _ hc)
  have hdown : commandCode.encs ahead = S.replica.buffer ++ S.inFlight link := h.down.symm
  rcases commandCode.parse_front hwithin hdown with hmore | ⟨c, rest, buffer, rfl, hbuffer, hok⟩
  · refine .inl (view_act_of_wait ?_)
    rw [requestParser_parse] at hmore
    rw [hact, ReplicaThread.onStream, hmore]
  · refine .inr ?_
    rw [requestParser_parse, commandCode_enc] at hok
    obtain ⟨commands, hstream, hacks⟩ := onStream_of_ok hok
    have hdrop : S.replica.buffer.drop (encode c).length = buffer := by
      rw [hbuffer, commandCode_enc, List.drop_left]
    have hrest : buffer ++ S.inFlight link = encs rest := by
      rw [hbuffer, commandCode_enc] at hdown
      have := hdown
      rw [commandCode.encs_cons, commandCode_enc, List.append_assoc] at this
      exact (List.append_cancel_left this).symm
    have hlen : (S.view link).down.length = (encode c).length + (encs rest).length := by
      rw [h.down, encs_cons, List.length_append]
    rw [view_act (hact.trans hstream), hdrop, hrest]
    unfold Stage
    dsimp only
    rw [hphase]
    refine ⟨records, offset, past ++ [c], rest, ⟨h.resync, h.size, h.links, h.masterOffset, h.within⟩, ?_, ?_,
      rfl, h.rdb, ?_, ?_⟩
    · show S.since = _
      rw [show S.since = past ++ c :: rest from h.split, List.append_assoc]; rfl
    · intro c' hc'
      rcases List.mem_append.mp hc' with hc' | hc'
      · exact h.up c' hc'
      · exact hacks c' hc'
    · show S.replica.posted ++ _ = _
      rw [show S.replica.posted = _ from h.posted, List.filter_append, List.map_append]
      rfl
    · show S.replica.offset + Int64.ofNat (encode c).length + Int64.ofNat (encs rest).length = _
      have hoff := h.replicaOffset
      rw [hlen, Int64.ofNat_add, ← Int64.add_assoc] at hoff
      exact hoff

theorem stage_act (h : Stage port link (S.view link)) :
    Stage port link ((S.step cfg port link .act).view link) := by
  have hcases (hc : (S.step cfg port link .act).view link = S.view link ∨
      Stage port link ((S.step cfg port link .act).view link)) :
      Stage port link ((S.step cfg port link .act).view link) := by
    rcases hc with he | hs
    · rw [he]; exact h
    · exact hs
  have hok : Reply.ok = str "+OK" ++ crlf := by decide
  have h' := h
  unfold Stage at h'
  split at h'
  · rename_i hphase
    have hphase' : S.replica.phase = .pong := hphase
    refine hcases (stage_act_expect (by rw [ReplicaThread.act, hphase']) h' (by decide) (by decide) ?_)
    exact ⟨⟨h'.links, h'.rdb, h'.posted⟩, .inl ⟨rfl, rfl⟩⟩
  · rename_i hphase
    have hphase' : S.replica.phase = .portOk := hphase
    rw [hok] at h'
    refine hcases (stage_act_expect (by rw [ReplicaThread.act, hphase']) h' (by decide) (by decide) ?_)
    exact ⟨⟨h'.links, h'.rdb, h'.posted⟩, .inl ⟨rfl, rfl⟩⟩
  · rename_i hphase
    have hphase' : S.replica.phase = .capaOk := hphase
    rw [hok] at h'
    refine hcases (stage_act_expect (by rw [ReplicaThread.act, hphase']) h' (by decide) (by decide) ?_)
    exact .inl ⟨⟨h'.links, h'.rdb, h'.posted⟩, rfl, rfl⟩
  · rename_i hphase
    have hphase' : S.replica.phase = .fullresync := hphase
    rcases h' with ⟨-, -, hdown⟩ | ⟨records, R, hl⟩
    · refine hcases (.inl (view_act_of_wait ?_))
      rw [ReplicaThread.act, hphase', ReplicaThread.onFullresync, readLine_of_down_nil hdown]
    · exact hcases (stage_act_fullresync hphase' hl)
  · rename_i hphase
    obtain ⟨records, hl⟩ := h'
    exact hcases (stage_act_rdbHeader hphase hl)
  · rename_i hphase
    obtain ⟨records, rfl, hl⟩ := h'
    exact hcases (stage_act_rdbPayload hphase hl)
  · rename_i hphase
    obtain ⟨records, offset, past, ahead, hs⟩ := h'
    exact hcases (stage_act_streaming hphase hs)
  · exact h'.elim
  · exact h'.elim

theorem stage_tick (h : Stage port link (S.view link)) :
    Stage port link ((S.step cfg port link .tick).view link) := by
  have hview : (S.step cfg port link .tick).view link =
      { S.view link with up := S.up ++ S.replica.tick } := rfl
  rw [hview]
  by_cases hphase : S.replica.phase = .streaming
  · have hphase' : (S.view link).phase = .streaming := hphase
    unfold Stage at h ⊢
    dsimp only
    rw [hphase'] at h ⊢
    obtain ⟨records, offset, past, ahead, hs⟩ := h
    refine ⟨records, offset, past, ahead, ⟨hs.resync, hs.size, hs.links, hs.masterOffset, hs.within⟩, hs.split,
      fun c hc => ?_, hs.down, hs.rdb, hs.posted, hs.replicaOffset⟩
    rcases List.mem_append.mp hc with hc | hc
    · exact hs.up c hc
    · rw [ReplicaThread.tick, if_pos hphase] at hc
      exact ⟨_, List.mem_singleton.mp hc⟩
  · rw [ReplicaThread.tick, if_neg hphase, List.append_nil]
    exact h

/-- What a read takes is at the front of what is in flight. -/
theorem chunk_front (n : Nat) :
    ((S.master.repl.sessions link).transmitted.drop S.read).take n <+: S.inFlight link := by
  have hsent : (S.master.repl.sessions link).transmitted <+: S.master.repl.sent link :=
    ⟨_, Session.transmitted_append _⟩
  exact (List.take_prefix ..).trans (hsent.drop _)

theorem view_deliver (n : Nat) : (S.step cfg port link (.deliver n)).view link = S.view link := by
  have hdown : (S.step cfg port link (.deliver n)).down link = S.down link := by
    have hfront := List.prefix_iff_eq_append.mp (@chunk_front link S n)
    simp only [step, down, inFlight] at hfront ⊢
    rw [List.append_assoc, ← List.drop_drop, hfront]
  show ({ S.view link with down := (S.step cfg port link (.deliver n)).down link } : View) = _
  rw [hdown]
  rfl
end Sync

end RP
