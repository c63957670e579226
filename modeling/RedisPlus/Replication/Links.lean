import RedisPlus.Command.Frame
import RedisPlus.Replication.Fanout
import RedisPlus.Server.Asio

/-!
# The links that replicas are on

Every link in `replicas_` should be that of a session that is not closed, and be there once,
so that the link carries each write once after its resync.

Whatever the event loop does, apart from PSYNC, takes links out of `replicas_` at most, and
closes no session whose link it leaves there (`Shrinks`, `shrinks_step`). PSYNC puts a link
in, without asking whether the session has been closed by then, nor whether the link is there
already. So the links are live in a run where each transfer fits the session's output
(`links_live_of_fits`), and each carries the writes once in a run where moreover each PSYNC is
on a link that is not yet a replica's, no fan-out closes a link before the last one and a
replica's connection gets no replies (`writes_once_of_orderly`).
-/

namespace RP

open Framework (run run_cons run_append Along along_append collect)

namespace Net

variable {cfg : ServerConfig}

/-- Every replica's session is open. -/
def Live (N : Net) : Prop := ∀ l ∈ N.links, N.closed l = false

/-- Links may be gone, and those that stay keep their session open. -/
structure Shrinks (N N' : Net) : Prop where
  links : N'.links.Sublist N.links
  live : ∀ l ∈ N'.links, N.closed l = false → N'.closed l = false

theorem Shrinks.refl (N : Net) : Shrinks N N := ⟨.refl _, fun _ _ h => h⟩

theorem Shrinks.trans {N N' N'' : Net} (h : Shrinks N N') (h' : Shrinks N' N'') : Shrinks N N'' :=
  ⟨h'.links.trans h.links, fun l hl hc => h'.live l hl (h.live l (h'.links.subset hl) hc)⟩

theorem Shrinks.live_of {N N' : Net} (h : Shrinks N N') (hl : N.Live) : N'.Live :=
  fun l hmem => h.live l hmem (hl l (h.links.subset hmem))

theorem Shrinks.nodup {N N' : Net} (h : Shrinks N N') (hd : N.links.Nodup) : N'.links.Nodup :=
  hd.sublist h.links

/-- What was put out on `link` from `N` to `N'`, if it is a replica's link at the end. -/
def Carries (link : ClientLink) (data : Bytes) (N N' : Net) : Prop :=
  link ∈ N'.links → link ∈ N.links ∧ N'.sent link = N.sent link ++ data

theorem Carries.trans {link : ClientLink} {data data' : Bytes} {N N' N'' : Net}
    (h : Carries link data N N') (h' : Carries link data' N' N'') :
    Carries link (data ++ data') N N'' := by
  intro hmem
  obtain ⟨hmem', hs'⟩ := h' hmem
  obtain ⟨hmem'', hs⟩ := h hmem'
  exact ⟨hmem'', by rw [hs', hs, List.append_assoc]⟩

/-! ## Operations other than a resync -/

theorem shrinks_put {link : ClientLink} {s : Session} {N : Net}
    (hs : N.closed link = false → s.closed = false) : Shrinks N (N.put link s) := by
  refine ⟨.refl _, fun l _ hc => ?_⟩
  simp only [closed, sessions_put]
  split
  · rename_i hl; subst hl; exact hs hc
  · exact hc

theorem sent_put {link l : ClientLink} {s : Session} {N : Net} (hs : s.sent = N.sent link) :
    (N.put link s).sent l = N.sent l := by
  simp only [sent, sessions_put]
  split
  · rename_i hl; subst hl; exact hs
  · rfl

theorem shrinks_doClose (link : ClientLink) (N : Net) : Shrinks N (N.doClose link) := by
  cases hc : N.closed link with
  | true => rw [doClose, if_pos hc]; exact .refl N
  | false =>
    refine ⟨?_, fun l hmem hl => ?_⟩
    · rw [links_doClose hc]; exact List.filter_sublist
    · rw [links_doClose hc] at hmem
      have hne : l ≠ link := by simpa using (List.mem_filter.mp hmem).2
      simp [hl, hne]

theorem shrinks_send (link : ClientLink) (data : Bytes) (N : Net) : Shrinks N (N.send cfg link data) := by
  rcases send_cases link data N with hc | ho | ⟨hc, ho⟩
  · rw [send_of_closed hc]; exact .refl N
  · rw [send_of_overflows ho]
    exact (shrinks_put fun h => by simpa [closed] using h).trans (shrinks_doClose ..)
  · rw [send_of_fits hc ho]
    exact shrinks_put fun h => by simpa [closed] using h

theorem shrinks_fanOut (encoded : Bytes) : ∀ (n i : Nat) (N : Net), Shrinks N (N.fanOut cfg encoded n i)
  | 0, _, N => .refl N
  | n + 1, i, N => by
    rw [fanOut]
    split
    · exact (shrinks_send ..).trans (shrinks_fanOut encoded n _ _)
    · exact ⟨.refl _, fun _ _ h => h⟩

theorem shrinks_propagate (args : Args) (N : Net) : Shrinks N (N.propagate cfg args) := by
  have hadvance : Shrinks N (N.advance (encode args).length) := ⟨.refl _, fun _ _ h => h⟩
  rw [propagate_eq]
  exact hadvance.trans (shrinks_fanOut ..)

/-! ## A resync -/

/-- The session is open and has room for `n` bytes more. -/
def Fits (cfg : ServerConfig) (link : ClientLink) (n : Nat) (N : Net) : Prop :=
  N.closed link = false ∧ (N.sessions link).load + n ≤ cfg.maxOutputBuffer.toNat

instance (link : ClientLink) (n : Nat) (N : Net) : Decidable (Fits cfg link n N) :=
  inferInstanceAs (Decidable (_ ∧ _))

theorem Fits.not_overflows {link : ClientLink} {data : Bytes} {n : Nat} {N : Net}
    (h : Fits cfg link (data.length + n) N) : N.overflows cfg link data = false := by
  have := h.2
  simp only [overflows, h.1, overCap, Session.load_append, Bool.not_false, Bool.true_and,
    decide_eq_false_iff_not]
  omega

theorem Fits.send {link : ClientLink} {data : Bytes} {n : Nat} {N : Net}
    (h : Fits cfg link (data.length + n) N) : Fits cfg link n (N.send cfg link data) := by
  have := h.2
  rw [send_of_fits h.1 h.not_overflows]
  simp only [Fits, closed, sessions_put, if_true, Session.closed_flush, Session.closed_append,
    Session.load_flush, Session.load_append]
  exact ⟨h.1, by omega⟩

/-- What a resync puts out. -/
def transfer (now : Int64) (S : Store) (N : Net) : Bytes :=
  fullresyncLine N.repl ++ rdbTransfer (rdbSerialize (S.snapshot now))

/-- A resync that fits: the link is a replica's, and has been sent the transfer. -/
theorem startFullResync_of_fits {now : Int64} {S : Store} {link : ClientLink} {N : Net}
    (h : Fits cfg link (N.transfer now S).length N) :
    (N.startFullResync cfg now S (some link)).links = N.links ++ [link] ∧
      (∀ l, (N.startFullResync cfg now S (some link)).closed l = N.closed l) ∧
      ∀ l, (N.startFullResync cfg now S (some link)).sent l =
        if l = link then N.sent l ++ N.transfer now S else N.sent l := by
  have hlen : (N.transfer now S).length = (fullresyncLine N.repl).length +
      ((rdbLengthLine (rdbSerialize (S.snapshot now))).length + ((rdbSerialize (S.snapshot now)).length + 0)) := by
    simp only [transfer, rdbTransfer, List.length_append, Nat.add_zero]
  rw [hlen] at h
  have hkeep {data : Bytes} {n : Nat} {M : Net} (hf : Fits cfg link (data.length + n) M) :
      (M.send cfg link data).links = M.links ∧
        (∀ l, (M.send cfg link data).closed l = M.closed l) ∧
        ∀ l, (M.send cfg link data).sent l = if l = link then M.sent l ++ data else M.sent l := by
    refine ⟨?_, fun l => ?_, fun l => ?_⟩
    · rw [links_send, hf.not_overflows]; rfl
    · rw [closed_send, hf.not_overflows, Bool.and_false, Bool.or_false]
    · rw [sent_send]; simp [hf.1]
  obtain ⟨hl₁, hc₁, hs₁⟩ := hkeep h
  obtain ⟨hl₂, hc₂, hs₂⟩ := hkeep h.send
  obtain ⟨hl₃, hc₃, hs₃⟩ := hkeep h.send.send
  refine ⟨?_, fun l => ?_, fun l => ?_⟩
  · show List.map Replica.link (_ ++ [_]) = _
    rw [List.map_append]
    exact congrArg (· ++ [link]) (hl₃.trans (hl₂.trans hl₁))
  · exact (hc₃ l).trans ((hc₂ l).trans (hc₁ l))
  · refine (hs₃ l).trans ?_
    rw [hs₂, hs₁]
    by_cases hl : l = link
    · simp [hl, transfer, rdbTransfer]
    · simp [hl]

end Net

/-! ## What a dispatch does to the links -/

/-- Is this a PSYNC? -/
def psyncs (args : Args) : Bool := args.head?.bind commandName = some .psync

/-- The same links, sessions and offset. -/
structure Net.Quiet (N N' : Net) : Prop where
  links : N'.links = N.links
  sessions : N'.sessions = N.sessions
  offset : N'.repl.masterOffset = N.repl.masterOffset

theorem Net.Quiet.refl (N : Net) : Quiet N N := ⟨rfl, rfl, rfl⟩

theorem Net.Quiet.shrinks {N N' : Net} (h : Quiet N N') : Shrinks N N' := by
  refine ⟨by rw [h.links], fun l _ hc => ?_⟩
  rwa [closed, h.sessions]

namespace Asio

variable {π : Type} {cfg : ServerConfig}

open Net (Quiet Shrinks Carries Live Fits)

theorem quiet_cmdReplconf (m : Moment π) (link : Option ClientLink) (args : Args) (N : Node π Net) :
    Quiet N.repl (cmdReplconf (m.table cfg) link args N).2.repl := by
  obtain ⟨reply, repl, he, hrepl⟩ := cmdReplconf_cases (m.table cfg) link args N
  rw [he]
  rcases hrepl with rfl | ⟨ops, hops, ⟨offset, rfl⟩ | ⟨port, rfl⟩⟩
  · exact .refl _
  · obtain rfl : Net.ops cfg m.amb.now = ops := Option.some.inj hops
    exact ⟨Replication.links_onReplicaAck .., rfl, rfl⟩
  · obtain rfl : Net.ops cfg m.amb.now = ops := Option.some.inj hops
    exact ⟨Replication.links_setReplicaPort .., rfl, rfl⟩

theorem quiet_cmdReplicaof (m : Moment π) (args : Args) (N : Node π Net) :
    Quiet N.repl (cmdReplicaof (m.table cfg) args N).2.repl := by
  obtain ⟨reply, repl, he, hrepl⟩ := cmdReplicaof_cases (m.table cfg) args N
  rw [he]
  rcases hrepl with rfl | ⟨ops, hops, rfl | ⟨host, port, rfl⟩⟩
  · exact .refl _
  · obtain rfl : Net.ops cfg m.amb.now = ops := Option.some.inj hops
    exact ⟨rfl, rfl, rfl⟩
  · obtain rfl : Net.ops cfg m.amb.now = ops := Option.some.inj hops
    simp only [Net.ops, Replication.replicaof]
    split <;> exact ⟨rfl, rfl, rfl⟩

theorem quiet_cmdPersistence (m : Moment π) (op : PersistenceOps π → Store → π → Except Bytes Unit × π)
    (started : Bytes) (N : Node π Net) :
    Quiet N.repl (cmdPersistence (m.table cfg) op started N).2.repl := by
  obtain ⟨reply, pers, he, -⟩ := cmdPersistence_cases (m.table cfg) N op started
  rw [he]
  exact .refl _

theorem quiet_runCommand (m : Moment π) (amb : Ambient) {name : Option CommandName}
    (h : name ≠ some .psync) (link : Option ClientLink) (args : Args) (N : Node π Net) :
    Quiet N.repl (runCommand (m.table cfg) amb name link args N).2.repl := by
  rcases name with _ | name
  · exact .refl _
  cases name with
  | psync => exact absurd rfl h
  | replconf => exact quiet_cmdReplconf ..
  | replicaof => exact quiet_cmdReplicaof ..
  | save | bgsave | bgrewriteaof => exact quiet_cmdPersistence ..
  | _ => exact .refl _

/-- A dispatch of PSYNC is a resync. -/
theorem dispatch_psync {args : Args} (hp : psyncs args = true) (m : Moment π) (link : Option ClientLink)
    (N : Node π Net) : dispatch (m.table cfg) m.amb link args N =
      ({}, { N with repl := N.repl.startFullResync cfg m.amb.now N.store link }) := by
  rcases args with _ | ⟨arg, args⟩
  · cases hp
  · have hname : commandName arg = some .psync := of_decide_eq_true hp
    simp only [dispatch, hname, isWriteCommand]
    rw [if_neg (by simp)]
    rfl

/-- Any other leaves links and sessions alone. -/
theorem quiet_dispatch {args : Args} (hp : psyncs args = false) (m : Moment π) (link : Option ClientLink)
    (N : Node π Net) : Quiet N.repl (dispatch (m.table cfg) m.amb link args N).2.repl := by
  rcases dispatch_node (m.table cfg) m.amb link args N with he | he <;> rw [he]
  · exact .refl _
  · exact quiet_runCommand m m.amb (of_decide_eq_false hp) link args N

/-! ## Steps -/

section

variable (cfg : ServerConfig) (m : Moment π) (link : ClientLink) (args : Args) (N : Node π Net)

/-- The outcome of a request, and the node after its dispatch. -/
def outcome : CommandResult × Node π Net := dispatch (m.table cfg) m.amb (some link) args N

/-- The links once the request has been replied to. -/
def replied : Net :=
  let (result, N) := outcome cfg m link args N
  N.repl.put link ((N.repl.sessions link).append result.reply)

theorem replied_eq : replied cfg m link args N = (outcome cfg m link args N).2.repl.put link
    (((outcome cfg m link args N).2.repl.sessions link).append (outcome cfg m link args N).1.reply) := rfl

theorem repl_request : (step cfg (.request m link args) N).repl =
    if args = [] then N.repl
    else if (outcome cfg m link args N).1.dirty then
      (replied cfg m link args N).propagate cfg (outcome cfg m link args N).1.propagate
    else replied cfg m link args N := by
  show (handleRequest (sessionHost cfg m link) args N).repl = _
  by_cases hargs : args = []
  · rw [if_pos hargs, handleRequest, if_pos hargs]
  · rw [if_neg hargs]
    by_cases hd : (outcome cfg m link args N).1.dirty = true
    · rw [if_pos hd]
      exact congrArg Node.repl (handleRequest_of_dirty _ hargs hd)
    · rw [if_neg hd]
      exact congrArg Node.repl (handleRequest_of_clean _ hargs hd)

end

theorem shrinks_replied {m : Moment π} {link : ClientLink} {args : Args} {N : Node π Net}
    (h : psyncs args = false) : Shrinks N.repl (replied cfg m link args N) :=
  (quiet_dispatch h m (some link) N).shrinks.trans (Net.shrinks_put fun hc => hc)

theorem shrinks_readEnd (link : ClientLink) (input : Buffer) (N : Net) :
    Shrinks N (readEnd cfg link input N) := by
  have hput : Shrinks N (N.put link { N.sessions link with input }) := Net.shrinks_put fun hc => hc
  unfold readEnd
  dsimp only
  split
  · exact hput.trans (Net.shrinks_doClose ..)
  · exact Net.shrinks_put fun hc => by rw [Session.closed_flush]; exact hc

theorem quiet_apply (m : Moment π) (args : Args) (N : Node π Net) :
    Quiet N.repl (step cfg (.apply m args) N).repl := by
  show Quiet N.repl (dispatch (m.table cfg) m.amb none args N).2.repl
  by_cases hp : psyncs args = true
  · -- a resync without a connection
    rw [dispatch_psync hp]
    exact .refl _
  · exact quiet_dispatch (by simpa using hp) m none N

/-- Is this event a PSYNC on `link`? -/
def syncs (link : ClientLink) : Event π → Bool
  | .request _ l args => l == link && psyncs args
  | _ => false

theorem not_psyncs {m : Moment π} {link : ClientLink} {args : Args}
    (h : ∀ l, syncs l (.request m link args) = false) : psyncs args = false := by
  simpa [syncs] using h link

theorem psync_or_not (e : Event π) :
    (∀ l, syncs l e = false) ∨ ∃ m link args, e = .request m link args ∧ psyncs args = true := by
  cases e with
  | request m link args =>
    by_cases hp : psyncs args = true
    · exact .inr ⟨m, link, args, rfl, hp⟩
    · exact .inl fun l => by simp [syncs, hp]
  | _ => exact .inl fun _ => rfl

/-- Every event but a PSYNC takes links away at most, and keeps those that stay open. -/
theorem shrinks_step {e : Event π} {N : Node π Net} (h : ∀ l, syncs l e = false) :
    Shrinks N.repl (step cfg e N).repl := by
  cases e with
  | accept link peer =>
    show Shrinks N.repl (if N.repl.closed link then _ else N : Node π Net).repl
    split
    · exact Net.shrinks_put fun _ => rfl
    · exact .refl _
  | request m link args =>
    have hr : Shrinks N.repl (replied cfg m link args N) := shrinks_replied (not_psyncs h)
    rw [repl_request]
    split
    · exact .refl _
    · split
      · exact hr.trans (Net.shrinks_propagate ..)
      · exact hr
  | refuse link error => exact Net.shrinks_put fun hc => hc
  | readEnd link input => exact shrinks_readEnd ..
  | readFailed link => exact Net.shrinks_doClose ..
  | written link => exact Net.shrinks_put fun hc => by rw [Session.closed_onWritten]; exact hc
  | writeFailed link =>
    have hput : Shrinks N.repl (N.repl.put link { N.repl.sessions link with writing := none }) :=
      Net.shrinks_put fun hc => hc
    exact hput.trans (Net.shrinks_doClose ..)
  | apply m args => exact (quiet_apply m args N).shrinks
  | cron store pers => exact .refl _

/-- A PSYNC is a resync, and an empty reply. -/
theorem repl_psync {m : Moment π} {link : ClientLink} {args : Args} {N : Node π Net}
    (hp : psyncs args = true) :
    let N' := N.repl.startFullResync cfg m.amb.now N.store (some link)
    (step cfg (.request m link args) N).repl = N'.put link ((N'.sessions link).append []) := by
  have hargs : args ≠ [] := by rintro rfl; cases hp
  have ho : outcome cfg m link args N = _ := dispatch_psync hp m (some link) N
  rw [repl_request, if_neg hargs, ho, if_neg (by simp), replied, ho]

/-- A PSYNC that fits adds its link, and puts the transfer out on it. -/
theorem step_psync {m : Moment π} {link : ClientLink} {args : Args} {N : Node π Net}
    (hp : psyncs args = true)
    (hf : Fits cfg link (N.repl.transfer m.amb.now N.store).length N.repl) :
    (step cfg (.request m link args) N).repl.links = N.repl.links ++ [link] ∧
      (∀ l, (step cfg (.request m link args) N).repl.closed l = N.repl.closed l) ∧
      ∀ l, (step cfg (.request m link args) N).repl.sent l =
        if l = link then N.repl.sent l ++ N.repl.transfer m.amb.now N.store else N.repl.sent l := by
  obtain ⟨hlinks, hclosed, hsent⟩ := Net.startFullResync_of_fits hf
  rw [repl_psync hp]
  refine ⟨hlinks, fun l => ?_, fun l => ?_⟩
  · rw [← hclosed l]
    simp only [Net.closed, Net.sessions_put]
    split
    · rename_i hl; subst hl; rfl
    · rfl
  · rw [← hsent l]
    exact Net.sent_put (by simp [Net.sent])

/-- A PSYNC is on an open session with room for the transfer. -/
def PsyncFits (cfg : ServerConfig) : Event π → Node π Net → Prop
  | .request m link args, N =>
    psyncs args = true → Fits cfg link (N.repl.transfer m.amb.now N.store).length N.repl
  | _, _ => True

theorem live_step {e : Event π} {N : Node π Net} (hl : Live N.repl) (h : PsyncFits cfg e N) :
    Live (step cfg e N).repl := by
  rcases psync_or_not e with hs | ⟨m, link, args, rfl, hp⟩
  · exact (shrinks_step hs).live_of hl
  · obtain ⟨hlinks, hclosed, -⟩ := step_psync hp (h hp)
    intro l hmem
    rw [hclosed]
    rw [hlinks] at hmem
    rcases List.mem_append.mp hmem with hmem | hmem
    · exact hl l hmem
    · rw [List.mem_singleton.mp hmem]; exact (h hp).1

/-- In every run from a server without replicas in which each PSYNC fits, each replica's link
is that of an open session. -/
theorem links_live_of_fits {N : Node π Net} (h₀ : N.repl.links = []) {es : List (Event π)}
    (h : Along (step cfg) (PsyncFits cfg) es N) :
    ∀ l ∈ (run (step cfg) es N).repl.links, (run (step cfg) es N).repl.closed l = false := by
  have hstart : Live N.repl := by
    intro l hl
    rw [h₀] at hl; cases hl
  exact h.invariant (I := fun (N : Node π Net) => Live N.repl) (fun _ _ hl hf => live_step hl hf) hstart

/-- A server with an empty store, no persistence and no replicas. -/
def emptyMaster : Node Unit Net := ⟨{}, (), { repl := { replid := Net.zeroReplid } }⟩

/-- A connection on link 1 that asks for a resync. -/
def syncFirst : List (Event Unit) :=
  [.accept 1 (str "replica:1"), .request {} 1 [str "PSYNC", str "?", str "-1"]]

theorem syncFirst_live : (run (step {}) syncFirst emptyMaster).repl.links = [1] ∧
    (run (step {}) syncFirst emptyMaster).repl.closed 1 = false := by
  have hfits : Along (step {}) (PsyncFits {}) syncFirst emptyMaster := ⟨trivial, fun _ => by decide, trivial⟩
  exact ⟨by decide, links_live_of_fits rfl hfits 1 (by decide)⟩

/-- With room for 100 bytes the transfer closes the session, which is then made a replica's. -/
theorem syncFirst_closed :
    let N := run (step { maxOutputBuffer := 100 }) syncFirst emptyMaster
    1 ∈ N.repl.links ∧ N.repl.closed 1 = true := by
  decide

/-! ## Each write once -/

/-- What an event gives to `propagate`. -/
def propagates (cfg : ServerConfig) : Event π → Node π Net → List Args
  | .request m link args, N =>
    if (outcome cfg m link args N).1.dirty then [(outcome cfg m link args N).1.propagate] else []
  | _, _ => []

/-- A PSYNC fits and is on a link that is not a replica's, a replica's link gets no reply, and
a fan-out closes no link before the last one. -/
def Orderly (cfg : ServerConfig) : Event π → Node π Net → Prop
  | .request m link args, N =>
    (psyncs args = true →
      link ∉ N.repl.links ∧ Fits cfg link (N.repl.transfer m.amb.now N.store).length N.repl) ∧
    (link ∈ N.repl.links → (outcome cfg m link args N).1.reply = []) ∧
    ((outcome cfg m link args N).1.dirty = true →
      ∀ l ∈ (replied cfg m link args N).links.dropLast,
        (replied cfg m link args N).overflows cfg l (encode (outcome cfg m link args N).1.propagate) = false)
  | .refuse link _, N => link ∉ N.repl.links
  | _, _ => True

theorem Orderly.psyncFits {e : Event π} {N : Node π Net} (h : Orderly cfg e N) : PsyncFits cfg e N := by
  cases e with
  | request m link args => exact fun hp => (h.1 hp).2
  | _ => trivial

/-- The links are distinct, and live. -/
structure Distinct (N : Net) : Prop where
  nodup : N.links.Nodup
  live : Live N

theorem distinct_step {e : Event π} {N : Node π Net} (hi : Distinct N.repl) (h : Orderly cfg e N) :
    Distinct (step cfg e N).repl := by
  refine ⟨?_, live_step hi.live h.psyncFits⟩
  rcases psync_or_not e with hs | ⟨m, link, args, rfl, hp⟩
  · exact (shrinks_step hs).nodup hi.nodup
  · obtain ⟨hnew, hf⟩ := h.1 hp
    rw [(step_psync hp hf).1]
    exact List.nodup_append.mpr ⟨hi.nodup, List.nodup_singleton _, fun a ha b hb => by
      rw [List.mem_singleton.mp hb]; rintro rfl; exact hnew ha⟩

theorem carries_propagate {N : Net} (hi : Distinct N) {args : Args}
    (hfits : ∀ l ∈ N.links.dropLast, N.overflows cfg l (encode args) = false) (link : ClientLink) :
    Carries link (encode args) N (N.propagate cfg args) := by
  intro hmem
  have hmem' := (Net.shrinks_propagate args N).links.subset hmem
  have hsent := (Net.fanOut_of_fits (N := N.advance (encode args).length) N.links [] rfl hi.nodup
    hi.live hfits).2 link
  rw [Net.propagate_eq]
  exact ⟨hmem', hsent.trans (if_pos hmem')⟩

/-- What a request other than a PSYNC puts out before it propagates: its reply, which is not
on a replica's link. -/
theorem carries_replied {m : Moment π} {l : ClientLink} {args : Args} {N : Node π Net}
    (hp : psyncs args = false) (hr : l ∈ N.repl.links → (outcome cfg m l args N).1.reply = [])
    (link : ClientLink) : Carries link [] N.repl (replied cfg m l args N) := by
  have hshrinks : Shrinks N.repl (replied cfg m l args N) := shrinks_replied hp
  intro hmem
  have hmem' := hshrinks.links.subset hmem
  have hsent : (outcome cfg m l args N).2.repl.sent link = N.repl.sent link := by
    rw [Net.sent, outcome, (quiet_dispatch hp m (some l) N).sessions]; rfl
  refine ⟨hmem', ?_⟩
  rw [List.append_nil, ← hsent]
  by_cases hl : link = l
  · subst hl
    rw [replied_eq, hr hmem']
    exact Net.sent_put (by simp [Net.sent])
  · rw [replied_eq]
    simp [Net.sent, Net.sessions_put, hl]

/-- A resync of another link puts nothing out on `link`. -/
theorem carries_psync {m : Moment π} {l link : ClientLink} {args : Args} {N : Node π Net}
    (hp : psyncs args = true)
    (hf : Fits cfg l (N.repl.transfer m.amb.now N.store).length N.repl) (hne : link ≠ l) :
    Carries link (encs (propagates cfg (.request m l args) N)) N.repl
      (step cfg (.request m l args) N).repl := by
  obtain ⟨hlinks, -, hsent⟩ := step_psync hp hf
  have ho : outcome cfg m l args N = _ := dispatch_psync hp m (some l) N
  intro hmem
  rw [hlinks] at hmem
  rw [hsent, if_neg hne, propagates, ho, if_neg (by simp)]
  refine ⟨?_, (List.append_nil _).symm⟩
  rcases List.mem_append.mp hmem with hmem | hmem
  · exact hmem
  · exact absurd (List.mem_singleton.mp hmem) hne

/-- Any other request puts out what it propagates. -/
theorem carries_request {m : Moment π} {l : ClientLink} {args : Args} {N : Node π Net}
    (hp : psyncs args = false) (hi : Distinct N.repl) (h : Orderly cfg (.request m l args) N)
    (link : ClientLink) :
    Carries link (encs (propagates cfg (.request m l args) N)) N.repl
      (step cfg (.request m l args) N).repl := by
  have hr := carries_replied hp h.2.1 link
  have hi' : Distinct (replied cfg m l args N) :=
    ⟨(shrinks_replied hp).nodup hi.nodup, (shrinks_replied hp).live_of hi.live⟩
  rw [repl_request, propagates]
  by_cases hargs : args = []
  · subst hargs
    exact fun hmem => ⟨hmem, (List.append_nil _).symm⟩
  · rw [if_neg hargs]
    by_cases hd : (outcome cfg m l args N).1.dirty = true
    · rw [if_pos hd, if_pos hd, encs_singleton]
      exact hr.trans (carries_propagate hi' (h.2.2 hd) link)
    · rw [if_neg hd, if_neg hd]
      exact hr

/-- On a link that stays a replica's, an event puts out what it propagates. -/
theorem carries_step {e : Event π} {N : Node π Net} (hi : Distinct N.repl) (h : Orderly cfg e N)
    {link : ClientLink} (hs : syncs link e = false) :
    Carries link (encs (propagates cfg e N)) N.repl (step cfg e N).repl := by
  have hquiet (hs' : ∀ l, syncs l e = false)
      (hsent : link ∈ N.repl.links → (step cfg e N).repl.sent link = N.repl.sent link) :
      Carries link [] N.repl (step cfg e N).repl := fun hmem =>
    have hmem' := (shrinks_step hs').links.subset hmem
    ⟨hmem', by rw [hsent hmem', List.append_nil]⟩
  cases e with
  | request m l args =>
    by_cases hp : psyncs args = true
    · exact carries_psync hp (h.1 hp).2 (by rintro rfl; simp [syncs, hp] at hs)
    · exact carries_request (by simpa using hp) hi h link
  | accept l peer =>
    refine hquiet (fun _ => rfl) fun hmem => ?_
    show (if N.repl.closed l then _ else N : Node π Net).repl.sent link = _
    split
    · rename_i hc
      have hne : link ≠ l := by rintro rfl; rw [hi.live _ hmem] at hc; cases hc
      simp [Net.sent, Net.sessions_put, hne]
    · rfl
  | refuse l error =>
    refine hquiet (fun _ => rfl) fun hmem => ?_
    have hne : link ≠ l := fun he => h (he ▸ hmem)
    simp [step, sessionHost, Net.sent, Net.sessions_put, hne]
  | readEnd l input =>
    refine hquiet (fun _ => rfl) fun _ => ?_
    show (readEnd cfg l input N.repl).sent link = _
    unfold readEnd
    dsimp only
    split
    · rw [Net.sent_doClose]; exact Net.sent_put rfl
    · exact Net.sent_put (by rw [Session.sent_flush]; rfl)
  | readFailed l => exact hquiet (fun _ => rfl) fun _ => Net.sent_doClose ..
  | written l => exact hquiet (fun _ => rfl) fun _ => Net.sent_put (Session.sent_onWritten _)
  | writeFailed l =>
    refine hquiet (fun _ => rfl) fun _ => ?_
    show (Net.doClose l (N.repl.put l _)).sent link = _
    rw [Net.sent_doClose]
    exact Net.sent_put rfl
  | apply m args =>
    refine hquiet (fun _ => rfl) fun _ => ?_
    rw [Net.sent, (quiet_apply m args N).sessions]; rfl
  | cron store pers => exact hquiet (fun _ => rfl) fun _ => rfl

/-- In every orderly run from a server without replicas, each link is a replica's at most once,
and what a replica's link has been sent since its last resync are the commands propagated since,
each once. -/
theorem writes_once_of_orderly {N : Node π Net} (h₀ : N.repl.links = []) {es : List (Event π)}
    (h : Along (step cfg) (Orderly cfg) es N) :
    (run (step cfg) es N).repl.links.Nodup ∧
      ∀ (before after : List (Event π)) (m : Moment π) (link : ClientLink) (args : Args),
        es = before ++ .request m link args :: after → psyncs args = true →
        (∀ e ∈ after, syncs link e = false) → link ∈ (run (step cfg) es N).repl.links →
        let N₁ := run (step cfg) before N
        let N₂ := step cfg (.request m link args) N₁
        (run (step cfg) es N).repl.sent link =
          N₁.repl.sent link ++ N₁.repl.transfer m.amb.now N₁.store ++
            encs (collect (step cfg) (propagates cfg) after N₂) := by
  have hstart : Distinct N.repl :=
    ⟨by rw [h₀]; exact List.nodup_nil, by intro l hl; rw [h₀] at hl; cases hl⟩
  have hkeep (e : Event π) (N : Node π Net) (hi : Distinct N.repl) (ho : Orderly cfg e N) :
      Distinct (step cfg e N).repl := distinct_step hi ho
  refine ⟨(h.invariant (I := fun (N : Node π Net) => Distinct N.repl) hkeep hstart).nodup, ?_⟩
  rintro before after m link args rfl hp hlast hmem
  intro N₁ N₂
  obtain ⟨hbefore, hpsync, hafter⟩ := along_append.mp h
  have hi₁ := hbefore.invariant (I := fun (N : Node π Net) => Distinct N.repl) hkeep hstart
  have hcarries : Carries link (encs (collect (step cfg) (propagates cfg) after N₂))
      N₂.repl (run (step cfg) after N₂).repl :=
    (hafter.and_mem hlast).collects (I := fun (N : Node π Net) => Distinct N.repl)
      (R := fun N cmds N' => Carries link (encs cmds) N.repl N'.repl)
      (fun N hm => ⟨hm, (List.append_nil _).symm⟩)
      (fun h h' => by rw [encs_append]; exact h.trans h')
      (fun e N hi ho => hkeep e N hi ho.1) (fun e N hi ho => carries_step hi ho.1 ho.2)
      (hkeep _ _ hi₁ hpsync)
  rw [run_append, run_cons] at hmem ⊢
  rw [(hcarries hmem).2, (step_psync hp (hpsync.1 hp).2).2.2 link, if_pos rfl]

/-- A write on link 2 while link 1 is a replica's. -/
def syncThenWrite : List (Event Unit) :=
  syncFirst ++ [.accept 2 [], .request {} 2 [str "SET", str "k", str "v"]]

theorem syncThenWrite_once :
    (run (step {}) syncThenWrite emptyMaster).repl.links.Nodup ∧
      let N₁ := run (step {}) [.accept 1 (str "replica:1")] emptyMaster
      (run (step {}) syncThenWrite emptyMaster).repl.sent 1 =
        N₁.repl.sent 1 ++ N₁.repl.transfer 0 N₁.store ++ encode [str "SET", str "k", str "v"] := by
  obtain ⟨hnodup, hsent⟩ := @writes_once_of_orderly Unit {} emptyMaster rfl syncThenWrite
    ⟨trivial, ⟨by decide, by decide, by decide⟩, trivial, ⟨by decide, by decide, by decide⟩, trivial⟩
  exact ⟨hnodup, hsent [_] _ {} 1 _ rfl (by decide) (by decide) (by decide)⟩

/-- After two PSYNCs on link 1 it is a replica's twice, and carries the write twice. -/
theorem resync_carries_twice :
    let synced := run (step {}) (syncFirst ++ [.request {} 1 [str "PSYNC", str "?", str "-1"]]) emptyMaster
    let N := run (step {}) [.accept 2 [], .request {} 2 [str "SET", str "k", str "v"]] synced
    N.repl.links = [1, 1] ∧
      (N.repl.sent 1).drop (synced.repl.sent 1).length =
        encode [str "SET", str "k", str "v"] ++ encode [str "SET", str "k", str "v"] := by
  decide +kernel

end Asio

end RP
