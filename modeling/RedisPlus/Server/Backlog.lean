import RedisPlus.Replication.Fanout
import RedisPlus.Server.Poll

/-!
# How much output waits

In the asio backend every append to the output of an open session is followed by a check of the
cap in the same callback, so after each callback an open session is within it (`within_callback`).
In the poll backend `handle_read` checks the output of its own connection only, and `Conn::send`
none. What the requests of one read push to another connection is the encoding of each write, once
for each time the connection is in `replicas_` (`pushes_onData`), so the event keeps the bound
exactly if that fits (`within_step_iff`). Over runs of both: `backlog_bounded_iff`.
-/

namespace RP

open Framework (run Along collect)

/-! ## The asio backend -/

namespace Net

variable (cfg : ServerConfig)

/-- Every open session has at most `max_output_buffer` bytes waiting. The session `spare`, whose
read callback is running, may have more. -/
def Within (spare : Option ClientLink) (N : Net) : Prop :=
  ∀ l, some l ≠ spare → N.closed l = false → (N.sessions l).load ≤ cfg.maxOutputBuffer.toNat

variable {cfg} {spare : Option ClientLink} {N : Net}

theorem Within.put (h : N.Within cfg spare) {link : ClientLink} {s : Session}
    (hs : some link ≠ spare → s.closed = false → s.load ≤ cfg.maxOutputBuffer.toNat) :
    (N.put link s).Within cfg spare := by
  intro l hl hopen
  rw [closed, sessions_put] at hopen
  rw [sessions_put]
  by_cases hlink : l = link
  · rw [if_pos hlink] at hopen ⊢
    exact hs (hlink ▸ hl) hopen
  · rw [if_neg hlink] at hopen ⊢
    exact h l hl hopen

/-- What is over the cap is closed. -/
theorem Within.doClose {link : ClientLink} (h : N.Within cfg (some link)) :
    (N.doClose link).Within cfg none := by
  intro l _ hopen
  rw [closed_doClose, Bool.or_eq_false_iff] at hopen
  have hl : l ≠ link := by simpa using hopen.2
  rw [show (N.doClose link).sessions l = N.sessions l from ?_]
  · exact h l (fun heq => hl (Option.some.inj heq)) hopen.1
  · unfold Net.doClose
    split
    · rfl
    · exact (sessions_put ..).trans (if_neg hl)

theorem Within.mono (h : N.Within cfg none) (spare : Option ClientLink) : N.Within cfg spare :=
  fun l _ => h l (Option.some_ne_none l)

theorem load_send {link : ClientLink} {data : Bytes} (h : (N.send cfg link data).closed link = false) :
    ((N.send cfg link data).sessions link).load ≤ cfg.maxOutputBuffer.toNat := by
  simp only [closed_send, BEq.rfl, Bool.true_and, Bool.or_eq_false_iff] at h
  have hfits : ¬ cfg.maxOutputBuffer.toNat < ((N.sessions link).append data).load := by
    simpa [overflows, overCap, h.1] using h.2
  rw [send_of_fits h.1 h.2, sessions_put, if_pos rfl, Session.load_flush]
  exact Nat.le_of_not_lt hfits

theorem Within.send (h : N.Within cfg spare) (link : ClientLink) (data : Bytes) :
    (N.send cfg link data).Within cfg spare := by
  intro l hl hopen
  by_cases hlink : l = link
  · subst hlink
    exact load_send hopen
  · rw [closed, sessions_send_of_ne hlink] at hopen
    rw [sessions_send_of_ne hlink]
    exact h l hl hopen

theorem Within.fanOut (encoded : Bytes) : ∀ (n i : Nat) {N : Net}, N.Within cfg spare →
    (N.fanOut cfg encoded n i).Within cfg spare
  | 0, _, _, h => h
  | n + 1, i, N, h => by
    rw [Net.fanOut]
    split
    · exact Within.fanOut encoded n (i + 1) (h.send _ _)
    · exact h

theorem Within.propagate (h : N.Within cfg spare) (args : Args) :
    (N.propagate cfg args).Within cfg spare := by
  unfold Net.propagate
  split
  · exact h
  · exact Within.fanOut _ _ _ h

variable (cfg spare) in
theorem keeps_within (now : Int64) : (ops cfg now).Keeps (Within cfg spare) where
  startFullResync S link N h := by
    rcases link with _ | link
    · exact h
    · exact ((h.send link _).send link _).send link _
  onReplicaAck _ _ _ h := h
  setReplicaPort _ _ _ h := h
  replicaof _ _ _ h := h
  stopReplication _ h := h

end Net

namespace Session

theorem load_onWritten (s : Session) : s.onWritten.load ≤ s.load := by
  unfold onWritten
  split
  · exact Nat.le_refl _
  · rw [load_flush]
    simp only [load, List.length_drop]
    omega

end Session

namespace Asio

variable {π : Type} {cfg : ServerConfig} {N : Node π Net}

theorem within_dispatch {spare : Option ClientLink} (m : Moment π) (link : Option ClientLink)
    (args : Args) (h : N.repl.Within cfg spare) :
    (dispatch (m.table cfg) m.amb link args N).2.repl.Within cfg spare := by
  refine dispatch_keeps (m.table cfg) m.amb link args N (I := Net.Within cfg spare) ?_ h
  intro ops hops
  obtain rfl : Net.ops cfg m.amb.now = ops := Option.some.inj hops
  exact Net.keeps_within cfg spare m.amb.now

/-- A read callback can leave only its own session over the cap. -/
theorem within_onData (m : Moment π) (link : ClientLink) (b : Buffer) (h : N.repl.Within cfg none) :
    (onData (sessionHost cfg m link) b N).state.repl.Within cfg (some link) := by
  refine onData_keeps (I := fun N : Node π Net => N.repl.Within cfg (some link)) _ ?_ ?_ ?_ b (h.mono _)
  · exact fun args N' h => within_dispatch m (some link) args h
  · exact fun r N' h => h.put fun hne => absurd rfl hne
  · exact fun args N' h => h.propagate args

theorem within_readEnd {N : Net} {link : ClientLink} (h : N.Within cfg (some link)) (input : Buffer) :
    (readEnd cfg link input N).Within cfg none := by
  have hput (s : Session) : (N.put link s).Within cfg (some link) := h.put fun hne => absurd rfl hne
  unfold readEnd
  dsimp only
  split
  · exact (hput _).doClose
  · rename_i hcap
    have hcap : ¬ cfg.maxOutputBuffer.toNat < (N.sessions link).load := fun h => hcap (decide_eq_true h)
    intro l _ hopen
    by_cases hl : l = link
    · rw [Net.sessions_put, if_pos hl, Session.load_flush]
      exact Nat.le_of_not_lt hcap
    · exact hput _ l (fun heq => hl (Option.some.inj heq)) hopen

theorem within_readOn {N : Net} {link : ClientLink} (h : N.Within cfg none) :
    (readOn link N).Within cfg none :=
  h.put fun _ hopen => h link (Option.some_ne_none link) hopen

/-- After each callback the open sessions are within the cap. -/
theorem within_callback (c : Callback π) (h : N.repl.Within cfg none) :
    (callback cfg c N).repl.Within cfg none := by
  cases c with
  | accept link peer =>
    unfold callback step
    dsimp only
    split
    · exact h.put fun _ _ => Nat.zero_le _
    · exact h
  | read m link bytes =>
    unfold callback
    dsimp only
    split
    · exact within_readOn (within_readEnd (within_onData m link _ h) _)
    · exact h
  | readFailed link => exact within_readOn (h.mono _).doClose
  | written link =>
    refine h.put fun _ hopen => Nat.le_trans (Session.load_onWritten _) ?_
    rw [Session.closed_onWritten] at hopen
    exact h link (Option.some_ne_none link) hopen
  | writeFailed link => exact ((h.mono (some link)).put fun hne => absurd rfl hne).doClose
  | apply m args => exact within_dispatch m none args h
  | cron store pers => exact h

end Asio

/-! ## What a call of `on_data` hands to the propagation hook -/

section

variable {σ : Type} (H : Host σ)

/-- What handling a request hands to the propagation hook. -/
def propagatedBy (args : Args) (s : σ) : List Args :=
  if args ≠ [] ∧ (H.dispatch args s).1.dirty then [(H.dispatch args s).1.propagate] else []

/-- What a call of `on_data` propagates. -/
def propagated (b : Buffer) (s : σ) : List Args :=
  collect (handleRequest H) (propagatedBy H) (onData H b s).requests s

theorem handleAll_dispatched : ∀ (rs : List Args) (s : σ),
    handleAll H (dispatched rs) s = handleAll H rs s
  | [], _ => rfl
  | args :: rs, s => by
    rw [dispatched_cons]
    split
    · rename_i hargs
      rw [handleAll_dispatched rs s, hargs]
      rfl
    · exact handleAll_dispatched rs _

end

/-! ## The poll backend -/

namespace Poll

open Asio (Moment)

/-- The size of all these commands on the wire. -/
def wireSize (commands : List Args) : Nat := (commands.map fun args => (encode args).length).sum

namespace Net

/-- How many bytes wait for the connection. -/
def queued (l : ClientLink) (N : Net) : Option Nat := (N.conns l).map fun c => c.out.length

/-- Every open connection has at most `max_output_buffer` bytes waiting. One that failed in this
sweep is no longer open. -/
def Within (cfg : Config) (N : Net) : Prop :=
  ∀ l n, N.queued l = some n → l ∉ N.dead → n ≤ cfg.maxOutputBuffer.toNat

/-- From `N` to `N'`, `n` more bytes wait for `l`, and it is in `replicas_` as often as before. -/
structure Pushes (l : ClientLink) (n : Nat) (N N' : Net) : Prop where
  queued : N'.queued l = (N.queued l).map (· + n)
  count : N'.repl.links.count l = N.repl.links.count l
  dead : N'.dead = N.dead

namespace Pushes

variable {l : ClientLink}

theorem refl (l : ClientLink) (N : Net) : Pushes l 0 N N := ⟨by simp, rfl, rfl⟩

theorem trans {n n' : Nat} {N N' N'' : Net} (h : Pushes l n N N') (h' : Pushes l n' N' N'') :
    Pushes l (n + n') N N'' where
  queued := by
    rw [h'.queued, h.queued, Option.map_map]
    congr 1
    funext k
    exact Nat.add_assoc ..
  count := h'.count.trans h.count
  dead := h'.dead.trans h.dead

/-- Whatever is done to another connection. -/
theorem modify {link : ClientLink} (hl : l ≠ link) (f : Conn → Conn) (N : Net) :
    Pushes l 0 N (N.modify link f) where
  queued := by
    rw [Net.queued, Net.modify]
    simp [Function.update_of_ne hl, Net.queued, Function.comp_def]
  count := rfl
  dead := rfl

theorem send (l link : ClientLink) (data : Bytes) (N : Net) :
    Pushes l (if link = l then data.length else 0) N (N.send link data) := by
  by_cases hl : link = l
  · subst hl
    refine ⟨?_, rfl, rfl⟩
    rw [if_pos rfl]
    simp [Net.queued, Net.send, Net.modify, Function.comp_def]
  · rw [if_neg hl]
    exact modify (Ne.symm hl) _ N

theorem foldl_send (l : ClientLink) (data : Bytes) : ∀ (links : List ClientLink) (N : Net),
    Pushes l (links.count l * data.length) N (links.foldl (fun N link => N.send link data) N)
  | [], N => by simpa using refl l N
  | link :: links, N => by
    have h := (send l link data N).trans (foldl_send l data links _)
    rw [List.foldl_cons, List.count_cons]
    convert h using 1
    by_cases hl : link = l
    · rw [if_pos hl, if_pos (by simp [hl]), Nat.add_mul, Nat.one_mul, Nat.add_comm]
    · rw [if_neg hl, if_neg (by simp [hl]), Nat.add_zero, Nat.zero_add]

theorem propagate (l : ClientLink) (args : Args) (N : Net) :
    Pushes l (N.repl.links.count l * (encode args).length) N (N.propagate args) := by
  have h := foldl_send l (encode args) N.repl.links { N with repl :=
    { N.repl with masterOffset := N.repl.masterOffset + Int64.ofNat (encode args).length } }
  exact ⟨h.queued, h.count, h.dead⟩

/-- A resynchronisation registers the connection that asked for it. -/
theorem startFullResync {link : Option ClientLink} (hl : some l ≠ link) (now : Int64) (S : Store)
    (N : Net) : Pushes l 0 N (N.startFullResync now S link) := by
  rcases link with _ | link
  · exact refl l N
  have hl : l ≠ link := fun h => hl (congrArg some h)
  have hsends (a b c : Bytes) : Pushes l 0 N (((N.send link a).send link b).send link c) :=
    ((modify hl _ N).trans (modify hl _ _)).trans (modify hl _ _)
  refine ⟨(hsends _ _ _).queued, ?_, rfl⟩
  have hcount : ([link] : List ClientLink).count l = 0 := List.count_eq_zero.mpr (by simpa using hl)
  show ((N.repl.replicas ++ [_]).map Replica.link).count l = _
  rw [List.map_append, List.count_append]
  exact (congrArg (_ + ·) hcount).trans (Nat.add_zero _)

end Pushes

theorem keepsFor_pushes {l : ClientLink} {link : Option ClientLink} (hl : some l ≠ link) (now : Int64)
    (N : Net) : (ops now).KeepsFor link (Pushes l 0 N) where
  startFullResync S N' h := h.trans (.startFullResync hl now S N')
  onReplicaAck offset N' h :=
    ⟨h.queued, (congrArg (List.count l) (N'.repl.links_onReplicaAck link offset)).trans h.count, h.dead⟩
  setReplicaPort port N' h :=
    ⟨h.queued, (congrArg (List.count l) (N'.repl.links_setReplicaPort link _)).trans h.count, h.dead⟩
  replicaof host port N' h := by
    refine ⟨h.queued, Eq.trans ?_ h.count, h.dead⟩
    simp only [ops, Replication.replicaof]
    split <;> rfl
  stopReplication N' h := ⟨h.queued, h.count, h.dead⟩

end Net

variable {π : Type} {l : ClientLink}

theorem pushes_dispatch {link : Option ClientLink} (hl : some l ≠ link) (m : Moment π) (args : Args)
    (N : Node π Net) : Net.Pushes l 0 N.repl (dispatch (table m) m.amb link args N).2.repl := by
  refine dispatch_keepsFor (table m) m.amb link args N (I := Net.Pushes l 0 N.repl) ?_ (.refl l N.repl)
  intro ops hops
  obtain rfl : Net.ops m.amb.now = ops := Option.some.inj hops
  exact Net.keepsFor_pushes hl ..

section

variable {link : ClientLink} (hl : l ≠ link) (m : Moment π)
include hl

theorem pushes_handleRequest (args : Args) (N : Node π Net) :
    Net.Pushes l (N.repl.repl.links.count l * wireSize (propagatedBy (connHost m link) args N)) N.repl
      (handleRequest (connHost m link) args N).repl := by
  by_cases hargs : args = []
  · rw [handleRequest, if_pos hargs, propagatedBy, if_neg (by simp [hargs])]
    exact .refl l N.repl
  have hdispatch : Net.Pushes l 0 N.repl ((connHost m link).dispatch args N).2.repl :=
    pushes_dispatch (fun h => hl (Option.some.inj h)) m args N
  have hreply := hdispatch.trans (.modify hl (fun c =>
    { c with out := c.out ++ ((connHost m link).dispatch args N).1.reply }) _)
  by_cases hdirty : ((connHost m link).dispatch args N).1.dirty = true
  · rw [handleRequest_of_dirty _ hargs hdirty, propagatedBy, if_pos ⟨hargs, hdirty⟩]
    have h := hreply.trans (.propagate l ((connHost m link).dispatch args N).1.propagate _)
    rw [hreply.count, Nat.zero_add] at h
    rw [show wireSize [((connHost m link).dispatch args N).1.propagate] = _ from List.sum_singleton]
    exact h
  · rw [handleRequest_of_clean _ hargs hdirty, propagatedBy, if_neg (fun h => hdirty h.2)]
    exact hreply

theorem pushes_handleAll : ∀ (rs : List Args) (N : Node π Net),
    Net.Pushes l (N.repl.repl.links.count l *
      wireSize (collect (handleRequest (connHost m link)) (propagatedBy (connHost m link)) rs N)) N.repl
      (handleAll (connHost m link) rs N).repl
  | [], N => .refl l N.repl
  | args :: rs, N => by
    have hfirst := pushes_handleRequest hl m args N
    have h := hfirst.trans (pushes_handleAll rs (handleRequest (connHost m link) args N))
    rw [hfirst.count, ← Nat.mul_add] at h
    rw [collect, wireSize, List.map_append, List.sum_append]
    exact h

/-- What the requests of one read push to another connection. -/
theorem pushes_onData (b : Buffer) (N : Node π Net) :
    Net.Pushes l (N.repl.repl.links.count l * wireSize (propagated (connHost m link) b N)) N.repl
      (onData (connHost m link) b N).state.repl := by
  obtain ⟨rs, x, hd⟩ := Framework.Drains.total requestParser b.readable
  obtain ⟨b', -, hdata⟩ := onData_drains (connHost m link) hd N
  have hall := pushes_handleAll hl m (dispatched rs) N
  rw [handleAll_dispatched] at hall
  rw [propagated, hdata]
  rcases x with _ | ⟨e, _⟩
  · exact hall
  · exact hall.trans (.modify hl _ _)

end

/-! ## One event -/

theorem length_sendLoop (closeAfterFlush : Bool) : ∀ (sends : List Sent) (out : Bytes),
    (sendLoop closeAfterFlush sends out).2.length ≤ out.length
  | [], _ => Nat.le_refl _
  | s :: sends, out => by
    unfold sendLoop
    split
    · exact Nat.le_refl _
    cases s with
    | sent n =>
      dsimp only
      split
      · refine Nat.le_trans (length_sendLoop closeAfterFlush sends _) ?_
        rw [List.length_drop]
        omega
      · exact Nat.le_refl _
    | interrupted => exact length_sendLoop closeAfterFlush sends out
    | wouldBlock | failed => exact Nat.le_refl _

/-- Writing leaves no connection with more to write. -/
theorem queued_handleWrite {link : ClientLink} {sends : List Sent} {N : Net} {n : Nat}
    (h : (handleWrite link sends N).2.queued l = some n) : ∃ k, N.queued l = some k ∧ n ≤ k := by
  unfold handleWrite at h
  split at h
  · exact ⟨n, h, Nat.le_refl _⟩
  rename_i c hc
  by_cases hl : l = link
  · subst hl
    refine ⟨c.out.length, by rw [Net.queued, hc]; rfl, ?_⟩
    simp only [Net.queued, Net.modify, Function.update_self, hc, Option.map_some, Option.some.injEq] at h
    rw [← h]
    exact length_sendLoop ..
  · rw [(Net.Pushes.modify hl _ N).queued] at h
    obtain ⟨k, hk, rfl⟩ := Option.map_eq_some_iff.1 h
    exact ⟨k, hk, Nat.le_refl _⟩

/-- A connection that `handle_read` keeps is within the cap. -/
theorem queued_handleRead {cfg : Config} {m : Moment π} {link : ClientLink} {recvs : List Recv}
    {sends : List Sent} {N : Node π Net} {n : Nat}
    (hkeep : (handleRead cfg m link recvs sends N).1 = true)
    (hn : (handleRead cfg m link recvs sends N).2.repl.queued link = some n) :
    n ≤ cfg.maxOutputBuffer.toNat := by
  unfold handleRead at hkeep hn
  split at hkeep
  · cases hkeep
  dsimp only at hkeep hn
  split at hkeep
  · cases hkeep
  rename_i b hb hcap
  rw [hb] at hn
  dsimp only at hn
  rw [if_neg hcap] at hn
  obtain ⟨k, hk, hle⟩ := queued_handleWrite hn
  simp only [Net.queued] at hk
  rw [hk] at hcap
  exact Nat.le_trans hle (Nat.le_of_not_lt hcap)

/-- What a read pushes to a connection that is in `replicas_` once. -/
def pushed (cfg : Config) (m : Moment π) (link : ClientLink) (recvs : List Recv) (N : Node π Net) : Nat :=
  match inputRead cfg link recvs N.repl with
  | none => 0
  | some b => wireSize (propagated (connHost m link) b N)

theorem pushes_handleRead {link : ClientLink} (hl : l ≠ link) (cfg : Config) (m : Moment π)
    (recvs : List Recv) (sends : List Sent) (N : Node π Net) :
    Net.Pushes l (N.repl.repl.links.count l * pushed cfg m link recvs N) N.repl
      (handleRead cfg m link recvs sends N).2.repl := by
  cases hb : inputRead cfg link recvs N.repl with
  | none =>
    simp only [handleRead, pushed, hb]
    exact .refl l N.repl
  | some b =>
    simp only [handleRead, pushed, hb]
    have h := (pushes_onData hl m b N).trans
      (.modify hl (fun c => { c with input := (onData (connHost m link) b N).input }) _)
    split
    · exact h
    · unfold handleWrite
      split
      · exact h
      · exact h.trans (.modify hl _ _)

/-- In a read, what is pushed to each other open connection fits. -/
def Event.Fits (cfg : Config) (e : Event π) (N : Node π Net) : Prop :=
  match e with
  | .read m link recvs _ => link ∉ N.repl.dead →
      ∀ l n, l ≠ link → N.repl.queued l = some n → l ∉ N.repl.dead →
        n + N.repl.repl.links.count l * pushed cfg m link recvs N ≤ cfg.maxOutputBuffer.toNat
  | _ => True

@[simp] theorem queued_bury (link : ClientLink) (keep : Bool) (N : Net) :
    (bury link keep N).queued l = N.queued l := by
  unfold bury
  split <;> rfl

variable {cfg : Config} {N : Node π Net}

theorem within_read_iff (h : N.repl.Within cfg) (m : Moment π) (link : ClientLink) (recvs : List Recv)
    (sends : List Sent) : (step cfg (.read m link recvs sends) N).repl.Within cfg ↔
      Event.Fits cfg (.read m link recvs sends) N := by
  by_cases hdead : link ∈ N.repl.dead
  · rw [step, if_pos hdead]
    exact iff_of_true h fun hnot => absurd hdead hnot
  have hother {l : ClientLink} (hl : l ≠ link) := pushes_handleRead hl cfg m recvs sends N
  simp only [step, if_neg hdead]
  constructor
  · intro hw _ l n hl hn hopen
    refine hw l _ ?_ ?_
    · rw [queued_bury, (hother hl).queued, hn]
      rfl
    · rw [mem_dead_bury, (hother hl).dead]
      exact not_or.mpr ⟨hopen, fun h => hl h.1⟩
  · intro hfits l n hn hopen
    rw [queued_bury] at hn
    rw [mem_dead_bury, not_or] at hopen
    by_cases hl : l = link
    · subst hl
      refine queued_handleRead ?_ hn
      simpa using hopen.2
    · rw [(hother hl).queued] at hn
      obtain ⟨k, hk, rfl⟩ := Option.map_eq_some_iff.1 hn
      rw [(hother hl).dead] at hopen
      exact hfits hdead l k hl hk hopen.1

/-- An event keeps the open connections within the cap exactly if what it pushes fits. -/
theorem within_step_iff (h : N.repl.Within cfg) (e : Event π) :
    (step cfg e N).repl.Within cfg ↔ e.Fits cfg N := by
  cases e with
  | read m link recvs sends => exact within_read_iff h m link recvs sends
  | accept link peer =>
    refine iff_of_true ?_ trivial
    unfold step
    dsimp only
    split
    · exact h
    intro l n hn hopen
    by_cases hl : l = link
    · simp only [Net.queued, hl, Function.update_self, Option.map_some, Option.some.injEq] at hn
      exact hn ▸ Nat.zero_le _
    · simp only [Net.queued, Function.update_of_ne hl] at hn
      exact h l n hn hopen
  | write link sends =>
    refine iff_of_true ?_ trivial
    unfold step
    dsimp only
    split
    · exact h
    intro l n hn hopen
    rw [queued_bury] at hn
    obtain ⟨k, hk, hle⟩ := queued_handleWrite hn
    refine Nat.le_trans hle (h l k hk fun hmem => hopen ?_)
    rw [mem_dead_bury]
    refine .inl ?_
    unfold handleWrite
    split <;> exact hmem
  | hangup link =>
    refine iff_of_true ?_ trivial
    intro l n hn hopen
    rw [step, queued_bury] at hn
    exact h l n hn fun hmem => hopen (mem_dead_bury.mpr (.inl hmem))
  | sweepEnd =>
    refine iff_of_true ?_ trivial
    intro l n hn _
    simp only [step, Net.queued, Net.conns_foldl_drop] at hn
    split at hn
    · cases hn
    · rename_i hopen
      exact h l n hn hopen
  | apply m args =>
    refine iff_of_true ?_ trivial
    intro l n hn hopen
    have hpush := pushes_dispatch (Option.some_ne_none l) m args N
    have hn : (dispatch (table m) m.amb none args N).2.repl.queued l = some n := hn
    rw [hpush.queued] at hn
    obtain ⟨k, hk, rfl⟩ := Option.map_eq_some_iff.1 hn
    exact h l k hk (hpush.dead ▸ hopen)
  | cron store pers => exact iff_of_true h trivial

end Poll

/-! ## Runs -/

/-- In every run of the asio backend the output of each open session stays within the cap. In a run
of the poll backend that of each open connection does exactly if, in each read, what the requests
push to the other connections fits. -/
theorem backlog_bounded_iff {π : Type} (cfg : Poll.Config) :
    (∀ (cs : List (Asio.Callback π)) (N : Node π Net), N.repl.Within cfg.toServerConfig none →
      (run (Asio.callback cfg.toServerConfig) cs N).repl.Within cfg.toServerConfig none) ∧
    ∀ (es : List (Poll.Event π)) (N : Node π Poll.Net), N.repl.Within cfg →
      (Along (Poll.step cfg) (fun e N => (Poll.step cfg e N).repl.Within cfg) es N ↔
        Along (Poll.step cfg) (Poll.Event.Fits cfg) es N) := by
  refine ⟨fun cs N h => ?_, fun es N h => ?_⟩
  · exact List.foldlRecOn (motive := fun N : Node π Net => N.repl.Within cfg.toServerConfig none) cs _ h
      fun _ hN c _ => Asio.within_callback c hN
  · exact Along.keeps_iff (I := fun N : Node π Poll.Net => N.repl.Within cfg) (J := fun _ => True)
      (fun _ _ _ _ => trivial) (fun e N _ hN _ => Poll.within_step_iff hN e) trivial h
      (.of_forall (P := fun _ _ => True) (fun _ _ => trivial) es N)

namespace Poll

/-- A server with this cap on the output of a connection. -/
def capped (n : UInt64) : Config := { maxOutputBuffer := n }

/-- A server without connections. -/
def noConns : Node Unit Net := ⟨{}, (), { repl := { replid := RP.Net.zeroReplid } }⟩

/-- A client, and a replica that takes the snapshot. -/
def attach : List (Event Unit) :=
  [.accept 1 [], .accept 2 [], .read {} 2 [.data (str "PSYNC ? -1\r\n")] [.sent 1000]]

/-- The client writes, and the replica's socket takes nothing. -/
def fiveWrites : Event Unit :=
  .read {} 1 [.data (str "SET k v\r\nSET k v\r\nSET k v\r\nSET k v\r\nSET k v\r\n")] [.sent 1000]

/-- With a cap of 110 bytes, 135 wait for the replica after the writes, and it stays connected. -/
theorem slowReplica_over_cap : noConns.repl.Within (capped 110) ∧
    ¬ (run (step (capped 110)) (attach ++ [fiveWrites]) noConns).repl.Within (capped 110) := by
  refine ⟨(fun _ _ h => nomatch h), fun h => ?_⟩
  have hqueued : (run (step (capped 110)) (attach ++ [fiveWrites]) noConns).repl.queued 2 = some 135 := by
    decide +kernel
  have hopen : 2 ∉ (run (step (capped 110)) (attach ++ [fiveWrites]) noConns).repl.dead := by
    decide +kernel
  exact absurd (h 2 135 hqueued hopen) (by decide)

/-- A server with a client and a replica. -/
def twoConns : Node Unit Net :=
  ⟨{}, (),
    { repl := { replid := RP.Net.zeroReplid, replicas := [⟨2, [], 0, 0⟩] }
      conns := fun l => if l = 1 ∨ l = 2 then some {} else none }⟩

theorem queued_twoConns {l : ClientLink} {n : Nat} (h : twoConns.repl.queued l = some n) :
    (l = 1 ∨ l = 2) ∧ n = 0 := by
  simp only [Net.queued, twoConns] at h
  split at h
  · rename_i hl
    exact ⟨hl, (Option.some.inj h).symm⟩
  · cases h

/-- With a cap of 200 bytes they fit. -/
theorem slowReplica_within_cap :
    Along (step (capped 200)) (Event.Fits (capped 200)) [fiveWrites] twoConns ∧
    Along (step (capped 200)) (fun e N => (step (capped 200) e N).repl.Within (capped 200))
      [fiveWrites] twoConns := by
  have hwithin : twoConns.repl.Within (capped 200) := by
    intro l n hn _
    rw [(queued_twoConns hn).2]
    exact Nat.zero_le _
  have hfits : Along (step (capped 200)) (Event.Fits (capped 200)) [fiveWrites] twoConns := by
    refine ⟨fun _ l n hl hn _ => ?_, trivial⟩
    obtain ⟨h, rfl⟩ := queued_twoConns hn
    obtain rfl := h.resolve_left hl
    decide +kernel
  exact ⟨hfits, ((backlog_bounded_iff (capped 200)).2 _ _ hwithin).mpr hfits⟩

end Poll

end RP
