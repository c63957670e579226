import RedisPlus.Replication.Fanout
import RedisPlus.Server.PollLoop
import RedisPlus.Server.Wire

/-!
# The backends serve alike

An asio session has two buffers for its output and a cap inside `send`, a poll connection has one buffer
and is dropped at the end of a sweep. From outside, both are connections of `Wire`: what an asio callback
does there is the arrival of its bytes or a close (`Asio.view_callback`), as long as no output passes the
cap, and a poll event likewise (`Poll.Traced.view_step`), where what was sent is what the system has taken
and what is left in `out`. So runs in which the same happens on the wire end alike
(`backends_serve_alike`). The same are the cuts, too: what a read callback of the one is called with is
what a read of the other takes, at the same time. Where the cuts differ, so may the outcome
(`backends_agree_iff`).
-/

namespace RP

open Framework (Abstraction run Along collect)
open Asio (Moment)

/-! ## The asio sessions -/

namespace Session

/-- A session without its buffers. -/
def wire (s : Session) : Option Wire.Conn :=
  if s.closed then none else some ⟨s.input.readable, s.sent, s.peer⟩

theorem wire_of_closed {s : Session} (h : s.closed = true) : s.wire = none := if_pos h

theorem wire_of_open {s : Session} (h : s.closed = false) :
    s.wire = some ⟨s.input.readable, s.sent, s.peer⟩ := if_neg (by simp [h])

@[simp] theorem wire_flush (s : Session) : s.flush.wire = s.wire := by
  have hpeer : s.flush.peer = s.peer := by
    simp only [flush]
    split
    · rfl
    · split <;> rfl
  simp only [wire, closed_flush, input_flush, sent_flush, hpeer]

@[simp] theorem wire_onWritten (s : Session) : s.onWritten.wire = s.wire := by
  have hsent := sent_onWritten s
  unfold onWritten at hsent ⊢
  cases hw : s.writing with
  | none => rfl
  | some n =>
    rw [hw] at hsent
    rw [sent_flush] at hsent
    rw [wire_flush]
    simp only [wire, hsent]

theorem wire_append {s : Session} (h : s.closed = false) (data : Bytes) : (s.append data).wire =
    s.wire.map fun c => { c with sent := c.sent ++ data } := by
  rw [wire_of_open h, wire_of_open (s := s.append data) h, sent_append]
  rfl

end Session

namespace Net

/-- What a client can see of the sessions. -/
def wire (N : Net) : Wire := ⟨N.repl, fun l => (N.sessions l).wire⟩

theorem wire_put (link : ClientLink) (s : Session) (N : Net) :
    (N.put link s).wire = { N.wire with conns := Function.update N.wire.conns link s.wire } := by
  refine congrArg (Wire.mk N.repl) (funext fun l => ?_)
  rw [sessions_put, Function.update_apply]
  split <;> rfl

/-- Buffers may change as long as what goes in and out does not. -/
theorem wire_put_same {link : ClientLink} {s : Session} {N : Net} (h : s.wire = (N.sessions link).wire) :
    (N.put link s).wire = N.wire := by
  rw [wire_put, h]
  exact congrArg (Wire.mk N.repl) (Function.update_eq_self ..)

theorem wire_put_append {link : ClientLink} {N : Net} (h : N.closed link = false) (data : Bytes) :
    (N.put link ((N.sessions link).append data)).wire = N.wire.send link data := by
  rw [wire_put, Session.wire_append h]
  rfl

theorem wire_doClose (link : ClientLink) (N : Net) : (N.doClose link).wire = N.wire.close link := by
  unfold doClose Wire.close
  cases hc : N.closed link with
  | true =>
    have hconn : N.wire.conns link = none := Session.wire_of_closed hc
    rw [if_pos rfl, hconn]
  | false =>
    have hconn : N.wire.conns link = some _ := Session.wire_of_open hc
    rw [if_neg (by decide), hconn]
    have hput := congrArg Wire.conns (N.wire_put link { N.sessions link with closed := true })
    exact congrArg (Wire.mk _) hput

/-- Those of `links` that `base` has open stay so, or something is lost; the other sessions do not
matter. -/
def seen (base : ClientLink → Bool) (links : List ClientLink) : Abstraction Net Wire where
  map := wire
  Fine N := N.closed = base ∧ ∀ l ∈ N.links, l ∈ links
  Lost N := ∃ l ∈ links, base l = false ∧ N.closed l = true

section

variable {cfg : ServerConfig} {base : ClientLink → Bool} {links : List ClientLink} {link : ClientLink}

/-- An operation that leaves the links and the sessions' state. -/
theorem follows_of_same {f : Net → Net} {f' : Wire → Wire} (hclosed : ∀ N, (f N).closed = N.closed)
    (hlinks : ∀ N, ∀ l ∈ (f N).links, l ∈ N.links ∨ l ∈ links)
    (hmap : ∀ N, N.closed = base → f' N.wire = (f N).wire) : (seen base links).Follows f f' where
  fine N h := .inr ⟨⟨(hclosed N).trans h.1, fun l hl => (hlinks N l hl).elim (h.2 l) id⟩, hmap N h.1⟩
  lost N := fun ⟨l, hl, hb, hc⟩ => ⟨l, hl, hb, by rw [hclosed]; exact hc⟩

theorem lost_send {N : Net} (h : (seen base links).Lost N) (link : ClientLink) (data : Bytes) :
    (seen base links).Lost (N.send cfg link data) := by
  obtain ⟨l, hl, hb, hc⟩ := h
  exact ⟨l, hl, hb, by rw [closed_send, hc, Bool.true_or]⟩

theorem send_follows (hlink : link ∈ links) (data : Bytes) :
    (seen base links).Follows (send cfg link data) (Wire.send link data) where
  fine N h := by
    rcases send_cases link data N with hc | ho | ⟨hc, ho⟩
    · rw [send_of_closed hc]
      exact .inr ⟨h, Wire.modify_of_none (W := N.wire) (Session.wire_of_closed hc) _⟩
    · refine .inl ⟨link, hlink, h.1 ▸ closed_of_overflows ho, ?_⟩
      rw [closed_send, ho]
      simp
    · refine .inr ⟨⟨?_, fun l hl => h.2 l ?_⟩, ?_⟩
      · rw [← h.1]
        funext l
        rw [closed_send, ho, Bool.and_false, Bool.or_false]
      · rwa [links_send, ho] at hl
      · rw [send_of_fits hc ho]
        show _ = (N.put link _).wire
        rw [wire_put, Session.wire_flush, Session.wire_append hc]
        rfl
  lost _ h := lost_send h link data

theorem pushReplica_follows (hlink : link ∈ links) (hopen : base link = false) :
    (seen base links).Follows (pushReplica link) (Wire.pushReplica link) := by
  refine follows_of_same (fun _ => rfl) (fun N l hl => ?_) fun N hN => ?_
  · simp only [pushReplica, Net.links, Replication.links, List.map_append, List.mem_append,
      List.map_cons, List.map_nil, List.mem_singleton] at hl
    exact hl.imp_right fun h => by rwa [h]
  · have hconn : N.wire.conns link = some _ := Session.wire_of_open ((congrFun hN link).trans hopen)
    simp only [Wire.pushReplica, hconn]
    rfl

theorem startFullResync_follows (now : Int64) (S : Store) (hlink : link ∈ links) (hopen : base link = false) :
    (seen base links).Follows (startFullResync cfg now S (some link))
      (Wire.startFullResync now S (some link)) := by
  have hfirst : (seen base links).Follows (fun N => N.send cfg link (fullresyncLine N.repl))
      (fun W => W.send link (fullresyncLine W.repl)) :=
    ⟨fun N => (send_follows hlink (fullresyncLine N.repl)).fine N, fun N => (send_follows hlink _).lost N⟩
  exact ((hfirst.comp (send_follows hlink _)).comp (send_follows hlink _)).comp
    (pushReplica_follows hlink hopen)

theorem lost_fanOut (encoded : Bytes) : ∀ (n i : Nat) {N : Net}, (seen base links).Lost N →
    (seen base links).Lost (N.fanOut cfg encoded n i)
  | 0, _, _, h => h
  | n + 1, i, N, h => by
    rw [fanOut]
    cases N.links[i]? with
    | none => exact h
    | some link => exact lost_fanOut encoded n (i + 1) (lost_send h link encoded)

/-- As long as none of them is closed, the range-for over `replicas_` sends to the links there are. -/
theorem fanOut_follows (encoded : Bytes) : ∀ (n i : Nat) {N : Net}, (seen base links).Fine N →
    N.links.length = i + n → (seen base links).Lost (N.fanOut cfg encoded n i) ∨
      (seen base links).Fine (N.fanOut cfg encoded n i) ∧
        (N.links.drop i).foldl (fun W l => W.send l encoded) N.wire = (N.fanOut cfg encoded n i).wire
  | 0, i, N, h, hi => .inr ⟨h, by rw [List.drop_eq_nil_of_le (by omega)]; rfl⟩
  | n + 1, i, N, h, hi => by
    have hlt : i < N.links.length := by omega
    have hget : N.links[i]? = some N.links[i] := List.getElem?_eq_getElem hlt
    rw [fanOut, hget]
    dsimp only
    have hsend : (seen base links).Follows (send cfg N.links[i] encoded) (Wire.send N.links[i] encoded) :=
      send_follows (h.2 _ (List.getElem_mem hlt)) encoded
    rcases hsend.fine N h with hl | ⟨hfine, he⟩
    · exact .inl (lost_fanOut encoded n (i + 1) hl)
    · have hlinks : (N.send cfg N.links[i] encoded).links = N.links :=
        congrArg (fun W : Wire => W.repl.links) he.symm
      have hrest := fanOut_follows encoded n (i + 1) hfine (by rw [hlinks]; omega)
      rw [hlinks] at hrest
      rw [List.drop_eq_getElem_cons hlt, List.foldl_cons]
      exact he ▸ hrest

theorem propagate_follows (args : Args) :
    (seen base links).Follows (propagate cfg args) (Wire.propagate args) where
  fine N h := by
    rw [propagate_eq]
    exact fanOut_follows (encode args) N.links.length 0 (N := N.advance (encode args).length) h
      (Nat.zero_add _).symm
  lost N h := by
    rw [propagate_eq]
    exact lost_fanOut _ _ _ h

/-- An operation on the replication object that leaves its links. -/
theorem follows_repl {f : Replication → Replication} (hlinks : ∀ R, (f R).links = R.links) :
    (seen base links).Follows (fun N => { N with repl := f N.repl }) (fun W => { W with repl := f W.repl }) :=
  follows_of_same (fun _ => rfl) (fun N l hl => .inl (show l ∈ N.repl.links from hlinks N.repl ▸ hl))
    fun _ _ => rfl

theorem replicaof_links (host : Bytes) (port : UInt16) (R : Replication) :
    (R.replicaof host port).2.links = R.links := by
  unfold Replication.replicaof
  split <;> rfl

theorem ops_follow (now : Int64) (hlink : link ∈ links) (hopen : base link = false) :
    (ops cfg now).Follows (seen base links) (Wire.ops now) (some link) where
  startFullResync S := startFullResync_follows now S hlink hopen
  onReplicaAck offset := follows_repl (Replication.links_onReplicaAck _ offset)
  setReplicaPort _ := follows_repl (Replication.links_setReplicaPort _ _)
  replicaof host port :=
    have h : (seen base links).Follows _ _ := follows_repl (replicaof_links host port.toUInt64.toUInt16)
    ⟨fun N hN => (h.fine N hN).imp_right fun he => ⟨he.1, rfl⟩, h.lost⟩
  stopReplication := follows_repl fun _ => rfl
  isReplica _ := rfl
  infoSection _ := rfl

/-- Without a connection there is none that could be closed. -/
theorem ops_follow_none (now : Int64) : (ops cfg now).Follows { map := wire } (Wire.ops now) none where
  startFullResync _ := .of_commutes fun _ => rfl
  onReplicaAck _ := .of_commutes fun _ => rfl
  setReplicaPort _ := .of_commutes fun _ => rfl
  replicaof _ _ := ⟨fun _ _ => .inr ⟨trivial, rfl⟩, fun _ h => h⟩
  stopReplication := .of_commutes fun _ => rfl
  isReplica _ := rfl
  infoSection _ := rfl

end

end Net

namespace Asio

variable {π : Type} (cfg : ServerConfig)

/-- The server as it is seen from outside. -/
def view (N : Node π Net) : Node π Wire := ⟨N.store, N.pers, N.repl.wire⟩

/-- What happens to the connections in a callback. -/
def trace (c : Callback π) (N : Node π Net) : List (Wire.Event π) :=
  match c with
  | .accept link peer => [.accept link peer]
  | .read m link bytes => if (N.repl.sessions link).reading then [.data m link bytes] else []
  | .readFailed link => [.close link]
  | .written _ => []
  | .writeFailed link => [.close link]
  | .apply m args => [.apply m args]
  | .cron store pers => [.cron store pers]

/-- A read callback is that of an open session, and closes neither it nor a replica's: no output passes the
cap. -/
def Roomy (c : Callback π) (N : Node π Net) : Prop :=
  match c with
  | .read m link bytes => (N.repl.sessions link).reading = true → N.repl.closed link = false ∧
      ∀ l ∈ link :: N.repl.links, (onRead cfg m link bytes N).repl.closed l = N.repl.closed l
  | _ => True

variable {cfg}

instance : ∀ (c : Callback π) (N : Node π Net), Decidable (Roomy cfg c N)
  | .read m link bytes, N => inferInstanceAs (Decidable ((N.repl.sessions link).reading = true →
      N.repl.closed link = false ∧
      ∀ l ∈ link :: N.repl.links, (onRead cfg m link bytes N).repl.closed l = N.repl.closed l))
  | .accept _ _, _ | .readFailed _, _ | .written _, _ | .writeFailed _, _ | .apply _ _, _ | .cron _ _, _ =>
    inferInstanceAs (Decidable True)

theorem sessionHost_follows (m : Moment π) {base : ClientLink → Bool} {links : List ClientLink}
    {link : ClientLink} (hlink : link ∈ links) (hopen : base link = false) :
    (sessionHost cfg m link).Follows (Node.through (Net.seen base links)) (Wire.host m link) where
  dispatch args := dispatch_answers (Net.ops_follow m.amb.now hlink hopen) rfl rfl rfl m.amb args
  reply r := by
    have hput : (Net.seen base links).Follows
        (fun N => N.put link ((N.sessions link).append r)) (Wire.send link r) := by
      refine Net.follows_of_same (fun N => ?_) (fun _ _ hl => .inl hl) fun N hN => ?_
      · funext l
        simp only [Net.closed, Net.sessions_put]
        split
        · rename_i hl
          rw [hl]
          rfl
        · rfl
      · exact (Net.wire_put_append ((congrFun hN link).trans hopen) r).symm
    exact ⟨fun N hN => (hput.fine N.repl hN).imp_right fun he =>
      ⟨he.1, congrArg (Node.mk N.store N.pers) he.2⟩, fun N hN => hput.lost N.repl hN⟩
  propagate args := by
    have hprop : (Net.seen base links).Follows (Net.propagate cfg args) (Wire.propagate args) :=
      Net.propagate_follows args
    exact ⟨fun N hN => (hprop.fine N.repl hN).imp_right fun he =>
      ⟨he.1, congrArg (Node.mk N.store (m.onWrite args N.pers)) he.2⟩, fun N hN => hprop.lost N.repl hN⟩

theorem closed_readEnd {l : ClientLink} {N : Net} (h : N.closed l = true) (link : ClientLink) (input : Buffer) :
    (readEnd cfg link input N).closed l = true := by
  have hput (s : Session) (hs : s.closed = N.closed link) : (N.put link s).closed l = true := by
    simp only [Net.closed, Net.sessions_put]
    split
    · rename_i hl
      exact hs.trans (hl ▸ h)
    · exact h
  unfold readEnd
  dsimp only
  split
  · rw [Net.closed_doClose, hput _ (by rfl), Bool.true_or]
  · exact hput _ (by rw [Session.closed_flush]; rfl)

theorem wire_readEnd {link : ClientLink} {input : Buffer} {N : Net} (hopen : N.closed link = false)
    (hroom : (readEnd cfg link input N).closed link = false) :
    (readEnd cfg link input N).wire = N.wire.modify link fun c => { c with unread := input.readable } := by
  have hconn : N.wire.conns link = some _ := Session.wire_of_open hopen
  unfold readEnd at hroom ⊢
  dsimp only at hroom ⊢
  split
  · rename_i hover
    rw [if_pos hover, Net.closed_doClose, beq_self_eq_true, Bool.or_true] at hroom
    cases hroom
  · rw [Net.wire_put, Session.wire_flush, Wire.modify, hconn]
    exact congrArg (fun c => (⟨N.repl, Function.update N.wire.conns link c⟩ : Wire)) 
      (Session.wire_of_open hopen)

/-- A read callback is an arrival of its bytes. -/
theorem view_onRead {m : Moment π} {link : ClientLink} {bytes : Bytes} {N : Node π Net}
    (hopen : N.repl.closed link = false)
    (hroom : ∀ l ∈ link :: N.repl.links, (onRead cfg m link bytes N).repl.closed l = N.repl.closed l) :
    view (onRead cfg m link bytes N) = Wire.data m link bytes (view N) := by
  have hconn : (view N).repl.conns link = some _ := Session.wire_of_open hopen
  have hb : (Buffer.empty.append ((N.repl.sessions link).input.readable ++ bytes)).readable =
      ((N.repl.sessions link).input.append bytes).readable := by
    rw [Buffer.readable_append, Buffer.readable_append]
    rfl
  have hhost : (sessionHost cfg m link).Follows
      (Node.through (Net.seen N.repl.closed (link :: N.repl.links))) (Wire.host m link) :=
    sessionHost_follows m List.mem_cons_self hopen
  obtain ⟨hfollows, hsame⟩ := hhost.onData hb
  rw [Wire.data, hconn]
  unfold onRead at hroom ⊢
  dsimp only at hroom ⊢
  obtain ⟨⟨hclosed, -⟩, hstate⟩ :=
    hfollows.eq_of_not_lost (s := N) ⟨rfl, fun l hl => List.mem_cons_of_mem _ hl⟩ (by
      rintro ⟨l, hl, hc, hc'⟩
      have := hroom l hl
      rw [closed_readEnd hc', hc] at this
      cases this)
  rw [(hsame N (view N)).2]
  refine Eq.trans ?_ (congrArg (fun N' : Node π Wire =>
    ({ N' with repl := N'.repl.modify link _ } : Node π Wire)) hstate.symm)
  exact congrArg (Node.mk _ _) (wire_readEnd ((congrFun hclosed link).trans hopen)
    ((hroom link List.mem_cons_self).trans hopen))

/-- Whether it is read is not seen of a session. -/
theorem view_readOn (link : ClientLink) (N : Node π Net) :
    view { N with repl := readOn link N.repl } = view N :=
  congrArg (Node.mk N.store N.pers) (Net.wire_put_same (by rfl))

theorem view_callback {c : Callback π} {N : Node π Net} (h : Roomy cfg c N) :
    view (callback cfg c N) = run Wire.step (trace c N) (view N) := by
  cases c with
  | accept link peer =>
    show view (if N.repl.closed link then _ else N) = (if ((view N).repl.conns link).isSome then _ else _)
    cases hc : N.repl.closed link with
    | true =>
      have hconn : (view N).repl.conns link = none := Session.wire_of_closed hc
      rw [if_pos rfl, hconn]
      exact congrArg (Node.mk N.store N.pers) (N.repl.wire_put link { peer })
    | false =>
      have hconn : (view N).repl.conns link = some _ := Session.wire_of_open hc
      rw [if_neg (by decide), hconn]
      rfl
  | read m link bytes =>
    cases hread : (N.repl.sessions link).reading with
    | true =>
      obtain ⟨hopen, hroom⟩ := h hread
      simp only [callback, trace, hread, if_true]
      exact (view_readOn ..).trans (view_onRead hopen hroom)
    | false =>
      simp only [callback, trace, hread, Bool.false_eq_true, if_false]
      rfl
  | readFailed link =>
    exact (view_readOn ..).trans (congrArg (Node.mk N.store N.pers) (N.repl.wire_doClose link))
  | written link =>
    exact congrArg (Node.mk N.store N.pers) (Net.wire_put_same (Session.wire_onWritten _))
  | writeFailed link =>
    refine congrArg (Node.mk N.store N.pers) ((Net.wire_doClose link _).trans ?_)
    exact congrArg (Wire.close link) (Net.wire_put_same (by rfl))
  | apply m args =>
    have hanswers : (Node.through _).Answers (dispatch (m.table cfg) m.amb none args)
        (dispatch (Wire.table m) m.amb none args) :=
      dispatch_answers (Net.ops_follow_none m.amb.now) rfl rfl rfl m.amb args
    exact congrArg Prod.snd ((hanswers.fine N trivial).resolve_left id).2.symm
  | cron store pers => rfl

end Asio

/-! ## The poll connections -/

namespace Poll

variable {π : Type}

/-- The poll server with, for each connection, the bytes that the system has taken. -/
structure Traced (π : Type) where
  node : Node π Net
  handed : ClientLink → Bytes := fun _ => []

namespace Net

/-- A connection without its buffers. -/
def wire (handed : ClientLink → Bytes) (N : Net) : Wire :=
  ⟨N.repl, fun l => (N.conns l).map fun c => ⟨c.input.readable, handed l ++ c.out, c.peer⟩⟩

variable {handed : ClientLink → Bytes} {link : ClientLink}

theorem wire_modify {f : Conn → Conn} {f' : Wire.Conn → Wire.Conn}
    (h : ∀ c : Conn, f' ⟨c.input.readable, handed link ++ c.out, c.peer⟩ =
      ⟨(f c).input.readable, handed link ++ (f c).out, (f c).peer⟩) (N : Net) :
    (N.modify link f).wire handed = (N.wire handed).modify link f' := by
  refine congrArg (Wire.mk N.repl) (funext fun l => ?_)
  simp only [wire, modify, Function.update_apply]
  split
  · rename_i hl
    subst hl
    rw [Option.map_map, Option.map_map]
    exact congrArg (Option.map · _) (funext fun c => (h c).symm)
  · rfl

theorem wire_send (link : ClientLink) (data : Bytes) (N : Net) :
    (N.send link data).wire handed = (N.wire handed).send link data :=
  wire_modify (fun c => by rw [List.append_assoc]) N

theorem wire_pushReplica (link : ClientLink) (N : Net) :
    (N.pushReplica link).wire handed = (N.wire handed).pushReplica link := by
  simp only [wire, pushReplica, Wire.pushReplica, Option.map_map]
  rfl

theorem wire_propagate (args : Args) (N : Net) :
    (N.propagate args).wire handed = (N.wire handed).propagate args := by
  have hfold : ∀ (links : List ClientLink) (N : Net),
      (links.foldl (fun N link => N.send link (encode args)) N).wire handed =
        links.foldl (fun W link => W.send link (encode args)) (N.wire handed) := by
    intro links
    induction links with
    | nil => exact fun _ => rfl
    | cons link links ih =>
      intro N
      rw [List.foldl_cons, List.foldl_cons, ih, wire_send]
  exact hfold ..

theorem ops_follow (now : Int64) (link : Option ClientLink) :
    (ops now).Follows { map := wire handed } (Wire.ops now) link where
  startFullResync S := .of_commutes fun N => by
    rcases link with _ | link
    · rfl
    · show Wire.pushReplica link (Wire.send link _ (Wire.send link _ (Wire.send link _ _))) = _
      rw [← wire_send, ← wire_send, ← wire_send, ← wire_pushReplica]
      rfl
  onReplicaAck _ := .of_commutes fun _ => rfl
  setReplicaPort _ := .of_commutes fun _ => rfl
  replicaof _ _ := ⟨fun _ _ => .inr ⟨trivial, rfl⟩, fun _ h => h⟩
  stopReplication := .of_commutes fun _ => rfl
  isReplica _ := rfl
  infoSection _ := rfl

theorem wire_drop (link : ClientLink) (N : Net) : (N.drop link).wire handed = (N.wire handed).close link := by
  unfold drop Wire.close
  simp only [wire]
  cases N.conns link with
  | none => rfl
  | some c =>
    refine congrArg (Wire.mk _) (funext fun l => ?_)
    simp only [Function.update_apply]
    split <;> rfl

end Net

/-! ### What the system takes -/

/-- The bytes that `handle_write` hands over. -/
def handedBy (link : ClientLink) (sends : List Sent) (N : Net) : Bytes :=
  match N.conns link with
  | none => []
  | some c => c.out.take (sentBytes sends c.out)

/-- The bytes that `handle_read` hands over. -/
def handedRead (cfg : Config) (m : Moment π) (link : ClientLink) (recvs : List Recv) (sends : List Sent)
    (N : Node π Net) : Bytes :=
  match inputRead cfg link recvs N.repl with
  | none => []
  | some input =>
    let r := onData (connHost m link) input N
    let net := r.state.repl.modify link fun c => { c with input := r.input }
    let size := ((net.conns link).map fun c => c.out.length).getD 0
    if cfg.maxOutputBuffer.toNat < size then [] else handedBy link sends net

theorem take_sentBytes (closeAfterFlush : Bool) : ∀ (sends : List Sent) (out : Bytes),
    out.take (sentBytes sends out) ++ (sendLoop closeAfterFlush sends out).2 = out
  | [], out => rfl
  | s :: sends, out => by
    by_cases hout : out = []
    · simp [sentBytes, sendLoop, hout]
    simp only [sentBytes, sendLoop, if_neg hout]
    cases s with
    | sent n =>
      by_cases hn : 0 < n
      · simp only [if_pos hn]
        rw [List.take_add, List.append_assoc, take_sentBytes closeAfterFlush sends (out.drop n),
          List.take_append_drop]
      · simp only [if_neg hn]
        rfl
    | wouldBlock => rfl
    | interrupted => exact take_sentBytes closeAfterFlush sends out
    | failed => rfl

section

variable {handed : ClientLink → Bytes}

theorem wire_handleWrite (link : ClientLink) (sends : List Sent) (N : Net) :
    (handleWrite link sends N).2.wire
      (Function.update handed link (handed link ++ handedBy link sends N)) = N.wire handed := by
  unfold handleWrite handedBy
  cases hc : N.conns link with
  | none =>
    rw [List.append_nil, Function.update_eq_self]
  | some c =>
    refine congrArg (Wire.mk N.repl) (funext fun l => ?_)
    simp only [Net.modify, Function.update_apply]
    by_cases hl : l = link
    · subst hl
      simp only [if_pos, hc, Option.map_some, List.append_assoc, take_sentBytes]
    · simp only [if_neg hl]

theorem wire_bury (link : ClientLink) (keep : Bool) (N : Net) :
    (bury link keep N).wire handed = N.wire handed := by
  unfold bury
  split <;> rfl

theorem connHost_follows (m : Moment π) (link : ClientLink) :
    (connHost m link).Follows (Node.through { map := Net.wire handed }) (Wire.host m link) where
  dispatch args := dispatch_answers (Net.ops_follow m.amb.now (some link)) rfl rfl rfl m.amb args
  reply r := ⟨fun N _ => .inr ⟨trivial, congrArg (Node.mk N.store N.pers) (Net.wire_send link r N.repl).symm⟩,
    fun _ h => h⟩
  propagate args := ⟨fun N _ => .inr ⟨trivial, congrArg (Node.mk N.store (m.onWrite args N.pers))
    (Net.wire_propagate args N.repl).symm⟩, fun _ h => h⟩

end

/-! ### Runs -/

namespace Traced

variable (cfg : Config)

/-- What has been handed to the connections' sockets after an event. -/
def handedIn (e : Event π) (P : Traced π) : ClientLink → Bytes :=
  match e with
  | .accept link _ =>
    if (P.node.repl.conns link).isSome then P.handed else Function.update P.handed link []
  | .read m link recvs sends =>
    if link ∈ P.node.repl.dead then P.handed
    else Function.update P.handed link (P.handed link ++ handedRead cfg m link recvs sends P.node)
  | .write link sends =>
    if link ∈ P.node.repl.dead then P.handed
    else Function.update P.handed link (P.handed link ++ handedBy link sends P.node.repl)
  | _ => P.handed

/-- An event, with what it hands over noted. -/
def step (e : Event π) (P : Traced π) : Traced π := ⟨Poll.step cfg e P.node, P.handedIn cfg e⟩

/-- The server as it is seen from outside. -/
def view (P : Traced π) : Node π Wire := ⟨P.node.store, P.node.pers, P.node.repl.wire P.handed⟩

/-- What happens to the connections in an event. -/
def trace (e : Event π) (P : Traced π) : List (Wire.Event π) :=
  match e with
  | .accept link peer => [.accept link peer]
  | .read m link recvs _ =>
    if link ∈ P.node.repl.dead ∨ inputRead cfg link recvs P.node.repl = none then []
    else [.data m link (received cfg recvs)]
  | .write _ _ => []
  | .hangup _ => []
  | .sweepEnd => P.node.repl.dead.map .close
  | .apply m args => [.apply m args]
  | .cron store pers => [.cron store pers]

variable {cfg}

theorem view_read {m : Moment π} {link : ClientLink} {recvs : List Recv} {input : Buffer} {P : Traced π}
    (h : inputRead cfg link recvs P.node.repl = some input) (sends : List Sent) :
    (⟨(handleRead cfg m link recvs sends P.node).2.store, (handleRead cfg m link recvs sends P.node).2.pers,
      (handleRead cfg m link recvs sends P.node).2.repl.wire (Function.update P.handed link
        (P.handed link ++ handedRead cfg m link recvs sends P.node))⟩ : Node π Wire) =
      Wire.data m link (received cfg recvs) P.view := by
  obtain ⟨c, chunks, hc, hchunks, hread⟩ := readable_inputRead h
  rw [show chunks.flatten = received cfg recvs by rw [received, hchunks]; rfl] at hread
  have hconn : P.view.repl.conns link = some _ := congrArg (Option.map _) hc
  have hb : (Buffer.empty.append (c.input.readable ++ received cfg recvs)).readable = input.readable := by
    rw [Buffer.readable_append, hread]
    rfl
  have hhost : (connHost m link).Follows (Node.through { map := Net.wire P.handed }) (Wire.host m link) :=
    connHost_follows m link
  obtain ⟨hfollows, hsame⟩ := hhost.onData hb
  have hstate := (hfollows.eq_of_not_lost (s := P.node) trivial id).2
  rw [Wire.data, hconn]
  dsimp only
  rw [(hsame P.node P.view).2]
  refine Eq.trans ?_ (congrArg
    (fun N' : Node π Wire => ({ N' with repl := N'.repl.modify link _ } : Node π Wire)) hstate.symm)
  have hmodify (b : Buffer) (net : Net) : (net.modify link fun c => { c with input := b }).wire P.handed =
      (net.wire P.handed).modify link fun c => { c with unread := b.readable } :=
    Net.wire_modify (fun _ => rfl) net
  unfold handleRead handedRead
  rw [h]
  dsimp only
  split
  · rw [List.append_nil, Function.update_eq_self]
    exact congrArg (Node.mk _ _) (hmodify ..)
  · exact congrArg (Node.mk _ _) ((wire_handleWrite ..).trans (hmodify ..))

theorem view_step (e : Event π) (P : Traced π) :
    (P.step cfg e).view = run Wire.step (P.trace cfg e) P.view := by
  cases e with
  | accept link peer =>
    show view ⟨if (P.node.repl.conns link).isSome then _ else _,
      if (P.node.repl.conns link).isSome then _ else _⟩ = if (P.view.repl.conns link).isSome then _ else _
    have hconn : (P.view.repl.conns link).isSome = (P.node.repl.conns link).isSome := Option.isSome_map
    rw [hconn]
    split
    · rfl
    · refine congrArg (fun conns => (⟨P.node.store, P.node.pers, ⟨P.node.repl.repl, conns⟩⟩ : Node π Wire))
        (funext fun l => ?_)
      simp only [Function.update_apply]
      split
      · rfl
      · rfl
  | read m link recvs sends =>
    by_cases hdead : link ∈ P.node.repl.dead
    · simp only [step, Poll.step, handedIn, trace, if_pos hdead, if_pos (Or.inl hdead)]
      rfl
    · have htrace : P.trace cfg (.read m link recvs sends) = if inputRead cfg link recvs P.node.repl = none
          then [] else [.data m link (received cfg recvs)] := by
        simp only [trace, hdead, false_or]
      rw [htrace]
      simp only [step, Poll.step, handedIn, if_neg hdead, view, wire_bury]
      cases h : inputRead cfg link recvs P.node.repl with
      | none =>
        simp only [handleRead, handedRead, h, List.append_nil, Function.update_eq_self]
        rfl
      | some input => exact view_read h sends
  | write link sends =>
    by_cases hdead : link ∈ P.node.repl.dead
    · simp only [step, Poll.step, handedIn, if_pos hdead]
      rfl
    · simp only [step, Poll.step, handedIn, if_neg hdead, view, wire_bury, wire_handleWrite]
      rfl
  | hangup link => exact congrArg (Node.mk P.node.store P.node.pers) (wire_bury link false P.node.repl)
  | sweepEnd =>
    have hfold : ∀ (links : List ClientLink) (N : Net),
        run Wire.step (links.map .close) (⟨P.node.store, P.node.pers, N.wire P.handed⟩ : Node π Wire) =
          ⟨P.node.store, P.node.pers, (links.foldl (fun N link => N.drop link) N).wire P.handed⟩ := by
      intro links
      induction links with
      | nil => exact fun _ => rfl
      | cons link links ih =>
        intro N
        refine Eq.trans ?_ (ih (N.drop link))
        rw [Net.wire_drop]
        rfl
    exact (hfold P.node.repl.dead P.node.repl).symm
  | apply m args =>
    have hanswers : (Node.through { map := Net.wire P.handed }).Answers (dispatch (table m) m.amb none args)
        (dispatch (Wire.table m) m.amb none args) :=
      dispatch_answers (Net.ops_follow m.amb.now none) rfl rfl rfl m.amb args
    exact congrArg Prod.snd ((hanswers.fine P.node trivial).resolve_left id).2.symm
  | cron store pers => rfl

end Traced

end Poll

/-! ## Both -/

/-- The connections of the two backends, if they look the same from outside. -/
theorem conns_of_view {π : Type} {N : Node π Net} {P : Poll.Traced π} (h : Asio.view N = P.view)
    (link : ClientLink) : (N.repl.closed link = true ↔ P.node.repl.conns link = none) ∧
      ∀ c, P.node.repl.conns link = some c → (N.repl.sessions link).peer = c.peer ∧
        (N.repl.sessions link).input.readable = c.input.readable ∧
        N.repl.sent link = P.handed link ++ c.out := by
  have hconn : (N.repl.sessions link).wire = (P.node.repl.conns link).map fun c =>
      ⟨c.input.readable, P.handed link ++ c.out, c.peer⟩ :=
    congrFun (congrArg (fun N' : Node π Wire => N'.repl.conns) h) link
  cases hc : N.repl.closed link with
  | true =>
    rw [Session.wire_of_closed hc] at hconn
    have hnone := Option.map_eq_none_iff.1 hconn.symm
    exact ⟨⟨fun _ => hnone, fun _ => rfl⟩, fun c he => by rw [hnone] at he; cases he⟩
  | false =>
    rw [Session.wire_of_open hc] at hconn
    obtain ⟨c, he, hfields⟩ := Option.map_eq_some_iff.1 hconn.symm
    refine ⟨⟨fun h => absurd h Bool.false_ne_true, fun hnone => ?_⟩, fun c' he' => ?_⟩
    · rw [hnone] at he
      cases he
    obtain rfl := Option.some.inj (he.symm.trans he')
    injection hfields with hunread hsent hpeer
    exact ⟨hpeer.symm, hunread.symm, hsent.symm⟩

/-- If on both backends the same connections come and go, in the same order, and the same bytes arrive on
them, each callback of the one with what one read of the other takes, at the same time, with writes that
take what they take, and no output of a session passes the cap: the two end with the same keyspace,
persistence and replication, and the same connections, and these have the same unread and were sent the
same. -/
theorem backends_serve_alike {π : Type} {cfg : Poll.Config} {cs : List (Asio.Callback π)} {N : Node π Net}
    {es : List (Poll.Event π)} {P : Poll.Traced π} (hstart : Asio.view N = P.view)
    (hroom : Along (Asio.callback cfg.toServerConfig) (Asio.Roomy cfg.toServerConfig) cs N)
    (htrace : collect (Asio.callback cfg.toServerConfig) Asio.trace cs N =
      collect (Poll.Traced.step cfg) (Poll.Traced.trace cfg) es P) :
    let N' := run (Asio.callback cfg.toServerConfig) cs N
    let P' := run (Poll.Traced.step cfg) es P
    N'.store = P'.node.store ∧ N'.pers = P'.node.pers ∧ N'.repl.repl = P'.node.repl.repl ∧
      ∀ link, (N'.repl.closed link = true ↔ P'.node.repl.conns link = none) ∧
        ∀ c, P'.node.repl.conns link = some c → (N'.repl.sessions link).peer = c.peer ∧
          (N'.repl.sessions link).input.readable = c.input.readable ∧
          N'.repl.sent link = P'.handed link ++ c.out := by
  have hasio : Asio.view (run (Asio.callback cfg.toServerConfig) cs N) =
      run Wire.step (collect (Asio.callback cfg.toServerConfig) Asio.trace cs N) (Asio.view N) :=
    Along.views (fun _ _ h => Asio.view_callback h) hroom
  have hpoll : (run (Poll.Traced.step cfg) es P).view =
      run Wire.step (collect (Poll.Traced.step cfg) (Poll.Traced.trace cfg) es P) P.view :=
    Along.views (P := fun _ _ => True) (fun e P _ => Poll.Traced.view_step e P)
      (Along.of_forall (fun _ _ => trivial) es P)
  have hview : Asio.view (run (Asio.callback cfg.toServerConfig) cs N) =
      (run (Poll.Traced.step cfg) es P).view := by
    rw [hasio, hpoll, hstart, htrace]
  exact ⟨congrArg Node.store hview, congrArg Node.pers hview,
    congrArg (fun N' : Node π Wire => N'.repl.repl) hview, conns_of_view hview⟩

/-! A replica is resynchronised and lost again, while a client's request arrives in two parts. -/

/-- A replica, and a client whose requests are cut. -/
def twoClients : List (Asio.Callback Unit) :=
  [.accept 1 (str "a"), .accept 2 (str "b"), .read {} 2 (str "PSYNC ? -1\r\n"), .read {} 1 (str "SET k"),
    .read {} 1 (str " v\r\nGET k\r\n"), .written 1, .readFailed 2]

/-- The same to the poll backend. -/
def twoConns : List (Poll.Event Unit) :=
  [.accept 1 (str "a"), .accept 2 (str "b"), .read {} 2 [.data (str "PSYNC ? -1\r\n")] [.sent 5],
    .read {} 1 [.data (str "SET k")] [], .read {} 1 [.data (str " v\r\nGET k\r\n")] [.sent 3],
    .write 1 [.interrupted, .sent 4], .hangup 2, .sweepEnd]

/-- A server without sessions. -/
def asioStart : Node Unit Net := ⟨{}, (), { repl := { replid := Net.zeroReplid } }⟩

/-- A server without connections. -/
def pollStart : Poll.Traced Unit := { node := ⟨{}, (), { repl := { replid := Net.zeroReplid } }⟩ }

theorem twoClients_trace : collect (Asio.callback {}) Asio.trace twoClients asioStart =
    collect (Poll.Traced.step {}) (Poll.Traced.trace {}) twoConns pollStart := by
  have hdead : (run (Poll.Traced.step {}) (twoConns.take 7) pollStart).node.repl.dead = [2] := by
    decide +kernel
  simp only [twoConns, List.take_succ_cons, List.take_zero, Framework.run_cons, Framework.run_nil] at hdead
  simp only [twoClients, twoConns, collect, Asio.trace, Poll.Traced.trace, hdead]
  rw [if_pos, if_pos, if_pos, if_neg, if_neg, if_neg]
  · rfl
  all_goals decide +kernel

/-- The client is sent the same two replies, of which poll has handed over seven bytes. -/
theorem twoClients_alike :
    let N' := run (Asio.callback {}) twoClients asioStart
    let P' := run (Poll.Traced.step {}) twoConns pollStart
    N'.repl.repl.masterOffset = P'.node.repl.repl.masterOffset ∧
      ∃ c, P'.node.repl.conns 1 = some c ∧ N'.repl.sent 1 = P'.handed 1 ++ c.out ∧
        P'.handed 1 = str "+OK\r\n$1" ∧ c.out = str "\r\nv\r\n" := by
  have hroom : Along (Asio.callback {}) (Asio.Roomy {}) twoClients asioStart := by
    decide +kernel
  have hout : ((run (Poll.Traced.step {}) twoConns pollStart).node.repl.conns 1).map Poll.Conn.out =
      some (str "\r\nv\r\n") ∧ (run (Poll.Traced.step {}) twoConns pollStart).handed 1 = str "+OK\r\n$1" := by
    decide +kernel
  obtain ⟨c, hc, hcout⟩ := Option.map_eq_some_iff.1 hout.1
  have halike := @backends_serve_alike Unit {} twoClients asioStart twoConns pollStart rfl hroom
    twoClients_trace
  exact ⟨congrArg Replication.masterOffset halike.2.2.1, c, hc, ((halike.2.2.2 1).2 c hc).2.2, hout.2, hcout⟩

end RP
