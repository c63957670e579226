import RedisPlus.Command.Dispatch
import RedisPlus.Framework.Abstraction
import RedisPlus.Handler.Basic

/-!
# The handler under an abstraction

An abstraction of the replication object is one of the server (`Node.through`). If the operations that
a command has of replication follow those on the other side (`ReplicationOps.Follows`), a dispatch
answers as the one there does (`dispatch_answers`); and if what `on_data` calls follows, so does
`on_data`, whatever the storage that its buffer has (`Host.Follows.onData`).
-/

namespace RP

open Framework (Abstraction Drains Rest)

/-! ## Dispatches -/

section

variable {π ρ ρ' : Type}

/-- An abstraction of what a node has of replication, as one of the node. -/
def Node.through (A : Abstraction ρ ρ') : Abstraction (Node π ρ) (Node π ρ') where
  map N := ⟨N.store, N.pers, A.map N.repl⟩
  Fine N := A.Fine N.repl
  Lost N := A.Lost N.repl

/-- The operations that a command on the connection `link` has of replication follow those of `ops'`. -/
structure ReplicationOps.Follows (A : Abstraction ρ ρ') (ops : ReplicationOps ρ) (ops' : ReplicationOps ρ')
    (link : Option ClientLink) : Prop where
  startFullResync : ∀ S, A.Follows (ops.startFullResync S link) (ops'.startFullResync S link)
  onReplicaAck : ∀ offset, A.Follows (ops.onReplicaAck link offset) (ops'.onReplicaAck link offset)
  setReplicaPort : ∀ port, A.Follows (ops.setReplicaPort link port) (ops'.setReplicaPort link port)
  replicaof : ∀ host port, A.Answers (ops.replicaof host port) (ops'.replicaof host port)
  stopReplication : A.Follows ops.stopReplication ops'.stopReplication
  isReplica : ∀ r, ops'.isReplica (A.map r) = ops.isReplica r
  infoSection : ∀ r, ops'.infoSection (A.map r) = ops.infoSection r

variable {A : Abstraction ρ ρ'}

theorem Node.answers_same (result : CommandResult) :
    (through (π := π) A).Answers (fun N => (result, N)) (fun N => (result, N)) where
  fine _ h := .inr ⟨h, rfl⟩
  lost _ h := h

theorem Node.answers_repl {f : Store → ρ → ρ} {f' : Store → ρ' → ρ'} (h : ∀ S, A.Follows (f S) (f' S))
    (result : CommandResult) : (through (π := π) A).Answers
      (fun N => (result, { N with repl := f N.store N.repl }))
      (fun N => (result, { N with repl := f' N.store N.repl })) where
  fine N hN := ((h N.store).fine N.repl hN).imp_right fun he => ⟨he.1, by
    simp only [through]
    rw [he.2]⟩
  lost N hN := (h N.store).lost N.repl hN

variable {table : CommandTable π ρ} {table' : CommandTable π ρ'} {ops : ReplicationOps ρ}
  {ops' : ReplicationOps ρ'} {link : Option ClientLink}

section

variable (h : ops.Follows A ops' link) (hops : table.replication = some ops)
  (hops' : table'.replication = some ops')
include h hops hops'

theorem cmdReplconf_answers (args : Args) :
    (Node.through A).Answers (cmdReplconf table link args) (cmdReplconf table' link args) := by
  unfold cmdReplconf
  rw [hops, hops']
  rcases args with _ | ⟨_, _ | ⟨sub, _ | ⟨value, rest⟩⟩⟩
  · exact Node.answers_same _
  · exact Node.answers_same _
  · exact Node.answers_same _
  dsimp only
  by_cases hack : upper sub = str "ACK"
  · simp only [if_pos hack]
    exact Node.answers_repl (fun _ => h.onReplicaAck _) _
  simp only [if_neg hack]
  by_cases hport : upper sub = str "LISTENING-PORT"
  · simp only [if_pos hport]
    cases toInt64 value with
    | none => exact Node.answers_same _
    | some port =>
      by_cases hrange : 0 < port ∧ port ≤ 65535
      · simp only [if_pos hrange]
        exact Node.answers_repl (fun _ => h.setReplicaPort _) _
      · simp only [if_neg hrange]
        exact Node.answers_same _
  · simp only [if_neg hport]
    exact Node.answers_same _

theorem cmdPsync_answers : (Node.through (π := π) A).Answers (cmdPsync table link) (cmdPsync table' link) := by
  unfold cmdPsync
  rw [hops, hops']
  exact Node.answers_repl h.startFullResync _

theorem cmdReplicaof_answers (args : Args) :
    (Node.through A).Answers (cmdReplicaof table args) (cmdReplicaof table' args) := by
  unfold cmdReplicaof
  split
  · rename_i host port
    rw [hops, hops']
    dsimp only
    by_cases hnone : iequals host (str "NO") ∧ iequals port (str "ONE")
    · simp only [if_pos hnone]
      exact Node.answers_repl (fun _ => h.stopReplication) _
    simp only [if_neg hnone]
    cases toInt64 port with
    | none => exact Node.answers_same _
    | some p =>
      by_cases hrange : p ≤ 0 ∨ 65535 < p
      · simp only [if_pos hrange]
        exact Node.answers_same _
      simp only [if_neg hrange]
      refine ⟨fun N hN => ?_, fun N hN => ?_⟩
      · rcases (h.replicaof host p).fine N.repl hN with hl | ⟨hfine, he⟩
        · refine .inl ?_
          show A.Lost _
          rcases hr : ops.replicaof host p N.repl with ⟨_ | _, repl⟩ <;> rw [hr] at hl <;> exact hl
        · refine .inr ?_
          simp only [Node.through, he]
          rcases hr : ops.replicaof host p N.repl with ⟨_ | _, repl⟩ <;> rw [hr] at hfine <;>
            exact ⟨hfine, rfl⟩
      · have hl := (h.replicaof host p).lost N.repl hN
        show A.Lost _
        rcases hr : ops.replicaof host p N.repl with ⟨_ | _, repl⟩ <;> rw [hr] at hl <;> exact hl
  · exact Node.answers_same _

omit h hops hops' in
theorem cmdPersistence_answers (hpers : table'.persistence = table.persistence)
    (op : PersistenceOps π → Store → π → Except Bytes Unit × π) (started : Bytes) :
    (Node.through A).Answers (cmdPersistence table op started) (cmdPersistence table' op started) := by
  unfold cmdPersistence
  rw [hpers]
  cases table.persistence with
  | none => exact Node.answers_same _
  | some pers =>
    refine ⟨fun N hN => .inr ?_, fun N hN => ?_⟩
    · simp only [Node.through]
      rcases op pers N.store N.pers with ⟨_ | _, p⟩ <;> exact ⟨hN, rfl⟩
    · rcases hr : op pers N.store N.pers with ⟨_ | _, p⟩ <;> simp only [hr] <;> exact hN

theorem runCommand_answers (hpers : table'.persistence = table.persistence) (amb : Ambient)
    (name : Option CommandName) (args : Args) : (Node.through A).Answers
      (runCommand table amb name link args) (runCommand table' amb name link args) := by
  rcases name with _ | name
  · exact Node.answers_same _
  cases name with
  | replconf => exact cmdReplconf_answers h hops hops' args
  | psync => exact cmdPsync_answers h hops hops'
  | replicaof => exact cmdReplicaof_answers h hops hops' args
  | save | bgsave | bgrewriteaof => exact cmdPersistence_answers hpers _ _
  | info =>
    refine ⟨fun N hN => .inr ⟨hN, ?_⟩, fun _ hN => hN⟩
    simp only [runCommand, Node.through, hops, hops', hpers, Option.map_some, h.infoSection]
  | _ => exact ⟨fun _ hN => .inr ⟨hN, rfl⟩, fun _ hN => hN⟩

/-- A dispatch answers as the one on the other side. -/
theorem dispatch_answers (hpers : table'.persistence = table.persistence) (amb : Ambient) (args : Args) :
    (Node.through A).Answers (dispatch table amb link args) (dispatch table' amb link args) := by
  rcases args with _ | ⟨arg, args⟩
  · exact Node.answers_same _
  have hrun := runCommand_answers h hops hops' hpers amb (commandName arg) (arg :: args)
  refine ⟨fun N hN => ?_, fun N hN => ?_⟩
  · have hrepl : table'.replication.any (fun ops => ops.isReplica (A.map N.repl)) =
        table.replication.any (fun ops => ops.isReplica N.repl) := by
      rw [hops, hops', Option.any_some, Option.any_some, h.isReplica]
    unfold dispatch
    simp only [Node.through, hrepl]
    split
    · exact .inr ⟨hN, rfl⟩
    · refine (hrun.fine N hN).imp_right fun ⟨hfine, he⟩ => ⟨hfine, ?_⟩
      simp only [Node.through] at he
      simp only [he]
  · unfold dispatch
    dsimp only
    split
    · exact hN
    · exact hrun.lost N hN

end

end

/-! ## Calls of the handler -/

section

variable {σ σ' : Type} {A : Abstraction σ σ'} {H : Host σ} {H' : Host σ'}

/-- What `on_data` calls follows what it calls on the other side. -/
structure Host.Follows (A : Abstraction σ σ') (H : Host σ) (H' : Host σ') : Prop where
  dispatch : ∀ args, A.Answers (H.dispatch args) (H'.dispatch args)
  reply : ∀ r, A.Follows (H.reply r) (H'.reply r)
  propagate : ∀ args, A.Follows (H.propagate args) (H'.propagate args)

namespace Host.Follows

variable (h : H.Follows A H')
include h

theorem handleRequest (args : Args) : A.Follows (handleRequest H args) (handleRequest H' args) := by
  unfold RP.handleRequest
  by_cases hargs : args = []
  · simp only [if_pos hargs]
    exact .id
  simp only [if_neg hargs]
  have hnext (outcome : CommandResult) : A.Follows
      (fun s => if outcome.dirty then H.propagate outcome.propagate (H.reply outcome.reply s)
        else H.reply outcome.reply s)
      (fun s => if outcome.dirty then H'.propagate outcome.propagate (H'.reply outcome.reply s)
        else H'.reply outcome.reply s) := by
    cases outcome.dirty with
    | false => exact h.reply _
    | true => exact (h.reply _).comp (h.propagate _)
  exact (h.dispatch args).bind hnext

theorem handleAll (rs : List Args) : A.Follows (handleAll H rs) (handleAll H' rs) :=
  .foldl h.handleRequest rs

theorem settle : ∀ x : Rest UInt8 Bytes, A.Follows (settle H x) (settle H' x)
  | .left _ => .id
  | .broken _ _ => h.reply _

/-- On buffers with the same to read, a call follows the other, dispatches the same requests and leaves
the same unread. -/
theorem onData {b b' : Buffer} (hb : b'.readable = b.readable) :
    A.Follows (fun s => (onData H b s).state) (fun s' => (onData H' b' s').state) ∧
      ∀ s s', (RP.onData H' b' s').requests = (RP.onData H b s).requests ∧
        (RP.onData H' b' s').input.readable = (RP.onData H b s).input.readable := by
  obtain ⟨rs, x, hd⟩ := Drains.total requestParser b.readable
  have hstate (s : σ) : (RP.onData H b s).state = RP.settle H x (RP.handleAll H rs s) := by
    obtain ⟨_, -, he⟩ := onData_drains H hd s
    rw [he]
  have hstate' (s' : σ') : (RP.onData H' b' s').state = RP.settle H' x (RP.handleAll H' rs s') := by
    obtain ⟨_, -, he⟩ := onData_drains H' (hb ▸ hd) s'
    rw [he]
  refine ⟨?_, fun s s' => ?_⟩
  · simp only [hstate, hstate']
    exact (h.handleAll rs).comp (h.settle x)
  · obtain ⟨_, hu, he⟩ := onData_drains H hd s
    obtain ⟨_, hu', he'⟩ := onData_drains H' (hb ▸ hd) s'
    rw [he, he']
    exact ⟨rfl, hu'.trans hu.symm⟩

end Host.Follows

end

end RP
