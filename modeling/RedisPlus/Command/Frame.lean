import RedisPlus.Command.Dispatch

/-!
# What a command can do outside the store

Of the commands that reach persistence or replication, each replies and changes that one part of
the server, by the operations its lemma lists (`cmdReplconf_cases`, `cmdPsync_cases`,
`cmdReplicaof_cases`, `cmdPersistence_cases`). A dispatch leaves the server as it is or runs the
command (`dispatch_node`), so what the operations of replication keep, a dispatch keeps
(`dispatch_keeps`), and without the operations of persistence it keeps that too (`dispatch_pers`).
Only the commands that a replica refuses can be dirty (`runCommand_clean`), and what a dirty command
propagates is within the limits of the parser if the command is (`within_propagate`).
-/

namespace RP

variable {π ρ : Type} (table : CommandTable π ρ) (amb : Ambient) (link : Option ClientLink) (args : Args)
  (N : Node π ρ)

theorem cmdReplconf_cases : ∃ reply repl,
    cmdReplconf table link args N = ({ reply }, { N with repl }) ∧
      (repl = N.repl ∨ ∃ ops, table.replication = some ops ∧
        ((∃ offset, repl = ops.onReplicaAck link offset N.repl) ∨
          ∃ port, repl = ops.setReplicaPort link port N.repl)) := by
  unfold cmdReplconf
  split
  · rename_i ops _ _ _ _ hops
    split
    · exact ⟨_, _, rfl, .inr ⟨ops, hops, .inl ⟨_, rfl⟩⟩⟩
    split
    · split
      · split
        · exact ⟨_, _, rfl, .inr ⟨ops, hops, .inr ⟨_, rfl⟩⟩⟩
        · exact ⟨_, N.repl, rfl, .inl rfl⟩
      · exact ⟨_, N.repl, rfl, .inl rfl⟩
    · exact ⟨_, N.repl, rfl, .inl rfl⟩
  · exact ⟨_, N.repl, rfl, .inl rfl⟩

theorem cmdPsync_cases : ∃ reply repl,
    cmdPsync table link N = ({ reply }, { N with repl }) ∧
      (repl = N.repl ∨ ∃ ops, table.replication = some ops ∧
        repl = ops.startFullResync N.store link N.repl) := by
  unfold cmdPsync
  split
  · exact ⟨_, N.repl, rfl, .inl rfl⟩
  · rename_i ops hops
    exact ⟨_, _, rfl, .inr ⟨ops, hops, rfl⟩⟩

theorem cmdReplicaof_cases : ∃ reply repl,
    cmdReplicaof table args N = ({ reply }, { N with repl }) ∧
      (repl = N.repl ∨ ∃ ops, table.replication = some ops ∧
        (repl = ops.stopReplication N.repl ∨ ∃ host port, repl = (ops.replicaof host port N.repl).2)) := by
  unfold cmdReplicaof
  split
  · rename_i host _
    split
    · exact ⟨_, N.repl, rfl, .inl rfl⟩
    · rename_i ops hops
      split
      · exact ⟨_, _, rfl, .inr ⟨ops, hops, .inl rfl⟩⟩
      split
      · exact ⟨_, N.repl, rfl, .inl rfl⟩
      · rename_i port _
        split
        · exact ⟨_, N.repl, rfl, .inl rfl⟩
        · split
          · rename_i he
            exact ⟨_, _, rfl, .inr ⟨ops, hops, .inr ⟨host, port, by rw [he]⟩⟩⟩
          · rename_i he
            exact ⟨_, _, rfl, .inr ⟨ops, hops, .inr ⟨host, port, by rw [he]⟩⟩⟩
  · exact ⟨_, N.repl, rfl, .inl rfl⟩

theorem cmdPersistence_cases (op : PersistenceOps π → Store → π → Except Bytes Unit × π) (started : Bytes) :
    ∃ reply pers, cmdPersistence table op started N = ({ reply }, { N with pers }) ∧
      (pers = N.pers ∨ ∃ ops, table.persistence = some ops ∧ pers = (op ops N.store N.pers).2) := by
  unfold cmdPersistence
  split
  · exact ⟨_, N.pers, rfl, .inl rfl⟩
  · rename_i ops hops
    split
    · rename_i he
      exact ⟨_, _, rfl, .inr ⟨ops, hops, by rw [he]⟩⟩
    · rename_i he
      exact ⟨_, _, rfl, .inr ⟨ops, hops, by rw [he]⟩⟩

/-- A dispatch changes nothing, or what the command changes. -/
theorem dispatch_node : (dispatch table amb link args N).2 = N ∨
    (dispatch table amb link args N).2 =
      (runCommand table amb (args.head?.bind commandName) link args N).2 := by
  rcases args with _ | ⟨arg, args⟩
  · exact .inl rfl
  · unfold dispatch
    dsimp only
    split
    · exact .inl rfl
    · exact .inr rfl

/-- The operations that a command has of replication keep `I`. -/
structure ReplicationOps.Keeps (ops : ReplicationOps ρ) (I : ρ → Prop) : Prop where
  startFullResync : ∀ S link repl, I repl → I (ops.startFullResync S link repl)
  onReplicaAck : ∀ link offset repl, I repl → I (ops.onReplicaAck link offset repl)
  setReplicaPort : ∀ link port repl, I repl → I (ops.setReplicaPort link port repl)
  replicaof : ∀ host port repl, I repl → I (ops.replicaof host port repl).2
  stopReplication : ∀ repl, I repl → I (ops.stopReplication repl)

/-- Of those that a command on the connection `link` has of it, the ones on the master's side keep
`I`. -/
structure ReplicationOps.KeepsMaster (ops : ReplicationOps ρ) (link : Option ClientLink) (I : ρ → Prop) :
    Prop where
  startFullResync : ∀ S repl, I repl → I (ops.startFullResync S link repl)
  onReplicaAck : ∀ offset repl, I repl → I (ops.onReplicaAck link offset repl)
  setReplicaPort : ∀ port repl, I repl → I (ops.setReplicaPort link port repl)

/-- All of them keep `I`. -/
structure ReplicationOps.KeepsFor (ops : ReplicationOps ρ) (link : Option ClientLink) (I : ρ → Prop) :
    Prop extends ops.KeepsMaster link I where
  replicaof : ∀ host port repl, I repl → I (ops.replicaof host port repl).2
  stopReplication : ∀ repl, I repl → I (ops.stopReplication repl)

theorem ReplicationOps.Keeps.keepsFor {ops : ReplicationOps ρ} {I : ρ → Prop} (h : ops.Keeps I)
    (link : Option ClientLink) : ops.KeepsFor link I where
  startFullResync S := h.startFullResync S link
  onReplicaAck := h.onReplicaAck link
  setReplicaPort := h.setReplicaPort link
  replicaof := h.replicaof
  stopReplication := h.stopReplication

theorem runCommand_keepsMaster {I : ρ → Prop}
    (hops : ∀ ops, table.replication = some ops → ops.KeepsMaster link I) {name : Option CommandName}
    (hname : name ≠ some .replicaof) (h : I N.repl) : I (runCommand table amb name link args N).2.repl := by
  have hpersistence (op : PersistenceOps π → Store → π → Except Bytes Unit × π) (started : Bytes) :
      I (cmdPersistence table op started N).2.repl := by
    obtain ⟨reply, pers, he, -⟩ := cmdPersistence_cases table N op started
    rw [he]
    exact h
  rcases name with _ | name
  · exact h
  cases name with
  | replconf =>
    obtain ⟨reply, repl, he, hrepl⟩ := cmdReplconf_cases table link args N
    rw [runCommand, he]
    rcases hrepl with rfl | ⟨ops, htable, ⟨offset, rfl⟩ | ⟨port, rfl⟩⟩
    · exact h
    · exact (hops ops htable).onReplicaAck _ _ h
    · exact (hops ops htable).setReplicaPort _ _ h
  | psync =>
    obtain ⟨reply, repl, he, hrepl⟩ := cmdPsync_cases table link N
    rw [runCommand, he]
    rcases hrepl with rfl | ⟨ops, htable, rfl⟩
    · exact h
    · exact (hops ops htable).startFullResync _ _ h
  | replicaof => exact absurd rfl hname
  | save | bgsave | bgrewriteaof => exact hpersistence _ _
  | _ => exact h

theorem runCommand_keepsFor {I : ρ → Prop}
    (hops : ∀ ops, table.replication = some ops → ops.KeepsFor link I) (name : Option CommandName)
    (h : I N.repl) : I (runCommand table amb name link args N).2.repl := by
  by_cases hname : name = some .replicaof
  · obtain ⟨reply, repl, he, hrepl⟩ := cmdReplicaof_cases table args N
    rw [hname, runCommand, he]
    rcases hrepl with rfl | ⟨ops, htable, rfl | ⟨host, port, rfl⟩⟩
    · exact h
    · exact (hops ops htable).stopReplication _ h
    · exact (hops ops htable).replicaof _ _ _ h
  · exact runCommand_keepsMaster table amb link args N
      (fun ops htable => (hops ops htable).toKeepsMaster) hname h

/-- What they keep, a dispatch for that connection keeps. -/
theorem dispatch_keepsFor {I : ρ → Prop}
    (hops : ∀ ops, table.replication = some ops → ops.KeepsFor link I) (h : I N.repl) :
    I (dispatch table amb link args N).2.repl := by
  rcases dispatch_node table amb link args N with he | he <;> rw [he]
  · exact h
  · exact runCommand_keepsFor table amb link args N hops _ h

/-- What the operations of replication keep, a dispatch keeps. -/
theorem dispatch_keeps {I : ρ → Prop} (hops : ∀ ops, table.replication = some ops → ops.Keeps I)
    (h : I N.repl) : I (dispatch table amb link args N).2.repl :=
  dispatch_keepsFor table amb link args N (fun ops htable => (hops ops htable).keepsFor link) h

/-- A command that a replica need not refuse is not dirty, and propagates nothing. -/
theorem runCommand_clean {name : Option CommandName} (h : isWriteCommand name = false) :
    (runCommand table amb name link args N).1.dirty = false ∧
      (runCommand table amb name link args N).1.propagate = [] := by
  have hpersistence (op : PersistenceOps π → Store → π → Except Bytes Unit × π) (started : Bytes) :
      (cmdPersistence table op started N).1.dirty = false ∧
        (cmdPersistence table op started N).1.propagate = [] := by
    obtain ⟨reply, pers, he, -⟩ := cmdPersistence_cases table N op started
    rw [he]
    exact ⟨rfl, rfl⟩
  rcases name with _ | name
  · exact ⟨rfl, rfl⟩
  cases name with
  | set | del | expire | pexpire | expireat | pexpireat | persist | flushall => cases h
  | replconf =>
    obtain ⟨reply, repl, he, -⟩ := cmdReplconf_cases table link args N
    rw [runCommand, he]
    exact ⟨rfl, rfl⟩
  | psync =>
    obtain ⟨reply, repl, he, -⟩ := cmdPsync_cases table link N
    rw [runCommand, he]
    exact ⟨rfl, rfl⟩
  | replicaof =>
    obtain ⟨reply, repl, he, -⟩ := cmdReplicaof_cases table args N
    rw [runCommand, he]
    exact ⟨rfl, rfl⟩
  | save | bgsave | bgrewriteaof => exact hpersistence _ _
  | _ => exact ⟨rfl, rfl⟩

/-- Without persistence there is nothing of it that a command changes. -/
theorem runCommand_pers (h : table.persistence = none) (name : Option CommandName) :
    (runCommand table amb name link args N).2.pers = N.pers := by
  have hpersistence (op : PersistenceOps π → Store → π → Except Bytes Unit × π) (started : Bytes) :
      (cmdPersistence table op started N).2.pers = N.pers := by
    unfold cmdPersistence
    rw [h]
  rcases name with _ | name
  · rfl
  cases name with
  | replconf =>
    obtain ⟨reply, repl, he, -⟩ := cmdReplconf_cases table link args N
    rw [runCommand, he]
  | psync =>
    obtain ⟨reply, repl, he, -⟩ := cmdPsync_cases table link N
    rw [runCommand, he]
  | replicaof =>
    obtain ⟨reply, repl, he, -⟩ := cmdReplicaof_cases table args N
    rw [runCommand, he]
  | save | bgsave | bgrewriteaof => exact hpersistence _ _
  | _ => rfl

theorem dispatch_pers (h : table.persistence = none) :
    (dispatch table amb link args N).2.pers = N.pers := by
  rcases dispatch_node table amb link args N with he | he <;> rw [he]
  exact runCommand_pers table amb link args N h _

/-! ## What is propagated is within the parser's limits -/

theorem within_nil : Within [] := ⟨Nat.zero_le _, fun _ ha => absurd ha List.not_mem_nil⟩

theorem length_intToString_le_max (d : Int64) : (intToString d.toInt).length ≤ kMaxBulkLength :=
  Nat.le_trans (length_intToString_le d) (by decide)

theorem within_setCanonical {k v : Bytes} (hk : k.length ≤ kMaxBulkLength)
    (hv : v.length ≤ kMaxBulkLength) (d : Int64) : Within (setCanonical k v d) := by
  have hset : (str "SET").length ≤ kMaxBulkLength := by decide
  have hpxat : (str "PXAT").length ≤ kMaxBulkLength := by decide
  unfold setCanonical
  split
  · refine ⟨by simp [kMaxMultibulkLength], ?_⟩
    simp only [List.cons_append, List.nil_append, List.forall_mem_cons]
    exact ⟨hset, hk, hv, hpxat, length_intToString_le_max d, fun _ ha => absurd ha List.not_mem_nil⟩
  · refine ⟨by simp [kMaxMultibulkLength], ?_⟩
    simp only [List.append_nil, List.forall_mem_cons]
    exact ⟨hset, hk, hv, fun _ ha => absurd ha List.not_mem_nil⟩

variable {args} in
theorem within_cmdSet (h : Within args) (now : Int64) (S : Store) :
    Within (cmdSet now S args).1.propagate := by
  rcases args with _ | ⟨c, _ | ⟨k, _ | ⟨v, rest⟩⟩⟩
  · exact within_nil
  · exact within_nil
  · exact within_nil
  · have hk : k.length ≤ kMaxBulkLength := h.size k (by simp)
    have hv : v.length ≤ kMaxBulkLength := h.size v (by simp)
    unfold cmdSet
    dsimp only
    split
    · exact within_nil
    · split
      · exact within_nil
      · exact within_setCanonical hk hv _

variable {args} in
theorem within_cmdExpire (h : Within args) (now : Int64) (S : Store) (seconds absolute : Bool)
    (name : Bytes) : Within (cmdExpire now S seconds absolute name args).1.propagate := by
  unfold cmdExpire
  split
  · rename_i k time
    split
    · exact within_nil
    · split
      · exact within_nil
      · dsimp only
        split
        · have hname : (str "PEXPIREAT").length ≤ kMaxBulkLength := by decide
          refine ⟨by simp [kMaxMultibulkLength], ?_⟩
          simp only [List.forall_mem_cons]
          exact ⟨hname, h.size k (by simp), length_intToString_le_max _,
            fun _ ha => absurd ha List.not_mem_nil⟩
        · exact within_nil
  · exact within_nil

variable {args} in
/-- A command within the limits propagates one that is. -/
theorem within_propagate (h : Within args) : Within (dispatch table amb link args N).1.propagate := by
  have hsome {p : Prop} [Decidable p] : Within (if p then args else []) := by
    split
    · exact h
    · exact within_nil
  have hrun (name : Option CommandName) : Within (runCommand table amb name link args N).1.propagate := by
    cases hw : isWriteCommand name with
    | false =>
      rw [(runCommand_clean table amb link args N hw).2]
      exact within_nil
    | true =>
      rcases name with _ | name
      · cases hw
      cases name with
      | set => exact within_cmdSet h amb.now N.store
      | del =>
        show Within (cmdDel amb.now N.store args).1.propagate
        unfold cmdDel
        split
        · exact hsome
        · exact within_nil
      | expire | pexpire | expireat | pexpireat => exact within_cmdExpire h ..
      | persist =>
        show Within (cmdPersist amb.now N.store args).1.propagate
        unfold cmdPersist
        split
        · exact hsome
        · exact within_nil
      | flushall => exact h
      | _ => cases hw
  rcases args with _ | ⟨arg, rest⟩
  · exact within_nil
  · unfold dispatch
    dsimp only
    split
    · exact within_nil
    · dsimp only
      split
      · exact h
      · exact hrun _

/-- A write says what to propagate. -/
theorem propagate_ne_nil (h : (dispatch table amb link args N).1.dirty = true) :
    (dispatch table amb link args N).1.propagate ≠ [] := by
  rcases args with _ | ⟨arg, args⟩
  · cases h
  · unfold dispatch at h ⊢
    dsimp only at h ⊢
    split at h
    · cases h
    · rename_i hw
      rw [if_neg hw]
      dsimp only at h ⊢
      split
      · simp
      · rename_i hp
        rw [if_neg hp] at h
        exact fun he => hp ⟨h, he⟩

end RP
