import RedisPlus.Command.Effect

/-!
# A replica is read-only

The names that a replica refuses (`writeNames`) and the table of commands are two lists. They
agree: the commands that can be dirty are those of the refused names, in any case
(`isWriteCommand_commandName`, `runCommand_clean`). So a client of a replica changes nothing that
is live, and nothing is propagated for it (`replica_read_only`).
-/

namespace RP

/-- The names that `is_write_command` compares with. -/
def writeNames : List Bytes :=
  [str "SET", str "DEL", str "UNLINK", str "EXPIRE", str "PEXPIRE", str "EXPIREAT", str "PEXPIREAT",
    str "PERSIST", str "FLUSHALL", str "FLUSHDB"]

/-- `is_write_command` -/
def isWriteName (name : Bytes) : Bool := writeNames.contains name

/-- A test of what a name stands for, where no name stands twice, is a test of the name. -/
theorem any_lookup {α β : Type} [BEq α] [LawfulBEq α] (p : β → Bool) (a : α) :
    ∀ l : List (α × β), (l.map Prod.fst).Nodup →
      (l.lookup a).any p = ((l.filter fun e => p e.2).map Prod.fst).contains a
  | [], _ => rfl
  | (a', b) :: l, h => by
    rw [List.map_cons, List.nodup_cons] at h
    have ih := any_lookup p a l h.2
    by_cases ha : a = a'
    · subst ha
      have hnot : ((l.filter fun e => p e.2).map Prod.fst).contains a = false := by
        rw [List.contains_eq_mem, decide_eq_false_iff_not]
        exact fun hm => h.1 ((List.filter_sublist.map Prod.fst).subset hm)
      rw [List.lookup_cons_self]
      cases hb : p b with
      | false => rw [List.filter_cons_of_neg (by simp [hb]), hnot]; exact hb
      | true => rw [List.filter_cons_of_pos (by simp [hb])]; simp [hb]
    · rw [List.lookup_cons, beq_eq_false_iff_ne.mpr ha]
      show (l.lookup a).any p = _
      rw [ih]
      cases hb : p b with
      | false => rw [List.filter_cons_of_neg (by simp [hb])]
      | true => rw [List.filter_cons_of_pos (by simp [hb])]; simp [ha]

/-- The two lists agree. -/
theorem isWriteCommand_commandName (arg : Bytes) :
    isWriteCommand (commandName arg) = isWriteName (upper arg) := by
  have hany (name : Option CommandName) :
      isWriteCommand name = name.any fun c => isWriteCommand (some c) := by
    cases name <;> rfl
  have hnames : (commandNames.filter fun e => isWriteCommand (some e.2)).map Prod.fst = writeNames := by
    decide
  rw [hany, commandName, any_lookup _ _ _ (by decide), hnames, isWriteName]

section

variable {π ρ : Type} (table : CommandTable π ρ) (amb : Ambient) (link : Option ClientLink) (args : Args)
  (N : Node π ρ)

theorem dispatch_clean {arg : Bytes} {rest : Args} (h : isWriteCommand (commandName arg) = false) :
    (dispatch table amb link (arg :: rest) N).1.dirty = false ∧
      (dispatch table amb link (arg :: rest) N).1.propagate = [] := by
  obtain ⟨hd, hp⟩ := runCommand_clean table amb link (arg :: rest) N h
  unfold dispatch
  dsimp only
  rw [if_neg (by simp [h]), if_neg (by simp [hd])]
  exact ⟨hd, hp⟩

theorem isWriteName_of_dirty {arg : Bytes} {rest : Args}
    (h : (dispatch table amb link (arg :: rest) N).1.dirty = true) : isWriteName (upper arg) = true := by
  rw [← isWriteCommand_commandName]
  by_contra hw
  rw [(dispatch_clean table amb link N (Bool.eq_false_iff.mpr hw)).1] at h
  cases h

/-- What a replica does for a client is not dirty, and propagates nothing. -/
theorem dispatch_replica_clean {ops : ReplicationOps ρ} (hops : table.replication = some ops)
    (hr : ops.isReplica N.repl = true) (client : ClientLink) :
    (dispatch table amb (some client) args N).1.dirty = false ∧
      (dispatch table amb (some client) args N).1.propagate = [] := by
  rcases args with _ | ⟨arg, rest⟩
  · exact ⟨rfl, rfl⟩
  cases hw : isWriteCommand (commandName arg) with
  | false => exact dispatch_clean table amb (some client) N hw
  | true =>
    unfold dispatch
    dsimp only
    rw [if_pos ⟨rfl, by simp [hops, hr], hw⟩]
    exact ⟨rfl, rfl⟩

/-- Only the refused names can be dirty; so on a replica a client's request changes nothing that
is live, is not dirty and propagates nothing. -/
theorem replica_read_only :
    ((dispatch table amb link args N).1.dirty = true →
      ∃ arg rest, args = arg :: rest ∧ isWriteName (upper arg) = true) ∧
    ∀ (ops : ReplicationOps ρ) (client : ClientLink), table.replication = some ops →
      ops.isReplica N.repl = true →
      (dispatch table amb (some client) args N).2.store.live amb.now = N.store.live amb.now ∧
        (dispatch table amb (some client) args N).1.dirty = false ∧
        (dispatch table amb (some client) args N).1.propagate = [] := by
  refine ⟨fun hd => ?_, fun ops client hops hr => ?_⟩
  · rcases args with _ | ⟨arg, rest⟩
    · cases hd
    · exact ⟨arg, rest, rfl, isWriteName_of_dirty table amb link N hd⟩
  · obtain ⟨hd, hp⟩ := dispatch_replica_clean table amb args N hops hr client
    refine ⟨?_, hd, hp⟩
    rcases dispatch_effect table amb (some client) args N with ⟨-, h⟩ | ⟨w, hdirty, -⟩
    · exact h
    · rw [hd] at hdirty
      cases hdirty

end

/-- A table whose server follows a master. -/
def replicaTable : CommandTable Unit Unit where
  replication := some
    { startFullResync := fun _ _ r => r, onReplicaAck := fun _ _ r => r, setReplicaPort := fun _ _ r => r
      onDisconnect := fun _ r => r, replicaof := fun _ _ r => (.ok (), r), stopReplication := fun r => r
      isReplica := fun _ => true, infoSection := fun _ => [] }

/-- A client's DEL of a key, on a replica and on a master. -/
theorem del_read_only :
    let N : Node Unit Unit := { bareNode with store := ({} : Store).set (str "k") (str "v") kNoExpiry }
    let del := [str "del", str "k"]
    (dispatch replicaTable ⟨0, []⟩ (some 1) del N).2.store.live 0 = N.store.live 0 ∧
      (dispatch replicaTable ⟨0, []⟩ (some 1) del N).1.propagate = [] ∧
      (dispatch {} ⟨0, []⟩ (some 1) del N).1.dirty = true ∧
      ∃ arg rest, del = arg :: rest ∧ isWriteName (upper arg) = true := by
  intro N del
  have hdirty : (dispatch {} ⟨0, []⟩ (some 1) del N).1.dirty = true := by decide
  obtain ⟨hlive, -, hpropagate⟩ := (replica_read_only replicaTable ⟨0, []⟩ (some 1) del N).2 _ 1 rfl rfl
  exact ⟨hlive, hpropagate, hdirty, (replica_read_only {} ⟨0, []⟩ (some 1) del N).1 hdirty⟩

end RP
