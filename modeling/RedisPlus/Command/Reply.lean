import RedisPlus.Command.Dispatch
import RedisPlus.Framework.Machine
import RedisPlus.Handler.Chunking
import RedisPlus.Resp.Value

/-!
# Replies are values

A reply is one RESP value, or nothing for `REPLCONF ACK` and `PSYNC`, unless a text that the command
table does not choose has a line end in it: the arguments that the reply to an unknown command
repeats, or what went wrong in persistence and replication (`wellFramed_dispatch`). Where none of
these has one, the replies to pipelined requests are read back as one value for each request that
is replied to, in order (`replies_framed_iff`).
-/

namespace RP

open Framework (run Along collect)

/-- The requests that may get no reply. -/
def silent : Args → Bool
  | [] => true
  | arg :: rest =>
    commandName arg == some .psync ||
      (commandName arg == some .replconf && rest.head?.any fun sub => upper sub == str "ACK")

/-- One value, or nothing for a request that may get no reply. -/
def WellFramed (args : Args) (reply : Bytes) : Prop := Framed reply ∨ reply = [] ∧ silent args = true

theorem wellFramed_error {args : Args} {s : Bytes} : WellFramed args (Reply.error s) ↔ Plain s := by
  refine ⟨fun h => ?_, fun h => .inl (framed_error.mpr h)⟩
  rcases h with h | ⟨h, -⟩
  · exact framed_error.mp h
  · simp [Reply.error, crlf] at h

/-! ## The commands' replies -/

theorem framed_bulkOrNull (v : Option Bytes) : Framed (bulkOrNull v) := by
  cases v with
  | none => exact framed_nullBulk
  | some v => exact framed_bulk v

/-- The names of commands in the texts of `wrong_arity` are lines. -/
theorem framed_wrongArity {name : Bytes} (h : Plain name) : Framed (Reply.wrongArity name) := by
  refine framed_error.mpr (plain_append.mpr ⟨plain_append.mpr ⟨by decide, h⟩, by decide⟩)

theorem plain_syntaxError : Plain kSyntaxError := by decide

theorem plain_notInteger : Plain kNotInteger := by decide

theorem plain_invalidExpire : Plain kInvalidExpire := by decide

theorem framed_cmdPing (a : Args) : Framed (cmdPing a) := by
  unfold cmdPing
  split
  · exact framed_simple (by decide)
  · exact framed_bulk _
  · exact framed_wrongArity (by decide)

theorem framed_cmdEcho (a : Args) : Framed (cmdEcho a) := by
  unfold cmdEcho
  split
  · exact framed_bulk _
  · exact framed_wrongArity (by decide)

section

variable (now : Int64) (S : Store) (a : Args)

theorem framed_cmdGet : Framed (cmdGet now S a).1 := by
  unfold cmdGet
  split
  · exact framed_bulkOrNull _
  · exact framed_wrongArity (by decide)

theorem framed_cmdExists : Framed (cmdExists now S a).1 := by
  unfold cmdExists
  split
  · exact framed_integer _
  · exact framed_wrongArity (by decide)

theorem framed_cmdType : Framed (cmdType now S a).1 := by
  unfold cmdType
  split
  · dsimp only
    split
    · exact framed_simple (by decide)
    · exact framed_simple (by decide)
  · exact framed_wrongArity (by decide)

theorem framed_cmdKeys : Framed (cmdKeys now S a).1 := by
  unfold cmdKeys
  split
  · exact framed_bulks _
  · exact framed_wrongArity (by decide)

theorem framed_cmdTtl (seconds : Bool) {name : Bytes} (h : Plain name) :
    Framed (cmdTtl now S seconds name a).1 := by
  unfold cmdTtl
  split
  · dsimp only
    split
    · exact framed_integer _
    · exact framed_integer _
  · exact framed_wrongArity h

theorem framed_cmdDbsize : Framed (cmdDbsize now S a) := by
  unfold cmdDbsize
  split
  · exact framed_integer _
  · exact framed_wrongArity (by decide)

/-- The names and values of the parameters, in turn. -/
theorem framed_cmdConfig : Framed (cmdConfig a) := by
  have hpairs (l : List (Bytes × Bytes)) :
      Framed (Reply.arrayHeader (2 * l.length) ++ l.flatMap fun p => Reply.bulk p.1 ++ Reply.bulk p.2) := by
    have hlen : (l.flatMap fun p => [p.1, p.2]).length = 2 * l.length := by
      induction l with
      | nil => rfl
      | cons p l ih =>
        rw [List.flatMap_cons, List.length_append, ih, List.length_cons]
        show 2 + 2 * l.length = 2 * (l.length + 1)
        omega
    have hbulks := framed_bulks (l.flatMap fun p => [p.1, p.2])
    rw [hlen, List.flatMap_assoc] at hbulks
    simpa using hbulks
  unfold cmdConfig
  split
  · split
    · split
      · exact hpairs _
      · exact framed_wrongArity (by decide)
    · split
      · exact framed_ok
      · exact framed_error.mpr (by decide)
  · exact framed_error.mpr (by decide)

/-- Every error text of a conditional is a line if those of its branches are. -/
theorem plain_of_ite {α : Type} {c : Prop} [Decidable c] {x y : Except Bytes α}
    (hx : ∀ e, x = .error e → Plain e) (hy : ∀ e, y = .error e → Plain e) :
    ∀ e, (if c then x else y) = .error e → Plain e := by
  split
  · exact hx
  · exact hy

theorem plain_of_error {α : Type} {x : Bytes} (hx : Plain x) :
    ∀ e, (.error x : Except Bytes α) = .error e → Plain e := by
  rintro e ⟨rfl⟩
  exact hx

theorem plain_of_ok {α : Type} {x : α} : ∀ e, (.ok x : Except Bytes α) = .error e → Plain e :=
  fun _ h => nomatch h

theorem plain_setDeadline (relative seconds : Bool) (arg : Bytes) :
    ∀ e, setDeadline now relative seconds arg = .error e → Plain e := by
  unfold setDeadline
  split
  · exact plain_of_error plain_notInteger
  · have hinvalid : ∀ e, (.error kInvalidExpire : Except Bytes Int64) = .error e → Plain e :=
      plain_of_error plain_invalidExpire
    exact plain_of_ite hinvalid (plain_of_ite hinvalid plain_of_ok)

theorem plain_setFlag (o : SetOptions) (opt : Bytes) : ∀ e, setFlag o opt = .error e → Plain e := by
  have hsyntax : ∀ e, (.error kSyntaxError : Except Bytes SetOptions) = .error e → Plain e :=
    plain_of_error plain_syntaxError
  unfold setFlag
  refine plain_of_ite (plain_of_ite hsyntax plain_of_ok) ?_
  refine plain_of_ite (plain_of_ite hsyntax plain_of_ok) ?_
  exact plain_of_ite (plain_of_ite hsyntax plain_of_ok) (plain_of_ite plain_of_ok hsyntax)

/-- SET refuses its options with a line. -/
theorem plain_setOptions : ∀ (opts : List Bytes) (o : SetOptions) (e : Bytes),
    setOptions now o opts = .error e → Plain e
  | [], _ => plain_of_ok
  | [arg], o => plain_of_ite (plain_of_error plain_syntaxError) (plain_setFlag o (upper arg))
  | opt :: arg :: rest, o => by
    unfold setOptions
    split
    · rename_i relative seconds _
      refine plain_of_ite (plain_of_error plain_syntaxError) ?_
      split
      · rename_i he
        exact plain_of_error (plain_setDeadline now relative seconds arg _ he)
      · exact plain_setOptions rest _
    · split
      · rename_i he
        exact plain_of_error (plain_setFlag o (upper opt) _ he)
      · exact plain_setOptions (arg :: rest) _

theorem framed_cmdSet : Framed (cmdSet now S a).1.reply := by
  unfold cmdSet
  split
  · split
    · rename_i he
      exact framed_error.mpr (plain_setOptions now _ _ _ he)
    · dsimp only
      split
      · dsimp only
        split
        · exact framed_bulkOrNull _
        · exact framed_nullBulk
      · dsimp only
        split
        · exact framed_bulkOrNull _
        · exact framed_ok
  · exact framed_wrongArity (by decide)

theorem framed_cmdDel : Framed (cmdDel now S a).1.reply := by
  unfold cmdDel
  split
  · exact framed_integer _
  · exact framed_wrongArity (by decide)

theorem framed_cmdExpire (seconds absolute : Bool) {name : Bytes} (h : Plain name) :
    Framed (cmdExpire now S seconds absolute name a).1.reply := by
  unfold cmdExpire
  split
  · split
    · exact framed_error.mpr plain_notInteger
    · split
      · exact framed_error.mpr plain_invalidExpire
      · exact framed_integer _
  · exact framed_wrongArity h

theorem framed_cmdPersist : Framed (cmdPersist now S a).1.reply := by
  unfold cmdPersist
  split
  · exact framed_integer _
  · exact framed_wrongArity (by decide)

end

/-! ## Texts from elsewhere -/

/-- The error text of an operation. -/
def failureText {α : Type} : Except Bytes Unit × α → Bytes
  | (.ok _, _) => []
  | (.error e, _) => e

section

variable {π ρ : Type} (table : CommandTable π ρ) (amb : Ambient) (link : Option ClientLink) (args : Args)
  (N : Node π ρ)

/-- That of SAVE, BGSAVE or BGREWRITEAOF. -/
def persistenceText (op : PersistenceOps π → Store → π → Except Bytes Unit × π) : Bytes :=
  table.persistence.elim [] fun ops => failureText (op ops N.store N.pers)

/-- That of REPLICAOF. -/
def replicaofText : Bytes :=
  match args, table.replication with
  | [_, host, port], some ops =>
    if iequals host (str "NO") ∧ iequals port (str "ONE") then []
    else match toInt64 port with
      | none => []
      | some p => if p ≤ 0 ∨ 65535 < p then [] else failureText (ops.replicaof host p N.repl)
  | _, _ => []

/-- The text in the reply of a command that the command table does not choose. -/
def foreignTextOf (name : Option CommandName) : Bytes :=
  match name with
  | none => (args.take 4).flatten
  | some .save => persistenceText table N PersistenceOps.save
  | some .bgsave => persistenceText table N PersistenceOps.backgroundSave
  | some .bgrewriteaof => persistenceText table N PersistenceOps.rewriteAof
  | some .replicaof => replicaofText table args N
  | some _ => []

/-- The text in the reply to `args` that comes from elsewhere. -/
def foreignText : Bytes := foreignTextOf table args N (args.head?.bind commandName)

theorem plain_nil : Plain [] := by decide

/-- A reply without such a text. -/
theorem wellFramed_of_framed {args : Args} {reply : Bytes} (h : Framed reply) :
    WellFramed args reply ↔ Plain [] :=
  iff_of_true (.inl h) plain_nil

theorem wellFramed_unknownCommand (arg : Bytes) (rest : Args) :
    WellFramed (arg :: rest) (unknownCommand (arg :: rest)) ↔ Plain ((arg :: rest).take 4).flatten := by
  have hargs (l : Args) : Plain (l.flatMap fun a => str "'" ++ a ++ str "' ") ↔ ∀ a ∈ l, Plain a := by
    have hquoted (a : Bytes) : Plain (str "'" ++ a ++ str "' ") ↔ Plain a := by
      rw [plain_append, plain_append, and_iff_left (by decide), and_iff_right (by decide)]
    rw [List.flatMap_def, plain_flatten, List.forall_mem_map]
    exact forall₂_congr fun a _ => hquoted a
  have hunknown : Plain (str "ERR unknown command '") := by decide
  have hwith : Plain (str "', with args beginning with: ") := by decide
  simp only [unknownCommand, wellFramed_error, plain_append, hargs, plain_flatten, hunknown, hwith,
    true_and, and_true]
  show Plain arg ∧ (∀ a ∈ rest.take 3, Plain a) ↔ ∀ a ∈ arg :: rest.take 3, Plain a
  rw [List.forall_mem_cons]

/-- An operation that fails is replied to with its error text. -/
theorem plain_err {e : Bytes} : Plain (str "ERR " ++ e) ↔ Plain e := by
  rw [plain_append, and_iff_right (by decide)]

theorem wellFramed_cmdPersistence (op : PersistenceOps π → Store → π → Except Bytes Unit × π)
    {started : Bytes} (h : Framed started) :
    WellFramed args (cmdPersistence table op started N).1.reply ↔ Plain (persistenceText table N op) := by
  unfold cmdPersistence persistenceText
  split
  · rename_i hnone
    rw [hnone]
    exact wellFramed_of_framed (framed_error.mpr (by decide))
  · rename_i ops hops
    rw [hops]
    show WellFramed args (match op ops N.store N.pers with
        | (.ok _, pers) => ({ reply := started }, { N with pers })
        | (.error e, pers) => ({ reply := Reply.error (str "ERR " ++ e) }, { N with pers })
          : CommandResult × Node π ρ).1.reply ↔ Plain (failureText (op ops N.store N.pers))
    split
    · rename_i he
      rw [he]
      exact wellFramed_of_framed h
    · rename_i he
      rw [he]
      exact wellFramed_error.trans plain_err

theorem wellFramed_cmdReplicaof :
    WellFramed args (cmdReplicaof table args N).1.reply ↔ Plain (replicaofText table args N) := by
  unfold cmdReplicaof
  split
  · rename_i host port
    unfold replicaofText
    cases table.replication with
    | none => exact wellFramed_of_framed (framed_error.mpr (by decide))
    | some ops =>
      dsimp only
      by_cases hone : iequals host (str "NO") ∧ iequals port (str "ONE")
      · rw [if_pos hone, if_pos hone]
        exact wellFramed_of_framed framed_ok
      rw [if_neg hone, if_neg hone]
      cases toInt64 port with
      | none => exact wellFramed_of_framed (framed_error.mpr (by decide))
      | some p =>
        dsimp only
        by_cases hp : p ≤ 0 ∨ 65535 < p
        · rw [if_pos hp, if_pos hp]
          exact wellFramed_of_framed (framed_error.mpr (by decide))
        rw [if_neg hp, if_neg hp]
        rcases ops.replicaof host p N.repl with ⟨_ | _, repl⟩
        · exact wellFramed_error.trans plain_err
        · exact wellFramed_of_framed framed_ok
  · rename_i hargs
    refine iff_of_true (.inl (framed_wrongArity (by decide))) ?_
    unfold replicaofText
    split
    · exact absurd rfl (hargs _ _ _)
    · exact plain_nil

theorem wellFramed_cmdReplconf {arg : Bytes} {rest : Args} (h : commandName arg = some .replconf) :
    WellFramed (arg :: rest) (cmdReplconf table link (arg :: rest) N).1.reply := by
  unfold cmdReplconf
  split
  · rename_i sub value _ hargs
    obtain ⟨rfl, rfl⟩ := List.cons.inj hargs
    split
    · rename_i hack
      exact .inr ⟨rfl, by simp [silent, h, hack]⟩
    · refine .inl ?_
      split
      · split
        · split
          · exact framed_ok
          · exact framed_ok
        · exact framed_ok
      · exact framed_ok
  · exact .inl framed_ok

theorem wellFramed_cmdPsync {arg : Bytes} {rest : Args} (h : commandName arg = some .psync) :
    WellFramed (arg :: rest) (cmdPsync table link N).1.reply := by
  unfold cmdPsync
  split
  · exact .inl (framed_error.mpr (by decide))
  · exact .inr ⟨rfl, by simp [silent, h]⟩

theorem wellFramed_runCommand (arg : Bytes) (rest : Args) :
    WellFramed (arg :: rest) (runCommand table amb (commandName arg) link (arg :: rest) N).1.reply ↔
      Plain (foreignText table (arg :: rest) N) := by
  show _ ↔ Plain (foreignTextOf table (arg :: rest) N (commandName arg))
  cases hc : commandName arg with
  | none => exact wellFramed_unknownCommand arg rest
  | some name =>
    cases name with
    | save => exact wellFramed_cmdPersistence table _ N _ framed_ok
    | bgsave | bgrewriteaof => exact wellFramed_cmdPersistence table _ N _ (framed_simple (by decide))
    | replicaof => exact wellFramed_cmdReplicaof table _ N
    | replconf => exact iff_of_true (wellFramed_cmdReplconf table link N hc) plain_nil
    | psync => exact iff_of_true (wellFramed_cmdPsync table link N hc) plain_nil
    | ping => exact wellFramed_of_framed (framed_cmdPing _)
    | echo => exact wellFramed_of_framed (framed_cmdEcho _)
    | set => exact wellFramed_of_framed (framed_cmdSet _ _ _)
    | get => exact wellFramed_of_framed (framed_cmdGet _ _ _)
    | del => exact wellFramed_of_framed (framed_cmdDel _ _ _)
    | exists' => exact wellFramed_of_framed (framed_cmdExists _ _ _)
    | type => exact wellFramed_of_framed (framed_cmdType _ _ _)
    | keys => exact wellFramed_of_framed (framed_cmdKeys _ _ _)
    | expire | pexpire | expireat | pexpireat =>
      exact wellFramed_of_framed (framed_cmdExpire _ _ _ _ _ (by decide))
    | ttl | pttl => exact wellFramed_of_framed (framed_cmdTtl _ _ _ _ (by decide))
    | persist => exact wellFramed_of_framed (framed_cmdPersist _ _ _)
    | config => exact wellFramed_of_framed (framed_cmdConfig _)
    | dbsize => exact wellFramed_of_framed (framed_cmdDbsize _ _ _)
    | info => exact wellFramed_of_framed (framed_bulk _)
    | command => exact wellFramed_of_framed framed_emptyArray
    | flushall | select | quit => exact wellFramed_of_framed framed_ok

theorem foreignText_of_write {arg : Bytes} {rest : Args} (h : isWriteCommand (commandName arg) = true) :
    foreignText table (arg :: rest) N = [] := by
  show foreignTextOf table (arg :: rest) N (commandName arg) = []
  cases hc : commandName arg with
  | none => rw [hc] at h; cases h
  | some name =>
    rw [hc] at h
    cases name with
    | save | bgsave | bgrewriteaof | replicaof => cases h
    | _ => rfl

/-- A reply is well framed exactly if the text in it that comes from elsewhere is a line. -/
theorem wellFramed_dispatch (arg : Bytes) (rest : Args) :
    WellFramed (arg :: rest) (dispatch table amb link (arg :: rest) N).1.reply ↔
      Plain (foreignText table (arg :: rest) N) := by
  unfold dispatch
  dsimp only
  by_cases hrefused : link.isSome ∧ (table.replication.any fun ops => ops.isReplica N.repl) ∧
      isWriteCommand (commandName arg)
  · rw [if_pos hrefused]
    rw [foreignText_of_write table N hrefused.2.2]
    exact wellFramed_of_framed (framed_error.mpr (by decide))
  · rw [if_neg hrefused]
    refine Iff.trans ?_ (wellFramed_runCommand table amb link N arg rest)
    dsimp only
    split
    · exact Iff.rfl
    · exact Iff.rfl

end

/-! ## Pipelined requests -/

/-- A request, and what the server reads from outside when it is dispatched. -/
structure Pipelined where
  amb : Ambient
  args : Args

namespace Pipelined

section

variable {π ρ : Type} (table : CommandTable π ρ) (link : Option ClientLink)
  (hook : Args → Node π ρ → Node π ρ)

/-- What a request leaves. -/
def step (c : Pipelined) (N : Node π ρ) : Node π ρ := (serve table c.amb link hook c.args N).2

/-- What a request is replied to with. -/
def reply (c : Pipelined) (N : Node π ρ) : Bytes := (serve table c.amb link hook c.args N).1

/-- What each call of a run is replied to with. -/
def replies (cs : List Pipelined) (N : Node π ρ) : List Bytes :=
  collect (step table link hook) (fun c N => [reply table link hook c N]) cs N

/-- The text from elsewhere in the reply is a line. -/
def PlainReply (c : Pipelined) (N : Node π ρ) : Prop := Plain (foreignText table c.args N)

instance (c : Pipelined) (N : Node π ρ) : Decidable (PlainReply table c N) :=
  inferInstanceAs (Decidable (Plain (foreignText table c.args N)))

theorem reply_framed {c : Pipelined} {N : Node π ρ} (h : PlainReply table c N) :
    Framed (reply table link hook c N) ∨ reply table link hook c N = [] := by
  rcases c with ⟨amb, _ | ⟨arg, rest⟩⟩
  · exact .inr rfl
  · exact ((wellFramed_dispatch table amb link N arg rest).mpr h).imp_right And.left

/-- The replies of a run, without the empty ones, are values. -/
theorem replies_values {cs : List Pipelined} {N : Node π ρ}
    (h : Along (step table link hook) (PlainReply table) cs N) :
    ∃ vs : List Value, (replies table link hook cs N).filter (· ≠ []) = vs.map Value.bytes := by
  refine Along.collects (I := fun _ => True)
    (R := fun _ rs _ => ∃ vs : List Value, rs.filter (· ≠ []) = vs.map Value.bytes) ?_ ?_ ?_ ?_ trivial h
  · exact fun _ => ⟨[], rfl⟩
  · rintro _ _ _ rs rs' ⟨vs, hvs⟩ ⟨vs', hvs'⟩
    exact ⟨vs ++ vs', by rw [List.filter_append, hvs, hvs', List.map_append]⟩
  · exact fun _ _ _ _ => trivial
  · intro c N _ hc
    rcases reply_framed table link hook hc with ⟨v, hv⟩ | hnil
    · have hne : v.bytes ≠ [] := List.length_pos_iff.mp v.length_bytes_pos
      exact ⟨[v], by simp [hv, hne]⟩
    · exact ⟨[], by simp [hnil]⟩

end

end Pipelined

/-- The reply to a request is one value, or nothing where there may be none, exactly if the text in
it that comes from elsewhere is a line. If that is so along a run of pipelined requests, the output
decodes to one value for each request that is replied to, in order. -/
theorem replies_framed_iff {π ρ : Type} (table : CommandTable π ρ) (link : Option ClientLink)
    (hook : Args → Node π ρ → Node π ρ) :
    (∀ (amb : Ambient) (arg : Bytes) (rest : Args) (N : Node π ρ),
      WellFramed (arg :: rest) (dispatch table amb link (arg :: rest) N).1.reply ↔
        Plain (foreignText table (arg :: rest) N)) ∧
    ∀ (cs : List Pipelined) (N : Node π ρ),
      Along (Pipelined.step table link hook) (Pipelined.PlainReply table) cs N →
      ∃ vs : List Value,
        Value.decodeAll vs.length (Pipelined.replies table link hook cs N).flatten = some vs ∧
        (Pipelined.replies table link hook cs N).filter (· ≠ []) = vs.map Value.bytes := by
  refine ⟨fun amb arg rest N => wellFramed_dispatch table amb link N arg rest, fun cs N h => ?_⟩
  obtain ⟨vs, hvs⟩ := Pipelined.replies_values table link hook h
  refine ⟨vs, ?_, hvs⟩
  rw [← List.flatten_filter_ne_nil, hvs, ← Value.bytesAll_eq_flatten]
  exact Value.decodeAll_bytesAll vs (Nat.le_refl _)

/-- An unknown command, SET and GET, one after the other. -/
theorem replies_framed_three :
    let cs : List Pipelined := [⟨⟨0, []⟩, [str "FOO", str "bar"]⟩, ⟨⟨0, []⟩, [str "SET", str "k", str "v"]⟩,
      ⟨⟨0, []⟩, [str "GET", str "k"]⟩]
    let replies := Pipelined.replies ({} : CommandTable Unit Unit) none (fun _ N => N) cs bareNode
    ∃ vs : List Value, Value.decodeAll vs.length replies.flatten = some vs ∧
      replies.filter (· ≠ []) = vs.map Value.bytes := by
  intro cs replies
  refine (replies_framed_iff ({} : CommandTable Unit Unit) none fun _ N => N).2 cs bareNode ?_
  exact ⟨by decide, by decide, by decide, trivial⟩

/-- An argument with a line end in it, in the reply to an unknown command: one request is
replied to with two values. -/
theorem unknownCommand_two_values :
    (dispatch ({} : CommandTable Unit Unit) ⟨0, []⟩ none [str "X\r\n+PWNED"] bareNode).1.reply =
        (Value.error ⟨str "ERR unknown command 'X", by decide⟩).bytes ++
          (Value.simple ⟨str "PWNED', with args beginning with: ", by decide⟩).bytes ∧
      ¬ WellFramed [str "X\r\n+PWNED"]
        (dispatch ({} : CommandTable Unit Unit) ⟨0, []⟩ none [str "X\r\n+PWNED"] bareNode).1.reply := by
  refine ⟨by decide, fun h => ?_⟩
  exact absurd ((wellFramed_unknownCommand _ []).mp h) (by decide)

end RP
