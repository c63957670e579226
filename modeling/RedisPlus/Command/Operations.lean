import RedisPlus.Command.Frame
import RedisPlus.Store.Snapshot

/-!
# What a command does to the store

Whatever a dispatch does to the store, it does by the store's operations, at the time that the clock
reads (`dispatch_operates`). What these keep, every command keeps.
-/

namespace RP

namespace Store

/-- `S'` is what some operations at `now` make of `S`. -/
def Operates (now : Int64) (S S' : Store) : Prop :=
  ∃ ops : List Operation, S' = ops.foldl (fun S op => op.run now S) S

namespace Operates

variable {now : Int64} {S S' S'' : Store}

theorem refl (now : Int64) (S : Store) : Operates now S S := ⟨[], rfl⟩

theorem one (now : Int64) (S : Store) (op : Operation) : Operates now S (op.run now S) := ⟨[op], rfl⟩

theorem trans (h : Operates now S S') (h' : Operates now S' S'') : Operates now S S'' := by
  obtain ⟨ops, rfl⟩ := h
  obtain ⟨ops', rfl⟩ := h'
  exact ⟨ops ++ ops', List.foldl_append.symm⟩

/-- What every operation keeps. -/
theorem keeps {P : Store → Prop} (hrun : ∀ S op, P S → P (Operation.run now S op))
    (h : Operates now S S') (hS : P S) : P S' := by
  obtain ⟨ops, rfl⟩ := h
  exact List.foldlRecOn ops _ hS fun S hS op _ => hrun S op hS

theorem sound (h : Operates now S S') (hnow : 0 ≤ now) (hS : S.Sound) : S'.Sound :=
  h.keeps (fun S op hS => hS.edits hnow (op.edits now S)) hS

theorem indexed (h : Operates now S S') (hS : S.Indexed) : S'.Indexed :=
  h.keeps (fun _ op hS => hS.run now op) hS

end Operates

end Store

open Store (Operates)

section

variable (now : Int64) (S : Store)

theorem cmdGet_operates : ∀ a, Operates now S (cmdGet now S a).2
  | [_, key] => .one now S (.get key)
  | [] | [_] | _ :: _ :: _ :: _ => .refl now S

theorem countExisting_operates : ∀ (ks : List Bytes) (S : Store), Operates now S (countExisting now ks S).2
  | [], S => .refl now S
  | k :: ks, S => .trans (.one now S (.contains k)) (countExisting_operates ks (S.contains now k).2)

theorem cmdExists_operates : ∀ a, Operates now S (cmdExists now S a).2
  | _ :: key :: keys => countExisting_operates now (key :: keys) S
  | [] | [_] => .refl now S

theorem cmdType_operates : ∀ a, Operates now S (cmdType now S a).2
  | [_, key] => .one now S (.contains key)
  | [] | [_] | _ :: _ :: _ :: _ => .refl now S

theorem cmdKeys_operates : ∀ a, Operates now S (cmdKeys now S a).2
  | [_, pattern] => .one now S (.keys pattern)
  | [] | [_] | _ :: _ :: _ :: _ => .refl now S

theorem cmdTtl_operates (seconds : Bool) (name : Bytes) : ∀ a, Operates now S (cmdTtl now S seconds name a).2
  | [_, key] => by
    show Operates now S (if (S.pttl now key).1 < 0 then _ else _ : Bytes × Store).2
    split <;> exact .one now S (.pttl key)
  | [] | [_] | _ :: _ :: _ :: _ => .refl now S

theorem cmdSet_operates : ∀ a, Operates now S (cmdSet now S a).2
  | _ :: key :: value :: rest => by
    have hget : Operates now S (S.get now key).2 := .one now S (.get key)
    cases ho : setOptions now {} rest with
    | error e =>
      simp only [cmdSet, ho]
      exact .refl now S
    | ok o =>
      simp only [cmdSet, ho]
      split
      · exact hget
      cases o.keepttl with
      | false => exact .trans hget (.one now _ (.set key value _))
      | true =>
        have hpttl : Operates now S ((S.get now key).2.pttl now key).2 := .trans hget (.one now _ (.pttl key))
        simp only [if_true]
        exact .trans hpttl (.one now _ (.set key value _))
  | [] | [_] | [_, _] => .refl now S

theorem eraseAll_operates : ∀ (ks : List Bytes) (S : Store), Operates now S (eraseAll now ks S).2
  | [], S => .refl now S
  | k :: ks, S => .trans (.one now S (.erase k)) (eraseAll_operates ks (S.erase now k).2)

theorem cmdDel_operates : ∀ a, Operates now S (cmdDel now S a).2
  | _ :: key :: keys => eraseAll_operates now (key :: keys) S
  | [] | [_] => .refl now S

theorem cmdExpire_operates (seconds absolute : Bool) (name : Bytes) :
    ∀ a, Operates now S (cmdExpire now S seconds absolute name a).2
  | [_, key, time] => by
    simp only [cmdExpire]
    cases toInt64 time with
    | none => exact .refl now S
    | some n =>
      simp only
      cases expireDeadline now n seconds absolute with
      | none => exact .refl now S
      | some deadline => exact .one now S (.expireAt key deadline)
  | [] | [_] | [_, _] | _ :: _ :: _ :: _ :: _ => .refl now S

theorem cmdPersist_operates : ∀ a, Operates now S (cmdPersist now S a).2
  | [_, key] => .one now S (.persist key)
  | [] | [_] | _ :: _ :: _ :: _ => .refl now S

end

section

variable {π ρ : Type} (table : CommandTable π ρ) (amb : Ambient) (link : Option ClientLink) (args : Args)
  (N : Node π ρ)

theorem runCommand_operates (name : Option CommandName) :
    Operates amb.now N.store (runCommand table amb name link args N).2.store := by
  have hpersistence (op : PersistenceOps π → Store → π → Except Bytes Unit × π) (started : Bytes) :
      Operates amb.now N.store (cmdPersistence table op started N).2.store := by
    obtain ⟨reply, pers, he, -⟩ := cmdPersistence_cases table N op started
    rw [he]
    exact .refl ..
  rcases name with _ | name
  · exact .refl ..
  cases name with
  | replconf =>
    obtain ⟨reply, repl, he, -⟩ := cmdReplconf_cases table link args N
    rw [runCommand, he]
    exact .refl ..
  | psync =>
    obtain ⟨reply, repl, he, -⟩ := cmdPsync_cases table link N
    rw [runCommand, he]
    exact .refl ..
  | replicaof =>
    obtain ⟨reply, repl, he, -⟩ := cmdReplicaof_cases table args N
    rw [runCommand, he]
    exact .refl ..
  | set => exact cmdSet_operates ..
  | get => exact cmdGet_operates ..
  | del => exact cmdDel_operates ..
  | exists' => exact cmdExists_operates ..
  | type => exact cmdType_operates ..
  | keys => exact cmdKeys_operates ..
  | expire | pexpire | expireat | pexpireat => exact cmdExpire_operates ..
  | ttl | pttl => exact cmdTtl_operates ..
  | persist => exact cmdPersist_operates ..
  | flushall => exact .one _ _ .clear
  | save | bgsave | bgrewriteaof => exact hpersistence _ _
  | ping | echo | config | dbsize | info | command | select | quit => exact .refl ..

/-- A dispatch changes the store by its operations only. -/
theorem dispatch_operates : Operates amb.now N.store (dispatch table amb link args N).2.store := by
  rcases dispatch_node table amb link args N with he | he <;> rw [he]
  · exact .refl ..
  · exact runCommand_operates table amb link args N _

end

end RP
