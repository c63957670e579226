import RedisPlus.Store.Reap

/-!
# What the store's operations do to its tables

`Edits` lists the changes that an operation at some time can make to the two tables: keys are
removed, values and deadlines set, and a deadline that is given to a key is in the future. Every
operation is a sequence of these (`Operation.edits`), so an invariant that they keep holds of
every store that can be reached (`Reachable`). The operations that write nothing only remove keys
(`Operation.removes`).
-/

namespace RP

namespace Store

/-- The operations that may change the store. -/
inductive Operation where
  | get (key : Bytes)
  | set (key value : Bytes) (expireAt : Int64)
  | erase (key : Bytes)
  | contains (key : Bytes)
  | pttl (key : Bytes)
  | expireAt (key : Bytes) (deadline : Int64)
  | persist (key : Bytes)
  | keys (pattern : Bytes)
  | clear
  | activeExpireCycle (layout : Table Int64 → List (List Bytes)) (cfg : ExpiryConfig)
  | loadRecord (r : Record)
  | reapExpired (limit : Nat)

/-- What an operation leaves. -/
def Operation.run (now : Int64) (S : Store) : Operation → Store
  | .get key => (S.get now key).2
  | .set key value d => S.set key value d
  | .erase key => (S.erase now key).2
  | .contains key => (S.contains now key).2
  | .pttl key => (S.pttl now key).2
  | .expireAt key deadline => (S.expireAt now key deadline).2
  | .persist key => (S.persist now key).2
  | .keys pattern => (S.keys now pattern).2
  | .clear => S.clear
  | .activeExpireCycle layout cfg => (S.activeExpireCycle layout cfg now).2
  | .loadRecord r => S.loadRecord now r
  | .reapExpired limit => (S.reapExpired limit now).2

/-- `S'` has the tables of `S` after some changes made at `now`. -/
inductive Edits (now : Int64) : Store → Store → Prop where
  | tables {S S' : Store} (hm : S'.map = S.map) (he : S'.expires = S.expires) : Edits now S S'
  | remove (S : Store) (k : Bytes) : Edits now S (S.remove k)
  | set (S : Store) (k v : Bytes) (d : Int64) : Edits now S (S.set k v d)
  | expire {S : Store} {k : Bytes} {d : Int64} (hk : k ∈ S.map) (hd : now < d) :
    Edits now S { S with expires := S.expires.insert k d }
  | persist (S : Store) (k : Bytes) : Edits now S { S with expires := S.expires.erase k }
  | clear (S : Store) : Edits now S S.clear
  | trans {S S' S'' : Store} : Edits now S S' → Edits now S' S'' → Edits now S S''

theorem Edits.refl (now : Int64) (S : Store) : Edits now S S := .tables rfl rfl

theorem Edits.foldl {α : Type} {now : Int64} {f : Store → α → Store} (hf : ∀ S a, Edits now S (f S a)) :
    ∀ (l : List α) (S : Store), Edits now S (l.foldl f S)
  | [], S => .refl now S
  | a :: l, S => .trans (hf S a) (foldl hf l (f S a))

/-! ## Operations that write nothing -/

/-- `S'` has the tables of `S` without some keys. -/
inductive Removes : Store → Store → Prop where
  | tables {S S' : Store} (hm : S'.map = S.map) (he : S'.expires = S.expires) : Removes S S'
  | remove (S : Store) (k : Bytes) : Removes S (S.remove k)
  | trans {S S' S'' : Store} : Removes S S' → Removes S' S'' → Removes S S''

namespace Removes

theorem edits {S S' : Store} (h : Removes S S') (now : Int64) : Edits now S S' := by
  induction h with
  | tables hm he => exact .tables hm he
  | remove S k => exact .remove S k
  | trans _ _ ih ih' => exact .trans ih ih'

theorem refl (S : Store) : Removes S S := .tables rfl rfl

theorem reap (S : Store) (k : Bytes) : Removes S (S.reap k) := .trans (.remove S k) (.tables rfl rfl)

theorem foldl {f : Store → Bytes → Store} (hf : ∀ S k, Removes S (f S k)) :
    ∀ (ks : List Bytes) (S : Store), Removes S (ks.foldl f S)
  | [], S => .refl S
  | k :: ks, S => .trans (hf S k) (foldl hf ks (f S k))

theorem removeDead (S : Store) (dead : List Bytes) : Removes S (S.removeDead dead) :=
  .trans (.foldl .remove dead S) (.tables rfl rfl)

theorem get (now : Int64) (S : Store) (k : Bytes) : Removes S (S.get now k).2 := by
  simp only [Store.get]
  split
  · exact .refl S
  split
  · exact .reap S k
  · exact .refl S

theorem pttl (now : Int64) (S : Store) (k : Bytes) : Removes S (S.pttl now k).2 := by
  simp only [Store.pttl]
  split
  · exact .refl S
  split
  · exact .reap S k
  split
  · exact .refl S
  · exact .refl S

theorem activeExpireCycle (now : Int64) (S : Store) (layout : Table Int64 → List (List Bytes))
    (cfg : ExpiryConfig) : Removes S (S.activeExpireCycle layout cfg now).2 :=
  expirePasses_induction (P := Removes S) (fun _ _ hm he h => .trans h (.tables hm he))
    (fun S' dead _ h => .trans h (.removeDead S' dead)) _ _ (.tables rfl rfl)

end Removes

/-- The operations that read, or remove keys that have expired. -/
def Operation.reads : Operation → Bool
  | .get _ | .contains _ | .pttl _ | .keys _ | .activeExpireCycle _ _ | .reapExpired _ => true
  | _ => false

theorem Operation.removes {op : Operation} (h : op.reads = true) (now : Int64) (S : Store) :
    Removes S (op.run now S) := by
  cases op with
  | get key => exact .get now S key
  | contains key => exact .get now S key
  | pttl key => exact .pttl now S key
  | keys pattern => exact .foldl .reap _ S
  | activeExpireCycle layout cfg => exact .activeExpireCycle now S layout cfg
  | reapExpired limit => exact .removeDead S _
  | set key value d => cases h
  | erase key => cases h
  | expireAt key deadline => cases h
  | persist key => cases h
  | clear => cases h
  | loadRecord r => cases h

/-! ## Operations that write -/

theorem Edits.reap (now : Int64) (S : Store) (k : Bytes) : Edits now S (S.reap k) :=
  (Removes.reap S k).edits now

theorem Edits.erase (now : Int64) (S : Store) (k : Bytes) : Edits now S (S.erase now k).2 := by
  simp only [Store.erase]
  split
  · exact .refl now S
  split
  · exact .reap now S k
  · exact .remove S k

theorem Edits.expireAt (now : Int64) (S : Store) (k : Bytes) (d : Int64) :
    Edits now S (S.expireAt now k d).2 := by
  simp only [Store.expireAt]
  split
  · exact .refl now S
  rename_i v hv
  split
  · exact .reap now S k
  split
  · exact .remove S k
  · rename_i hd
    exact .expire (AList.lookup_isSome.mp (by rw [hv]; rfl)) (Int64.not_le.mp hd)

theorem Edits.persistKey (now : Int64) (S : Store) (k : Bytes) : Edits now S (S.persist now k).2 := by
  simp only [Store.persist]
  split
  · exact .refl now S
  split
  · exact .reap now S k
  · exact .persist S k

theorem Edits.loadRecord (now : Int64) (S : Store) (r : Record) : Edits now S (S.loadRecord now r) := by
  unfold Store.loadRecord
  split
  · exact .refl now S
  · exact .set S _ _ _

/-- Every operation edits the tables in these ways. -/
theorem Operation.edits (now : Int64) (S : Store) (op : Operation) : Edits now S (op.run now S) := by
  cases op with
  | set key value d => exact .set S key value d
  | erase key => exact .erase now S key
  | expireAt key deadline => exact .expireAt now S key deadline
  | persist key => exact .persistKey now S key
  | clear => exact .clear S
  | loadRecord r => exact .loadRecord now S r
  | get key => exact (Operation.removes rfl now S).edits now
  | contains key => exact (Operation.removes rfl now S).edits now
  | pttl key => exact (Operation.removes rfl now S).edits now
  | keys pattern => exact (Operation.removes rfl now S).edits now
  | activeExpireCycle layout cfg => exact (Operation.removes rfl now S).edits now
  | reapExpired limit => exact (Operation.removes rfl now S).edits now

/-- The stores that can be reached while the clock reads no negative time. -/
inductive Reachable : Store → Prop where
  | empty : Reachable {}
  | step {S : Store} {now : Int64} (h : Reachable S) (hnow : 0 ≤ now) (op : Operation) :
    Reachable (op.run now S)

/-- What edits keep holds of every store that can be reached. -/
theorem Reachable.invariant {P : Store → Prop} (hempty : P {})
    (hedits : ∀ {now : Int64} {S S' : Store}, 0 ≤ now → Edits now S S' → P S → P S') {S : Store}
    (h : Reachable S) : P S := by
  induction h with
  | empty => exact hempty
  | step _ hnow op ih => exact hedits hnow (op.edits _ _) ih

end Store

end RP
