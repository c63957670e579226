import RedisPlus.Framework.Deadlines
import RedisPlus.Store.Basic

/-!
# What the store's operations do to the live keyspace

`Store.live now` is the keyspace as clients see it at `now`. Each operation is given by what
it does to it: reading operations leave it as it is, even when they remove expired keys
(`live_get`, `live_pttl`, `live_keys`), and the others are the writes of `Framework.Write`
(`live_set`, `live_erase`, `live_expireAt`, `live_persist`).
-/

namespace RP

open Framework (Keyspace Write alive)

namespace Store

/-- Each key's value and deadline, expired or not. -/
def view (S : Store) : Keyspace Bytes Bytes Int64 :=
  fun k => (S.map.lookup k).map fun v => (v, S.expires.lookup k)

/-- The keys that are live at `T`, with their values and deadlines. -/
def live (S : Store) (T : Int64) : Keyspace Bytes Bytes Int64 := S.view.live T

theorem view_of_none {S : Store} {k : Bytes} (h : S.map.lookup k = none) : S.view k = none := by
  simp [view, h]

theorem view_of_some {S : Store} {k v : Bytes} (h : S.map.lookup k = some v) :
    S.view k = some (v, S.expires.lookup k) := by
  simp [view, h]

theorem live_of_none {S : Store} {k : Bytes} {T : Int64} (h : S.map.lookup k = none) :
    S.live T k = none := Keyspace.live_of_none (view_of_none h)

theorem isExpired_eq (S : Store) (now : Int64) (k : Bytes) :
    S.isExpired now k = !alive now (S.expires.lookup k) := by
  unfold isExpired
  cases S.expires.lookup k with
  | none => rfl
  | some d =>
    rw [Framework.alive_some, ← decide_not]
    exact decide_eq_decide.mpr Int64.not_lt.symm

theorem live_of_some {S : Store} {k v : Bytes} {T : Int64} (h : S.map.lookup k = some v) :
    S.live T k = if S.isExpired T k then none else some (v, S.expires.lookup k) := by
  rw [live, Keyspace.live_of_some (view_of_some h), isExpired_eq]
  cases alive T (S.expires.lookup k) <;> rfl

/-- A store with the same tables has the same live keys. -/
theorem live_congr {S S' : Store} (hm : S'.map = S.map) (he : S'.expires = S.expires) (T : Int64) :
    S'.live T = S.live T := by
  have hv : S'.view = S.view := by
    funext k
    simp only [view, hm, he]
  rw [live, live, hv]

/-! ## Removal -/

theorem view_remove (S : Store) (k k' : Bytes) :
    (S.remove k).view k' = if k' = k then none else S.view k' := by
  by_cases h : k' = k
  · subst h
    rw [if_pos rfl, view_of_none (by simp [remove])]
  · simp [view, remove, AList.lookup_erase_ne h, h]

theorem live_remove (S : Store) (T : Int64) (k : Bytes) :
    (S.remove k).live T = (Write.del [k]).run T (S.live T) := by
  funext k'
  simp only [Write.run, live, Keyspace.live, view_remove, List.mem_singleton]
  split <;> rfl

/-- Removing an expired key changes nothing that is live. -/
theorem live_reap {S : Store} {now : Int64} {k : Bytes} (h : S.isExpired now k = true) :
    (S.reap k).live now = S.live now := by
  rw [show (S.reap k).live now = (S.remove k).live now from live_congr rfl rfl _, live_remove]
  funext k'
  simp only [Write.run, List.mem_singleton]
  split
  · rename_i hk
    subst hk
    cases hm : S.map.lookup k' with
    | none => rw [live_of_none hm]
    | some v => rw [live_of_some hm, if_pos h]
  · rfl

theorem isExpired_reap_of_ne {S : Store} {now : Int64} {k k' : Bytes} (h : k' ≠ k) :
    (S.reap k).isExpired now k' = S.isExpired now k' := by
  simp [isExpired, reap, remove, AList.lookup_erase_ne h]

theorem live_foldl_reap {now : Int64} : ∀ (dead : List Bytes) (S : Store), dead.Nodup →
    (∀ k ∈ dead, S.isExpired now k = true) → (dead.foldl reap S).live now = S.live now
  | [], _, _, _ => rfl
  | k :: dead, S, hn, h => by
    rw [List.nodup_cons] at hn
    rw [List.foldl_cons, live_foldl_reap dead _ hn.2 fun k' hk' => ?_,
      live_reap (h k List.mem_cons_self)]
    have hne : k' ≠ k := fun e => hn.1 (e ▸ hk')
    rw [isExpired_reap_of_ne hne]
    exact h k' (List.mem_cons_of_mem _ hk')

/-! ## Reading -/

theorem get_fst (S : Store) (now : Int64) (k : Bytes) :
    (S.get now k).1 = (S.live now k).map Prod.fst := by
  simp only [get]
  cases hm : S.map.lookup k with
  | none => rw [live_of_none hm]; rfl
  | some v =>
    rw [live_of_some hm]
    simp only
    split <;> rfl

theorem live_get (S : Store) (now : Int64) (k : Bytes) : (S.get now k).2.live now = S.live now := by
  simp only [get]
  split
  · rfl
  · split
    · rename_i h; exact live_reap h
    · rfl

theorem live_contains (S : Store) (now : Int64) (k : Bytes) :
    (S.contains now k).2.live now = S.live now := live_get S now k

theorem live_pttl (S : Store) (now : Int64) (k : Bytes) : (S.pttl now k).2.live now = S.live now := by
  simp only [pttl]
  split
  · rfl
  · split
    · rename_i h; exact live_reap h
    · split <;> rfl

theorem live_keys (S : Store) (now : Int64) (pattern : Bytes) :
    (S.keys now pattern).2.live now = S.live now := by
  refine live_foldl_reap _ S (S.map.keys_nodup.filter _) fun k hk => ?_
  exact (List.mem_filter.mp hk).2

/-- `pttl` is negative but for a live key with a deadline that it does not overflow on. -/
theorem pttl_fst (S : Store) (now : Int64) (k : Bytes) :
    (S.pttl now k).1 = match S.live now k with
      | none => -2
      | some (_, none) => -1
      | some (_, some d) => d - now := by
  simp only [pttl]
  cases hm : S.map.lookup k with
  | none => rw [live_of_none hm]
  | some v =>
    rw [live_of_some hm]
    simp only
    split
    · rfl
    · cases S.expires.lookup k <;> rfl

/-! ## Writing -/

/-- The deadline that `set` stores: `kNoExpiry` is none. -/
def deadline (d : Int64) : Option Int64 := if d = kNoExpiry then none else some d

theorem eq_of_deadline {d e : Int64} (h : deadline d = some e) : d = e := by
  unfold deadline at h
  split at h
  · cases h
  · exact Option.some.inj h

theorem view_set (S : Store) (k v : Bytes) (d : Int64) (k' : Bytes) :
    (S.set k v d).view k' = if k' = k then some (v, deadline d) else S.view k' := by
  by_cases h : k' = k
  · subst h
    rw [if_pos rfl, view_of_some (v := v) (by simp [set]), deadline, set]
    simp only
    split <;> simp
  · simp only [view, set, AList.lookup_insert_ne h, if_neg h]
    split
    · rw [AList.lookup_erase_ne h]
    · rw [AList.lookup_insert_ne h]

theorem live_set (S : Store) (T : Int64) (k v : Bytes) (d : Int64) :
    (S.set k v d).live T = (Write.set k v (deadline d)).run T (S.live T) := by
  funext k'
  simp only [Write.run, live, Keyspace.live, view_set]
  split
  · rw [Option.filter_some]
  · rfl

theorem erase_fst (S : Store) (now : Int64) (k : Bytes) :
    (S.erase now k).1 = (S.live now k).isSome := by
  simp only [erase]
  cases hm : S.map.lookup k with
  | none => rw [live_of_none hm]; rfl
  | some v =>
    rw [live_of_some hm]
    simp only
    split <;> rfl

theorem live_erase (S : Store) (now : Int64) (k : Bytes) :
    (S.erase now k).2.live now = (Write.del [k]).run now (S.live now) := by
  have hdead : S.live now k = none → S.live now = (Write.del [k]).run now (S.live now) := by
    intro h
    funext k'
    simp only [Write.run, List.mem_singleton]
    split
    · rename_i hk; rw [hk, h]
    · rfl
  simp only [erase]
  cases hm : S.map.lookup k with
  | none => exact hdead (live_of_none hm)
  | some v =>
    simp only
    split
    · rename_i h
      rw [live_reap h]
      exact hdead (by rw [live_of_some hm, if_pos h])
    · exact live_remove S now k

theorem expireAt_fst (S : Store) (now : Int64) (k : Bytes) (d : Int64) :
    (S.expireAt now k d).1 = (S.live now k).isSome := by
  simp only [expireAt]
  cases hm : S.map.lookup k with
  | none => rw [live_of_none hm]; rfl
  | some v =>
    rw [live_of_some hm]
    simp only
    split
    · rfl
    · split <;> rfl

/-- A key that is not live has no deadline to reset or remove. -/
theorem run_of_dead {S : Keyspace Bytes Bytes Int64} {T : Int64} {k : Bytes} (h : S k = none)
    (d : Int64) : (Write.expire k d).run T S = S ∧ (Write.persist k).run T S = S := by
  constructor <;>
  · funext k'
    simp only [Write.run]
    split
    · rename_i hk; rw [hk, h]; rfl
    · rfl

theorem live_expireAt (S : Store) (now : Int64) (k : Bytes) (d : Int64) :
    (S.expireAt now k d).2.live now = (Write.expire k d).run now (S.live now) := by
  simp only [expireAt]
  cases hm : S.map.lookup k with
  | none => exact ((run_of_dead (live_of_none hm) d).1).symm
  | some v =>
    simp only
    split
    · rename_i h
      rw [live_reap h]
      exact ((run_of_dead (by rw [live_of_some hm, if_pos h]) d).1).symm
    · rename_i h
      split
      · rename_i hd
        rw [live_remove]
        funext k'
        simp only [Write.run, List.mem_singleton, if_neg (Int64.not_lt.mpr hd)]
        split
        · cases S.live now k <;> rfl
        · rfl
      · rename_i hd
        rw [Int64.not_le] at hd
        funext k'
        simp only [Write.run]
        by_cases hk : k' = k
        · subst hk
          rw [if_pos rfl, live_of_some hm, if_neg h, live_of_some (v := v) (by exact hm),
            isExpired_eq]
          simp [hd]
        · simp only [live, Keyspace.live, view, if_neg hk]
          rw [AList.lookup_insert_ne hk]

theorem live_persist (S : Store) (now : Int64) (k : Bytes) :
    (S.persist now k).2.live now = (Write.persist k).run now (S.live now) := by
  simp only [persist]
  cases hm : S.map.lookup k with
  | none => exact ((run_of_dead (live_of_none hm) 0).2).symm
  | some v =>
    simp only
    split
    · rename_i h
      rw [live_reap h]
      exact ((run_of_dead (by rw [live_of_some hm, if_pos h]) 0).2).symm
    · rename_i h
      funext k'
      simp only [Write.run]
      by_cases hk : k' = k
      · subst hk
        rw [if_pos rfl, live_of_some hm, if_neg h, live_of_some (v := v) (by exact hm), isExpired_eq]
        simp
      · simp only [live, Keyspace.live, view, if_neg hk]
        rw [AList.lookup_erase_ne hk]

/-- `persist` applies to a live key with a deadline. -/
theorem persist_fst (S : Store) (now : Int64) (k : Bytes) :
    (S.persist now k).1 = match S.live now k with
      | some (_, some _) => true
      | _ => false := by
  simp only [persist]
  cases hm : S.map.lookup k with
  | none => rw [live_of_none hm]
  | some v =>
    rw [live_of_some hm]
    simp only
    split
    · rfl
    · cases S.expires.lookup k <;> rfl

theorem live_clear (S : Store) (T : Int64) : S.clear.live T = Write.flush.run T (S.live T) := by
  funext k
  exact live_of_none (by simp [clear])

end Store

end RP
