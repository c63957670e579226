import Mathlib.Data.Set.Card
import RedisPlus.Store.Index

/-!
# Snapshots, and counting keys

`kNoExpiry` stands for no deadline in the records and in the store. No store that can be reached
has it as a deadline (`Reachable.sound`), so the keys of a snapshot are those that are live
(`Sound.map_key_snapshot`). The counts that the store gives are then all the same number
(`counts_agree`). A snapshot gets no longer as time goes on, or by the removal of keys
(`snapshot_later`, `Removes.snapshot`).
-/

namespace RP

namespace Store

/-- No deadline is `kNoExpiry`. -/
def Sound (S : Store) : Prop := ∀ k, S.expires.lookup k ≠ some kNoExpiry

theorem Sound.edits {now : Int64} {S S' : Store} (hnow : 0 ≤ now) (he : Edits now S S') (h : Sound S) :
    Sound S' := by
  have herase (S : Store) (h : Sound S) (k k' : Bytes) :
      (S.expires.erase k).lookup k' ≠ some kNoExpiry := by
    by_cases hk : k' = k
    · subst hk
      simp
    · rw [AList.lookup_erase_ne hk]
      exact h k'
  have hinsert (S : Store) (h : Sound S) (k : Bytes) {d : Int64} (hd : d ≠ kNoExpiry) (k' : Bytes) :
      (S.expires.insert k d).lookup k' ≠ some kNoExpiry := by
    by_cases hk : k' = k
    · subst hk
      simpa using hd
    · rw [AList.lookup_insert_ne hk]
      exact h k'
  induction he with
  | tables _ he =>
    unfold Sound
    rw [he]
    exact h
  | remove S k => exact herase S h k
  | set S k v d =>
    unfold Sound
    simp only [Store.set]
    split
    · exact herase S h k
    · rename_i hd
      exact hinsert S h k hd
  | expire _ hd =>
    refine hinsert _ h _ ?_
    rintro rfl
    exact absurd (Int64.lt_of_le_of_lt hnow hd) (by decide)
  | persist S k => exact herase S h k
  | clear S => exact fun k => by simp [Store.clear]
  | trans _ _ ih ih' => exact ih' (ih h)

theorem Reachable.sound {S : Store} (h : Reachable S) : Sound S :=
  h.invariant (fun k => by simp) fun hnow he hs => hs.edits hnow he

/-! ## What a snapshot holds -/

theorem record_eq_some {S : Store} {now : Int64} {k v : Bytes} {r : Record}
    (h : S.record now k v = some r) : r.key = k := by
  unfold record at h
  dsimp only at h
  split at h
  · cases h
  · rw [← Option.some.inj h]

theorem nodup_snapshot (S : Store) (now : Int64) : ((S.snapshot now).map Record.key).Nodup := by
  have hsub : ∀ l : List (Sigma fun _ : Bytes => Bytes),
      ((l.filterMap fun e => S.record now e.1 e.2).map Record.key).Sublist (l.map Sigma.fst) := by
    intro l
    induction l with
    | nil => exact .slnil
    | cons e l ih =>
      rw [List.filterMap_cons, List.map_cons]
      split
      · exact ih.cons _
      · rename_i r hr
        rw [List.map_cons, record_eq_some hr]
        exact ih.cons_cons _
  exact (hsub S.map.entries).nodup S.map.keys_nodup

theorem mem_snapshot {S : Store} {now : Int64} {r : Record} :
    r ∈ S.snapshot now ↔ ∃ v, S.map.lookup r.key = some v ∧ S.record now r.key v = some r := by
  unfold snapshot
  rw [List.mem_filterMap]
  constructor
  · rintro ⟨⟨k, v⟩, hmem, hr⟩
    obtain rfl := record_eq_some hr
    exact ⟨v, AList.mem_lookup_iff.mpr hmem, hr⟩
  · rintro ⟨v, hv, hr⟩
    exact ⟨⟨r.key, v⟩, AList.mem_lookup_iff.mp hv, hr⟩

/-- A key has a record unless it has expired. -/
theorem Sound.record_eq {S : Store} (h : Sound S) (now : Int64) (k v : Bytes) :
    S.record now k v =
      if S.isExpired now k then none else some ⟨k, v, (S.expires.lookup k).getD kNoExpiry⟩ := by
  unfold record isExpired
  cases hd : S.expires.lookup k with
  | none => simp
  | some d =>
    have hne : d ≠ kNoExpiry := fun he => h k (by rw [hd, he])
    by_cases hle : d ≤ now <;> simp [hne, hle]

/-- A snapshot holds the live keys. -/
theorem Sound.map_key_snapshot {S : Store} (h : Sound S) (now : Int64) :
    (S.snapshot now).map Record.key = S.liveKeys now := by
  have hlist : ∀ l : List (Sigma fun _ : Bytes => Bytes),
      (l.filterMap fun e => S.record now e.1 e.2).map Record.key =
        (l.map Sigma.fst).filter fun k => !S.isExpired now k := by
    intro l
    induction l with
    | nil => rfl
    | cons e l ih =>
      rw [List.filterMap_cons, h.record_eq, List.map_cons]
      cases he : S.isExpired now e.1 with
      | true => rw [List.filter_cons_of_neg (by simp [he])]; exact ih
      | false => rw [List.filter_cons_of_pos (by simp [he])]; exact congrArg _ ih
  exact hlist S.map.entries

/-! ## Fewer live keys -/

theorem sublist_filterMap {α β : Type} {f g : α → Option β} :
    ∀ {l : List α}, (∀ a ∈ l, ∀ b, f a = some b → g a = some b) → (l.filterMap f).Sublist (l.filterMap g)
  | [], _ => .slnil
  | a :: l, h => by
    obtain ⟨ha, hl⟩ := List.forall_mem_cons.mp h
    rw [List.filterMap_cons, List.filterMap_cons]
    cases hf : f a with
    | none =>
      cases hg : g a with
      | none => exact sublist_filterMap hl
      | some b => exact (sublist_filterMap hl).cons _
    | some b =>
      rw [ha b hf]
      exact (sublist_filterMap hl).cons_cons b

/-- As time goes on, keys expire. -/
theorem snapshot_later (S : Store) {t t' : Int64} (h : t ≤ t') :
    (S.snapshot t').length ≤ (S.snapshot t).length := by
  refine (sublist_filterMap fun e _ r hr => ?_).length_le
  unfold record at hr ⊢
  dsimp only at hr ⊢
  split at hr
  · cases hr
  · rename_i hlive
    rw [if_neg fun hdead => hlive ⟨hdead.1, Int64.le_trans hdead.2 h⟩]
    exact hr

theorem snapshot_remove (S : Store) (k : Bytes) (t : Int64) :
    ((S.remove k).snapshot t).length ≤ (S.snapshot t).length := by
  have hsub : (S.remove k).map.entries.Sublist S.map.entries := List.kerase_sublist k S.map.entries
  have hlen := (hsub.filterMap fun e => S.record t e.1 e.2).length_le
  refine Nat.le_trans (sublist_filterMap fun e he r hr => ?_).length_le hlen
  -- The other keys keep their deadlines.
  have hne : e.1 ≠ k := by
    have hmem : e.1 ∈ S.map.erase k := List.mem_keys_of_mem he
    exact (AList.mem_erase.mp hmem).1
  simp only [record, remove, AList.lookup_erase_ne hne] at hr
  exact hr

/-- Without some keys, there are no more that are live. -/
theorem Removes.snapshot {S S' : Store} (h : Removes S S') (t : Int64) :
    (S'.snapshot t).length ≤ (S.snapshot t).length := by
  induction h with
  | tables hm he =>
    simp only [Store.snapshot, record, hm, he]
    exact Nat.le_refl _
  | remove S k => exact snapshot_remove S k t
  | trans _ _ ih ih' => exact Nat.le_trans ih' ih

/-! ## The counts -/

theorem keys_star (S : Store) (now : Int64) : (S.keys now (str "*")).1 = S.liveKeys now := by
  rw [keys_fst]
  exact List.filter_eq_self.mpr fun k _ => globMatch_star k

/-- The keys that `get` finds are the live ones. -/
theorem setOf_get (S : Store) (now : Int64) :
    {k | (S.get now k).1.isSome = true} = (S.liveKeys now).toFinset := by
  ext k
  rw [Set.mem_ofPred_eq, get_fst, Finset.mem_coe, List.mem_toFinset, mem_liveKeys, Option.isSome_map]

/-- No operation leaves a deadline without its key, so what `size` subtracts is no more than there
is. At any time, the keys that `get` finds are as many as `KEYS *` lists and a snapshot holds, each
of them once, and `size` is their number as a `size_t`. -/
theorem counts_agree {S : Store} (h : S.Reachable) (now : Int64) :
    (∀ k ∈ S.expires, k ∈ S.map) ∧
    (S.expires.entries.filter fun e => decide (e.2 ≤ now)).length ≤ S.map.entries.length ∧
    S.size now = (S.keys now (str "*")).1.length % 2 ^ 64 ∧
    (S.map.entries.length < 2 ^ 64 → S.size now = (S.keys now (str "*")).1.length) ∧
    (S.snapshot now).length = (S.keys now (str "*")).1.length ∧
    {k | (S.get now k).1.isSome = true}.ncard = (S.keys now (str "*")).1.length ∧
    {k | (S.get now k).1.isSome = true}.Finite ∧
    (S.keys now (str "*")).1.Nodup ∧
    ((S.snapshot now).map Record.key).Nodup := by
  have hindexed : Indexed S := h.invariant indexed_empty fun _ he hi => hi.edits he
  have hsize := hindexed.size_eq now
  have hexpired : (S.expiredKeys now).length =
      (S.expires.entries.filter fun e => decide (e.2 ≤ now)).length := List.length_map _
  have hkeys : S.map.keys.length = S.map.entries.length := List.length_map _
  have hdead := (hindexed.expiredKeys_perm now).length_eq
  have hlive : (S.liveKeys now).length ≤ S.map.keys.length := List.length_filter_le ..
  have hcount : (S.snapshot now).length = (S.liveKeys now).length := by
    rw [← h.sound.map_key_snapshot now, List.length_map]
  rw [keys_star, setOf_get, Set.ncard_coe_finset, List.toFinset_card_of_nodup (nodup_liveKeys S now)]
  refine ⟨hindexed, ?_, hsize, fun hlt => ?_, hcount, rfl, Finset.finite_toSet _, nodup_liveKeys S now,
    nodup_snapshot S now⟩
  · rw [← hexpired, hdead, ← hkeys]
    exact List.length_filter_le ..
  · rw [hsize, Nat.mod_eq_of_lt (by omega)]

/-- A key with a deadline, and one without. -/
def twoSet : Store := Operation.run 5 (Operation.run 0 {} (.set (str "k") (str "v") 100))
  (.set (str "j") (str "w") kNoExpiry)

theorem counts_agree_twoSet : twoSet.size 50 = 2 ∧ {k | (twoSet.get 50 k).1.isSome = true}.ncard = 2 ∧
    twoSet.size 100 = 1 ∧ {k | (twoSet.get 100 k).1.isSome = true}.ncard = 1 := by
  have hreach : twoSet.Reachable := .step (.step .empty (by decide) _) (by decide) _
  have hbefore := counts_agree hreach 50
  have hafter := counts_agree hreach 100
  rw [show (twoSet.keys 50 (str "*")).1.length = 2 by decide] at hbefore
  rw [show (twoSet.keys 100 (str "*")).1.length = 1 by decide] at hafter
  exact ⟨hbefore.2.2.1, hbefore.2.2.2.2.2.1, hafter.2.2.1, hafter.2.2.2.2.2.1⟩

end Store

end RP
