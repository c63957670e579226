import RedisPlus.Persistence.Basic
import RedisPlus.Rdb.RoundTrip
import RedisPlus.Store.Snapshot

/-!
# Restoring a snapshot

A snapshot is read back into a store that was cleared: by a replica that resynchronises
(`resyncTask`), and at boot, where the store is empty to start with. `kNoExpiry` stands for no
deadline in the records, in the payload and in the store. No store that can be reached has it as
a deadline (`Reachable.sound`), so the restored keys are those that are live by then, with their
deadlines (`view_resyncTask`, `snapshot_restores`).
-/

namespace RP

open Framework (Keyspace)

namespace Store

/-! ## Loading records -/

theorem view_loadRecord (S : Store) (now : Int64) (r : Record) (k : Bytes) :
    (S.loadRecord now r).view k =
      if k = r.key ∧ ¬ (r.expireAt ≠ kNoExpiry ∧ r.expireAt ≤ now) then some (r.value, deadline r.expireAt)
      else S.view k := by
  unfold loadRecord
  by_cases hdead : r.expireAt ≠ kNoExpiry ∧ r.expireAt ≤ now
  · rw [if_pos hdead, if_neg fun h => h.2 hdead]
  · rw [if_neg hdead, view_set]
    simp only [hdead, not_false_eq_true, and_true]

theorem view_foldl_loadRecord_of_not_mem {now : Int64} {k : Bytes} : ∀ (rs : List Record) (S : Store),
    k ∉ rs.map Record.key → (rs.foldl (fun S r => S.loadRecord now r) S).view k = S.view k
  | [], _, _ => rfl
  | r :: rs, S, h => by
    rw [List.map_cons, List.mem_cons, not_or] at h
    rw [List.foldl_cons, view_foldl_loadRecord_of_not_mem rs _ h.2, view_loadRecord, if_neg fun hk => h.1 hk.1]

theorem view_foldl_loadRecord_of_mem {now : Int64} {r : Record} : ∀ (rs : List Record) (S : Store),
    (rs.map Record.key).Nodup → r ∈ rs →
    (rs.foldl (fun S r => S.loadRecord now r) S).view r.key = (S.loadRecord now r).view r.key
  | r' :: rs, S, hn, h => by
    rw [List.map_cons, List.nodup_cons] at hn
    rw [List.foldl_cons]
    rcases List.mem_cons.mp h with rfl | hr
    · exact view_foldl_loadRecord_of_not_mem rs _ hn.1
    · have hne : r.key ≠ r'.key := fun he => hn.1 (he ▸ List.mem_map_of_mem hr)
      have hother : (S.loadRecord now r').view r.key = S.view r.key := by
        rw [view_loadRecord, if_neg fun hk => hne hk.1]
      rw [view_foldl_loadRecord_of_mem rs _ hn.2 hr, view_loadRecord _ now r, view_loadRecord S now r, hother]

theorem view_foldl_loadRecord_congr (now : Int64) : ∀ (rs : List Record) {S S' : Store}, S.view = S'.view →
    (rs.foldl (fun S r => S.loadRecord now r) S).view = (rs.foldl (fun S r => S.loadRecord now r) S').view
  | [], _, _, h => h
  | r :: rs, S, S', h => by
    refine view_foldl_loadRecord_congr now rs ?_
    funext k
    rw [view_loadRecord, view_loadRecord, h]

end Store

/-- The task that the replica thread posts after it has parsed a snapshot. -/
def resyncTask (now : Int64) (records : List Record) (S : Store) : Store :=
  records.foldl (fun S r => S.loadRecord now r) S.clear

/-- What it leaves has nothing of what was there. -/
theorem view_resyncTask_congr (now : Int64) (records : List Record) (S S' : Store) :
    (resyncTask now records S).view = (resyncTask now records S').view :=
  Store.view_foldl_loadRecord_congr now records rfl

/-- A cleared store then has what is live in `S` by now, and nothing else. -/
theorem view_resyncTask {S : Store} (hS : S.Sound) {t t' : Int64} (htt : t ≤ t') (R : Store) :
    (resyncTask t' (S.snapshot t) R).view = S.live t' := by
  funext k
  have hclear : R.clear.view k = none := Store.view_of_none (by simp [Store.clear])
  -- a key that has no record
  have hgone (h : ∀ r ∈ S.snapshot t, r.key ≠ k) : (resyncTask t' (S.snapshot t) R).view k = none := by
    refine (Store.view_foldl_loadRecord_of_not_mem _ _ fun hmem => ?_).trans hclear
    obtain ⟨r, hr, hk⟩ := List.mem_map.mp hmem
    exact h r hr hk
  cases hm : S.map.lookup k with
  | none =>
    rw [Store.live_of_none hm]
    refine hgone fun r hr hk => ?_
    obtain ⟨v, hv, -⟩ := Store.mem_snapshot.mp hr
    rw [hk, hm] at hv
    cases hv
  | some v =>
    -- a key whose record is `r`
    have hkept {d : Int64} (h : S.record t k v = some ⟨k, v, d⟩) :
        (resyncTask t' (S.snapshot t) R).view k =
          if ¬ (d ≠ kNoExpiry ∧ d ≤ t') then some (v, Store.deadline d) else none := by
      have hr : ⟨k, v, d⟩ ∈ S.snapshot t := Store.mem_snapshot.mpr ⟨v, hm, h⟩
      refine (Store.view_foldl_loadRecord_of_mem _ _ (Store.nodup_snapshot S t) hr).trans ?_
      rw [Store.view_loadRecord, hclear]
      simp only [true_and]
    rw [Store.live_of_some hm, Store.isExpired]
    cases he : S.expires.lookup k with
    | none =>
      rw [hkept (d := kNoExpiry) (by simp [Store.record, he])]
      simp [Store.deadline]
    | some d =>
      have hd : d ≠ kNoExpiry := fun hd => hS k (by rw [he, hd])
      by_cases ht : d ≤ t
      · rw [hgone fun r hr hk => ?_, if_pos (by simpa using Int64.le_trans ht htt)]
        obtain ⟨v', -, hrec⟩ := Store.mem_snapshot.mp hr
        rw [hk] at hrec
        simp [Store.record, he, hd, ht] at hrec
      · rw [hkept (d := d) (by simp [Store.record, he, hd, ht])]
        by_cases ht' : d ≤ t'
        · simp [hd, ht']
        · simp [hd, ht', Store.deadline]

/-- At boot the records go into an empty store. -/
theorem load_eq_resyncTask {π ρ : Type} (table : CommandTable π ρ) (amb : Ambient) (rounds room : Nat)
    (opens : Bool) {payload : Bytes} (hne : payload ≠ []) {rs : List Record}
    (hparse : rdbParse rounds payload = some ⟨.ok (), rs⟩) {p : Persistence}
    (haof : p.config.aofEnabled = false) (hrdb : p.config.rdbEnabled = true) {N : Node π ρ}
    (hN : N.store = {}) :
    p.load table amb rounds room opens (some payload) N =
      some { result := .ok (), pers := p, node := { N with store := resyncTask amb.now rs {} } } := by
  unfold Persistence.load
  rw [if_neg (by simp [haof]), if_neg (by simp [hrdb]), Persistence.rdbLoadFile, if_neg hne, hparse, hN]
  rfl

/-- `R` has what is live in `S` at `t'`, with its deadlines, and nothing else. -/
structure Restored (t' : Int64) (S R : Store) : Prop where
  live : R.live t' = S.live t'
  only : ∀ k ∈ R.map, (S.live t' k).isSome = true
  deadlines : ∀ k d, R.expires.lookup k = some d → ∃ v, S.live t' k = some (v, some d)

theorem restored_resyncTask {S : Store} (hS : S.Sound) {t t' : Int64} (htt : t ≤ t') (R : Store) :
    Restored t' S (resyncTask t' (S.snapshot t) R) := by
  have hview := view_resyncTask hS htt R
  have hindexed : (resyncTask t' (S.snapshot t) R).Indexed :=
    Store.Indexed.edits (fun _ hk => hk) (.foldl (Store.Edits.loadRecord t') (S.snapshot t) R.clear)
  refine ⟨?_, fun k hk => ?_, fun k d hd => ?_⟩
  · rw [Store.live, hview, Store.live, Keyspace.live_live (Int64.le_refl t')]
  · obtain ⟨v, hv⟩ := Option.isSome_iff_exists.mp (AList.lookup_isSome.mpr hk)
    rw [← hview, Store.view_of_some hv]
    rfl
  · have hk := hindexed k (AList.lookup_isSome.mp (by rw [hd]; rfl))
    obtain ⟨v, hv⟩ := Option.isSome_iff_exists.mp (AList.lookup_isSome.mpr hk)
    exact ⟨v, by rw [← hview, Store.view_of_some hv, hd]⟩

/-- A snapshot of a store that can be reached is taken at `t`, serialized, parsed, and loaded at
`t'` into a store that was cleared, or at boot. The store then has what would be live in the
first one by `t'`, with the same deadlines, and nothing else. -/
theorem snapshot_restores {π ρ : Type} (table : CommandTable π ρ) {S : Store} (hS : S.Reachable)
    {t t' : Int64} (htt : t ≤ t') (hsize : (rdbSerialize (S.snapshot t)).length < 2 ^ 64) :
    ∃ rs enough, (∀ rounds ≥ enough,
        rdbParse rounds (rdbSerialize (S.snapshot t)) = some ⟨.ok (), rs⟩) ∧
      (∀ R : Store, Restored t' S (resyncTask t' rs R)) ∧
      ∀ rounds ≥ enough, ∀ (room : Nat) (opens : Bool) (info : Bytes) (p : Persistence) (N : Node π ρ),
        p.config.aofEnabled = false → p.config.rdbEnabled = true → N.store = {} →
        ∃ R, p.load table ⟨t', info⟩ rounds room opens (some (rdbSerialize (S.snapshot t))) N =
            some { result := .ok (), pers := p, node := { N with store := R } } ∧ Restored t' S R := by
  refine ⟨S.snapshot t, 2 * (S.snapshot t).length + 4, ?_, ?_, ?_⟩
  · exact fun rounds hr => rdbParse_rdbSerialize hsize hr
  · exact restored_resyncTask hS.sound htt
  · intro rounds hr room opens info p N haof hrdb hN
    exact ⟨_, load_eq_resyncTask table ⟨t', info⟩ rounds room opens (rdbSerialize_ne_nil _)
      (rdbParse_rdbSerialize hsize hr) haof hrdb hN, restored_resyncTask hS.sound htt {}⟩

/-- A key that is gone at 100, and one that stays. -/
def twoKeys : Store :=
  Store.Operation.run 0 (Store.Operation.run 0 {} (.set (str "k") (str "v") 100))
    (.set (str "j") (str "w") kNoExpiry)

theorem snapshot_restores_two :
    ∃ rs enough, (∀ rounds ≥ enough,
        rdbParse rounds (rdbSerialize (twoKeys.snapshot 0)) = some ⟨.ok (), rs⟩) ∧
      (twoKeys.snapshot 0).length = 2 ∧ Restored 150 twoKeys (resyncTask 150 rs {}) := by
  have hreach : twoKeys.Reachable := .step (.step .empty (by decide) _) (by decide) _
  obtain ⟨rs, enough, hparse, hresync, -⟩ :=
    snapshot_restores ({} : CommandTable Unit Unit) hreach (show (0 : Int64) ≤ 150 by decide)
      (by rw [length_rdbSerialize]; decide)
  exact ⟨rs, enough, hparse, by decide, hresync {}⟩

end RP
