import RedisPlus.Command.Canonical
import RedisPlus.Persistence.Recovery
import RedisPlus.Persistence.Restore

/-!
# A rewritten log and a snapshot

Both are made from the records of a store. The log has a SET for each of them, with its deadline in
decimal, and goes through the parser and the options of SET when it is read back; the snapshot goes through
`rdb_parse` and `load_record`. At the time it is read a record may be dead: SET then gives the key a
deadline that is over, where `load_record` skips the record. Either way the key is not live, as no other
record has it (`live_replayed`). So the two stand for the same keyspace (`rewrite_agrees_with_snapshot`).
-/

namespace RP

open Framework (Keyspace Write)

namespace Aof

theorem rewritten_eq_encs (records : List Record) :
    rewritten records = encs (records.map fun r => setCanonical r.key r.value r.expireAt) := by
  rw [rewritten, encs, Framework.Code.encs, List.flatMap_map]
  rfl

theorem data_open {a a' : Aof} (hclosed : a.isOpen = false) {d : Bytes} (hd : a.data = some d) {room : Nat}
    {opens : Bool} {path : Bytes} {policy : FsyncPolicy}
    (h : a.open room opens path policy = (.ok (), a')) : a'.data = some d := by
  have hclose : a.close room = a := if_neg (by simp [hclosed])
  rw [Aof.open, hclose] at h
  split at h
  · obtain rfl := (Prod.mk.inj h).2
    exact congrArg (fun data => some (data.getD [])) hd
  · cases h

/-- A rewrite that succeeds leaves the new log. -/
theorem data_rewrite {a a' : Aof} {room : Nat} {io : RewriteIo} {path : Bytes} {records : List Record}
    (h : a.rewrite room io path records = (.ok (), a')) : a'.data = some (rewritten records) := by
  unfold rewrite at h
  split at h
  · cases h
  split at h
  · cases h
  dsimp only at h
  split at h
  · cases h
  split at h
  · exact data_open (by exact isOpen_close room a) rfl h
  · obtain rfl := (Prod.mk.inj h).2
    rfl

end Aof

/-- The write that a record stands for. -/
def Record.write (r : Record) : Write Bytes Bytes Int64 := .set r.key r.value (Store.deadline r.expireAt)

/-- Loading a record is that write, if the key is not there yet. -/
theorem Store.live_loadRecord {S : Store} {now : Int64} {r : Record} (h : S.live now r.key = none) :
    (S.loadRecord now r).live now = r.write.run now (S.live now) := by
  unfold loadRecord
  by_cases hdead : r.expireAt ≠ kNoExpiry ∧ r.expireAt ≤ now
  · rw [if_pos hdead]
    funext k
    by_cases hk : k = r.key
    · simp [Record.write, Write.run, Store.deadline, hk, h, hdead.1, Int64.not_lt.mpr hdead.2]
    · exact (Write.run_frame (w := r.write) hk).symm
  · rw [if_neg hdead, live_set]
    rfl

section

variable {π ρ : Type} (table : CommandTable π ρ) (amb : Ambient)

/-- The records of a list, each of another key, replayed and loaded. -/
theorem live_replayed : ∀ (rs : List Record) (N : Node π ρ) (S : Store),
    (rs.map Record.key).Nodup → (∀ r ∈ rs, r.expireAt ≠ Int64.minValue) →
    (∀ r ∈ rs, S.live amb.now r.key = none) → N.store.live amb.now = S.live amb.now →
    ((rs.map fun r => setCanonical r.key r.value r.expireAt).foldl
        (fun N args => applySilently table amb args N) N).store.live amb.now =
      (rs.foldl (fun S r => S.loadRecord amb.now r) S).live amb.now
  | [], _, _, _, _, _, h => h
  | r :: rs, N, S, hkeys, hdeadlines, hfresh, h => by
    rw [List.map_cons, List.nodup_cons] at hkeys
    obtain ⟨hd, hdeadlines⟩ := List.forall_mem_cons.mp hdeadlines
    obtain ⟨hr, hfresh⟩ := List.forall_mem_cons.mp hfresh
    have hload := Store.live_loadRecord hr
    rw [List.map_cons, List.foldl_cons, List.foldl_cons]
    refine live_replayed rs _ _ hkeys.2 hdeadlines (fun r' hr' => ?_) ?_
    · have hne : r'.key ≠ r.key := fun he => hkeys.1 (he ▸ List.mem_map_of_mem hr')
      rw [hload, Write.run_frame (w := r.write) hne]
      exact hfresh r' hr'
    · rw [hload, applySilently_canonical table (.set r.key r.value r.expireAt) (readable hd) amb N, h,
        Record.write]

end

/-- What a record holds: the value, and a deadline that lies ahead, or none. -/
theorem Store.record_cases {S : Store} {now : Int64} {k v : Bytes} {r : Record}
    (h : S.record now k v = some r) : v = r.value ∧ ¬ (r.expireAt ≠ kNoExpiry ∧ r.expireAt ≤ now) := by
  unfold record at h
  dsimp only at h
  split at h
  · cases h
  · rename_i hlive
    rw [← Option.some.inj h]
    exact ⟨rfl, hlive⟩

theorem Store.snapshot_deadline {S : Store} {t : Int64} {r : Record} (h : r ∈ S.snapshot t) :
    r.expireAt ≠ Int64.minValue := by
  obtain ⟨v, -, hr⟩ := mem_snapshot.mp h
  intro hmin
  refine (record_cases hr).2 ⟨?_, ?_⟩
  · rw [hmin]
    decide
  · rw [hmin]
    exact Int64.minValue_le t

/-- The log that a rewrite makes of a store at `t`, and the snapshot of the store at that time, both read
back at `t'`: the replay applies a command for each record, and what is live then is what is live after
the records of the snapshot are loaded. -/
theorem rewrite_agrees_with_snapshot {π ρ : Type} (table : CommandTable π ρ) {S : Store} {t t' : Int64}
    (hlimit : ∀ k v, S.map.lookup k = some v → k.length ≤ kMaxBulkLength ∧ v.length ≤ kMaxBulkLength)
    (hsize : (rdbSerialize (S.snapshot t)).length < 2 ^ 64) {a a' : Aof} {room : Nat} {io : Aof.RewriteIo}
    {path : Bytes} (hrewrite : a.rewrite room io path (S.snapshot t) = (.ok (), a'))
    (config : PersistenceConfig) (info : Bytes) {N : Node π ρ} (hN : N.store = {}) :
    ∃ L, Persistence.loadAof table ⟨t', info⟩ room true (.boot config a'.data) N = L ∧ L.result = .ok () ∧
      L.applied.length = (S.snapshot t).length ∧
      ∃ rs enough, (∀ rounds ≥ enough,
          rdbParse rounds (rdbSerialize (S.snapshot t)) = some ⟨.ok (), rs⟩) ∧
        L.node.store.live t' = (rs.foldl (fun R r => R.loadRecord t' r) ({} : Store)).live t' := by
  have hloggable : ∀ args ∈ (S.snapshot t).map fun r => setCanonical r.key r.value r.expireAt,
      Loggable args := by
    intro args hargs
    obtain ⟨r, hr, rfl⟩ := List.mem_map.mp hargs
    obtain ⟨v, hv, hrec⟩ := Store.mem_snapshot.mp hr
    obtain ⟨hk, hv⟩ := hlimit r.key v hv
    rw [(Store.record_cases hrec).1] at hv
    exact ⟨within_setCanonical hk hv _, (Canonical.set r.key r.value r.expireAt).ne_nil⟩
  obtain ⟨hresult, happlied⟩ := Persistence.loadAof_encs table ⟨t', info⟩ hloggable config room N
  rw [Aof.data_rewrite hrewrite, Aof.rewritten_eq_encs]
  refine ⟨_, rfl, hresult, ?_, S.snapshot t, _, fun rounds hr => rdbParse_rdbSerialize hsize hr, ?_⟩
  · rw [happlied, List.length_map]
  · rw [Persistence.node_loadAof, happlied]
    refine live_replayed table ⟨t', info⟩ _ N {} (Store.nodup_snapshot S t)
      (fun r hr => Store.snapshot_deadline hr) (fun r _ => rfl) ?_
    rw [hN]

/-- A key whose deadline is over when the two are read back, and one that stays. -/
theorem rewrite_agrees_two :
    ∃ L, Persistence.loadAof ({} : CommandTable Unit Unit) ⟨150, []⟩ 0 true
        (.boot {} (({} : Aof).rewrite 0 {} [] (twoKeys.snapshot 0)).2.data) bareNode = L ∧
      L.result = .ok () ∧ L.applied.length = 2 ∧
      ∃ rs enough, (∀ rounds ≥ enough,
          rdbParse rounds (rdbSerialize (twoKeys.snapshot 0)) = some ⟨.ok (), rs⟩) ∧
        L.node.store.live 150 = (rs.foldl (fun R r => R.loadRecord 150 r) ({} : Store)).live 150 := by
  have hlimit : ∀ k v, twoKeys.map.lookup k = some v →
      k.length ≤ kMaxBulkLength ∧ v.length ≤ kMaxBulkLength := by
    intro k v hv
    have hmem : ∀ e ∈ twoKeys.map.entries, e.1.length ≤ kMaxBulkLength ∧ e.2.length ≤ kMaxBulkLength := by
      decide
    exact hmem ⟨k, v⟩ (AList.mem_lookup_iff.mp hv)
  have hrewrite : ({} : Aof).rewrite 0 {} [] (twoKeys.snapshot 0) = (.ok (), _) := rfl
  exact rewrite_agrees_with_snapshot ({} : CommandTable Unit Unit) hlimit
    (by rw [length_rdbSerialize]; decide) hrewrite {} [] rfl

end RP
