import RedisPlus.Store.View

/-!
# Active expiry

`active_expire_cycle` samples the index of deadlines bucket by bucket and removes what has
expired, in passes; `reap_expired` removes expired keys in the order of the index. How the hash
table lays the index out in buckets is unspecified, and an argument here.

Neither changes what is live (`live_activeExpireCycle`, `live_reapExpired`).
-/

namespace RP

open Framework (Keyspace Write)

/-- `ExpiryConfig` -/
structure ExpiryConfig where
  sampleSize : Nat := 20
  continueThresholdPct : Int32 := 25
  maxPasses : Nat := 16

namespace Store

/-- The loop of `sample_expiring`, which has `left` buckets to go. -/
def sampleLoop (buckets : List (List Bytes)) (cursor n : Nat) :
    Nat → Nat → List Bytes → List Bytes × Nat
  | 0, visited, out => (out, visited)
  | left + 1, visited, out =>
    if out.length < n then
      let bucket := buckets.getD ((cursor + visited) % buckets.length) []
      sampleLoop buckets cursor n left (visited + 1) (out ++ bucket.take (n - out.length))
    else (out, visited)

/-- `Store::sample_expiring`: some keys with deadlines, from the bucket where the last call stopped. -/
def sampleExpiring (buckets : List (List Bytes)) (n : Nat) (S : Store) : List Bytes × Store :=
  if S.expires.entries = [] ∨ n = 0 ∨ buckets.length = 0 then ([], S)
  else
    let cursor := if buckets.length ≤ S.cursor then 0 else S.cursor
    let (out, visited) := sampleLoop buckets cursor n buckets.length 0 []
    (out, { S with cursor := (cursor + visited) % buckets.length })

/-- How many dead keys in a sample are too few to go on. The percentage is cast to `size_t`. -/
def deadThreshold (cfg : ExpiryConfig) (sampled : Nat) : Nat :=
  sampled * cfg.continueThresholdPct.toInt64.toUInt64.toNat % 2 ^ 64 / 100

/-- Expired keys are removed, and counted. -/
def removeDead (dead : List Bytes) (S : Store) : Store :=
  { dead.foldl remove S with
    stats := { S.stats with expiredActive := S.stats.expiredActive + dead.length } }

/-- A pass is counted. -/
def countPass (S : Store) : Store :=
  { S with stats := { S.stats with passes := S.stats.passes + 1 } }

/-- The passes of `active_expire_cycle`. -/
def expirePasses (layout : Table Int64 → List (List Bytes)) (cfg : ExpiryConfig) (now : Int64) :
    Nat → Nat → Store → Nat × Store
  | 0, total, S => (total, S)
  | passes + 1, total, S =>
    if S.expires.entries = [] then (total, S)
    else
      let S := S.countPass
      let (sampled, S) := S.sampleExpiring (layout S.expires) cfg.sampleSize
      if sampled = [] then (total, S)
      else
        let dead := sampled.filter fun key => S.isExpired now key
        let S := S.removeDead dead
        if dead.length ≤ deadThreshold cfg sampled.length then (total + dead.length, S)
        else expirePasses layout cfg now passes (total + dead.length) S

/-- `Store::active_expire_cycle` -/
def activeExpireCycle (layout : Table Int64 → List (List Bytes)) (cfg : ExpiryConfig) (now : Int64)
    (S : Store) : Nat × Store :=
  expirePasses layout cfg now cfg.maxPasses 0
    { S with stats := { S.stats with cycles := S.stats.cycles + 1 } }

/-- The keys of the expired entries of the index. -/
def expiredKeys (S : Store) (now : Int64) : List Bytes :=
  (S.expires.entries.filter fun e => decide (e.2 ≤ now)).map Sigma.fst

/-- `Store::reap_expired`: up to `limit` of the expired keys. -/
def reapExpired (limit : Nat) (now : Int64) (S : Store) : Nat × Store :=
  let dead := (S.expiredKeys now).take limit
  (dead.length, S.removeDead dead)

/-! ## What is live -/

theorem live_of_isExpired {S : Store} {now : Int64} {k : Bytes} (h : S.isExpired now k = true) :
    S.live now k = none := by
  cases hm : S.map.lookup k with
  | none => exact live_of_none hm
  | some v => rw [live_of_some hm, if_pos h]

theorem mem_expiredKeys {S : Store} {now : Int64} {k : Bytes} :
    k ∈ S.expiredKeys now ↔ S.isExpired now k = true := by
  unfold expiredKeys isExpired
  simp only [List.mem_map, List.mem_filter, decide_eq_true_eq]
  constructor
  · rintro ⟨⟨k, d⟩, ⟨hmem, hd⟩, rfl⟩
    have hlookup : S.expires.lookup k = some d := AList.mem_lookup_iff.mpr hmem
    simp only [hlookup]
    exact decide_eq_true hd
  · intro h
    split at h
    · rename_i d hd
      exact ⟨⟨k, d⟩, ⟨AList.mem_lookup_iff.mp hd, by simpa using h⟩, rfl⟩
    · cases h

theorem live_foldl_remove (T : Int64) : ∀ (dead : List Bytes) (S : Store),
    (dead.foldl remove S).live T = (Write.del dead).run T (S.live T)
  | [], S => by
    funext k
    simp [Write.run]
  | k :: dead, S => by
    rw [List.foldl_cons, live_foldl_remove T dead, live_remove]
    funext k'
    by_cases hk : k' = k <;> by_cases hd : k' ∈ dead <;> simp [Write.run, hk, hd]

/-- Removing expired keys changes nothing that is live. -/
theorem live_removeDead {S : Store} {now : Int64} {dead : List Bytes}
    (h : ∀ k ∈ dead, S.isExpired now k = true) : (S.removeDead dead).live now = S.live now := by
  rw [show (S.removeDead dead).live now = (dead.foldl remove S).live now from live_congr rfl rfl _,
    live_foldl_remove]
  funext k
  simp only [Write.run]
  split
  · rename_i hk
    exact (live_of_isExpired (h k hk)).symm
  · rfl

theorem tables_sampleExpiring (buckets : List (List Bytes)) (n : Nat) (S : Store) :
    (S.sampleExpiring buckets n).2.map = S.map ∧ (S.sampleExpiring buckets n).2.expires = S.expires := by
  unfold sampleExpiring
  split
  · exact ⟨rfl, rfl⟩
  · exact ⟨rfl, rfl⟩

/-- A property of the tables that removing expired keys keeps holds after any number of passes. -/
theorem expirePasses_induction {layout : Table Int64 → List (List Bytes)} {cfg : ExpiryConfig}
    {now : Int64} {P : Store → Prop}
    (htables : ∀ S S' : Store, S'.map = S.map → S'.expires = S.expires → P S → P S')
    (hremove : ∀ (S : Store) (dead : List Bytes), (∀ k ∈ dead, S.isExpired now k = true) → P S →
      P (S.removeDead dead)) :
    ∀ (passes total : Nat) {S : Store}, P S → P (expirePasses layout cfg now passes total S).2
  | 0, _, _, h => h
  | passes + 1, total, S, h => by
    unfold expirePasses
    split
    · exact h
    have h₁ : P S.countPass := htables S _ rfl rfl h
    obtain ⟨hm, he⟩ := tables_sampleExpiring (layout S.countPass.expires) cfg.sampleSize S.countPass
    have h₂ := htables _ _ hm he h₁
    dsimp only
    generalize S.countPass.sampleExpiring (layout S.countPass.expires) cfg.sampleSize = r at h₂ ⊢
    split
    · exact h₂
    have h₃ := hremove r.2 (r.1.filter fun key => r.2.isExpired now key)
      (fun k hk => (List.mem_filter.mp hk).2) h₂
    split
    · exact h₃
    · exact expirePasses_induction htables hremove passes _ h₃

theorem live_activeExpireCycle (layout : Table Int64 → List (List Bytes)) (cfg : ExpiryConfig)
    (now : Int64) (S : Store) : (activeExpireCycle layout cfg now S).2.live now = S.live now := by
  refine expirePasses_induction (P := fun S' => S'.live now = S.live now) ?_ ?_ _ _ ?_
  · intro S₁ S₂ hm he h
    rw [live_congr hm he, h]
  · intro S₁ dead hdead h
    rw [live_removeDead hdead, h]
  · exact live_congr rfl rfl now

theorem live_reapExpired (limit : Nat) (now : Int64) (S : Store) :
    (reapExpired limit now S).2.live now = S.live now :=
  live_removeDead fun _ hk => mem_expiredKeys.mp (List.mem_of_mem_take hk)

end Store

end RP
