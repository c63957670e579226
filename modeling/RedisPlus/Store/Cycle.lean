import RedisPlus.Framework.Sweep
import RedisPlus.Store.Index

/-!
# The active expiry cycle, and what it samples

A sample is a window of `Framework.Sweep` over the buckets of the index (`sampleLoop_eq`). So it has no key
twice, whatever the layout and the cursor, and what is dead in it is removed and counted once: `Reaps` says
what a pass does, and composes. `cycle_honest` says it of a whole cycle, in which every pass reads the
clock again.

The cursor goes past a bucket that a sample was cut short in. So calls one after the other do return every
key of the index exactly if their windows get to the end of every bucket at least once (`sampled_iff`),
which small buckets or a large sample make sure of (`sampled_of_small`). Else a key may never be looked at
(`starved_key`).
-/

namespace RP

open Framework (reach window next starts Sweeps)

namespace Store

/-! ## One sample -/

/-- The buckets that `buckets` has from the cursor on, but for those that the loop has visited. -/
theorem sampleLoop_eq {buckets : List (List Bytes)} {cursor n : Nat} :
    ∀ {rest : List (List Bytes)} {visited : Nat} (out : List Bytes),
    (buckets.rotate cursor).drop visited = rest →
    sampleLoop buckets cursor n rest.length visited out =
      (out ++ rest.flatten.take (n - out.length),
        visited + reach (n - out.length) (rest.map List.length))
  | [], visited, out, _ => by simp [sampleLoop, reach]
  | b :: rest, visited, out, h => by
    have hlt : visited < (buckets.rotate cursor).length := by
      by_contra hge
      rw [List.drop_eq_nil_of_le (Nat.not_lt.mp hge)] at h
      cases h
    obtain ⟨hb, hrest⟩ := List.cons.inj ((List.drop_eq_getElem_cons hlt).symm.trans h)
    have hbucket : buckets.getD ((cursor + visited) % buckets.length) [] = b := by
      rw [List.length_rotate] at hlt
      rw [List.getElem_rotate, Nat.add_comm] at hb
      rw [List.getD_eq_getElem?_getD, List.getElem?_eq_getElem (Nat.mod_lt _ (Nat.zero_lt_of_lt hlt)),
        Option.getD_some, hb]
    rw [List.length_cons, sampleLoop]
    split
    · rename_i hroom
      have htaken : n - (out ++ b.take (n - out.length)).length = n - out.length - b.length := by
        rw [List.length_append, List.length_take]
        omega
      dsimp only
      rw [hbucket, sampleLoop_eq _ hrest, htaken, List.flatten_cons, List.take_append, List.map_cons,
        Framework.reach_cons (by omega), List.append_assoc]
      congr 1
      omega
    · rename_i hfull
      rw [Nat.sub_eq_zero_of_le (Nat.not_lt.mp hfull)]
      simp

/-- Where the next sample starts. -/
def sampleStart (buckets : List (List Bytes)) (S : Store) : Nat :=
  if buckets.length ≤ S.cursor then 0 else S.cursor

theorem sampleStart_lt {buckets : List (List Bytes)} (h : 0 < buckets.length) (S : Store) :
    S.sampleStart buckets < buckets.length := by
  unfold sampleStart
  split
  · exact h
  · omega

theorem sampleExpiring_eq {buckets : List (List Bytes)} {n : Nat} {S : Store}
    (hexp : S.expires.entries ≠ []) (hn : n ≠ 0) (hb : buckets.length ≠ 0) :
    S.sampleExpiring buckets n = (window n (S.sampleStart buckets) buckets,
      { S with cursor := next n (buckets.map List.length) (S.sampleStart buckets) }) := by
  have hloop := @sampleLoop_eq buckets (S.sampleStart buckets) n _ 0 [] (List.drop_zero)
  rw [List.length_rotate] at hloop
  have hstart : (if buckets.length ≤ S.cursor then 0 else S.cursor) = S.sampleStart buckets := rfl
  rw [sampleExpiring, if_neg (by simp [hexp, hn, hb])]
  simp only [hstart, hloop, List.nil_append, List.length_nil, Nat.sub_zero, Nat.zero_add, window, next,
    List.length_map, List.map_rotate]

/-- A layout of the index in buckets. -/
def Layout (buckets : List (List Bytes)) (T : Table Int64) : Prop := buckets.flatten.Perm T.keys

theorem Layout.nodup {buckets : List (List Bytes)} {T : Table Int64} (h : Layout buckets T) :
    buckets.flatten.Nodup := h.nodup_iff.mpr T.keys_nodup

theorem nodup_window {buckets : List (List Bytes)} {T : Table Int64} (h : Layout buckets T) (n c : Nat) :
    (window n c buckets).Nodup := by
  have hflat : (buckets.rotate c).flatten.Nodup :=
    (List.Perm.flatten (buckets.rotate_perm c)).nodup_iff.mpr h.nodup
  exact (List.take_sublist _ _).nodup hflat

/-- A sample has no more keys than asked for, and none twice. -/
theorem sampleExpiring_bounds {buckets : List (List Bytes)} {S : Store} (h : Layout buckets S.expires)
    (n : Nat) : (S.sampleExpiring buckets n).1.length ≤ n ∧ (S.sampleExpiring buckets n).1.Nodup := by
  by_cases hnone : S.expires.entries = [] ∨ n = 0 ∨ buckets.length = 0
  · rw [sampleExpiring, if_pos hnone]
    exact ⟨Nat.zero_le n, List.nodup_nil⟩
  · rw [not_or, not_or] at hnone
    rw [sampleExpiring_eq hnone.1 hnone.2.1 hnone.2.2]
    exact ⟨List.length_take_le _ _, nodup_window h n _⟩

theorem stats_sampleExpiring (buckets : List (List Bytes)) (n : Nat) (S : Store) :
    (S.sampleExpiring buckets n).2.stats = S.stats := by
  unfold sampleExpiring
  split
  · rfl
  · rfl

/-! ## A cycle that reads the clock in every pass -/

/-- The passes of `active_expire_cycle`: `clock` is what the clock reads in each of them. -/
def expirePassesAt (layout : Table Int64 → List (List Bytes)) (cfg : ExpiryConfig) :
    (Nat → Int64) → Nat → Nat → Store → Nat × Store
  | _, 0, total, S => (total, S)
  | clock, passes + 1, total, S =>
    if S.expires.entries = [] then (total, S)
    else
      let S := S.countPass
      let (sampled, S) := S.sampleExpiring (layout S.expires) cfg.sampleSize
      if sampled = [] then (total, S)
      else
        let dead := sampled.filter fun key => S.isExpired (clock 0) key
        let S := S.removeDead dead
        if dead.length ≤ deadThreshold cfg sampled.length then (total + dead.length, S)
        else expirePassesAt layout cfg (fun i => clock (i + 1)) passes (total + dead.length) S

/-- `Store::active_expire_cycle`, where each pass reads the clock. -/
def activeExpireCycleAt (layout : Table Int64 → List (List Bytes)) (cfg : ExpiryConfig)
    (clock : Nat → Int64) (S : Store) : Nat × Store :=
  expirePassesAt layout cfg clock cfg.maxPasses 0
    { S with stats := { S.stats with cycles := S.stats.cycles + 1 } }

/-- While the clock stands still, this is the cycle at that time. -/
theorem expirePassesAt_const (layout : Table Int64 → List (List Bytes)) (cfg : ExpiryConfig) (now : Int64) :
    ∀ (passes total : Nat) (S : Store),
      expirePassesAt layout cfg (fun _ => now) passes total S = expirePasses layout cfg now passes total S
  | 0, _, _ => rfl
  | passes + 1, total, S => by
    rw [expirePassesAt, expirePasses]
    simp only [expirePassesAt_const layout cfg now passes]

theorem activeExpireCycleAt_const (layout : Table Int64 → List (List Bytes)) (cfg : ExpiryConfig)
    (now : Int64) (S : Store) :
    activeExpireCycleAt layout cfg (fun _ => now) S = activeExpireCycle layout cfg now S :=
  expirePassesAt_const layout cfg now _ _ _

/-! ## What is removed -/

/-- `S'` is `S` without `n` keys, each with a deadline that is over by some time of `times`. -/
structure Reaps (times : Int64 → Prop) (n : Nat) (S S' : Store) : Prop where
  keys : ∀ k, S'.map.lookup k = S.map.lookup k ∧ S'.expires.lookup k = S.expires.lookup k ∨
    (∃ now, times now ∧ S.isExpired now k = true) ∧ S'.map.lookup k = none ∧ S'.expires.lookup k = none
  size : S'.rawSize + n = S.rawSize
  active : S'.stats.expiredActive = S.stats.expiredActive + n

theorem isExpired_congr {S S' : Store} {k : Bytes} (h : S'.expires.lookup k = S.expires.lookup k)
    (now : Int64) : S'.isExpired now k = S.isExpired now k := by
  unfold isExpired
  rw [h]

theorem Reaps.trans {times times' : Int64 → Prop} {m n : Nat} {S S' S'' : Store} (h : Reaps times m S S')
    (h' : Reaps times' n S' S'') : Reaps (fun now => times now ∨ times' now) (m + n) S S'' := by
  refine ⟨fun k => ?_, ?_, ?_⟩
  · rcases h.keys k with ⟨hm, he⟩ | ⟨⟨now, ht, hexp⟩, hm, he⟩
    · rcases h'.keys k with ⟨hm', he'⟩ | ⟨⟨now, ht, hexp⟩, hgone⟩
      · exact .inl ⟨hm'.trans hm, he'.trans he⟩
      · exact .inr ⟨⟨now, .inr ht, (isExpired_congr he now).symm.trans hexp⟩, hgone⟩
    · refine .inr ⟨⟨now, .inl ht, hexp⟩, ?_⟩
      rcases h'.keys k with ⟨hm', he'⟩ | ⟨-, hgone⟩
      · exact ⟨hm'.trans hm, he'.trans he⟩
      · exact hgone
  · have := h.size
    have := h'.size
    omega
  · have := h.active
    have := h'.active
    omega

theorem reaps_tables {times : Int64 → Prop} {S S' : Store} (hm : S'.map = S.map)
    (he : S'.expires = S.expires) (hstats : S'.stats.expiredActive = S.stats.expiredActive) :
    Reaps times 0 S S' := by
  refine ⟨fun k => .inl ⟨by rw [hm], by rw [he]⟩, ?_, hstats⟩
  rw [rawSize, rawSize, hm]
  rfl

theorem Reaps.mono {times times' : Int64 → Prop} {n : Nat} {S S' : Store} (h : Reaps times n S S')
    (himp : ∀ now, times now → times' now) : Reaps times' n S S' :=
  ⟨fun k => (h.keys k).imp_right fun ⟨⟨now, ht, hexp⟩, hgone⟩ => ⟨⟨now, himp now ht, hexp⟩, hgone⟩,
    h.size, h.active⟩

theorem lookup_foldl_remove (k : Bytes) : ∀ (dead : List Bytes) (S : Store),
    (dead.foldl remove S).map.lookup k = (if k ∈ dead then none else S.map.lookup k) ∧
      (dead.foldl remove S).expires.lookup k = (if k ∈ dead then none else S.expires.lookup k)
  | [], S => by simp
  | k' :: dead, S => by
    obtain ⟨hm, he⟩ := lookup_foldl_remove k dead (S.remove k')
    rw [List.foldl_cons, hm, he]
    by_cases hk : k = k'
    · subst hk
      simp [remove]
    · simp [remove, hk, AList.lookup_erase_ne hk]

theorem rawSize_eq (S : Store) : S.rawSize = S.map.keys.length := (List.length_map _).symm

theorem rawSize_foldl_remove : ∀ (dead : List Bytes) (S : Store), dead.Nodup → (∀ k ∈ dead, k ∈ S.map) →
    (dead.foldl remove S).rawSize + dead.length = S.rawSize
  | [], _, _, _ => rfl
  | k :: dead, S, hnodup, hmem => by
    rw [List.nodup_cons] at hnodup
    obtain ⟨hk, hrest⟩ := List.forall_mem_cons.mp hmem
    have hne : ∀ k' ∈ dead, k' ∈ (S.remove k).map := fun k' hk' =>
      AList.mem_erase.mpr ⟨fun he => hnodup.1 (he ▸ hk'), hrest k' hk'⟩
    have hsize : (S.remove k).rawSize + 1 = S.rawSize := by
      have hpos := List.length_pos_of_mem (AList.mem_keys.mp hk)
      have herase : (S.map.erase k).keys.length = S.map.keys.length - 1 := by
        rw [AList.keys_erase]
        exact @List.length_erase_of_mem Bytes instBEqOfDecidableEq inferInstance _ _ (AList.mem_keys.mp hk)
      rw [rawSize_eq, rawSize_eq, remove, herase]
      omega
    have := rawSize_foldl_remove dead (S.remove k) hnodup.2 hne
    rw [List.foldl_cons, List.length_cons]
    omega

theorem mem_expires_of_isExpired {S : Store} {now : Int64} {k : Bytes} (h : S.isExpired now k = true) :
    k ∈ S.expires := by
  unfold isExpired at h
  split at h
  · rename_i d hd
    exact AList.lookup_isSome.mp (by rw [hd]; rfl)
  · cases h

/-- Keys that have expired, each of them once, are removed and counted. -/
theorem reaps_removeDead {S : Store} (hindexed : Indexed S) {now : Int64} {dead : List Bytes}
    (hnodup : dead.Nodup) (hdead : ∀ k ∈ dead, S.isExpired now k = true) :
    Reaps (· = now) dead.length S (S.removeDead dead) := by
  refine ⟨fun k => ?_, ?_, rfl⟩
  · obtain ⟨hm, he⟩ := lookup_foldl_remove k dead S
    show (dead.foldl remove S).map.lookup k = _ ∧ (dead.foldl remove S).expires.lookup k = _ ∨
      _ ∧ (dead.foldl remove S).map.lookup k = _ ∧ (dead.foldl remove S).expires.lookup k = _
    rw [hm, he]
    by_cases hk : k ∈ dead
    · simp only [if_pos hk]
      exact .inr ⟨⟨now, rfl, hdead k hk⟩, trivial, trivial⟩
    · simp only [if_neg hk]
      exact .inl ⟨trivial, trivial⟩
  · exact rawSize_foldl_remove dead S hnodup fun k hk => hindexed k (mem_expires_of_isExpired (hdead k hk))

/-! ## A whole cycle -/

/-- One pass: what is dead in its sample is removed and counted. -/
theorem reaps_pass {S : Store} (hindexed : Indexed S) {buckets : List (List Bytes)}
    (hlayout : Layout buckets S.expires) (n : Nat) (now : Int64) {sampled : List Bytes} {S₁ : Store}
    (hsample : S.countPass.sampleExpiring buckets n = (sampled, S₁)) {dead : List Bytes}
    (hdead : (sampled.filter fun key => S₁.isExpired now key) = dead) :
    Reaps (· = now) dead.length S (S₁.removeDead dead) ∧ dead.length ≤ n ∧
      (S₁.removeDead dead).stats.passes = S.stats.passes + 1 ∧ Indexed (S₁.removeDead dead) := by
  have hbounds := @sampleExpiring_bounds buckets S.countPass hlayout n
  have htables := tables_sampleExpiring buckets n S.countPass
  have hstats := stats_sampleExpiring buckets n S.countPass
  rw [hsample] at hbounds htables hstats
  have hsampled : Indexed S₁ := hindexed.edits (show Edits now S S₁ from .tables htables.1 htables.2)
  have hsame : Reaps (fun _ => False) 0 S S₁ :=
    reaps_tables htables.1 htables.2 (by rw [hstats]; rfl)
  have hrest : Reaps (· = now) dead.length S₁ (S₁.removeDead dead) := by
    subst hdead
    exact reaps_removeDead hsampled (hbounds.2.filter _) fun k hk => (List.mem_filter.mp hk).2
  refine ⟨?_, ?_, congrArg ExpiryStats.passes hstats, hsampled.edits ((Removes.removeDead S₁ dead).edits now)⟩
  · rw [← Nat.zero_add dead.length]
    exact (hsame.trans hrest).mono fun _ ht => ht.resolve_left id
  · rw [← hdead]
    exact Nat.le_trans (List.length_filter_le _ _) hbounds.1

/-- What some passes do: they add to `total` the keys they remove, and there are not too many of either. -/
structure Passed (cfg : ExpiryConfig) (clock : Nat → Int64) (passes total : Nat) (S : Store)
    (r : Nat × Store) : Prop where
  reaps : ∃ n, r.1 = total + n ∧ n ≤ cfg.sampleSize * passes ∧
    Reaps (fun now => ∃ i < passes, now = clock i) n S r.2
  passes : r.2.stats.passes ≤ S.stats.passes + passes

theorem expirePassesAt_passed {layout : Table Int64 → List (List Bytes)}
    (hlayout : ∀ T, Layout (layout T) T) (cfg : ExpiryConfig) :
    ∀ (clock : Nat → Int64) (passes total : Nat) (S : Store), Indexed S →
      Passed cfg clock passes total S (expirePassesAt layout cfg clock passes total S)
  | _, 0, total, S, _ =>
    ⟨⟨0, rfl, Nat.zero_le _, reaps_tables rfl rfl rfl⟩, Nat.le_refl _⟩
  | clock, passes + 1, total, S, hindexed => by
    unfold expirePassesAt
    split
    · exact ⟨⟨0, rfl, Nat.zero_le _, reaps_tables rfl rfl rfl⟩, Nat.le_add_right _ _⟩
    dsimp only
    rcases hsample : S.countPass.sampleExpiring (layout S.countPass.expires) cfg.sampleSize with
      ⟨sampled, S₁⟩
    dsimp only
    generalize hdead : (sampled.filter fun key => S₁.isExpired (clock 0) key) = dead
    obtain ⟨hreaps, hcount, hpass, hnext⟩ := reaps_pass hindexed (hlayout S.expires) cfg.sampleSize
      (clock 0) hsample hdead
    split
    · -- The sample is empty.
      have htables := tables_sampleExpiring (layout S.countPass.expires) cfg.sampleSize S.countPass
      have hstats := stats_sampleExpiring (layout S.countPass.expires) cfg.sampleSize S.countPass
      rw [hsample] at htables hstats
      refine ⟨⟨0, rfl, Nat.zero_le _, reaps_tables htables.1 htables.2 ?_⟩, ?_⟩
      · show S₁.stats.expiredActive = S.countPass.stats.expiredActive
        rw [hstats]
      · have : S₁.stats.passes = S.stats.passes + 1 := hpass
        dsimp only
        omega
    split
    · refine ⟨⟨dead.length, rfl, ?_, hreaps.mono fun now ht => ⟨0, Nat.succ_pos _, ht⟩⟩, ?_⟩
      · exact Nat.le_trans hcount (Nat.le_mul_of_pos_right _ (Nat.succ_pos _))
      · dsimp only
        omega
    · obtain ⟨⟨n, htotal, hn, hlater⟩, hmore⟩ := expirePassesAt_passed hlayout cfg
        (fun i => clock (i + 1)) passes (total + dead.length) (S₁.removeDead dead) hnext
      refine ⟨⟨dead.length + n, ?_, ?_, (hreaps.trans hlater).mono ?_⟩, ?_⟩
      · rw [htotal, Nat.add_assoc]
      · rw [Nat.mul_succ]
        omega
      · rintro now (rfl | ⟨i, hi, rfl⟩)
        · exact ⟨0, Nat.succ_pos _, rfl⟩
        · exact ⟨i + 1, Nat.succ_lt_succ hi, rfl⟩
      · omega

/-- A cycle removes only keys whose deadline is over by a reading of the clock in one of its passes, and
leaves the value and the deadline of all others. It has no more passes than allowed, and removes no more
keys than they can sample. It returns by how much `raw_size` has become less, and counts as many. -/
theorem cycle_honest {S : Store} (hindexed : Indexed S) {layout : Table Int64 → List (List Bytes)}
    (hlayout : ∀ T, Layout (layout T) T) (cfg : ExpiryConfig) (clock : Nat → Int64) :
    ∃ removed S', activeExpireCycleAt layout cfg clock S = (removed, S') ∧
      (∀ k, S'.map.lookup k = S.map.lookup k ∧ S'.expires.lookup k = S.expires.lookup k ∨
        (∃ i < cfg.maxPasses, ∃ d, S.expires.lookup k = some d ∧ d ≤ clock i) ∧
          S'.map.lookup k = none ∧ S'.expires.lookup k = none) ∧
      S'.stats.passes ≤ S.stats.passes + cfg.maxPasses ∧
      removed ≤ cfg.sampleSize * cfg.maxPasses ∧
      S'.rawSize + removed = S.rawSize ∧
      S'.stats.expiredActive = S.stats.expiredActive + removed := by
  obtain ⟨⟨n, htotal, hn, hreaps⟩, hpasses⟩ := expirePassesAt_passed hlayout cfg clock cfg.maxPasses 0
    { S with stats := { S.stats with cycles := S.stats.cycles + 1 } } hindexed
  rw [Nat.zero_add] at htotal
  subst htotal
  refine ⟨_, _, rfl, fun k => (hreaps.keys k).imp_right ?_, hpasses, hn, hreaps.size, hreaps.active⟩
  rintro ⟨⟨now, ⟨i, hi, rfl⟩, hexp⟩, hgone⟩
  refine ⟨⟨i, hi, ?_⟩, hgone⟩
  have hexp : S.isExpired (clock i) k = true := hexp
  unfold isExpired at hexp
  split at hexp
  · rename_i d hd
    exact ⟨d, hd, of_decide_eq_true hexp⟩
  · cases hexp

/-- A key with a deadline, and one without. -/
def oneExpiring : Store := (({} : Store).set (str "k") (str "v") 10).set (str "j") (str "w") kNoExpiry

theorem indexed_oneExpiring : Indexed oneExpiring :=
  (indexed_empty.run 0 (.set (str "k") (str "v") 10)).run 0 (.set (str "j") (str "w") kNoExpiry)

theorem layout_oneBucket (T : Table Int64) : Layout [T.keys] T := by
  unfold Layout
  rw [List.flatten_singleton]

theorem cycle_honest_one : ∃ removed S',
    activeExpireCycleAt (fun T => [T.keys]) {} (fun _ => 20) oneExpiring = (removed, S') ∧
      S'.stats.passes ≤ 16 ∧ removed ≤ 320 ∧ S'.rawSize + removed = 2 ∧
      S'.stats.expiredActive = 0 + removed := by
  obtain ⟨removed, S', heq, -, hpasses, hle, hsize, hactive⟩ :=
    cycle_honest indexed_oneExpiring layout_oneBucket {} (fun _ => 20)
  exact ⟨removed, S', heq, hpasses, hle, hsize, hactive⟩

/-! ## Sample after sample -/

/-- What consecutive calls of `sample_expiring` return. -/
def samples (buckets : List (List Bytes)) (n : Nat) : Nat → Store → List (List Bytes)
  | 0, _ => []
  | calls + 1, S =>
    let (out, S) := S.sampleExpiring buckets n
    out :: samples buckets n calls S

theorem samples_eq {buckets : List (List Bytes)} {n : Nat} (hn : n ≠ 0) (hb : buckets.length ≠ 0) :
    ∀ (calls : Nat) {S : Store}, S.expires.entries ≠ [] → samples buckets n calls S =
      (starts n (buckets.map List.length) calls (S.sampleStart buckets)).map (window n · buckets)
  | 0, _, _ => rfl
  | calls + 1, S, hexp => by
    have hlt : next n (buckets.map List.length) (S.sampleStart buckets) < buckets.length := by
      have hpos : 0 < (buckets.map List.length).length := by rw [List.length_map]; omega
      have := Framework.next_lt (n := n) hpos (S.sampleStart buckets)
      rwa [List.length_map] at this
    have hnext : sampleStart buckets
        { S with cursor := next n (buckets.map List.length) (S.sampleStart buckets) } =
        next n (buckets.map List.length) (S.sampleStart buckets) := if_neg (Nat.not_le.mpr hlt)
    rw [samples, sampleExpiring_eq hexp hn hb, starts, List.map_cons]
    dsimp only
    rw [samples_eq hn hb calls (by exact hexp), hnext]

/-- As many calls as there are buckets, with nothing else happening, return every key of the index exactly
if their windows get to the end of every bucket. -/
theorem sampled_iff {S : Store} {buckets : List (List Bytes)} (hlayout : Layout buckets S.expires) {n : Nat}
    (hn : 1 ≤ n) : (∀ k ∈ S.expires, ∃ out ∈ samples buckets n buckets.length S, k ∈ out) ↔
      Sweeps n (buckets.map List.length) (S.sampleStart buckets) := by
  by_cases hexp : S.expires.entries = []
  · -- There is no key, and no bucket has one.
    have hkeys : S.expires.keys = [] := by rw [AList.keys, hexp]; rfl
    have hflat : buckets.flatten = [] := by
      rw [Layout, hkeys] at hlayout
      exact hlayout.eq_nil
    refine iff_of_true (fun k hk => ?_) (fun j hj hne => absurd ?_ hne)
    · rw [AList.mem_keys, hkeys] at hk
      cases hk
    · rw [List.length_map] at hj
      have := List.flatten_eq_nil_iff.mp hflat buckets[j] (List.getElem_mem hj)
      simp [List.getD_eq_getElem?_getD, hj, this]
  · have hb : buckets.length ≠ 0 := by
      intro hb
      rw [List.length_eq_zero_iff.mp hb] at hlayout
      exact hexp (List.map_eq_nil_iff.mp hlayout.nil_eq.symm)
    have hstart := sampleStart_lt (Nat.pos_of_ne_zero hb) S
    have hcs : ∀ c ∈ starts n (buckets.map List.length) buckets.length (S.sampleStart buckets),
        c < buckets.length := by
      intro c hc
      have := Framework.lt_of_mem_starts (by rw [List.length_map]; exact hstart) hc
      rwa [List.length_map] at this
    rw [samples_eq (by omega) hb _ hexp, Sweeps]
    simp only [List.length_map]
    rw [← Framework.mem_windows_iff hlayout.nodup hcs]
    simp only [List.mem_map, exists_exists_and_eq_and]
    exact forall_congr' fun k => by rw [hlayout.mem_iff, ← AList.mem_keys]

/-- No bucket has more than one key, or a sample is as large as the index: every key is returned. -/
theorem sampled_of_small {S : Store} {buckets : List (List Bytes)} (hlayout : Layout buckets S.expires)
    {n : Nat} (hn : 1 ≤ n) (hsmall : (∀ b ∈ buckets, b.length ≤ 1) ∨ S.expiresSize ≤ n) :
    ∀ k ∈ S.expires, ∃ out ∈ samples buckets n buckets.length S, k ∈ out := by
  intro k hk
  have hpos : 0 < buckets.length := by
    have hmem := hlayout.mem_iff.mpr (AList.mem_keys.mp hk)
    obtain ⟨b, hb, -⟩ := List.mem_flatten.mp hmem
    exact List.length_pos_of_mem hb
  have hstart : S.sampleStart buckets < (buckets.map List.length).length := by
    rw [List.length_map]
    exact sampleStart_lt hpos S
  refine (sampled_iff hlayout hn).mpr ?_ k hk
  rcases hsmall with hone | hall
  · exact Framework.sweeps_of_le_one hn (List.forall_mem_map.mpr hone) hstart
  · refine Framework.sweeps_of_sum_le ?_ hstart
    have hcount : S.expires.keys.length = S.expiresSize := List.length_map _
    rw [← List.length_flatten, hlayout.length_eq, hcount]
    exact hall

/-- Three keys with deadlines. -/
def threeExpiring : Store :=
  ((({} : Store).set (str "a") [] 10).set (str "b") [] 100).set (str "c") [] 10

/-- One of them in a bucket of its own. -/
def threeBuckets : List (List Bytes) := [[str "a"], [str "b", str "c"]]

/-- The cursor is at the second bucket: its last key is returned. -/
theorem sampled_three :
    ∃ out ∈ samples threeBuckets 2 2 { threeExpiring with cursor := 1 }, str "c" ∈ out := by
  have hlayout : Layout threeBuckets ({ threeExpiring with cursor := 1 } : Store).expires := by
    unfold Layout
    decide
  exact (sampled_iff hlayout (by decide)).mpr (by decide) (str "c") (by decide)

/-- The cursor is at the start: every call returns the key of the first bucket and the first one of the
second, which is alive, and leaves the cursor there. The other one, which has expired, is never returned. -/
theorem starved_key : Layout threeBuckets threeExpiring.expires ∧
    samples threeBuckets 2 2 threeExpiring = [[str "a", str "b"], [str "a", str "b"]] ∧
    (threeExpiring.sampleExpiring threeBuckets 2).2.cursor = threeExpiring.cursor ∧
    threeExpiring.isExpired 50 (str "b") = false ∧ threeExpiring.isExpired 50 (str "c") = true ∧
    str "c" ∈ threeExpiring.expires ∧ ¬ ∃ out ∈ samples threeBuckets 2 2 threeExpiring, str "c" ∈ out := by
  unfold Layout
  decide

end Store

end RP
