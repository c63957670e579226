import RedisPlus.Store.Edits

/-!
# The index of deadlines

Every key of the index of deadlines is a key of the store (`Indexed`): the operations keep it so.
Then the number of expired entries of the index is that of expired keys, and `size` is the number
of keys that are live (`size_eq`). Which keys these are, whatever their order, is a matter of the
live keyspace (`liveKeys_perm`).
-/

namespace RP

namespace Store

/-- Every key with a deadline is there. -/
def Indexed (S : Store) : Prop := ∀ k ∈ S.expires, k ∈ S.map

theorem indexed_empty : Indexed {} := fun _ h => h

theorem Indexed.edits {now : Int64} {S S' : Store} (h : Indexed S) (he : Edits now S S') : Indexed S' := by
  induction he with
  | tables hm he =>
    unfold Indexed
    rw [hm, he]
    exact h
  | remove S k =>
    intro k' hk'
    obtain ⟨hne, hmem⟩ := AList.mem_erase.mp hk'
    exact AList.mem_erase.mpr ⟨hne, h k' hmem⟩
  | set S k v d =>
    intro k' hk'
    refine (AList.mem_insert _).mpr ?_
    simp only [Store.set] at hk'
    split at hk'
    · exact .inr (h k' (AList.mem_erase.mp hk').2)
    · exact ((AList.mem_insert _).mp hk').imp_right (h k')
  | expire hk _ =>
    intro k' hk'
    rcases (AList.mem_insert _).mp hk' with rfl | hmem
    · exact hk
    · exact h k' hmem
  | persist S k => exact fun k' hk' => h k' (AList.mem_erase.mp hk').2
  | clear S => exact fun _ hk' => hk'
  | trans _ _ ih ih' => exact ih' (ih h)

theorem Indexed.run {S : Store} (h : Indexed S) (now : Int64) (op : Operation) : Indexed (op.run now S) :=
  h.edits (op.edits now S)

/-! ## The keys that are live -/

/-- The keys that have not expired. -/
def liveKeys (S : Store) (now : Int64) : List Bytes := S.map.keys.filter fun k => !S.isExpired now k

theorem nodup_liveKeys (S : Store) (now : Int64) : (S.liveKeys now).Nodup := S.map.keys_nodup.filter _

theorem mem_liveKeys {S : Store} {now : Int64} {k : Bytes} :
    k ∈ S.liveKeys now ↔ (S.live now k).isSome = true := by
  unfold liveKeys
  rw [List.mem_filter, ← AList.mem_keys]
  cases hm : S.map.lookup k with
  | none =>
    rw [live_of_none hm]
    simp [AList.lookup_eq_none.mp hm]
  | some v =>
    rw [live_of_some hm]
    have : k ∈ S.map := AList.lookup_isSome.mp (by rw [hm]; rfl)
    cases S.isExpired now k <;> simp [this]

theorem liveKeys_perm {S S' : Store} {now : Int64} (h : S'.live now = S.live now) :
    (S'.liveKeys now).Perm (S.liveKeys now) := by
  refine (List.perm_ext_iff_of_nodup (nodup_liveKeys _ _) (nodup_liveKeys _ _)).mpr fun k => ?_
  rw [mem_liveKeys, mem_liveKeys, h]

theorem keys_fst (S : Store) (now : Int64) (pattern : Bytes) :
    (S.keys now pattern).1 = (S.liveKeys now).filter (globMatch pattern) := by
  simp only [keys, liveKeys, List.filter_filter]
  exact List.filter_congr fun k _ => Bool.and_comm _ _

/-! ## Counting them -/

theorem nodup_expiredKeys (S : Store) (now : Int64) : (S.expiredKeys now).Nodup :=
  (List.filter_sublist.map Sigma.fst).nodup S.expires.keys_nodup

/-- An expired entry of the index is an expired key. -/
theorem Indexed.expiredKeys_perm {S : Store} (h : Indexed S) (now : Int64) :
    (S.expiredKeys now).Perm (S.map.keys.filter fun k => S.isExpired now k) := by
  refine (List.perm_ext_iff_of_nodup (nodup_expiredKeys S now) (S.map.keys_nodup.filter _)).mpr
    fun k => ?_
  rw [mem_expiredKeys, List.mem_filter, ← AList.mem_keys]
  refine ⟨fun hk => ⟨h k (AList.lookup_isSome.mp ?_), hk⟩, fun hk => hk.2⟩
  unfold isExpired at hk
  split at hk
  · rename_i d hd
    rw [hd]; rfl
  · cases hk

/-- `size` counts the live keys. -/
theorem Indexed.size_eq {S : Store} (h : Indexed S) (now : Int64) :
    S.size now = (S.liveKeys now).length % 2 ^ 64 := by
  have hdead := (h.expiredKeys_perm now).length_eq
  have hsplit := List.length_eq_length_filter_add (l := S.map.keys) fun k => S.isExpired now k
  have hkeys : S.map.keys.length = S.map.entries.length := List.length_map _
  have hexp : (S.expiredKeys now).length =
      (S.expires.entries.filter fun e => decide (e.2 ≤ now)).length := List.length_map _
  have hlive : (S.liveKeys now).length =
      (S.map.keys.filter fun k => !S.isExpired now k).length := rfl
  unfold size
  simp only
  rw [show S.map.entries.length + 2 ^ 64 -
      (S.expires.entries.filter fun e => decide (e.2 ≤ now)).length =
      (S.liveKeys now).length + 2 ^ 64 by omega, Nat.add_mod_right]

end Store

end RP
