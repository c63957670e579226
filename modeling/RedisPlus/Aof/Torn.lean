import RedisPlus.Resp.Encode

/-!
# A torn command in front of others

What a crash leaves of a command's encoding, followed by more commands, which start with
`'*'`. The parser does not find its way back: it fails, waits for more, or takes bytes of the
commands that follow for an argument, which is then not empty (`parseRequest_torn`).
-/

namespace RP

open Framework (find2 Outcome)

/-- A `*` or `$` line whose end is missing, before a `'*'`: what stands for its number is none. -/
theorem parseInt_open_line {p t : Bytes} {e : Nat} (hp : p ≠ []) (hnone : findCrlf p = none)
    (hf : findCrlf (p ++ 42 :: t) = some e) :
    parseInt (((p ++ 42 :: t).take e).drop 1) = none := by
  have hlt : p.length < e := Framework.find2_append_ge (by decide) (by decide) hnone hf
  refine parseInt_eq_none (c := 42) (by decide) (by decide) (by decide) ?_
  obtain ⟨x, p, rfl⟩ := List.exists_cons_of_ne_nil hp
  obtain ⟨m, rfl⟩ : ∃ m, e = (x :: p).length + (m + 1) := ⟨e - (x :: p).length - 1, by omega⟩
  rw [List.take_length_add_append]
  simp

theorem parseInt_torn_line {c : UInt8} (hc : c ≠ 13) {n : Nat} {p q t : Bytes} {e : Nat}
    (he : c :: natToString n ++ [13, 10] = p ++ q) (hp : p ≠ []) (hq : q ≠ [])
    (hf : findCrlf (p ++ 42 :: t) = some e) :
    parseInt (((p ++ 42 :: t).take e).drop 1) = none := by
  have hline := findCrlf_natToString hc n []
  have hlen := congrArg List.length he
  have hqpos := List.length_pos_iff.mpr hq
  simp only [List.length_append, List.length_cons, List.length_nil] at hlen
  rw [he] at hline
  exact parseInt_open_line hp (Framework.find2_left_none hline (by omega)) hf

/-! ## Bulk strings -/

/-- A bulk string whose line is there and whose body or terminator is not. -/
theorem parseBulkBody_torn {a β c t b : Bytes} {k : Nat} (ha : a.length ≤ kMaxBulkLength)
    (he : a ++ [13, 10] = β ++ c) (hc : c ≠ [])
    (h : parseBulk (36 :: natToString a.length ++ 13 :: 10 :: (β ++ 42 :: t)) = .ok b k) : b ≠ [] := by
  have hmax : a.length ≤ int64Max := by simp only [kMaxBulkLength, int64Max] at ha ⊢; omega
  rw [parseBulk_of_some rfl (findCrlf_natToString (by decide) _ _), parseBulkBody, take_line,
    parseInt_natToString hmax] at h
  simp only [Int.toNat_natCast, ← List.drop_drop (i := a.length), drop_line] at h
  split at h
  · cases h
  split at h
  · cases h
  rename_i hlong
  split at h
  · cases h
  rename_i hcrlf
  simp only [Outcome.ok.injEq] at h
  rw [← h.1]
  intro hb
  -- the body is empty only for an empty argument, whose CRLF the `'*'` then breaks
  have hlen := congrArg List.length hb
  simp only [List.length_append, List.length_cons, List.length_take, List.length_nil] at hlen hlong
  obtain rfl : a = [] := List.length_eq_zero_iff.mp (by omega)
  simp only [ne_eq, not_not, List.length_nil, List.drop_zero] at hcrlf
  rcases β with _ | ⟨x, _ | ⟨y, β⟩⟩
  · simp [crlf] at hcrlf
  · simp [crlf] at hcrlf
  · have := congrArg List.length he
    have := List.length_pos_iff.mpr hc
    simp only [List.nil_append, List.length_append, List.length_cons, List.length_nil] at *
    omega

theorem parseBulk_torn {a p c t b : Bytes} {k : Nat} (ha : a.length ≤ kMaxBulkLength)
    (he : Reply.bulk a = p ++ c) (hc : c ≠ []) (h : parseBulk (p ++ 42 :: t) = .ok b k) : b ≠ [] := by
  have hbulk : (36 :: natToString a.length ++ [13, 10]) ++ (a ++ [13, 10]) = p ++ c := by
    rw [← he, ← List.append_nil (Reply.bulk a), bulk_eq]; simp
  rcases List.append_eq_append_iff.mp hbulk with ⟨β, rfl, hβ⟩ | ⟨d, hd, -⟩
  · refine parseBulkBody_torn ha hβ hc (t := t) (k := k) ?_
    rw [← h]; simp
  · by_cases hd0 : d = []
    · subst hd0
      rw [List.append_nil] at hd
      refine @parseBulkBody_torn a [] (a ++ [13, 10]) t b k ha rfl (by simp) ?_
      rw [← h, ← hd]; simp
    · -- the line is torn
      cases p with
      | nil => rw [List.nil_append, parseBulk_of_head rfl (by decide)] at h; cases h
      | cons x p =>
        obtain rfl : x = 36 := by simpa using (congrArg List.head? hd).symm
        cases hf : findCrlf (36 :: p ++ 42 :: t) with
        | none =>
          rw [parseBulk_of_none rfl hf] at h
          split at h <;> cases h
        | some e =>
          rw [parseBulk_of_some rfl hf, parseBulkBody,
            parseInt_torn_line (by decide) hd (by simp) hd0 hf] at h
          cases h

/-- What has been read stays. -/
theorem mem_of_parseBulks : ∀ {n pos : Nat} {rest : Bytes} {args as : Args} {m : Nat} {a : Bytes},
    parseBulks n pos rest args = .ok as m → a ∈ args → a ∈ as
  | 0, _, _, _, _, _, _, h, ha => by
    simp only [parseBulks, Outcome.ok.injEq] at h
    rw [← h.1]; exact ha
  | n + 1, pos, rest, args, as, m, a, h, ha => by
    rw [parseBulks] at h
    split at h
    · exact mem_of_parseBulks h (List.mem_append_left _ ha)
    · cases h
    · cases h

theorem parseBulks_torn : ∀ {as args g : Args} {pos m : Nat} {p q t : Bytes},
    (∀ a ∈ as, a.length ≤ kMaxBulkLength) → as.flatMap Reply.bulk = p ++ q → q ≠ [] →
    parseBulks as.length pos (p ++ 42 :: t) args = .ok g m → ∃ a ∈ g, a ≠ []
  | [], _, _, _, _, p, q, _, _, he, hq, _ => absurd (List.append_eq_nil_iff.mp he.symm).2 hq
  | a :: as, args, g, pos, m, p, q, t, hs, he, hq, h => by
    have ha := hs a List.mem_cons_self
    have hs' : ∀ b ∈ as, b.length ≤ kMaxBulkLength := fun b hb => hs b (List.mem_cons_of_mem _ hb)
    rw [List.length_cons, parseBulks] at h
    -- a whole bulk string is read, and the tear is in a later one
    have hwhole : ∀ p', p = Reply.bulk a ++ p' → as.flatMap Reply.bulk = p' ++ q → ∃ a ∈ g, a ≠ [] := by
      rintro p' rfl he'
      rw [List.append_assoc, parseBulk_bulk _ ha] at h
      simp only [List.drop_left] at h
      exact parseBulks_torn hs' he' hq h
    rw [List.flatMap_cons] at he
    rcases List.append_eq_append_iff.mp he with ⟨p', hp', he'⟩ | ⟨c, hc, hc'⟩
    · exact hwhole p' hp' he'
    · by_cases hc0 : c = []
      · subst hc0
        exact hwhole [] (by rw [hc, List.append_nil, List.append_nil]) (by rw [hc']; rfl)
      · split at h
        · rename_i b k hb
          exact ⟨b, mem_of_parseBulks h (by simp), parseBulk_torn ha hc hc0 hb⟩
        · cases h
        · cases h

/-! ## Commands -/

/-- What is left of a command, followed by more commands, is no command, or one that has an
argument which is not empty. -/
theorem parseRequest_torn {args g : Args} {m : Nat} {p q t : Bytes} (h : Within args)
    (he : encode args = p ++ q) (hp : p ≠ []) (hq : q ≠ [])
    (hg : parseRequest (p ++ 42 :: t) = .ok g m) : ∃ a ∈ g, a ≠ [] := by
  have hcount := h.count
  have hmax : args.length ≤ int64Max := by simp only [kMaxMultibulkLength, int64Max] at hcount ⊢; omega
  have hline : (42 :: natToString args.length ++ [13, 10]) ++ args.flatMap Reply.bulk = p ++ q := by
    rw [← he, encode, arrayHeader_eq]; simp
  -- the tear is in a bulk string
  have hbulks : ∀ p', p = 42 :: natToString args.length ++ [13, 10] ++ p' →
      args.flatMap Reply.bulk = p' ++ q → ∃ a ∈ g, a ≠ [] := by
    rintro p' rfl he'
    have hne : args ≠ [] := by
      rintro rfl
      exact hq (List.append_eq_nil_iff.mp he'.symm).2
    have hpos := List.length_pos_iff.mpr hne
    rw [List.append_assoc, List.append_assoc,
      show [13, 10] ++ (p' ++ 42 :: t) = 13 :: 10 :: (p' ++ 42 :: t) from rfl,
      parseRequest_of_some rfl (findCrlf_natToString (by decide) _ _), parseArray, take_line,
      parseInt_natToString hmax] at hg
    simp only [if_neg (show ¬ (args.length : Int) > kMaxMultibulkLength by omega),
      if_neg (show ¬ (args.length : Int) ≤ 0 by omega), Int.toNat_natCast, drop_line] at hg
    exact parseBulks_torn h.size he' hq hg
  rcases List.append_eq_append_iff.mp hline with ⟨p', hp', he'⟩ | ⟨c, hc, hc'⟩
  · exact hbulks p' hp' he'
  · by_cases hc0 : c = []
    · subst hc0
      exact hbulks [] (by rw [hc, List.append_nil, List.append_nil]) (by rw [hc']; rfl)
    · obtain ⟨x, p, rfl⟩ := List.exists_cons_of_ne_nil hp
      obtain rfl : x = 42 := by simpa using (congrArg List.head? hc).symm
      cases hf : findCrlf (42 :: p ++ 42 :: t) with
      | none =>
        rw [parseRequest_of_none rfl hf] at hg
        split at hg <;> cases hg
      | some e =>
        rw [parseRequest_of_some rfl hf, parseArray,
          parseInt_torn_line (by decide) hc (by simp) hc0 hf] at hg
        cases hg

end RP
