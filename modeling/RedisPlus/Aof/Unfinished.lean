import RedisPlus.Aof.Replay
import RedisPlus.Aof.Torn

/-!
# Counting the commands of a log

`complete` is the number of complete commands in a log. A command that is appended to a log without a
torn tail adds one (`complete_append_left`). Behind an unfinished request, whatever it is, there is a
command that does not: what is there takes it, or its beginning, for a part of itself
(`unfinished_miscounts`).

An unfinished array waits for the end of a line, which a `'*'` then breaks, or for the end of a bulk
string. That may come with the command that follows, if this has a CRLF in the right place; the commands
`oneEmpty` and `tenEmpty` have none in the same place.
-/

namespace RP

open Framework (Drains Rest Outcome)

namespace Aof

/-- The number of complete commands in a log. -/
def complete (data : Bytes) : Nat := (replay (some data)).applied.length

theorem complete_drains {s : Bytes} {rs : List Args} {x : Rest UInt8 Bytes}
    (h : Drains requestParser s rs x) : complete s = (dispatched rs).length := by
  rw [complete, replay_drains h]

/-- More of a log that has a tail `l` goes on from there. -/
theorem complete_append_left {s l : Bytes} {rs : List Args} (h : Drains requestParser s rs (.left l))
    (t : Bytes) : complete (s ++ t) = complete s + complete (l ++ t) := by
  obtain ⟨rs', x, h'⟩ := Drains.total requestParser (l ++ t)
  rw [complete_drains h, complete_drains h', complete_drains (h.append parseRequest_append h'),
    dispatched_append, List.length_append]

theorem complete_encs {A : List Args} (hA : ∀ args ∈ A, Loggable args) : complete (encs A) = A.length := by
  have h : Drains requestParser (encs A) A (.left []) :=
    commandCode.drains_all fun args h => (hA args h).toWithin
  rw [complete_drains h, dispatched_loggable hA]

/-- A request that is not complete yet, or broken, is no command. -/
theorem complete_of_not_ok {s : Bytes} (h : ∀ args n, parseRequest s ≠ .ok args n) : complete s = 0 := by
  cases hp : parseRequest s with
  | ok args n => exact absurd hp (h args n)
  | incomplete => exact complete_drains (.stop hp)
  | error e => exact complete_drains (.fail hp)

theorem complete_of_ok {s : Bytes} {args : Args} {n : Nat} (h : parseRequest s = .ok args n)
    (hargs : args ≠ []) : complete s = complete (s.drop n) + 1 := by
  obtain ⟨rs, x, hd⟩ := Drains.total requestParser (s.drop n)
  have hs : Drains requestParser s (args :: rs) x := .step h hd
  rw [complete_drains hs, complete_drains hd, dispatched_cons, if_neg hargs, List.length_cons]

end Aof

/-! ## Two commands -/

/-- A command of one empty argument. -/
def oneEmpty : Args := [[]]

/-- A command of ten empty arguments. -/
def tenEmpty : Args := List.replicate 10 []

theorem loggable_oneEmpty : Loggable oneEmpty :=
  { count := by decide, size := by decide, ne_nil := by decide }

theorem loggable_tenEmpty : Loggable tenEmpty :=
  { count := by decide, size := by decide, ne_nil := by decide }

theorem encode_oneEmpty : encode oneEmpty = 42 :: 49 :: 13 :: 10 :: str "$0\r\n\r\n" := by decide

/-- No CRLF of the one stands where one of the other does. -/
theorem crlf_apart (k : Nat) :
    ¬ (((encode oneEmpty).drop k).take 2 = crlf ∧ ((encode tenEmpty).drop k).take 2 = crlf) := by
  by_cases hk : k < 10
  · revert k
    decide
  · rintro ⟨h, -⟩
    rw [List.drop_eq_nil_of_le (show (encode oneEmpty).length ≤ k from Nat.not_lt.mp hk)] at h
    cases h

/-! ## Unfinished bulk strings -/

/-- A bulk string that was waiting for its end is complete with `x`: its end is there. -/
theorem crlf_of_parseBulkBody {l x arg : Bytes} {e k len : Nat} (he : e + 2 ≤ l.length)
    (hlen : parseInt ((l.take e).drop 1) = some (len : Int))
    (h : parseBulkBody (l ++ x) e = .ok arg k) : ((l ++ x).drop (e + 2 + len)).take 2 = crlf := by
  obtain ⟨len', hint, -, -, -, -, hcrlf⟩ := parseBulkBody_eq_ok h
  rw [List.take_append_of_le_length (by omega), hlen, Option.some.injEq, Int.natCast_inj] at hint
  rw [hint]
  exact hcrlf

/-- The length of a bulk string that is waiting for its end. -/
theorem parseBulkBody_eq_incomplete {l : Bytes} {e : Nat} (h : parseBulkBody l e = .incomplete) :
    ∃ len : Nat, parseInt ((l.take e).drop 1) = some (len : Int) ∧ l.length < e + 2 + len + 2 := by
  unfold parseBulkBody at h
  split at h
  · cases h
  rename_i len hlen
  split at h
  · cases h
  rename_i hrange
  split at h
  · rename_i hshort
    rw [not_or] at hrange
    exact ⟨len.toNat, by rw [hlen, Int.toNat_of_nonneg (by omega)], hshort⟩
  · split at h
    · cases h
    · cases h

theorem parseBulkBody_unfinished {l : Bytes} {e : Nat} (he : e + 2 ≤ l.length)
    (h : parseBulkBody l e = .incomplete) {a b : Bytes} {m n : Nat}
    (h₁ : parseBulkBody (l ++ encode oneEmpty) e = .ok a m)
    (h₂ : parseBulkBody (l ++ encode tenEmpty) e = .ok b n) : False := by
  obtain ⟨len, hlen, hshort⟩ := parseBulkBody_eq_incomplete h
  have hc₁ := crlf_of_parseBulkBody he hlen h₁
  have hc₂ := crlf_of_parseBulkBody he hlen h₂
  rcases Nat.lt_or_ge (e + 2 + len) l.length with hlt | hge
  · -- Only the LF is missing.
    obtain ⟨y, hy⟩ := List.length_eq_one_iff.mp
      (show (l.drop (e + 2 + len)).length = 1 by rw [List.length_drop]; omega)
    rw [List.drop_append_of_le_length (by omega), hy, encode_oneEmpty] at hc₁
    simp [crlf] at hc₁
  · rw [List.drop_append, List.drop_eq_nil_of_le hge, List.nil_append] at hc₁ hc₂
    exact crlf_apart _ ⟨hc₁, hc₂⟩

/-- A line that was not ended is refused with what follows. -/
theorem parseBulk_open_line {l t arg : Bytes} {k : Nat} (hh : l.head? = some 36)
    (hf : findCrlf l = none) : parseBulk (l ++ 42 :: t) ≠ .ok arg k := by
  intro h
  have hl : l ≠ [] := List.isSome_head?.mp (by rw [hh]; rfl)
  have hh' : (l ++ 42 :: t).head? = some 36 := by simp [hh]
  cases hf' : findCrlf (l ++ 42 :: t) with
  | none =>
    rw [parseBulk_of_none hh' hf'] at h
    split at h <;> cases h
  | some e =>
    rw [parseBulk_of_some hh' hf', parseBulkBody, parseInt_open_line hl hf hf'] at h
    cases h

theorem parseBulk_unfinished {l : Bytes} (h : parseBulk l = .incomplete) {a b : Bytes} {m n : Nat}
    (h₁ : parseBulk (l ++ encode oneEmpty) = .ok a m) (h₂ : parseBulk (l ++ encode tenEmpty) = .ok b n) :
    False := by
  cases hh : l.head? with
  | none =>
    rw [List.head?_eq_none_iff.mp hh, List.nil_append, encode_oneEmpty,
      parseBulk_of_head rfl (by decide)] at h₁
    cases h₁
  | some c =>
    by_cases hc : c = 36
    case neg =>
      rw [parseBulk_of_head hh hc] at h
      cases h
    subst hc
    have hl : l ≠ [] := List.isSome_head?.mp (by rw [hh]; rfl)
    have hh' (x : Bytes) : (l ++ x).head? = some 36 := by simp [hh]
    cases hf : findCrlf l with
    | none =>
      rw [encode_oneEmpty] at h₁
      exact parseBulk_open_line hh hf h₁
    | some e =>
      rw [parseBulk_of_some hh hf] at h
      rw [parseBulk_of_some (hh' _) (Framework.find2_append _ hf)] at h₁ h₂
      exact parseBulkBody_unfinished (Framework.find2_eq_some hf).2 h h₁ h₂

/-- A bulk string that is taken off is taken off whatever follows. -/
theorem parseBulk_append {rest arg : Bytes} {k : Nat} (h : parseBulk rest = .ok arg k) (more : Bytes) :
    parseBulk (rest ++ more) = .ok arg k := by
  have hbulk := parseBulk_of_bulkString (bulkString_of_parseBulk h) (rest.drop k ++ more)
  rwa [← List.append_assoc, List.take_append_drop,
    List.length_take_of_le (parseBulk_consumes h).2] at hbulk

theorem parseBulks_unfinished : ∀ {n pos : Nat} {l : Bytes} {args as bs : Args} {i j : Nat},
    parseBulks n pos l args = .incomplete → parseBulks n pos (l ++ encode oneEmpty) args = .ok as i →
    parseBulks n pos (l ++ encode tenEmpty) args = .ok bs j → False
  | 0, _, _, _, _, _, _, _, h, _, _ => by cases h
  | n + 1, pos, l, args, as, bs, i, j, h, h₁, h₂ => by
    cases hp : parseBulk l with
    | ok a k =>
      have hle := (parseBulk_consumes hp).2
      simp only [parseBulks, hp] at h
      simp only [parseBulks, parseBulk_append hp, List.drop_append_of_le_length hle] at h₁ h₂
      exact parseBulks_unfinished h h₁ h₂
    | error e =>
      simp only [parseBulks, hp] at h
      cases h
    | incomplete =>
      simp only [parseBulks] at h₁ h₂
      split at h₁
      · rename_i a m hp₁
        split at h₂
        · rename_i b m' hp₂
          exact parseBulk_unfinished hp hp₁ hp₂
        · cases h₂
        · cases h₂
      · cases h₁
      · cases h₁

/-! ## Unfinished requests -/

/-- One of the two commands does not complete an array. -/
theorem parseRequest_unfinished {l : Bytes} (hh : l.head? = some 42) (h : parseRequest l = .incomplete)
    {as bs : Args} {i j : Nat} (h₁ : parseRequest (l ++ encode oneEmpty) = .ok as i)
    (h₂ : parseRequest (l ++ encode tenEmpty) = .ok bs j) : False := by
  have hl : l ≠ [] := List.isSome_head?.mp (by rw [hh]; rfl)
  have hh' (x : Bytes) : (l ++ x).head? = some 42 := by simp [hh]
  cases hf : findCrlf l with
  | none =>
    cases hf' : findCrlf (l ++ encode oneEmpty) with
    | none =>
      rw [parseRequest_of_none (hh' _) hf'] at h₁
      split at h₁ <;> cases h₁
    | some e =>
      rw [parseRequest_of_some (hh' _) hf', parseArray] at h₁
      rw [encode_oneEmpty] at h₁ hf'
      rw [parseInt_open_line hl hf hf'] at h₁
      cases h₁
  | some e =>
    have he := (Framework.find2_eq_some hf).2
    rw [parseRequest_of_some hh hf, parseArray] at h
    rw [parseRequest_of_some (hh' _) (Framework.find2_append _ hf), parseArray,
      List.take_append_of_le_length (by omega)] at h₁ h₂
    split at h
    · cases h
    rename_i argc hargc
    rw [hargc] at h₁ h₂
    split at h
    · cases h
    rename_i hmax
    split at h
    · cases h
    rename_i hpos
    simp only [if_neg hmax, if_neg hpos, List.drop_append_of_le_length he] at h₁ h₂
    exact parseBulks_unfinished h h₁ h₂

theorem words_ne_nil {c : UInt8} (hc : isspace c = false) : ∀ (cs cur : Bytes), words cur (cs ++ [c]) ≠ []
  | [], cur => by simp [words, hc]
  | x :: cs, cur => by
    rw [List.cons_append, words]
    split
    · split
      · exact words_ne_nil hc cs []
      · exact List.cons_ne_nil _ _
    · exact words_ne_nil hc cs _

/-- An unfinished line takes the first line of the command that follows, and is a command itself; and so is
the second line. -/
theorem complete_inline {l : Bytes} {c : UInt8} (hh : l.head? = some c) (hc : c ≠ 42)
    (h : parseRequest l = .incomplete) : Aof.complete (l ++ encode oneEmpty) ≠ 1 := by
  have hl : l ≠ [] := List.isSome_head?.mp (by rw [hh]; rfl)
  have hh' : (l ++ encode oneEmpty).head? = some c := by simp [hh]
  have hnone : findCrlf l = none := by
    rw [parseRequest_of_head hh hc, parseInline] at h
    split at h
    · assumption
    · split at h <;> cases h
  have hnone' : findCrlf (l ++ [42, 49]) = none := by
    cases hf : findCrlf (l ++ [42, 49]) with
    | none => rfl
    | some i =>
      have hge := Framework.find2_append_ge (by decide) (by decide) hnone hf
      have hle := (Framework.find2_eq_some hf).2
      simp only [List.length_append, List.length_cons, List.length_nil] at hle
      omega
  have hsplit : l ++ encode oneEmpty = (l ++ [42, 49]) ++ 13 :: 10 :: str "$0\r\n\r\n" := by
    rw [encode_oneEmpty]
    simp
  have hfind : findCrlf (l ++ encode oneEmpty) = some (l ++ [42, 49]).length := by
    rw [hsplit]
    exact Framework.find2_append_delimiter (by decide) _ hnone'
  have hparse := parseRequest_of_head hh' hc
  rw [parseInline, hfind] at hparse
  dsimp only at hparse
  split at hparse
  · rw [Aof.complete_of_not_ok (by simp [hparse])]
    decide
  · rw [hsplit, List.take_left, ← hsplit] at hparse
    have hwords : words [] (l ++ [42, 49]) ≠ [] := by
      rw [show l ++ [42, 49] = (l ++ [42]) ++ [49] by simp]
      exact words_ne_nil (by decide) _ []
    rw [Aof.complete_of_ok hparse hwords, hsplit, ← List.drop_drop, List.drop_left]
    decide

/-- Behind an unfinished request, one of the two commands does not count as one. -/
theorem unfinished_miscounts {l : Bytes} (hl : l ≠ []) (h : parseRequest l = .incomplete) :
    ∃ args, Loggable args ∧ Aof.complete (l ++ encode args) ≠ 1 := by
  obtain ⟨c, cs, rfl⟩ := List.exists_cons_of_ne_nil hl
  by_cases hc : c = 42
  case neg => exact ⟨oneEmpty, loggable_oneEmpty, complete_inline rfl hc h⟩
  subst hc
  by_cases h₁ : ∃ as i, parseRequest (42 :: cs ++ encode oneEmpty) = .ok as i
  · obtain ⟨as, i, h₁⟩ := h₁
    refine ⟨tenEmpty, loggable_tenEmpty, ?_⟩
    rw [Aof.complete_of_not_ok fun bs j h₂ => parseRequest_unfinished rfl h h₁ h₂]
    decide
  · refine ⟨oneEmpty, loggable_oneEmpty, ?_⟩
    rw [Aof.complete_of_not_ok fun as i h₂ => h₁ ⟨as, i, h₂⟩]
    decide

end RP
