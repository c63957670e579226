import RedisPlus.Resp.Parse

/-!
# Requests that arrive in pieces

A line without its CRLF is refused above a limit, and one with its CRLF is not, or above
another limit. So a prefix of a request asks for more input (`parseRequest_stable`) if each
of its header lines is short enough (`ShortRequest`); and if one is not, there is a prefix
that is refused (`parseRequest_refused`).
-/

namespace RP

open Framework (find2 Outcome Stable)

/-- The first line of `rest`, once its CRLF is there, is below `limit`. -/
def ShortLine (limit : Nat) (rest : Bytes) : Prop := ∀ e, findCrlf rest = some e → e < limit

/-- The `$` lines of the next `n` bulk strings are below the limit. -/
def ShortBulks : Nat → Bytes → Prop
  | 0, _ => True
  | n + 1, rest =>
    ShortLine kMaxCountLine rest ∧ ∀ a k, parseBulk rest = .ok a k → ShortBulks n (rest.drop k)

/-- An inline line is below its limit, and so are the `*` and `$` lines of an array. -/
def ShortRequest (input : Bytes) : Prop :=
  if input.head? = some 42 then
    ShortLine kMaxCountLine input ∧
      ∀ e argc, findCrlf input = some e → parseInt ((input.take e).drop 1) = some argc →
        ShortBulks argc.toNat (input.drop (e + 2))
  else ShortLine kMaxInlineLength input

theorem drop_take_append {α : Type} {p q : List α} {i n : Nat} (h : i + n ≤ p.length) :
    ((p ++ q).drop i).take n = (p.drop i).take n := by
  rw [List.drop_append_of_le_length (by omega),
    List.take_append_of_le_length (by rw [List.length_drop]; omega)]

/-! ## Bulk strings -/

theorem parseBulkBody_cut {p q : Bytes} {e : Nat} (he : e + 2 ≤ p.length) :
    (parseBulkBody (p ++ q) e).Cut p.length (parseBulkBody p e) := by
  have hl : (p ++ q).length = p.length + q.length := List.length_append
  simp only [parseBulkBody, List.take_append_of_le_length (show e ≤ p.length by omega)]
  cases parseInt ((p.take e).drop 1) with
  | none => trivial
  | some len =>
    simp only
    by_cases hr : len < 0 ∨ len > kMaxBulkLength
    · rw [if_pos hr]; trivial
    · rw [if_neg hr, if_neg hr]
      by_cases hn : p.length < e + 2 + len.toNat + 2
      · rw [if_pos hn]
        split
        · rfl
        · split
          · trivial
          · rw [Outcome.cut_ok, if_neg (by omega)]
      · rw [if_neg hn, if_neg (show ¬ (p ++ q).length < _ by omega), drop_take_append (by omega),
          drop_take_append (by omega)]
        split
        · trivial
        · rw [Outcome.cut_ok, if_pos (by omega)]

/-- A prefix of a bulk string with a short line. -/
theorem parseBulk_cut {p q : Bytes} (hs : ShortLine kMaxCountLine (p ++ q)) :
    (parseBulk (p ++ q)).Cut p.length (parseBulk p) := by
  cases p with
  | nil =>
    cases h : parseBulk ([] ++ q) with
    | ok a k =>
      have := (parseBulk_consumes h).1
      rw [Outcome.cut_ok, if_neg (by simpa using by omega)]; rfl
    | incomplete => rfl
    | error => trivial
  | cons c p =>
    by_cases hc : c = 36
    swap
    · rw [parseBulk_of_head (show (c :: p ++ q).head? = some c from rfl) hc]; trivial
    subst hc
    generalize hP : (36 :: p : Bytes) = P at *
    have hh : P.head? = some 36 := by rw [← hP]; rfl
    have hhq : (P ++ q).head? = some 36 := by rw [← hP]; rfl
    have hl : (P ++ q).length = P.length + q.length := List.length_append
    cases hf : findCrlf (P ++ q) with
    | none =>
      rw [parseBulk_of_none hhq hf, parseBulk_of_none hh (Framework.find2_none_of_append hf)]
      split
      · trivial
      · rw [Outcome.cut_incomplete, if_neg (by omega)]
    | some e =>
      have he := hs e hf
      rw [parseBulk_of_some hhq hf]
      by_cases hp : P.length ≤ e + 1
      · have hinc : parseBulk P = .incomplete := by
          rw [parseBulk_of_none hh (Framework.find2_left_none hf hp), if_neg (by omega)]
        rw [hinc]
        cases hb : parseBulkBody (P ++ q) e with
        | ok a k =>
          obtain ⟨len, -, -, hk, -⟩ := parseBulkBody_eq_ok hb
          rw [Outcome.cut_ok, if_neg (by omega)]
        | incomplete => rfl
        | error => trivial
      · rw [parseBulk_of_some hh (Framework.find2_left_some hf (by omega))]
        exact parseBulkBody_cut (by omega)

/-- The bytes of `input` before the LF of its first line's CRLF. -/
theorem take_crlf {input : Bytes} {e : Nat} (hf : findCrlf input = some e) :
    (input.take (e + 1)).length = e + 1 ∧ input.drop (e + 1) ≠ [] ∧
      findCrlf (input.take (e + 1)) = none ∧ (input.take (e + 1)).head? = input.head? := by
  have hlen := (Framework.find2_eq_some hf).2
  have hl : (input.take (e + 1)).length = e + 1 := by rw [List.length_take]; omega
  refine ⟨hl, ?_, ?_, ?_⟩
  · rw [ne_eq, List.drop_eq_nil_iff]; omega
  · exact Framework.find2_left_none (m := input.drop (e + 1)) (by rwa [List.take_append_drop])
      (by omega)
  · rw [List.head?_take, if_neg (by omega)]

/-- Stopping one byte short of the CRLF of a long line is refused. -/
theorem parseBulk_refused {rest : Bytes} (hb : ∀ e, parseBulk rest ≠ .error e)
    (hs : ¬ ShortLine kMaxCountLine rest) :
    ∃ p q, rest = p ++ q ∧ q ≠ [] ∧ parseBulk p = .error tooBigBulkCount := by
  simp only [ShortLine, not_forall] at hs
  obtain ⟨e, hf, he⟩ := hs
  obtain ⟨hl, hd, hn, hh'⟩ := take_crlf hf
  have hh : rest.head? = some 36 := by
    cases hr : rest with
    | nil => rw [hr] at hf; cases hf
    | cons c cs =>
      by_cases hc : c = 36
      · rw [hc]; rfl
      · exact absurd (parseBulk_of_head (by rw [hr]; rfl) hc) (hb _)
  refine ⟨rest.take (e + 1), rest.drop (e + 1), (List.take_append_drop _ _).symm, hd, ?_⟩
  rw [parseBulk_of_none (hh'.trans hh) hn, if_pos (by omega)]

theorem parseBulks_cut : ∀ {n pos : Nat} {p q : Bytes} {args : Args}, ShortBulks n (p ++ q) →
    (parseBulks n pos (p ++ q) args).Cut (pos + p.length) (parseBulks n pos p args)
  | 0, pos, p, q, args, _ => by simp [parseBulks]
  | n + 1, pos, p, q, args, hs => by
    obtain ⟨hline, hrest⟩ := hs
    have hcut := parseBulk_cut hline
    simp only [parseBulks]
    cases hb : parseBulk (p ++ q) with
    | error => trivial
    | incomplete =>
      rw [hb, Outcome.cut_incomplete] at hcut
      rw [hcut]; rfl
    | ok a k =>
      rw [hb, Outcome.cut_ok] at hcut
      have hk := parseBulk_consumes hb
      simp only
      by_cases hkp : k ≤ p.length
      · rw [if_pos hkp] at hcut
        rw [hcut]
        have hdrop : (p ++ q).drop k = p.drop k ++ q := List.drop_append_of_le_length hkp
        have hs' := hrest a k hb
        rw [hdrop] at hs' ⊢
        have ih := @parseBulks_cut n (pos + k) (p.drop k) q (args ++ [a]) hs'
        rw [List.length_drop, show pos + k + (p.length - k) = pos + p.length by omega] at ih
        exact ih
      · rw [if_neg hkp] at hcut
        rw [hcut]
        cases hm : parseBulks n (pos + k) ((p ++ q).drop k) (args ++ [a]) with
        | ok as m =>
          have := (parseBulks_consumes hm).1
          rw [Outcome.cut_ok, if_neg (by omega)]
        | incomplete => rfl
        | error => trivial

theorem parseBulks_refused : ∀ {n pos : Nat} {rest : Bytes} {args : Args},
    (∀ e, parseBulks n pos rest args ≠ .error e) → ¬ ShortBulks n rest →
    ∃ p q, rest = p ++ q ∧ q ≠ [] ∧ parseBulks n pos p args = .error tooBigBulkCount
  | 0, _, _, _, _, hs => absurd trivial hs
  | n + 1, pos, rest, args, hne, hs => by
    have hb : ∀ e, parseBulk rest ≠ .error e := by
      intro e h
      exact hne e (by simp only [parseBulks, h])
    by_cases hline : ShortLine kMaxCountLine rest
    · simp only [ShortBulks, hline, true_and, not_forall] at hs
      obtain ⟨a, k, hok, hs⟩ := hs
      have hk := parseBulk_consumes hok
      simp only [parseBulks, hok] at hne
      obtain ⟨p, q, he, hq, hp⟩ := parseBulks_refused hne hs
      have hsplit : rest = (rest.take k ++ p) ++ q := by
        rw [List.append_assoc, ← he, List.take_append_drop]
      have hkl : (rest.take k).length = k := by rw [List.length_take]; omega
      refine ⟨rest.take k ++ p, q, hsplit, hq, ?_⟩
      have hcut := parseBulk_cut (p := rest.take k ++ p) (q := q) (by rwa [← hsplit])
      rw [← hsplit, hok, Outcome.cut_ok, if_pos (by rw [List.length_append]; omega)] at hcut
      simp only [parseBulks, hcut]
      rwa [List.drop_left' hkl]
    · obtain ⟨p, q, he, hq, hp⟩ := parseBulk_refused hb hline
      exact ⟨p, q, he, hq, by simp only [parseBulks, hp]⟩

/-! ## Requests -/

theorem parseArray_cut {p q : Bytes} {e : Nat} (he : e + 2 ≤ p.length)
    (hs : ∀ argc, parseInt ((p.take e).drop 1) = some argc →
      ShortBulks argc.toNat ((p ++ q).drop (e + 2))) :
    (parseArray (p ++ q) e).Cut p.length (parseArray p e) := by
  simp only [parseArray, List.take_append_of_le_length (show e ≤ p.length by omega)]
  cases hi : parseInt ((p.take e).drop 1) with
  | none => trivial
  | some argc =>
    simp only
    split
    · trivial
    · split
      · rw [Outcome.cut_ok, if_pos he]
      · have hs' := hs argc hi
        rw [List.drop_append_of_le_length he] at hs' ⊢
        have := @parseBulks_cut argc.toNat (e + 2) (p.drop (e + 2)) q [] hs'
        rwa [List.length_drop, show e + 2 + (p.length - (e + 2)) = p.length by omega] at this

theorem parseInline_cut {p q : Bytes} (hs : ShortLine kMaxInlineLength (p ++ q)) :
    (parseInline (p ++ q)).Cut p.length (parseInline p) := by
  have hl : (p ++ q).length = p.length + q.length := List.length_append
  cases hf : findCrlf (p ++ q) with
  | none =>
    simp only [parseInline, hf, show findCrlf p = none from Framework.find2_none_of_append hf]
    split
    · trivial
    · rw [Outcome.cut_incomplete, if_neg (by omega)]
  | some e =>
    have he := hs e hf
    simp only [parseInline, hf, if_neg (show ¬ e > kMaxInlineLength by omega), Outcome.cut_ok]
    by_cases hp : p.length ≤ e + 1
    · rw [if_neg (show ¬ e + 2 ≤ p.length by omega),
        show findCrlf p = none from Framework.find2_left_none hf hp]
      simp only [if_neg (show ¬ p.length > kMaxInlineLength by omega)]
    · rw [if_pos (show e + 2 ≤ p.length by omega),
        show findCrlf p = some e from Framework.find2_left_some hf (by omega),
        List.take_append_of_le_length (by omega)]
      simp only [if_neg (show ¬ e > kMaxInlineLength by omega)]

/-- A request with short lines parses the same from every prefix that holds it, and every
shorter prefix asks for more. -/
theorem parseRequest_stable {input : Bytes} (hs : ShortRequest input) :
    Stable requestParser input := by
  rintro p q rfl
  simp only [requestParser_parse]
  cases p with
  | nil =>
    cases h : parseRequest ([] ++ q) with
    | ok as m =>
      have := (parseRequest_consumes h).1
      rw [Outcome.cut_ok, if_neg (by simpa using by omega)]; rfl
    | incomplete => rfl
    | error => trivial
  | cons c p =>
    have hh : (c :: p).head? = some c := rfl
    have hhq : (c :: p ++ q).head? = some c := rfl
    by_cases hc : c = 42
    · subst hc
      rw [ShortRequest, if_pos hhq] at hs
      obtain ⟨hline, hbulks⟩ := hs
      have hl : (42 :: p ++ q : Bytes).length = (42 :: p : Bytes).length + q.length :=
        List.length_append
      cases hf : findCrlf (42 :: p ++ q) with
      | none =>
        rw [parseRequest_of_none hhq hf, parseRequest_of_none hh (Framework.find2_none_of_append hf)]
        split
        · trivial
        · rw [Outcome.cut_incomplete, if_neg (by omega)]
      | some e =>
        have he := hline e hf
        rw [parseRequest_of_some hhq hf]
        by_cases hp : (42 :: p : Bytes).length ≤ e + 1
        · rw [parseRequest_of_none hh (Framework.find2_left_none hf hp), if_neg (by omega)]
          cases ha : parseArray (42 :: p ++ q) e with
          | ok as m =>
            have := (parseArray_consumes (Framework.find2_eq_some hf).2 ha).1
            rw [Outcome.cut_ok, if_neg (by omega)]
          | incomplete => rfl
          | error => trivial
        · rw [parseRequest_of_some hh (Framework.find2_left_some hf (by omega))]
          refine parseArray_cut (by omega) fun argc ha => hbulks e argc hf ?_
          rwa [List.take_append_of_le_length (by omega)]
    · rw [ShortRequest, if_neg (by rw [hhq]; simpa using hc)] at hs
      rw [parseRequest_of_head hhq hc, parseRequest_of_head hh hc]
      exact parseInline_cut hs

/-- An array with a bulk string whose length line is not short has a prefix that is refused. -/
theorem parseArray_refused {input : Bytes} {e : Nat} {argc : Int} (hh : input.head? = some 42)
    (hf : findCrlf input = some e) (ha : parseInt ((input.take e).drop 1) = some argc)
    (hne : ∀ e, parseRequest input ≠ .error e) (hs : ¬ ShortBulks argc.toNat (input.drop (e + 2))) :
    ∃ p q msg, input = p ++ q ∧ q ≠ [] ∧ parseRequest p = .error msg := by
  have hlen := (Framework.find2_eq_some hf).2
  have hel : (input.take (e + 2)).length = e + 2 := by rw [List.length_take]; omega
  have hpos : ¬ argc > kMaxMultibulkLength ∧ ¬ argc ≤ 0 := by
    constructor
    · intro hgt
      exact hne _ (by rw [parseRequest_of_some hh hf, parseArray]; simp only [ha, if_pos hgt]; rfl)
    · intro hle
      rw [Int.toNat_of_nonpos hle] at hs
      exact hs trivial
  have hbulks : ∀ e', parseBulks argc.toNat (e + 2) (input.drop (e + 2)) [] ≠ .error e' := by
    intro e' he'
    refine hne e' ?_
    rw [parseRequest_of_some hh hf, parseArray]
    simp only [ha, if_neg hpos.1, if_neg hpos.2, he']
  obtain ⟨p, q, he, hq, hp⟩ := parseBulks_refused hbulks hs
  have hsplit : input = (input.take (e + 2) ++ p) ++ q := by
    rw [List.append_assoc, ← he, List.take_append_drop]
  refine ⟨input.take (e + 2) ++ p, q, tooBigBulkCount, hsplit, hq, ?_⟩
  have hf' : findCrlf (input.take (e + 2) ++ p) = some e := by
    refine Framework.find2_left_some (m := q) (by rwa [← hsplit]) ?_
    rw [List.length_append]; omega
  have hh' : (input.take (e + 2) ++ p).head? = some 42 := by
    rw [List.head?_append, List.head?_take, if_neg (by omega), hh]; rfl
  rw [parseRequest_of_some hh' hf', parseArray, List.take_append_of_le_length (by omega),
    List.take_take, Nat.min_eq_left (by omega)]
  simp only [ha, if_neg hpos.1, if_neg hpos.2, List.drop_left' hel]
  exact hp

/-- A request with a line that is not short has a prefix that is refused. -/
theorem parseRequest_refused {input : Bytes} (hne : ∀ e, parseRequest input ≠ .error e)
    (hs : ¬ ShortRequest input) :
    ∃ p q msg, input = p ++ q ∧ q ≠ [] ∧ parseRequest p = .error msg := by
  cases hh : input.head? with
  | none =>
    obtain rfl := List.head?_eq_none_iff.mp hh
    exact absurd (by rw [ShortRequest, if_neg (by simp)]; intro e he; cases he) hs
  | some c =>
    by_cases hc : c = 42
    · subst hc
      rw [ShortRequest, if_pos hh] at hs
      by_cases hline : ShortLine kMaxCountLine input
      · -- The count line is short, so the long line is one of the bulk strings'.
        simp only [hline, true_and, not_forall] at hs
        obtain ⟨e, argc, hf, ha, hs⟩ := hs
        exact parseArray_refused hh hf ha hne hs
      · simp only [ShortLine, not_forall] at hline
        obtain ⟨e, hf, he⟩ := hline
        obtain ⟨hl, hd, hn, hh'⟩ := take_crlf hf
        refine ⟨input.take (e + 1), input.drop (e + 1), tooBigMbulkCount,
          (List.take_append_drop _ _).symm, hd, ?_⟩
        rw [parseRequest_of_none (hh'.trans hh) hn, if_pos (by omega)]
    · rw [ShortRequest, if_neg (by rw [hh]; simpa using hc)] at hs
      simp only [ShortLine, not_forall] at hs
      obtain ⟨e, hf, he⟩ := hs
      obtain ⟨hl, hd, hn, hh'⟩ := take_crlf hf
      refine ⟨input.take (e + 1), input.drop (e + 1), tooBigInline,
        (List.take_append_drop _ _).symm, hd, ?_⟩
      rw [parseRequest_of_head (hh'.trans hh) hc, parseInline]
      simp only [hn, if_pos (show (input.take (e + 1)).length > kMaxInlineLength by omega)]

end RP
