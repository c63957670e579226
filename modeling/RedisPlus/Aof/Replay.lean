import RedisPlus.Aof.Basic
import RedisPlus.Resp.Encode

/-!
# What a replay makes of a file

Of a log that was cut, a replay applies the commands that are whole and reports the rest as torn
(`replay_torn`).

Of other contents it should apply nothing but multibulk requests, and return true only if there
are such requests and the beginning of another. But it reads the file with the parser that
clients' requests are read with, which knows inline lines too, and which waits for more of a line
before it looks at it (`replay_inline`). What it takes off the file are the requests of the whole
grammar (`Splits`), so it is right exactly where none of them is an inline line and the rest can
be completed (`replay_rejects_iff`).
-/

namespace RP

open Framework (Drains Rest Numeral)

/-- A command that the log may hold: not empty, and within the parser's limits. -/
structure Loggable (args : Args) : Prop extends Within args where
  ne_nil : args ≠ []

theorem dispatched_loggable {A : List Args} (hA : ∀ args ∈ A, Loggable args) : dispatched A = A := by
  refine List.filter_eq_self.mpr fun args h => ?_
  simpa using (hA args h).ne_nil

namespace Aof

/-! ## Logs that were cut -/

theorem length_encs_take_le {A : List Args} {i j : Nat} (h : i ≤ j) :
    (encs (A.take i)).length ≤ (encs (A.take j)).length := by
  have htake : A.take j = A.take i ++ (A.take j).drop i := by
    conv_lhs => rw [← List.take_append_drop i (A.take j)]
    rw [List.take_take, Nat.min_eq_left h]
  rw [htake, encs_append, List.length_append]
  omega

/-- The log of `A`, cut after `n` bytes: the replay returns true, applies the commands whose
encodings lie within these bytes, and reports the others as torn. -/
theorem replay_torn {A : List Args} (hA : ∀ args ∈ A, Loggable args) {n : Nat}
    (hn : n ≤ (encs A).length) :
    ∃ k ≤ A.length, (∀ i < A.length, i < k ↔ (encs (A.take (i + 1))).length ≤ n) ∧
      replay (some ((encs A).take n)) = ⟨A.take k, .ok (n - (encs (A.take k)).length)⟩ := by
  have hW : ∀ args ∈ A, commandCode.ok args := fun args h => (hA args h).toWithin
  obtain ⟨k, t, hcut, hd, ht⟩ := commandCode.torn hW (List.take_append_drop n (encs A)).symm
  have hmin : A.take (min k A.length) = A.take k := List.take_eq_take_iff.mpr (by omega)
  have hlen : (encs (A.take k)).length + t.length = n := by
    have := congrArg List.length hcut
    rw [List.length_take_of_le hn, List.length_append] at this
    exact this.symm
  -- the first command that is not applied ends behind the cut
  have hnext (hk : k < A.length) : n < (encs (A.take (k + 1))).length := by
    rw [List.take_add_one, encs_append, List.length_append, List.getElem?_eq_getElem hk,
      Option.toList_some, encs_singleton]
    rcases ht with rfl | ⟨r, u, hr, he, hu⟩
    · have := length_encode_pos A[k]
      rw [List.length_nil] at hlen
      omega
    · rw [List.getElem?_eq_getElem hk] at hr
      rw [Option.some.inj hr, ← commandCode_enc, he, List.length_append]
      have := List.length_pos_of_ne_nil hu
      omega
  refine ⟨min k A.length, Nat.min_le_right _ _, fun i hi => ⟨fun hik => ?_, fun hle => ?_⟩, ?_⟩
  · have := length_encs_take_le (A := A) (show i + 1 ≤ k by omega)
    omega
  · by_contra hik
    have hk : k ≤ i := by omega
    have := length_encs_take_le (A := A) (Nat.add_le_add_right hk 1)
    have := hnext (by omega)
    omega
  · have hAk : ∀ args ∈ A.take k, Loggable args := fun args h => hA args (List.mem_of_mem_take h)
    rw [replay_drains hd, dispatched_loggable hAk, hmin, replayEnd]
    congr 2
    omega

/-- A log of two commands, of 27 and 20 bytes. -/
def setDel : List Args := [[str "SET", str "k", str "v"], [str "DEL", str "k"]]

theorem replay_torn_second :
    replay (some ((encs setDel).take 30)) = ⟨[[str "SET", str "k", str "v"]], .ok 3⟩ := by
  have hA : ∀ args ∈ setDel, Loggable args := by
    simp only [setDel, List.forall_mem_cons, List.not_mem_nil, false_implies, implies_true, and_true]
    exact ⟨⟨by decide, by decide⟩, ⟨by decide, by decide⟩⟩
  obtain ⟨k, -, hk, hreplay⟩ := replay_torn hA (show 30 ≤ (encs setDel).length by decide)
  have h0 : 0 < k := (hk 0 (by decide)).mpr (by decide)
  have h1 : ¬ 1 < k := fun h => absurd ((hk 1 (by decide)).mp h) (by decide)
  obtain rfl : k = 1 := by omega
  rw [hreplay]
  rfl

/-! ## Any contents -/

/-- A request that is an array. -/
def Multibulk (req : Bytes) (args : Args) : Prop := Request req args ∧ req.head? = some 42

/-- The proper beginning of an array. -/
def Completable (t : Bytes) : Prop := ∃ u args, u ≠ [] ∧ Multibulk (t ++ u) args

/-- Arrays, and the proper beginning of another. -/
def WellFramed (content : Bytes) : Prop :=
  ∃ (reqs : List (Bytes × Args)) (t : Bytes), content = reqs.flatMap Prod.fst ++ t ∧
    (∀ r ∈ reqs, Multibulk r.1 r.2) ∧ Completable t

/-- The bytes of the commands that the loop of `replay` applies, with their arguments. -/
def taken : Nat → Bytes → List (Bytes × Args)
  | 0, _ => []
  | fuel + 1, remaining =>
    if remaining = [] then []
    else match parseRequest remaining with
      | .ok args n =>
        let rest := taken fuel (remaining.drop n)
        if args = [] then rest else (remaining.take n, args) :: rest
      | _ => []

/-- They are what a replay applies. -/
theorem applied_eq_taken (size : Nat) : ∀ (fuel : Nat) (s : Bytes),
    (replayLoop size fuel s).applied = (taken fuel s).map Prod.snd
  | 0, _ => rfl
  | fuel + 1, s => by
    unfold replayLoop taken
    split
    · rfl
    · cases parseRequest s with
      | incomplete => rfl
      | error e => rfl
      | ok args n =>
        have ih := applied_eq_taken size fuel (s.drop n)
        simp only
        split
        · exact ih
        · simp only [List.map_cons, ih]

/-- The requests at the front of a byte string, in the whole grammar, and the rest, at whose
front there is none. -/
inductive Splits : Bytes → List (Bytes × Args) → Bytes → Prop where
  | rest {t : Bytes} (h : ∀ c args, ¬ Request (t.take c) args) : Splits t [] t
  | cons {req s t : Bytes} {args : Args} {reqs : List (Bytes × Args)} (h : Request req args)
    (hs : Splits s reqs t) : Splits (req ++ s) ((req, args) :: reqs) t

/-- `parse_request` refuses what is left. -/
def Refused (t : Bytes) : Prop := ∃ e, parseRequest t = .error e

theorem no_request_iff {t : Bytes} :
    (∀ c args, ¬ Request (t.take c) args) ↔ ∀ args c, parseRequest t ≠ .ok args c := by
  constructor
  · exact fun h args c hp => h c args (request_of_parseRequest hp)
  · intro h c args hreq
    have hp := parseRequest_of_request hreq (t.drop c)
    rw [List.take_append_drop] at hp
    exact h _ _ hp

/-- Two requests at the front of one input are the same. -/
theorem request_unique {req req' s s' : Bytes} {args args' : Args} (h : Request req args)
    (h' : Request req' args') (he : req ++ s = req' ++ s') : req = req' ∧ args = args' ∧ s = s' := by
  have hp := parseRequest_of_request h s
  rw [he, parseRequest_of_request h' s', Framework.Outcome.ok.injEq] at hp
  obtain ⟨hreq, hs⟩ := List.append_inj he hp.2.symm
  exact ⟨hreq, hp.1.symm, hs⟩

namespace Splits

theorem total (s : Bytes) : ∃ reqs t, Splits s reqs t := by
  induction hl : s.length using Nat.strong_induction_on generalizing s with
  | _ k ih =>
    cases h : parseRequest s with
    | incomplete => exact ⟨[], s, .rest (no_request_iff.mpr (by simp [h]))⟩
    | error e => exact ⟨[], s, .rest (no_request_iff.mpr (by simp [h]))⟩
    | ok args n =>
      obtain ⟨hn, hle⟩ := parseRequest_consumes h
      obtain ⟨reqs, t, hs⟩ := ih (s.drop n).length (by rw [List.length_drop]; omega) _ rfl
      have hsplit := hs.cons (request_of_parseRequest h)
      rw [List.take_append_drop] at hsplit
      exact ⟨_, t, hsplit⟩

variable {s t : Bytes} {reqs : List (Bytes × Args)}

theorem eq (h : Splits s reqs t) : s = reqs.flatMap Prod.fst ++ t := by
  induction h with
  | rest => rfl
  | cons _ _ ih => rw [List.flatMap_cons, List.append_assoc, ← ih]

theorem request (h : Splits s reqs t) : ∀ r ∈ reqs, Request r.1 r.2 := by
  induction h with
  | rest => simp
  | cons hreq _ ih => exact List.forall_mem_cons.mpr ⟨hreq, ih⟩

/-- The loop takes off these requests, and ends where there is none. -/
theorem drains (h : Splits s reqs t) :
    Refused t ∧ (∃ e, Drains requestParser s (reqs.map Prod.snd) (.broken e t)) ∨
      ¬ Refused t ∧ Drains requestParser s (reqs.map Prod.snd) (.left t) := by
  induction h with
  | @rest t hno =>
    have hne := no_request_iff.mp hno
    cases hp : parseRequest t with
    | ok args c => exact absurd hp (hne args c)
    | incomplete =>
      refine .inr ⟨?_, .stop hp⟩
      rintro ⟨e, he⟩
      rw [hp] at he
      cases he
    | error e => exact .inl ⟨⟨e, hp⟩, e, .fail hp⟩
  | @cons req s t args reqs hreq _ ih =>
    have hp : requestParser.parse (req ++ s) = .ok args req.length := parseRequest_of_request hreq s
    rcases ih with ⟨hr, e, hd⟩ | ⟨hr, hd⟩
    · refine .inl ⟨hr, e, .step hp ?_⟩
      rwa [List.drop_left]
    · refine .inr ⟨hr, .step hp ?_⟩
      rwa [List.drop_left]

theorem result_ok_iff (h : Splits s reqs t) : (∃ n, (replay (some s)).result = .ok n) ↔ ¬ Refused t := by
  rcases h.drains with ⟨hr, e, hd⟩ | ⟨hr, hd⟩
  · rw [replay_drains hd, replayEnd]
    simp [hr]
  · rw [replay_drains hd, replayEnd]
    simp [hr]

/-- It applies those that are not empty. -/
theorem taken_eq (h : Splits s reqs t) : ∀ {fuel : Nat}, s.length < fuel →
    taken fuel s = reqs.filter fun r => r.2 ≠ [] := by
  induction h with
  | @rest t hno =>
    intro fuel hf
    obtain ⟨fuel, rfl⟩ := Nat.exists_eq_succ_of_ne_zero (show fuel ≠ 0 by omega)
    unfold taken
    split
    · rfl
    · cases hp : parseRequest t with
      | ok args c => exact absurd hp (no_request_iff.mp hno args c)
      | incomplete => rfl
      | error e => rfl
  | @cons req s t args reqs hreq _ ih =>
    intro fuel hf
    obtain ⟨fuel, rfl⟩ := Nat.exists_eq_succ_of_ne_zero (show fuel ≠ 0 by omega)
    have hp := parseRequest_of_request hreq s
    obtain ⟨hpos, -⟩ := parseRequest_consumes hp
    rw [List.length_append] at hf
    have hne : req ++ s ≠ [] := by
      rw [← List.length_pos_iff, List.length_append]
      omega
    rw [taken, if_neg hne, hp]
    simp only [List.drop_left, List.take_left, ih (show s.length < fuel by omega)]
    by_cases hargs : args = [] <;> simp [hargs]

/-- The framing is that of the requests of the whole grammar. -/
theorem wellFramed_iff (h : Splits s reqs t) :
    WellFramed s ↔ (∀ r ∈ reqs, r.1.head? = some 42) ∧ Completable t := by
  constructor
  · rintro ⟨reqs', t', he, hreqs', ht'⟩
    induction h generalizing reqs' with
    | @rest s hno =>
      cases reqs' with
      | nil =>
        obtain rfl : s = t' := he
        exact ⟨by simp, ht'⟩
      | cons r reqs' =>
        have hreq := (hreqs' r List.mem_cons_self).1
        rw [List.flatMap_cons, List.append_assoc] at he
        refine absurd ?_ (hno r.1.length r.2)
        rwa [he, List.take_left]
    | @cons req s t args reqs hreq _ ih =>
      cases reqs' with
      | nil =>
        -- a proper prefix of a request has no request at its front
        obtain rfl : req ++ s = t' := he
        obtain ⟨u, args', hu, hm, -⟩ := ht'
        have hnil := (request_unique hreq hm (show req ++ (s ++ u) = req ++ s ++ u ++ [] by simp)).2.2
        exact absurd (List.append_eq_nil_iff.mp hnil).2 hu
      | cons r reqs' =>
        rw [List.flatMap_cons, List.append_assoc] at he
        obtain ⟨hr, hm⟩ := List.forall_mem_cons.mp hreqs'
        obtain ⟨hreq', -, hs⟩ := request_unique hreq hr.1 he
        obtain ⟨hheads, ht⟩ := ih reqs' hs hm
        refine ⟨List.forall_mem_cons.mpr ⟨?_, hheads⟩, ht⟩
        rw [hreq']
        exact hr.2
  · rintro ⟨hheads, ht⟩
    exact ⟨reqs, t, h.eq, fun r hr => ⟨h.request r hr, hheads r hr⟩, ht⟩

end Splits

/-- A replay is right about `content` exactly where, of the requests in it, those with arguments
are arrays; and, unless the rest is refused, all are, and the rest can be completed to one. -/
theorem replay_rejects_iff {content t : Bytes} {reqs : List (Bytes × Args)} (h : Splits content reqs t) :
    ((∀ n, (replay (some content)).result = .ok n → WellFramed content) ∧
      ∀ r ∈ taken (content.length + 1) content, Multibulk r.1 r.2) ↔
    (∀ r ∈ reqs, r.2 ≠ [] → r.1.head? = some 42) ∧
      (Refused t ∨ (∀ r ∈ reqs, r.1.head? = some 42) ∧ Completable t) := by
  have htaken : (∀ r ∈ taken (content.length + 1) content, Multibulk r.1 r.2) ↔
      ∀ r ∈ reqs, r.2 ≠ [] → r.1.head? = some 42 := by
    rw [h.taken_eq (Nat.lt_succ_self _)]
    constructor
    · exact fun hm r hr hne => (hm r (List.mem_filter.mpr ⟨hr, by simpa using hne⟩)).2
    · intro hm r hr
      obtain ⟨hr, hne⟩ := List.mem_filter.mp hr
      exact ⟨h.request r hr, hm r hr (by simpa using hne)⟩
  have hresult : (∀ n, (replay (some content)).result = .ok n → WellFramed content) ↔
      Refused t ∨ WellFramed content := by
    constructor
    · intro hok
      by_cases hr : Refused t
      · exact .inl hr
      · obtain ⟨n, hn⟩ := h.result_ok_iff.mpr hr
        exact .inr (hok n hn)
    · rintro (hr | hw) n hn
      · exact absurd hr (h.result_ok_iff.mp ⟨n, hn⟩)
      · exact hw
  rw [htaken, hresult, h.wellFramed_iff, and_comm]

/-- A log of a command and the beginning of another. -/
theorem replay_rejects_torn :
    (replay (some (encode [str "DEL", str "k"] ++ str "*1\r\n$4\r\nQU"))).result = .ok 10 ∧
      WellFramed (encode [str "DEL", str "k"] ++ str "*1\r\n$4\r\nQU") := by
  have hrest : Splits (str "*1\r\n$4\r\nQU") [] (str "*1\r\n$4\r\nQU") := by
    have hp : parseRequest (str "*1\r\n$4\r\nQU") = .incomplete := by decide
    exact .rest (no_request_iff.mpr (by simp [hp]))
  have hdel : Request (encode [str "DEL", str "k"]) [str "DEL", str "k"] := request_encode (by decide)
  have hquit : Completable (str "*1\r\n$4\r\nQU") :=
    ⟨str "IT\r\n", [str "QUIT"], by decide,
      (by decide : encode [str "QUIT"] = str "*1\r\n$4\r\nQU" ++ str "IT\r\n") ▸ request_encode (by decide),
      by decide⟩
  have hheads : ∀ r ∈ [(encode [str "DEL", str "k"], [str "DEL", str "k"])], r.1.head? = some 42 := by decide
  have hok : (replay (some (encode [str "DEL", str "k"] ++ str "*1\r\n$4\r\nQU"))).result = .ok 10 := by
    decide
  exact ⟨hok, ((replay_rejects_iff (hrest.cons hdel)).mpr
    ⟨fun r hr _ => hheads r hr, .inr ⟨hheads, hquit⟩⟩).1 10 hok⟩

/-- After the `'*'` of a request comes a number. -/
theorem not_request_star {c : UInt8} (hc : Framework.isDigit c = false) (h45 : c ≠ 45) (h43 : c ≠ 43)
    (s : Bytes) (args : Args) : ¬ Request (42 :: c :: s) args := by
  have hline {ds t : Bytes} {i : Int} (hds : Numeral ds i) (he : 42 :: c :: s = 42 :: ds ++ t) : False := by
    cases ds with
    | nil => exact hds.ne_nil rfl
    | cons d ds =>
      obtain rfl : c = d := (List.cons.inj (List.cons.inj he).2).1
      exact hds.not_mem hc h45 h43 List.mem_cons_self
  generalize he : (42 :: c :: s : Bytes) = req
  intro h
  cases h with
  | empty hargc => exact hline hargc he
  | array hargc => exact hline hargc (by rw [he, List.append_assoc])
  | @inline line hhead =>
    cases line with
    | nil => exact absurd (List.cons.inj he).1 (by decide)
    | cons d line =>
      obtain rfl : 42 = d := (List.cons.inj he).1
      exact hhead rfl

/-- An inline line is taken for a command, and a line that is no number for the beginning of an
array. -/
theorem replay_inline :
    replay (some (str "FLUSHALL\r\n")) = ⟨[[str "FLUSHALL"]], .ok 0⟩ ∧
      ¬ WellFramed (str "FLUSHALL\r\n") ∧
      replay (some (str "*x")) = ⟨[], .ok 2⟩ ∧ ¬ WellFramed (str "*x") := by
  refine ⟨rfl, fun h => ?_, rfl, fun h => ?_⟩
  · have hp : parseRequest (str "FLUSHALL\r\n") = .ok [str "FLUSHALL"] 10 := by decide
    have hsplit : Splits (str "FLUSHALL\r\n") [(str "FLUSHALL\r\n", [str "FLUSHALL"])] [] :=
      .cons (request_of_parseRequest hp) (.rest (no_request_iff.mpr (by simp [parseRequest])))
    have hhead := (hsplit.wellFramed_iff.mp h).1 _ List.mem_cons_self
    exact absurd hhead (by decide)
  · have hp : parseRequest (str "*x") = .incomplete := by decide
    have hsplit : Splits (str "*x") [] (str "*x") := .rest (no_request_iff.mpr (by simp [hp]))
    obtain ⟨u, args, -, hm, -⟩ := (hsplit.wellFramed_iff.mp h).2
    exact not_request_star (c := 120) (by decide) (by decide) (by decide) u args hm

end Aof

end RP
