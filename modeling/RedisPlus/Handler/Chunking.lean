import RedisPlus.Handler.Basic

/-!
# Requests in any chunks

How the bytes of a connection are split into reads should make no difference to what is
dispatched, replied and left unread. It makes none where every request has short header
lines (`Framework.Steady.feeds`). Where one has not, some split has a prefix of the request
refused as too big, and the handler replies with an error that the whole stream does not
get: so short lines are exactly what it takes (`chunking_iff_short`).
-/

namespace RP

open Framework (Outcome Drains Rest Reaches Stable Steady Feeds)

/-! ## The command table as a host -/

section

variable {π ρ : Type} (table : CommandTable π ρ) (amb : Ambient) (link : Option ClientLink)
  (hook : Args → Node π ρ → Node π ρ)

/-- The command table, with a buffer for its replies. -/
def tableHost : Host (Node π ρ × Buffer) where
  dispatch args s :=
    let (result, N) := dispatch table amb link args s.1
    (result, N, s.2)
  reply r s := (s.1, s.2.append r)
  propagate args s := (hook args s.1, s.2)

/-- The reply to a request, and the node after it. -/
def serve (args : Args) (N : Node π ρ) : Bytes × Node π ρ :=
  if args = [] then ([], N)
  else
    let (outcome, N) := dispatch table amb link args N
    (outcome.reply, if outcome.dirty then hook outcome.propagate N else N)

/-- Requests one after the other, and their replies together. -/
def serveAll : List Args → Node π ρ → Bytes × Node π ρ
  | [], N => ([], N)
  | args :: rs, N =>
    let (reply, N) := serve table amb link hook args N
    let (replies, N) := serveAll rs N
    (reply ++ replies, N)

theorem handleRequest_tableHost (args : Args) (N : Node π ρ) (out : Buffer) :
    ∃ out', handleRequest (tableHost table amb link hook) args (N, out) =
        ((serve table amb link hook args N).2, out') ∧
      out'.readable = out.readable ++ (serve table amb link hook args N).1 := by
  by_cases h : args = []
  · exact ⟨out, by simp [handleRequest, serve, h], by simp [serve, h]⟩
  · refine ⟨out.append (dispatch table amb link args N).1.reply, ?_, ?_⟩
    · rw [serve, if_neg h]
      by_cases hd : (dispatch table amb link args N).1.dirty = true
      · simp only [if_pos hd]
        exact handleRequest_of_dirty _ h hd
      · simp only [if_neg hd]
        exact handleRequest_of_clean _ h hd
    · simp only [serve, if_neg h, Buffer.readable_append]

theorem handleAll_tableHost : ∀ (rs : List Args) (N : Node π ρ) (out : Buffer),
    ∃ out', handleAll (tableHost table amb link hook) rs (N, out) =
        ((serveAll table amb link hook rs N).2, out') ∧
      out'.readable = out.readable ++ (serveAll table amb link hook rs N).1
  | [], N, out => ⟨out, rfl, by simp [serveAll]⟩
  | args :: rs, N, out => by
    obtain ⟨out₁, h₁, hr₁⟩ := handleRequest_tableHost table amb link hook args N out
    obtain ⟨out₂, h₂, hr₂⟩ := handleAll_tableHost rs (serve table amb link hook args N).2 out₁
    refine ⟨out₂, ?_, ?_⟩
    · rw [handleAll, List.foldl_cons, h₁]
      exact h₂
    · rw [hr₂, hr₁, List.append_assoc]; rfl

theorem serveAll_append (rs rs' : List Args) (N : Node π ρ) :
    serveAll table amb link hook (rs ++ rs') N =
      ((serveAll table amb link hook rs N).1 ++
        (serveAll table amb link hook rs' (serveAll table amb link hook rs N).2).1,
      (serveAll table amb link hook rs' (serveAll table amb link hook rs N).2).2) := by
  induction rs generalizing N with
  | nil => rfl
  | cons args rs ih => simp only [List.cons_append, serveAll, ih, List.append_assoc]

theorem serveAll_dispatched (rs : List Args) (N : Node π ρ) :
    serveAll table amb link hook (dispatched rs) N = serveAll table amb link hook rs N := by
  induction rs generalizing N with
  | nil => rfl
  | cons args rs ih =>
    rw [dispatched_cons]
    split
    · rename_i h; rw [ih, h]; rfl
    · simp only [serveAll, ih]

end

/-! ## Streams without a protocol error -/

/-- No input that taking requests off `s` leads to is refused. -/
def Accepted (s : Bytes) : Prop := ∀ s', Reaches requestParser s s' → ∀ e, parseRequest s' ≠ .error e

theorem Accepted.drop {s : Bytes} {args : Args} {n : Nat} (h : Accepted s)
    (hp : parseRequest s = .ok args n) : Accepted (s.drop n) :=
  fun s' hs' => h s' (.head ⟨args, n, hp, rfl⟩ hs')

theorem Accepted.drains {s : Bytes} (h : Accepted s) : ∃ rs l, Drains requestParser s rs (.left l) := by
  obtain ⟨rs, x, hd⟩ := Drains.total requestParser s
  induction hd with
  | stop hp => exact ⟨_, _, .stop hp⟩
  | fail hp => exact absurd hp (h _ .refl _)
  | step hp _ ih =>
    obtain ⟨rs, l, hd⟩ := ih (h.drop hp)
    exact ⟨_, _, .step hp hd⟩

theorem accepted_of_drains {s l : Bytes} {rs : List Args} (h : Drains requestParser s rs (.left l)) :
    Accepted s := by
  generalize hx : (Rest.left l : Rest UInt8 Bytes) = x at h
  induction h with
  | fail => cases hx
  | stop hp =>
    intro s' hs' e he
    rcases Relation.ReflTransGen.cases_head hs' with rfl | ⟨_, ⟨r, n, hr, -⟩, -⟩
    · rw [requestParser_parse, he] at hp; cases hp
    · rw [hp] at hr; cases hr
  | step hp _ ih =>
    intro s' hs' e he
    rcases Relation.ReflTransGen.cases_head hs' with rfl | ⟨_, ⟨r, n, hr, rfl⟩, hs''⟩
    · rw [requestParser_parse, he] at hp; cases hp
    · rw [hp] at hr; cases hr
      exact ih hx s' hs'' e he

/-- A stream with a long header line has a prefix that is refused, after the same requests. -/
theorem exists_refused {s : Bytes} {rs : List Args} {l : Bytes}
    (hd : Drains requestParser s rs (.left l)) (ha : Accepted s)
    (hs : ¬ ∀ s', Reaches requestParser s s' → ShortRequest s') :
    ∃ p q rs₁ e l', s = p ++ q ∧ q ≠ [] ∧ Drains requestParser p rs₁ (.broken e l') := by
  generalize (Rest.left l : Rest UInt8 Bytes) = x at hd
  induction hd with
  | stop hp =>
    rename_i s
    have hshort : ¬ ShortRequest s := fun hshort => hs fun s' hs' => by
      rcases Relation.ReflTransGen.cases_head hs' with rfl | ⟨_, ⟨r, n, hr, -⟩, -⟩
      · exact hshort
      · rw [hp] at hr; cases hr
    obtain ⟨p, q, msg, he, hq, hmsg⟩ := parseRequest_refused (ha s .refl) hshort
    exact ⟨p, q, [], msg, p, he, hq, .fail hmsg⟩
  | fail hp => exact absurd hp (ha _ .refl _)
  | step hp _ ih =>
    rename_i s args n rs x _
    by_cases hshort : ShortRequest s
    · obtain ⟨p, q, rs₁, e, l', he, hq, hd⟩ := ih (ha.drop hp) fun hall => hs fun s' hs' => by
        rcases Relation.ReflTransGen.cases_head hs' with rfl | ⟨_, ⟨r, m, hr, rfl⟩, hs''⟩
        · exact hshort
        · rw [hp] at hr; cases hr
          exact hall s' hs''
      have hle := (requestParser.consumes hp).2
      -- the first request is complete in the longer prefix, so it parses the same there
      have hcut := parseRequest_stable hshort (s.take n ++ p) q
        (by rw [List.append_assoc, ← he, List.take_append_drop])
      rw [hp, Outcome.cut_ok, if_pos (by simp [hle])] at hcut
      refine ⟨s.take n ++ p, q, args :: rs₁, e, l', ?_, hq, .step hcut ?_⟩
      · rw [List.append_assoc, ← he, List.take_append_drop]
      · rwa [List.drop_left' (by simp [hle])]
    · obtain ⟨p, q, msg, he, hq, hmsg⟩ := parseRequest_refused (ha s .refl) hshort
      exact ⟨p, q, [], msg, p, he, hq, .fail hmsg⟩

/-! ## Chunks -/

/-- Chunks that drain one after the other. -/
theorem onChunks_feeds {σ : Type} (H : Host σ) {cs : List Bytes} {rs : List Args} {l b : Bytes}
    (h : Feeds requestParser b cs rs l) : ∀ {buf : Buffer} (s : σ), buf.readable = b →
      ∃ b', b'.readable = l ∧ onChunks H cs buf s = ⟨dispatched rs, b', handleAll H rs s⟩ := by
  induction h with
  | nil => exact fun s hb => ⟨_, hb, rfl⟩
  | @cons b c l l' cs rs rs' hd _ ih =>
    intro buf s hb
    obtain ⟨b₁, hl, h₁⟩ := onData_drains H (b := buf.append c)
      (by rw [Buffer.readable_append, hb]; exact hd) s
    obtain ⟨b₂, hl₂, h₂⟩ := @ih b₁ (handleAll H rs s) hl
    refine ⟨b₂, hl₂, ?_⟩
    rw [onChunks, h₁]
    simp only [settle, h₂, dispatched_append, handleAll_append]

section

variable {π ρ : Type} (table : CommandTable π ρ) (amb : Ambient) (link : Option ClientLink)
  (hook : Args → Node π ρ → Node π ρ)

/-- The same commands, replies, store and unread bytes. -/
structure SameOutcome (r r' : Handled (Node π ρ × Buffer)) : Prop where
  requests : r.requests = r'.requests
  replies : r.state.2.readable = r'.state.2.readable
  store : r.state.1.store = r'.state.1.store
  unread : r.input.readable = r'.input.readable

/-- Where a chunk is refused, the replies are longer than those to the whole stream, or other
commands have been dispatched. -/
theorem not_sameOutcome_of_refused {s p l l' e : Bytes} {rs rs₁ : List Args}
    (hd : Drains requestParser s rs (.left l)) (hp : Drains requestParser p rs₁ (.broken e l'))
    (q : Bytes) (N : Node π ρ) (out : Buffer) :
    ¬ SameOutcome (onChunks (tableHost table amb link hook) [p, q] Buffer.empty (N, out))
      (onData (tableHost table amb link hook) (Buffer.empty.append s) (N, out)) := by
  intro h
  have hempty (t : Bytes) : (Buffer.empty.append t).readable = t := by
    rw [Buffer.readable_append, Buffer.readable_empty, List.nil_append]
  obtain ⟨rs₂, x, hq⟩ := Drains.total requestParser q
  obtain ⟨b, -, hwhole⟩ := onData_drains (tableHost table amb link hook)
    (b := Buffer.empty.append s) (by rw [hempty]; exact hd) (N, out)
  obtain ⟨b₁, hb₁, h₁⟩ := onData_drains (tableHost table amb link hook)
    (b := Buffer.empty.append p) (by rw [hempty]; exact hp) (N, out)
  obtain ⟨b₂, -, h₂⟩ := onData_drains (tableHost table amb link hook) (b := b₁.append q)
    (by rw [Buffer.readable_append, hb₁]; exact hq)
    (settle (tableHost table amb link hook) (.broken e l')
      (handleAll (tableHost table amb link hook) rs₁ (N, out)))
  have hparts : onChunks (tableHost table amb link hook) [p, q] Buffer.empty (N, out) =
      ⟨dispatched rs₁ ++ (dispatched rs₂ ++ []), b₂, settle (tableHost table amb link hook) x
        (handleAll (tableHost table amb link hook) rs₂ (settle (tableHost table amb link hook)
          (.broken e l') (handleAll (tableHost table amb link hook) rs₁ (N, out))))⟩ := by
    simp only [onChunks, h₁, h₂]
  rw [hwhole, hparts] at h
  obtain ⟨hreq, hrep, -, -⟩ := h
  simp only [List.append_nil] at hreq hrep
  -- the replies of the parts: those to `rs₁`, the error, and those to `rs₂`
  obtain ⟨out₁, hs₁, hr₁⟩ := handleAll_tableHost table amb link hook rs₁ N out
  obtain ⟨out₂, hs₂, hr₂⟩ := handleAll_tableHost table amb link hook rs₂
    (serveAll table amb link hook rs₁ N).2 (out₁.append (Reply.error e))
  obtain ⟨out₃, hs₃, hr₃⟩ := handleAll_tableHost table amb link hook rs N out
  have hset : settle (tableHost table amb link hook) (.broken e l')
      ((serveAll table amb link hook rs₁ N).2, out₁) =
        ((serveAll table amb link hook rs₁ N).2, out₁.append (Reply.error e)) := rfl
  rw [hs₁, hset, hs₂, hs₃] at hrep
  have hlen : out₂.readable.length ≤ (settle (tableHost table amb link hook) x
      ((serveAll table amb link hook rs₂ (serveAll table amb link hook rs₁ N).2).2, out₂)).2.readable.length := by
    cases x with
    | left => exact Nat.le_refl _
    | broken e' => simp only [settle, tableHost, Buffer.readable_append, List.length_append]; omega
  rw [hrep] at hlen
  have herr : 0 < (Reply.error e).length := by simp [Reply.error, show (str "-").length = 1 by decide]
  have hserve := serveAll_append table amb link hook rs₁ rs₂ N
  rw [← serveAll_dispatched, dispatched_append, hreq, serveAll_dispatched] at hserve
  simp only [settle, hr₂, hr₃, hserve, Buffer.readable_append, hr₁, List.length_append] at hlen
  omega

/-- For a stream without protocol errors: every split of it into chunks gives the same
commands, replies, store and unread bytes as the whole, exactly when every request it drains
to has short header lines. -/
theorem chunking_iff_short {s : Bytes} (ha : Accepted s) (N : Node π ρ) (out : Buffer) :
    (∀ cs : List Bytes, (∀ c ∈ cs, c ≠ []) → cs.flatten = s →
      SameOutcome (onChunks (tableHost table amb link hook) cs Buffer.empty (N, out))
        (onData (tableHost table amb link hook) (Buffer.empty.append s) (N, out))) ↔
    ∀ s', Reaches requestParser s s' → ShortRequest s' := by
  obtain ⟨rs, l, hd⟩ := ha.drains
  constructor
  · intro h
    by_contra hs
    obtain ⟨p, q, rs₁, e, l', he, hq, hp⟩ := exists_refused hd ha hs
    have hp0 : p ≠ [] := by
      rintro rfl
      have := hp.det (.stop commandCode.parse_nil)
      exact absurd this.2 (by simp)
    exact not_sameOutcome_of_refused table amb link hook hd hp q N out
      (h [p, q] (by simp [hp0, hq]) (by simp [he]))
  · intro hs cs _ hflat
    have hsteady : Steady requestParser s := fun s' hs' => parseRequest_stable (hs s' hs')
    have hfeeds : Feeds requestParser [] cs rs l := by
      refine Steady.feeds commandCode.parse_nil ?_ ?_
      · rw [List.nil_append, hflat]; exact hsteady
      · rw [List.nil_append, hflat]; exact hd
    obtain ⟨b, hb, hparts⟩ := onChunks_feeds (tableHost table amb link hook) hfeeds (N, out)
      Buffer.readable_empty
    obtain ⟨b', hb', hwhole⟩ := onData_drains (tableHost table amb link hook)
      (b := Buffer.empty.append s) (by rw [Buffer.readable_append]; exact hd) (N, out)
    rw [hparts, hwhole]
    exact ⟨rfl, rfl, rfl, hb.trans hb'.symm⟩

end

/-- A server without persistence, replication or a hook. -/
def bareHost : Host (Node Unit Unit × Buffer) := tableHost {} ⟨0, []⟩ none fun _ N => N

/-- An encoded command, in any chunks. -/
theorem chunking_ping :
    Accepted (encode [str "PING"]) ∧
    ∀ cs : List Bytes, (∀ c ∈ cs, c ≠ []) → cs.flatten = encode [str "PING"] →
      SameOutcome (onChunks bareHost cs Buffer.empty (bareNode, Buffer.empty))
        (onData bareHost (Buffer.empty.append (encode [str "PING"])) (bareNode, Buffer.empty)) := by
  have hd : Drains requestParser (encode [str "PING"]) [[str "PING"]] (.left []) :=
    .step (n := 14) (by decide) (.stop (by decide))
  have ha := accepted_of_drains hd
  refine ⟨ha, (chunking_iff_short {} ⟨0, []⟩ none (fun _ N => N) ha bareNode Buffer.empty).mpr ?_⟩
  intro s' hs'
  rcases Relation.ReflTransGen.cases_head hs' with rfl | ⟨_, ⟨r, n, hr, rfl⟩, hs''⟩
  · exact shortRequest_encode ⟨by decide, by decide⟩
  · have hn : n = 14 := by
      have hp : requestParser.parse (encode [str "PING"]) = .ok [str "PING"] 14 := by decide
      rw [hp] at hr; cases hr; rfl
    subst hn
    rcases Relation.ReflTransGen.cases_head hs'' with rfl | ⟨_, ⟨r, n, hr, -⟩, -⟩
    · rw [ShortRequest, if_neg (by decide)]
      intro e he
      rw [show findCrlf ((encode [str "PING"]).drop 14) = none by decide] at he
      cases he
    · exact absurd hr (by rw [show requestParser.parse _ = .incomplete by decide]; simp)

/-- An argument count padded to 65 digits. -/
def paddedCount : Bytes := str "*" ++ List.replicate 64 48

/-- The rest of that request. -/
def paddedRest : Bytes := str "1\r\n$4\r\nPING\r\n"

/-- Whole, the request is dispatched; in two chunks, its first one is refused. -/
theorem chunking_padded_count :
    Accepted (paddedCount ++ paddedRest) ∧
    (onData bareHost (Buffer.empty.append (paddedCount ++ paddedRest))
      (bareNode, Buffer.empty)).requests = [[str "PING"]] ∧
    (onChunks bareHost [paddedCount, paddedRest] Buffer.empty (bareNode, Buffer.empty)).requests =
      [[str "1"], [str "$4"], [str "PING"]] := by
  have hdrains : Drains requestParser (paddedCount ++ paddedRest) [[str "PING"]] (.left []) :=
    .step (n := 78) (by decide) (.stop (by decide))
  exact ⟨accepted_of_drains hdrains, by decide, by decide⟩

end RP
