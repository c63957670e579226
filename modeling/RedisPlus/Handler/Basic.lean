import RedisPlus.Buffer
import RedisPlus.Command.Dispatch

/-!
# The request handler

`onData` takes requests off the input buffer while there are complete ones, dispatches each,
appends its reply to the output and hands what it propagates to the hook. What it calls is a
`Host`, so that the output can be a buffer of its own or a connection's.

What a call does is given by how its input drains (`onData_drains`).
-/

namespace RP

open Framework (Outcome Drains Rest)

/-- What `on_data` calls: the command table, the output buffer and the propagation hook. -/
structure Host (σ : Type) where
  dispatch : Args → σ → CommandResult × σ
  /-- `out.append` -/
  reply : Bytes → σ → σ
  propagate : Args → σ → σ

/-- After a call: the requests that were dispatched, whose number `on_data` returns, the input
buffer, and the host's state. -/
structure Handled (σ : Type) where
  requests : List Args
  input : Buffer
  state : σ

section

variable {σ : Type} (H : Host σ)

/-- The body of the loop for one request. -/
def handleRequest (args : Args) (s : σ) : σ :=
  if args = [] then s
  else
    let (outcome, s) := H.dispatch args s
    let s := H.reply outcome.reply s
    if outcome.dirty then H.propagate outcome.propagate s else s

theorem handleRequest_of_dirty {args : Args} (h : args ≠ []) {s : σ}
    (hd : (H.dispatch args s).1.dirty = true) : handleRequest H args s =
      H.propagate (H.dispatch args s).1.propagate
        (H.reply (H.dispatch args s).1.reply (H.dispatch args s).2) :=
  (if_neg h).trans (if_pos hd)

theorem handleRequest_of_clean {args : Args} (h : args ≠ []) {s : σ}
    (hd : ¬ (H.dispatch args s).1.dirty = true) :
    handleRequest H args s = H.reply (H.dispatch args s).1.reply (H.dispatch args s).2 :=
  (if_neg h).trans (if_neg hd)

/-- The loop of `on_data`, which takes at least one byte off its buffer each time. -/
def onDataLoop : Nat → Buffer → σ → Handled σ
  | 0, b, s => ⟨[], b, s⟩
  | fuel + 1, b, s =>
    match parseRequest b.readable with
    | .incomplete => ⟨[], b, s⟩
    | .error e => ⟨[], Buffer.empty, H.reply (Reply.error e) s⟩
    | .ok args n =>
      let r := onDataLoop fuel (b.consume n) (handleRequest H args s)
      if args = [] then r else { r with requests := args :: r.requests }

/-- `RespHandler::on_data` -/
def onData (b : Buffer) (s : σ) : Handled σ := onDataLoop H (b.size + 1) b s

/-- Requests one after the other. -/
def handleAll (rs : List Args) (s : σ) : σ := rs.foldl (fun s args => handleRequest H args s) s

theorem handleAll_append (rs rs' : List Args) (s : σ) :
    handleAll H (rs ++ rs') s = handleAll H rs' (handleAll H rs s) := List.foldl_append

/-- The requests that are dispatched: "*0" and blank lines are not. -/
def dispatched (rs : List Args) : List Args := rs.filter fun args => !args.isEmpty

theorem dispatched_cons (args : Args) (rs : List Args) :
    dispatched (args :: rs) = if args = [] then dispatched rs else args :: dispatched rs := by
  cases args <;> rfl

theorem dispatched_append (rs rs' : List Args) :
    dispatched (rs ++ rs') = dispatched rs ++ dispatched rs' := List.filter_append ..

/-- What is unread once the input has drained: nothing, after a protocol error. -/
def unread : Rest UInt8 Bytes → Bytes
  | .left l => l
  | .broken _ _ => []

/-- A protocol error is replied to. -/
def settle : Rest UInt8 Bytes → σ → σ
  | .left _, s => s
  | .broken e _, s => H.reply (Reply.error e) s

theorem onDataLoop_drains {rs : List Args} {s : Bytes} {x : Rest UInt8 Bytes}
    (h : Drains requestParser s rs x) {fuel : Nat} (hf : s.length < fuel) :
    ∀ (b : Buffer) (t : σ), b.readable = s → ∃ b', b'.readable = unread x ∧
      onDataLoop H fuel b t = ⟨dispatched rs, b', settle H x (handleAll H rs t)⟩ := by
  refine Drains.fuel_induction (motive := fun fuel s rs x => ∀ (b : Buffer) (t : σ), b.readable = s →
    ∃ b', b'.readable = unread x ∧
      onDataLoop H fuel b t = ⟨dispatched rs, b', settle H x (handleAll H rs t)⟩) ?_ ?_ ?_ h hf
  · intro fuel s h b t hb
    rw [← hb, requestParser_parse] at h
    exact ⟨b, hb, by simp only [onDataLoop, h]; rfl⟩
  · intro fuel s e h b t hb
    rw [← hb, requestParser_parse] at h
    exact ⟨Buffer.empty, rfl, by simp only [onDataLoop, h]; rfl⟩
  · intro fuel s args n rs x h ih b t hb
    obtain ⟨b', hl, hloop⟩ := ih (b.consume n) (handleRequest H args t) (by rw [Buffer.readable_consume, hb])
    rw [← hb, requestParser_parse] at h
    refine ⟨b', hl, ?_⟩
    simp only [onDataLoop, h, hloop, dispatched_cons]
    split <;> rfl

/-- A call handles what its input drains to. -/
theorem onData_drains {rs : List Args} {b : Buffer} {x : Rest UInt8 Bytes}
    (h : Drains requestParser b.readable rs x) (s : σ) :
    ∃ b', b'.readable = unread x ∧
      onData H b s = ⟨dispatched rs, b', settle H x (handleAll H rs s)⟩ :=
  onDataLoop_drains H h (by rw [Buffer.length_readable]; omega) b s rfl

/-- A call handles requests one after the other, and then may refuse one. -/
theorem onData_state (b : Buffer) (s : σ) : ∃ (rs : List Args) (errors : List Bytes),
    (onData H b s).state = errors.foldl (fun s e => H.reply (Reply.error e) s) (handleAll H rs s) := by
  obtain ⟨rs, x, hd⟩ := Drains.total requestParser b.readable
  obtain ⟨b', -, hdata⟩ := onData_drains H hd s
  rw [hdata]
  rcases x with _ | ⟨e, _⟩
  · exact ⟨rs, [], rfl⟩
  · exact ⟨rs, [e], rfl⟩

/-- What the host's operations keep, a call keeps. -/
theorem onData_keeps {I : σ → Prop} (hdispatch : ∀ args s, I s → I (H.dispatch args s).2)
    (hreply : ∀ r s, I s → I (H.reply r s)) (hpropagate : ∀ args s, I s → I (H.propagate args s))
    (b : Buffer) {s : σ} (h : I s) : I (onData H b s).state := by
  have hrequest (args : Args) (s : σ) (h : I s) : I (handleRequest H args s) := by
    unfold handleRequest
    split
    · exact h
    · have hreplied := hreply (H.dispatch args s).1.reply _ (hdispatch args s h)
      dsimp only
      split
      · exact hpropagate _ _ hreplied
      · exact hreplied
  obtain ⟨rs, errors, hstate⟩ := onData_state H b s
  rw [hstate]
  exact List.foldlRecOn errors _ (List.foldlRecOn rs _ h fun s hs args _ => hrequest args s hs)
    fun s hs e _ => hreply _ s hs

/-- The error that `parse_request` returns in the loop of `on_data`, if it does. -/
def parseErrorLoop : Nat → Buffer → Option Bytes
  | 0, _ => none
  | fuel + 1, b =>
    match parseRequest b.readable with
    | .incomplete => none
    | .error e => some e
    | .ok _ n => parseErrorLoop fuel (b.consume n)

/-- The error that `parse_request` returns in a call of `on_data`, if it does. -/
def parseError (b : Buffer) : Option Bytes := parseErrorLoop (b.size + 1) b

/-- The error that draining ended in. -/
def restError : Rest UInt8 Bytes → Option Bytes
  | .left _ => none
  | .broken e _ => some e

theorem parseErrorLoop_drains {rs : List Args} {s : Bytes} {x : Rest UInt8 Bytes}
    (h : Drains requestParser s rs x) {fuel : Nat} (hf : s.length < fuel) :
    ∀ b : Buffer, b.readable = s → parseErrorLoop fuel b = restError x := by
  refine Drains.fuel_induction (motive := fun fuel s _ x => ∀ b : Buffer, b.readable = s →
    parseErrorLoop fuel b = restError x) ?_ ?_ ?_ h hf
  · intro fuel s h b hb
    rw [← hb, requestParser_parse] at h
    simp only [parseErrorLoop, h]; rfl
  · intro fuel s e h b hb
    rw [← hb, requestParser_parse] at h
    simp only [parseErrorLoop, h]; rfl
  · intro fuel s args n rs x h ih b hb
    have hrest := ih (b.consume n) (by rw [Buffer.readable_consume, hb])
    rw [← hb, requestParser_parse] at h
    simp only [parseErrorLoop, h, hrest]

theorem parseError_drains {rs : List Args} {b : Buffer} {x : Rest UInt8 Bytes}
    (h : Drains requestParser b.readable rs x) : parseError b = restError x :=
  parseErrorLoop_drains h (by rw [Buffer.length_readable]; omega) b rfl

/-- Appending the chunks one at a time and calling `on_data` after each. -/
def onChunks : List Bytes → Buffer → σ → Handled σ
  | [], b, s => ⟨[], b, s⟩
  | c :: cs, b, s =>
    let r := onData H (b.append c) s
    let r' := onChunks cs r.input r.state
    { r' with requests := r.requests ++ r'.requests }

end

end RP
