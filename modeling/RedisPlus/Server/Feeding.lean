import RedisPlus.Resp.Grammar
import RedisPlus.Server.ProtocolError

/-!
# What the two backends feed the handler

The same bytes arrive at a connection of either backend. The asio backend calls `on_data` after
each read. The poll backend reads on while each chunk fills its scratch buffer, and calls `on_data`
once, when a shorter chunk or `EAGAIN` ends the loop (`Poll.calls`, `Poll.groups`). If the peer's
close ends it, `handle_read` returns without calling `on_data`, so the chunks read in that call are
lost (`Poll.lost`). And either backend stops reading a connection whose output has passed the cap:
asio after the chunk, poll after the call. So the two may hand different chunks to `on_data`
(`ServerModel.handed`), of what arrives the first ones each (`ServerModel.handed_begins`).

As long as no chunk of a call but the last draws a protocol error (`Unbroken`), the call dispatches
what calls on each of its chunks would (`Unbroken.takes`). So the two backends dispatch the same
requests exactly if the chunks that only one of them hands over complete no request. From the first
call in which a chunk before the last does draw an error, they dispatch the same exactly if parsing the
chunks of each call together, and one by one, finds the same requests (`backends_agree_iff`).
-/

namespace RP

open Framework (Drains Rest Along Feeds collect)

/-! ## Calls of `on_data` one after the other -/

/-- With `b` unread, calls of `on_data` after each of the chunks dispatch the requests and leave the
rest. -/
inductive Takes : Bytes → List Bytes → List Args → Bytes → Prop
  | nil {b : Bytes} : Takes b [] [] b
  | cons {b c l : Bytes} {cs : List Bytes} {rs rs' : List Args} {x : Rest UInt8 Bytes}
      (hd : Drains requestParser (b ++ c) rs x) (h : Takes (unread x) cs rs' l) :
      Takes b (c :: cs) (dispatched rs ++ rs') l

namespace Takes

variable {b l : Bytes} {cs : List Bytes} {rs : List Args}

theorem total : ∀ (b : Bytes) (cs : List Bytes), ∃ rs l, Takes b cs rs l
  | b, [] => ⟨[], b, .nil⟩
  | b, c :: cs => by
    obtain ⟨rs, x, hd⟩ := Drains.total requestParser (b ++ c)
    obtain ⟨rs', l, h⟩ := total (unread x) cs
    exact ⟨_, l, .cons hd h⟩

theorem det {rs' : List Args} {l' : Bytes} (h : Takes b cs rs l) (h' : Takes b cs rs' l') :
    rs = rs' ∧ l = l' := by
  induction h generalizing rs' l' with
  | nil => cases h'; exact ⟨rfl, rfl⟩
  | cons hd _ ih =>
    cases h' with
    | cons hd' h' =>
      obtain ⟨rfl, rfl⟩ := hd.det hd'
      obtain ⟨rfl, rfl⟩ := ih h'
      exact ⟨rfl, rfl⟩

theorem append {cs' : List Bytes} {rs' : List Args} {l' : Bytes} (h : Takes b cs rs l)
    (h' : Takes l cs' rs' l') : Takes b (cs ++ cs') (rs ++ rs') l' := by
  induction h with
  | nil => exact h'
  | cons hd _ ih =>
    rw [List.append_assoc]
    exact .cons hd (ih h')

theorem split {cs' : List Bytes} (h : Takes b (cs ++ cs') rs l) :
    ∃ rs₁ l₁ rs₂, Takes b cs rs₁ l₁ ∧ Takes l₁ cs' rs₂ l ∧ rs = rs₁ ++ rs₂ := by
  obtain ⟨rs₁, l₁, h₁⟩ := total b cs
  obtain ⟨rs₂, l₂, h₂⟩ := total l₁ cs'
  obtain ⟨rfl, rfl⟩ := h.det (h₁.append h₂)
  exact ⟨rs₁, l₁, rs₂, h₁, h₂, rfl⟩

theorem idle_iff (h : Takes b cs rs l) : Idle b cs ↔ rs = [] := by
  induction h with
  | nil => exact iff_of_true .nil rfl
  | cons hd _ ih => rw [idle_cons hd, ih, List.append_eq_nil_iff, dispatched_eq_nil_iff]

end Takes

theorem Served.takes {b : Bytes} {readings : List Reading} (h : Served b readings) :
    ∃ l, Takes b (readings.map Reading.chunk) (readings.flatMap Reading.requests) l := by
  induction h with
  | nil => exact ⟨_, .nil⟩
  | cons hd hrequests _ _ ih =>
    obtain ⟨l, hl⟩ := ih
    rw [List.map_cons, List.flatMap_cons, hrequests]
    exact ⟨l, .cons hd hl⟩

/-- What a call leaves unread is not yet a request. -/
theorem parseRequest_unread {s : Bytes} {rs : List Args} {x : Rest UInt8 Bytes}
    (h : Drains requestParser s rs x) : parseRequest (unread x) = .incomplete := by
  rcases x with l | ⟨e, l⟩
  · exact h.incomplete
  · rfl

/-! ## Several chunks in one call -/

/-- Chunks that draw no protocol error. -/
theorem takes_of_feeds {b l : Bytes} {cs : List Bytes} {rs : List Args}
    (h : Feeds requestParser b cs rs l) : Takes b cs (dispatched rs) l := by
  induction h with
  | nil => exact .nil
  | cons hd _ ih =>
    rw [dispatched_append]
    exact .cons hd ih

/-- They drain together as they do one by one. -/
theorem drains_of_feeds {b l : Bytes} {cs : List Bytes} {rs : List Args}
    (hb : parseRequest b = .incomplete) (h : Feeds requestParser b cs rs l) :
    Drains requestParser (b ++ cs.flatten) rs (.left l) := by
  induction h with
  | nil =>
    rw [List.flatten_nil, List.append_nil]
    exact .stop hb
  | cons hd _ ih =>
    rw [List.flatten_cons, ← List.append_assoc]
    exact hd.append (fun h t => parseRequest_append h t) (ih hd.incomplete)

/-- Of the chunks of a call, with `b` unread before, none but the last draws a protocol error. -/
def Whole (b : Bytes) (g : List Bytes) : Prop := ∃ rs l, Feeds requestParser b g.dropLast rs l

/-- A call on all of them does what calls on each would. -/
theorem Whole.drains {b l : Bytes} {g : List Bytes} {rs : List Args} (h : Whole b g)
    (hb : parseRequest b = .incomplete) (ht : Takes b g rs l) :
    ∃ rs' x, Drains requestParser (b ++ g.flatten) rs' x ∧ rs = dispatched rs' ∧ l = unread x := by
  obtain ⟨rs₁, l₁, hf⟩ := h
  rcases List.eq_nil_or_concat g with rfl | ⟨g, c, rfl⟩
  · cases ht
    rw [List.flatten_nil, List.append_nil]
    exact ⟨[], .left b, .stop hb, rfl, rfl⟩
  · rw [List.concat_eq_append] at ht ⊢
    rw [List.concat_eq_append, List.dropLast_concat] at hf
    obtain ⟨rs₂, x, hd⟩ := Drains.total requestParser (l₁ ++ c)
    obtain ⟨rfl, rfl⟩ := ht.det ((takes_of_feeds hf).append (.cons hd .nil))
    refine ⟨rs₁ ++ rs₂, x, ?_, by rw [List.append_nil, dispatched_append], rfl⟩
    rw [List.flatten_append, List.flatten_singleton, ← List.append_assoc]
    exact (drains_of_feeds hb hf).append (fun h t => parseRequest_append h t) hd

/-- Calls on these chunks, of which none that is read on after draws a protocol error. -/
inductive Unbroken : Bytes → List (List Bytes) → Prop
  | nil {b : Bytes} : Unbroken b []
  | cons {b l : Bytes} {g : List Bytes} {gs : List (List Bytes)} {rs : List Args} (hw : Whole b g)
      (ht : Takes b g rs l) (h : Unbroken l gs) : Unbroken b (g :: gs)

/-- The calls do what calls on each chunk would. -/
theorem Unbroken.takes {b l : Bytes} {gs : List (List Bytes)} {rs : List Args} (h : Unbroken b gs)
    (hb : parseRequest b = .incomplete) (ht : Takes b gs.flatten rs l) :
    Takes b (gs.map List.flatten) rs l := by
  induction h generalizing rs with
  | nil => exact ht
  | cons hw hg _ ih =>
    rw [List.flatten_cons] at ht
    obtain ⟨rs₁, l₁, rs₂, h₁, h₂, rfl⟩ := ht.split
    obtain ⟨rfl, rfl⟩ := hg.det h₁
    obtain ⟨rs', x, hd, rfl, rfl⟩ := hw.drains hb h₁
    exact .cons hd (ih (parseRequest_unread hd) h₂)

/-- Calls on the one and on the other chunks, with `b` unread before, dispatch the same. -/
def SameRequests (b : Bytes) (cs cs' : List Bytes) : Prop :=
  ∀ {rs rs' : List Args} {l l' : Bytes}, Takes b cs rs l → Takes b cs' rs' l' → rs = rs'

theorem Takes.sameRequests_iff {b l l' : Bytes} {cs cs' : List Bytes} {rs rs' : List Args}
    (h : Takes b cs rs l) (h' : Takes b cs' rs' l') : SameRequests b cs cs' ↔ rs = rs' := by
  refine ⟨fun hs => hs h h', fun heq _ _ _ _ h₁ h₁' => ?_⟩
  rw [(h₁.det h).1, (h₁'.det h').1, heq]

/-- What the two start with makes no difference. -/
theorem Takes.sameRequests_append {b l : Bytes} {cs ds cs' ds' : List Bytes} {rs : List Args}
    (h : Takes b cs rs l) (h' : Takes b ds rs l) :
    SameRequests b (cs ++ cs') (ds ++ ds') ↔ SameRequests l cs' ds' := by
  obtain ⟨rs₁, l₁, h₁⟩ := Takes.total l cs'
  obtain ⟨rs₂, l₂, h₂⟩ := Takes.total l ds'
  rw [(h.append h₁).sameRequests_iff (h'.append h₂), h₁.sameRequests_iff h₂, List.append_right_inj]

theorem sameRequests_nil {b : Bytes} {cs : List Bytes} : SameRequests b [] cs ↔ Idle b cs := by
  obtain ⟨rs, l, h⟩ := Takes.total b cs
  rw [Takes.nil.sameRequests_iff h, h.idle_iff, eq_comm]

theorem sameRequests_comm {b : Bytes} {cs cs' : List Bytes} : SameRequests b cs cs' ↔ SameRequests b cs' cs :=
  ⟨fun h _ _ _ _ h₁ h₂ => (h h₂ h₁).symm, fun h _ _ _ _ h₁ h₂ => (h h₂ h₁).symm⟩

/-- Of two lists of which one starts with the other, what only one has must complete no request. -/
theorem sameRequests_iff_idle {b : Bytes} {xs ys zs : List Bytes} (hx : xs <+: zs) (hy : ys <+: zs) :
    SameRequests b xs ys ↔ ∀ rs l, Takes b (xs.take ys.length) rs l →
      Idle l (xs.drop ys.length ++ ys.drop xs.length) := by
  have hiff {xs t : List Bytes} : SameRequests b xs (xs ++ t) ↔ ∀ rs l, Takes b xs rs l → Idle l t := by
    obtain ⟨rs, l, h⟩ := Takes.total b xs
    have hsame := @Takes.sameRequests_append b l xs xs [] t rs h h
    rw [List.append_nil, sameRequests_nil] at hsame
    rw [hsame]
    refine ⟨fun hi rs' l' h' => ?_, fun hi => hi rs l h⟩
    obtain ⟨-, rfl⟩ := h.det h'
    exact hi
  rcases List.prefix_or_prefix_of_prefix hx hy with ⟨t, rfl⟩ | ⟨t, rfl⟩
  · rw [List.take_of_length_le (by simp), List.drop_of_length_le (by simp), List.drop_left, List.nil_append]
    exact hiff
  · rw [List.take_left, List.drop_left, List.drop_of_length_le (by simp), List.append_nil, sameRequests_comm]
    exact hiff

/-! ## What arrives, and what the backends make of it -/

/-- What the socket of a connection answers with, until the peer closes. -/
inductive Arrival where
  | data (bytes : Bytes)
  | wouldBlock

namespace Arrival

/-- Does it fill the scratch buffer? -/
def fills (readChunk : Nat) : Arrival → Bool
  | .data bytes => readChunk ≤ bytes.length
  | .wouldBlock => false

/-- The bytes that arrive, if any do. -/
def bytes? : Arrival → Option Bytes
  | .data bytes => some bytes
  | .wouldBlock => none

end Arrival

/-- What `async_read_some` completes with in turn. -/
def Asio.chunks (as : List Arrival) : List Bytes := as.filterMap Arrival.bytes?

namespace Poll

/-- What arrives before the last answer that ends the loop of `handle_read`, with that answer. -/
def kept (readChunk : Nat) : List Arrival → List Arrival
  | [] => []
  | a :: as => if a.fills readChunk && (kept readChunk as).isEmpty then [] else a :: kept readChunk as

/-- What arrives after it: chunks that fill the scratch buffer, and the close. -/
def lost (readChunk : Nat) : List Arrival → List Arrival
  | [] => []
  | a :: as => if a.fills readChunk && (kept readChunk as).isEmpty then a :: as else lost readChunk as

theorem kept_append_lost (readChunk : Nat) : ∀ as : List Arrival,
    kept readChunk as ++ lost readChunk as = as
  | [] => rfl
  | a :: as => by
    rw [kept, lost]
    split
    · rfl
    · rw [List.cons_append, kept_append_lost readChunk as]

/-- The answers that each call of `handle_read` gets from `recv`. The running call has read the
chunks `got`. -/
def calls (readChunk : Nat) : List Bytes → List Arrival → List (List Recv)
  | got, [] => [got.map .data ++ [.closed]]
  | got, .data bytes :: as =>
    if bytes.length < readChunk then (got.map .data ++ [.data bytes]) :: calls readChunk [] as
    else calls readChunk (got ++ [bytes]) as
  | got, .wouldBlock :: as => (got.map .data ++ [.wouldBlock]) :: calls readChunk [] as

/-- The chunks of the calls that come to `on_data`. -/
def groups (readChunk : Nat) (got : List Bytes) (as : List Arrival) : List (List Bytes) :=
  (calls readChunk got as).filterMap (recvLoop readChunk)

variable {readChunk : Nat}

/-- The chunks of a call fill the scratch buffer. -/
def Full (readChunk : Nat) (got : List Bytes) : Prop := ∀ c ∈ got, ¬ c.length < readChunk

theorem recvLoop_full (rest : List Recv) : ∀ {got : List Bytes}, Full readChunk got →
    recvLoop readChunk (got.map .data ++ rest) = (recvLoop readChunk rest).map (got ++ ·)
  | [], _ => by simp
  | c :: got, h => by
    rw [List.map_cons, List.cons_append, recvLoop, if_neg (h c List.mem_cons_self),
      recvLoop_full rest fun c hc => h c (List.mem_cons_of_mem _ hc), Option.map_map]
    rfl

theorem kept_cons {a : Arrival} {as : List Arrival} (h : a.fills readChunk = true → kept readChunk as ≠ []) :
    kept readChunk (a :: as) = a :: kept readChunk as := by
  rw [kept, if_neg]
  rw [Bool.and_eq_true, List.isEmpty_iff]
  exact fun ⟨hfills, hk⟩ => h hfills hk

theorem kept_cons_eq_nil {a : Arrival} {as : List Arrival} (h : a.fills readChunk = true)
    (hk : kept readChunk as = []) : kept readChunk (a :: as) = [] := by
  rw [kept, if_pos (by simp [h, hk])]

section

variable {got : List Bytes} (hgot : Full readChunk got) (as : List Arrival)
include hgot

theorem groups_short {c : Bytes} (hc : c.length < readChunk) :
    groups readChunk got (.data c :: as) = (got ++ [c]) :: groups readChunk [] as := by
  have hcall : recvLoop readChunk (got.map .data ++ [.data c]) = some (got ++ [c]) := by
    rw [recvLoop_full _ hgot, recvLoop, if_pos hc, Option.map_some]
  rw [groups, calls, if_pos hc, List.filterMap_cons_some hcall]
  rfl

theorem groups_wouldBlock : groups readChunk got (.wouldBlock :: as) = got :: groups readChunk [] as := by
  have hcall : recvLoop readChunk (got.map .data ++ [.wouldBlock]) = some got := by
    rw [recvLoop_full _ hgot, recvLoop, Option.map_some, List.append_nil]
  rw [groups, calls, List.filterMap_cons_some hcall]
  rfl

omit hgot in
theorem groups_full {c : Bytes} (hc : ¬ c.length < readChunk) :
    groups readChunk got (.data c :: as) = groups readChunk (got ++ [c]) as := by
  rw [groups, calls, if_neg hc]
  rfl

theorem Full.snoc {c : Bytes} (hc : ¬ c.length < readChunk) : Full readChunk (got ++ [c]) := by
  intro d hd
  rcases List.mem_append.mp hd with hd | hd
  · exact hgot d hd
  · rwa [List.mem_singleton.mp hd]

end

theorem groups_nil {got : List Bytes} (hgot : Full readChunk got) : groups readChunk got [] = [] := by
  have hcall : recvLoop readChunk (got.map .data ++ [.closed]) = none := by
    rw [recvLoop_full _ hgot]
    rfl
  rw [groups, calls, List.filterMap_cons_none hcall]
  rfl

/-- What a running call has read is handed over with what arrives, unless only chunks follow that are
lost with it. -/
def handedOver (got : List Bytes) (kept : List Arrival) : List Bytes :=
  if kept = [] then [] else got ++ Asio.chunks kept

theorem handedOver_nil (kept : List Arrival) : handedOver [] kept = Asio.chunks kept := by
  unfold handedOver
  split
  · rename_i hk
    rw [hk]
    rfl
  · rfl

theorem full_nil : Full readChunk [] := fun _ hc => absurd hc List.not_mem_nil

theorem flatten_groups : ∀ {as : List Arrival} {got : List Bytes}, Full readChunk got →
    (groups readChunk got as).flatten = handedOver got (kept readChunk as)
  | [], _, hgot => by
    rw [groups_nil hgot]
    rfl
  | .wouldBlock :: as, got, hgot => by
    rw [groups_wouldBlock hgot, List.flatten_cons, flatten_groups full_nil, handedOver_nil,
      kept_cons (by simp [Arrival.fills])]
    rfl
  | .data c :: as, got, hgot => by
    by_cases hc : c.length < readChunk
    · rw [groups_short hgot as hc, List.flatten_cons, flatten_groups full_nil, handedOver_nil,
        kept_cons (by simp [Arrival.fills, hc]), List.append_assoc]
      rfl
    · have hfills : (Arrival.data c).fills readChunk = true := by
        simpa [Arrival.fills] using hc
      rw [groups_full as hc, flatten_groups (hgot.snoc hc)]
      by_cases hk : kept readChunk as = []
      · rw [kept_cons_eq_nil hfills hk, hk]
        rfl
      · rw [kept_cons fun _ => hk, handedOver, if_neg hk, List.append_assoc]
        rfl

end Poll

/-! ## Runs of the two servers -/

namespace ServerModel

variable (M : ServerModel) (link : ClientLink) {β : Type} (data : M.Event → Option β)

/-- Of the data that the events bring for a connection, what is handed to `on_data`. -/
def handed (es : List M.Event) (s : M.State) : List β :=
  collect M.step (fun e s => if (M.reading link e s).isSome then (data e).toList else []) es s

/-- The connection is read whenever there is data for it: nothing has ended it before, as an output over
the cap does. -/
def Stays (es : List M.Event) (s : M.State) : Prop :=
  Along M.step (fun e s => (data e).isSome = true → (M.input link s).isSome = true) es s

/-- The requests that are dispatched for a connection. -/
def requests (es : List M.Event) (s : M.State) : List Args := (M.readings link es s).flatMap Reading.requests

/-- Data for the connection makes a call of `on_data` if the connection is read. -/
def Serves : Prop := ∀ (e : M.Event) (s : M.State), (data e).isSome = true →
  ((M.reading link e s).isSome = true ↔ (M.input link s).isSome = true)

variable {M link data}

theorem handed_cons_of_none {e : M.Event} {es : List M.Event} {s : M.State} (h : data e = none) :
    M.handed link data (e :: es) s = M.handed link data es (M.step e s) := by
  rw [handed, collect, h]
  split <;> rfl

theorem handed_cons_of_some {e : M.Event} {es : List M.Event} {s : M.State} {d : β} (h : data e = some d)
    (hr : (M.reading link e s).isSome = true) :
    M.handed link data (e :: es) s = d :: M.handed link data es (M.step e s) := by
  rw [handed, collect, if_pos hr, h]
  rfl

theorem handed_eq_nil : ∀ {es : List M.Event} {s : M.State}, M.input link s = none →
    (∀ e ∈ es, M.accepts e ≠ some link) → M.handed link data es s = []
  | [], _, _, _ => rfl
  | e :: es, s, hnone, hsame => by
    have hreading := reading_eq_none hnone (e := e)
    rw [handed, collect, hreading]
    exact handed_eq_nil (input_step_eq_none hnone (hsame e List.mem_cons_self))
      fun e he => hsame e (List.mem_cons_of_mem _ he)

/-- What is handed over is what comes first. -/
theorem handed_begins (hserves : M.Serves link data) : ∀ {es : List M.Event} {s : M.State},
    (∀ e ∈ es, M.accepts e ≠ some link) → M.handed link data es s <+: es.filterMap data
  | [], _, _ => List.prefix_rfl
  | e :: es, s, hsame => by
    have hrest := handed_begins hserves (s := M.step e s) fun e he => hsame e (List.mem_cons_of_mem _ he)
    cases hd : data e with
    | none =>
      rw [handed_cons_of_none hd, List.filterMap_cons_none hd]
      exact hrest
    | some d =>
      rw [List.filterMap_cons_some hd]
      by_cases hr : (M.reading link e s).isSome = true
      · rw [handed_cons_of_some hd hr]
        exact (List.prefix_cons_inj d).mpr hrest
      · have hinput : M.input link s = none := by
          rw [hserves e s (by rw [hd]; rfl)] at hr
          exact Option.not_isSome_iff_eq_none.mp hr
        rw [handed_eq_nil hinput hsame]
        exact List.nil_prefix

/-- It is all, if the connection stays. -/
theorem handed_of_stays (hserves : M.Serves link data) : ∀ {es : List M.Event} {s : M.State},
    M.Stays link data es s → M.handed link data es s = es.filterMap data
  | [], _, _ => rfl
  | e :: es, s, h => by
    have hrest := handed_of_stays hserves h.2
    cases hd : data e with
    | none => rw [handed_cons_of_none hd, List.filterMap_cons_none hd, hrest]
    | some d =>
      have hsome : (data e).isSome = true := by rw [hd]; rfl
      rw [handed_cons_of_some hd ((hserves e s hsome).mpr (h.1 hsome)), List.filterMap_cons_some hd, hrest]

section

variable {f : β → Bytes} (hchunk : ∀ (e : M.Event) (s : M.State),
  (M.reading link e s).toList.map Reading.chunk =
    (if (M.reading link e s).isSome then (data e).toList else []).map f)
include hchunk

theorem map_chunk_readings : ∀ (es : List M.Event) (s : M.State),
    (M.readings link es s).map Reading.chunk = (M.handed link data es s).map f
  | [], _ => rfl
  | e :: es, s => by
    show ((M.reading link e s).toList ++ M.readings link es (M.step e s)).map _ =
      (_ ++ M.handed link data es (M.step e s)).map _
    rw [List.map_append, List.map_append, map_chunk_readings es, hchunk]

/-- If each call of `on_data` is on `f` of its data, the requests are those of calls on what is handed
over. -/
theorem takes_handed {es : List M.Event} {s : M.State} (hfresh : M.input link s = some [])
    (hsame : ∀ e ∈ es, M.accepts e ≠ some link) :
    ∃ l, Takes [] ((M.handed link data es s).map f) (M.requests link es s) l := by
  rw [← map_chunk_readings hchunk]
  exact (served hfresh hsame).takes

end

end ServerModel

namespace Poll

variable {π : Type} (cfg : Config) (link : ClientLink)

/-- What `recv` answers for this connection in the event, if it is read. -/
def Event.answers : Event π → Option (List Recv)
  | .read _ l recvs _ => if l = link then some recvs else none
  | _ => none

/-- The chunks that it reads, if the call comes to `on_data`. -/
def Event.chunks? (e : Event π) : Option (List Bytes) := (e.answers link).bind (recvLoop cfg.readChunk)

/-- In the run the socket of the connection, which starts with nothing unread, has these answers in
turn. -/
structure Receives (as : List Arrival) (es : List (Event π)) (N : Node π Net) : Prop where
  fresh : (server cfg π).input link N = some []
  same : ∀ e ∈ es, e.accepts ≠ some link
  answers : es.filterMap (Event.answers link) = calls cfg.readChunk [] as

/-- The chunks of each call of `on_data`. -/
def handed (es : List (Event π)) (N : Node π Net) : List (List Bytes) :=
  (server cfg π).handed link (Event.chunks? cfg link) es N

variable {cfg link}

theorem serves : (server cfg π).Serves link (Event.chunks? cfg link) := by
  intro e N h
  cases e with
  | read m l recvs sends =>
    by_cases hl : l = link
    · subst hl
      simp only [Event.chunks?, Event.answers, if_true, Option.bind_some] at h
      obtain ⟨chunks, hchunks⟩ := Option.isSome_iff_exists.mp h
      simp only [server, reading, Event.reads, Net.inputs, inputRead, hchunks, true_and]
      by_cases hdead : l ∈ N.repl.dead
      · simp [hdead]
      · cases N.repl.conns l <;> simp [hdead]
    · simp [Event.chunks?, Event.answers, hl] at h
  | _ => cases h

/-- A call of `on_data` is on all its chunks together. -/
theorem chunk_reading (e : Event π) (N : Node π Net) : (reading cfg link e N).toList.map Reading.chunk =
    (if (reading cfg link e N).isSome then (e.chunks? cfg link).toList else []).map List.flatten := by
  cases e with
  | read m l recvs sends =>
    by_cases hl : l = link ∧ l ∉ N.repl.dead
    · obtain ⟨rfl, hdead⟩ := hl
      cases hc : N.repl.conns l <;> cases hr : recvLoop cfg.readChunk recvs <;>
        simp [reading, Event.reads, Event.chunks?, Event.answers, inputRead, hdead, hc, hr, Reading.of, received]
    · simp [reading, Event.reads, hl]
  | _ => rfl

theorem Receives.filterMap_chunks {as : List Arrival} {es : List (Event π)} {N : Node π Net}
    (h : Receives cfg link as es N) :
    (es.filterMap (Event.chunks? cfg link)).flatten = Asio.chunks (kept cfg.readChunk as) := by
  have hgroups : es.filterMap (Event.chunks? cfg link) = groups cfg.readChunk [] as := by
    rw [groups, ← h.answers, List.filterMap_filterMap]
    rfl
  rw [hgroups, flatten_groups full_nil, handedOver_nil]

/-- The first chunks of those that are not lost are handed over, and all if the connection stays. -/
theorem Receives.handed_begins {as : List Arrival} {es : List (Event π)} {N : Node π Net}
    (h : Receives cfg link as es N) :
    (handed cfg link es N).flatten <+: Asio.chunks (kept cfg.readChunk as) ∧
      ((server cfg π).Stays link (Event.chunks? cfg link) es N →
        (handed cfg link es N).flatten = Asio.chunks (kept cfg.readChunk as)) := by
  rw [← h.filterMap_chunks]
  refine ⟨?_, fun hs => congrArg List.flatten (ServerModel.handed_of_stays serves hs)⟩
  obtain ⟨t, ht⟩ : Poll.handed cfg link es N <+: es.filterMap (Event.chunks? cfg link) :=
    ServerModel.handed_begins serves h.same
  rw [← ht, List.flatten_append]
  exact List.prefix_append ..

theorem Receives.takes {as : List Arrival} {es : List (Event π)} {N : Node π Net}
    (h : Receives cfg link as es N) : ∃ l,
      Takes [] ((handed cfg link es N).map List.flatten) ((server cfg π).requests link es N) l :=
  ServerModel.takes_handed chunk_reading h.fresh h.same

end Poll

namespace Asio

variable {π : Type} (cfg : ServerConfig) (link : ClientLink)

/-- What is read for this session in the callback. -/
def Callback.bytes? : Callback π → Option Bytes
  | .read _ l bytes => if l = link then some bytes else none
  | _ => none

/-- In the run the session, which starts with nothing unread, is to read what arrives. -/
structure Receives (as : List Arrival) (cs : List (Callback π)) (N : Node π Net) : Prop where
  fresh : (server cfg π).input link N = some []
  same : ∀ c ∈ cs, c.accepts ≠ some link
  bytes : cs.filterMap (Callback.bytes? link) = chunks as

/-- The chunk of each call of `on_data`. -/
def handed (cs : List (Callback π)) (N : Node π Net) : List Bytes :=
  (server cfg π).handed link (Callback.bytes? link) cs N

variable {cfg link}

theorem serves : (server cfg π).Serves link (Callback.bytes? link) := by
  intro c N h
  cases c with
  | read m l bytes =>
    by_cases hl : l = link
    · subst hl
      simp only [server, reading, true_and, Net.inputs, Session.toRead]
      cases (N.repl.sessions l).reading <;> simp
    · simp [Callback.bytes?, hl] at h
  | _ => cases h

theorem chunk_reading (c : Callback π) (N : Node π Net) : (reading cfg link c N).toList.map Reading.chunk =
    (if (reading cfg link c N).isSome then (c.bytes? link).toList else []).map id := by
  rw [List.map_id]
  cases c with
  | read m l bytes =>
    by_cases hl : l = link ∧ (N.repl.sessions l).reading = true
    · rw [reading, if_pos hl, Callback.bytes?, if_pos hl.1]
      rfl
    · rw [reading, if_neg hl]
      rfl
  | _ => rfl

/-- The first chunks are handed over, and all if the connection stays. -/
theorem Receives.handed_begins {as : List Arrival} {cs : List (Callback π)} {N : Node π Net}
    (h : Receives cfg link as cs N) : handed cfg link cs N <+: chunks as ∧
      ((server cfg π).Stays link (Callback.bytes? link) cs N → handed cfg link cs N = chunks as) := by
  rw [← h.bytes]
  exact ⟨ServerModel.handed_begins serves h.same, ServerModel.handed_of_stays serves⟩

theorem Receives.takes {as : List Arrival} {cs : List (Callback π)} {N : Node π Net}
    (h : Receives cfg link as cs N) :
    ∃ l, Takes [] (handed cfg link cs N) ((server cfg π).requests link cs N) l := by
  have htakes := ServerModel.takes_handed chunk_reading h.fresh h.same
  rw [List.map_id] at htakes
  exact htakes

end Asio

/-- For whatever arrives at a connection of each backend, and however far each reads it: the poll backend
hands to `on_data` the first of the chunks that are not lost, and all of them if nothing ends the connection
before; the asio backend the first of all chunks, or all. The asio backend dispatches every request that
is complete in what it hands over.

If no chunk of a call of `handle_read` but the last draws a protocol error, the two dispatch the same
requests exactly if the chunks that only one of them hands over complete none. In any case, after calls of
which this holds, and whose chunks the asio backend has handed over too, they do so exactly if the chunks
that are still to come, those of a call together or one by one, complete the same. -/
theorem backends_agree_iff {π : Type} {cfg : Poll.Config} {link : ClientLink} {as : List Arrival}
    {es : List (Poll.Event π)} {N : Node π Poll.Net} (hpoll : Poll.Receives cfg link as es N)
    {cs : List (Asio.Callback π)} {N' : Node π Net}
    (hasio : Asio.Receives cfg.toServerConfig link as cs N') :
    let gs := Poll.handed cfg link es N
    let ys := Asio.handed cfg.toServerConfig link cs N'
    let polled := (Poll.server cfg π).requests link es N
    let read := (Asio.server cfg.toServerConfig π).requests link cs N'
    (gs.flatten <+: Asio.chunks (Poll.kept cfg.readChunk as) ∧
      ((Poll.server cfg π).Stays link (Poll.Event.chunks? cfg link) es N →
        gs.flatten = Asio.chunks (Poll.kept cfg.readChunk as))) ∧
    (ys <+: Asio.chunks as ∧
      ((Asio.server cfg.toServerConfig π).Stays link (Asio.Callback.bytes? link) cs N' →
        ys = Asio.chunks as)) ∧
    (∃ l, Takes [] ys read l) ∧
    (Unbroken [] gs → (polled = read ↔ ∀ rs l, Takes [] (gs.flatten.take ys.length) rs l →
      Idle l (gs.flatten.drop ys.length ++ ys.drop gs.flatten.length))) ∧
    ∀ {gs₁ gs₂ : List (List Bytes)} {ys₂ : List Bytes} {rs : List Args} {l : Bytes}, gs = gs₁ ++ gs₂ →
      ys = gs₁.flatten ++ ys₂ → Unbroken [] gs₁ → Takes [] gs₁.flatten rs l →
      (polled = read ↔ SameRequests l (gs₂.map List.flatten) ys₂) := by
  obtain ⟨lp, hp⟩ := hpoll.takes
  obtain ⟨la, ha⟩ := hasio.takes
  refine ⟨hpoll.handed_begins, hasio.handed_begins, ⟨la, ha⟩, fun hun => ?_, fun hgs hys hun ht => ?_⟩
  · obtain ⟨rs, l, ht⟩ := Takes.total [] (Poll.handed cfg link es N).flatten
    have hkept : Asio.chunks (Poll.kept cfg.readChunk as) <+: Asio.chunks as := by
      conv_rhs => rw [← Poll.kept_append_lost cfg.readChunk as, Asio.chunks, List.filterMap_append]
      exact List.prefix_append ..
    rw [(hp.det (hun.takes rfl ht)).1,
      ← sameRequests_iff_idle (hpoll.handed_begins.1.trans hkept) hasio.handed_begins.1]
    exact (ht.sameRequests_iff ha).symm
  · rw [← hp.sameRequests_iff ha, hgs, hys, List.map_append]
    exact (hun.takes rfl ht).sameRequests_append ht

/-! ## A scratch buffer of 16 bytes -/

namespace Feeding

/-- A backend that reads 16 bytes at a time. -/
def narrow : Poll.Config := { readChunk := 16 }

/-- And room for 8 bytes of output. -/
def tight : Poll.Config := { readChunk := 16, maxOutputBuffer := 8 }

/-- A poll server with a connection. -/
def onePoll : Node Unit Poll.Net :=
  ⟨{}, (), { repl := { replid := Net.zeroReplid }, conns := fun _ => some {} }⟩

/-- An asio server with a session. -/
def oneAsio : Node Unit Net := ⟨{}, (), { repl := { replid := Net.zeroReplid }, sessions := fun _ => {} }⟩

/-- The connection 1 receives this, and then the peer's close. -/
def pollRun (as : List Arrival) : List (Poll.Event Unit) :=
  (Poll.calls 16 [] as).map fun recvs => .read {} 1 recvs []

/-- The callbacks that the arrivals come to. -/
def asioRun (as : List Arrival) : List (Asio.Callback Unit) :=
  (Asio.chunks as).map (.read {} 1) ++ [.readFailed 1]

/-- What each backend dispatches. -/
def both (cfg : Poll.Config) (as : List Arrival) : List Args × List Args :=
  ((Poll.server cfg Unit).requests 1 (pollRun as) onePoll,
    (Asio.server cfg.toServerConfig Unit).requests 1 (asioRun as) oneAsio)

/-- Two requests in 16 bytes. -/
def filling : Bytes := str "SET kk v\r\nPING\r\n"

/-- And two, with two blank lines, whose replies are more than 8 bytes. -/
def pings : Bytes := str "PING\r\nPING\r\n\r\n\r\n"

/-- Right before the close they are dispatched by the asio backend only. So is a PING after 16 bytes
with a protocol error in them. A SET after 16 bytes whose replies pass the cap is dispatched by the poll
backend only. -/
theorem full_chunk_differs :
    filling.length = 16 ∧
    both narrow [.data filling] = ([], [[str "SET", str "kk", str "v"], [str "PING"]]) ∧
    both narrow [.data (str "*x\r\nPING\r\nPING\r\n"), .data (str "PING\r\n")] = ([], [[str "PING"]]) ∧
    pings.length = 16 ∧
    both tight [.data pings, .data (str "SET x y\r\n")] =
      ([[str "PING"], [str "PING"], [str "SET", str "x", str "y"]], [[str "PING"], [str "PING"]]) := by
  decide +kernel

/-- With a shorter chunk after them, the backends agree. -/
theorem backends_agree_filling : (both narrow [.data filling, .data (str "PING\r\n")]).1 =
    (both narrow [.data filling, .data (str "PING\r\n")]).2 := by
  have hfilling : Drains requestParser ([] ++ filling)
      [[str "SET", str "kk", str "v"], [str "PING"]] (.left []) :=
    .step (n := 10) (by decide) (.step (n := 6) (by decide) (.stop (by decide)))
  have hping : Drains requestParser ([] ++ str "PING\r\n") [[str "PING"]] (.left []) :=
    .step (n := 6) (by decide) (.stop (by decide))
  have hun : Unbroken [] [[filling, str "PING\r\n"]] :=
    .cons ⟨_, _, .cons hfilling .nil⟩ (.cons hfilling (.cons hping .nil)) .nil
  have hpoll : Poll.Receives narrow 1 [.data filling, .data (str "PING\r\n")]
      (pollRun [.data filling, .data (str "PING\r\n")]) onePoll := ⟨rfl, by decide, rfl⟩
  have hasio : Asio.Receives narrow.toServerConfig 1 [.data filling, .data (str "PING\r\n")]
      (asioRun [.data filling, .data (str "PING\r\n")]) oneAsio := ⟨rfl, by decide, rfl⟩
  obtain ⟨-, -, -, hiff, -⟩ := backends_agree_iff hpoll hasio
  refine (hiff hun).mpr fun _ l _ => ?_
  exact .nil

end Feeding

end RP
