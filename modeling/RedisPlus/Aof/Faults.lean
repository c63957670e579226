import RedisPlus.Aof.Basic
import RedisPlus.Framework.Machine
import RedisPlus.Resp.Grammar

/-!
# The log when calls fail

A flush whose `fwrite` takes a part of the buffer keeps all of it, so the next flush writes that
part again. A run up to a flush that succeeds leaves a faithful file after each of its flushes
exactly when each of them writes all or nothing, and those that succeed pass on to the system what
they wrote (`faithful_iff`): under `everysec` a flush that is not due does not.

A rewrite that fails before it closes the log changes nothing. One that fails later has removed
the file, or does not reopen it (`rewrite_keeps_iff`).
-/

namespace RP

open Framework (Drains run Along)

/-! ## Flushes -/

namespace Aof

/-- Does a flush at `now` whose write succeeds call `fflush`? -/
def fflushes (now : Int64) (a : Aof) : Prop := a.policy ≠ .everySec ∨ 1000 ≤ now - a.lastFsyncMs

instance (now : Int64) (a : Aof) : Decidable (a.fflushes now) := instDecidableOr

theorem sync_of_fflushes {a : Aof} {now : Int64} (h : a.fflushes now) :
    (a.sync now).data = a.data.map (· ++ a.stdio) ∧ (a.sync now).stdio = [] ∧
      (a.sync now).buffer = a.buffer ∧ (a.sync now).isOpen = a.isOpen := by
  unfold sync
  cases hp : a.policy with
  | always => exact ⟨rfl, rfl, rfl, rfl⟩
  | no => exact ⟨rfl, rfl, rfl, rfl⟩
  | everySec =>
    dsimp only
    rw [if_pos (h.resolve_left fun hne => hne hp)]
    exact ⟨rfl, rfl, rfl, rfl⟩

theorem sync_of_not_fflushes {a : Aof} {now : Int64} (h : ¬ a.fflushes now) : a.sync now = a := by
  obtain ⟨hp, hdue⟩ := not_or.mp h
  rw [sync, not_not.mp hp]
  exact if_neg hdue

theorem flush_short {a : Aof} (hopen : a.isOpen = true) {room : Nat} (h : room < a.buffer.length)
    (now : Int64) : a.flush room now =
      (.error (str "short write to AOF " ++ a.path),
        { a with stdio := a.stdio ++ a.buffer.take room }) := by
  unfold flush
  rw [if_neg (by simp [hopen])]
  exact if_pos (by show min room a.buffer.length ≠ a.buffer.length; omega)

/-- The log `a'` after a flush of `a` at `now` that succeeded. -/
structure Flushed (now : Int64) (a a' : Aof) : Prop where
  isOpen : a'.isOpen = true
  buffer : a'.buffer = []
  passedOn : a.fflushes now → a'.data = a.data.map (· ++ (a.stdio ++ a.buffer)) ∧ a'.stdio = []
  kept : ¬ a.fflushes now → a'.data = a.data ∧ a'.stdio = a.stdio ++ a.buffer

theorem flush_whole {a : Aof} (hopen : a.isOpen = true) {room : Nat} (h : a.buffer.length ≤ room)
    (now : Int64) : ∃ a', a.flush room now = (.ok (), a') ∧ Flushed now a a' := by
  refine ⟨_, flush_of_le hopen h now, ?_⟩
  by_cases hf : a.fflushes now
  · obtain ⟨hd, hs, hb, ho⟩ := @sync_of_fflushes a.written now hf
    exact ⟨ho.trans hopen, hb, fun _ => ⟨hd, hs⟩, fun hn => absurd hf hn⟩
  · rw [@sync_of_not_fflushes a.written now hf]
    exact ⟨hopen, rfl, fun hy => absurd hy hf, fun _ => ⟨rfl, rfl⟩⟩

end Aof

/-- The calls that a log gets. -/
inductive LogCall where
  | append (args : Args)
  | flush (room : Nat) (now : Int64)

/-- A log, and the encodings of the commands appended to it. -/
structure Journal where
  aof : Aof
  log : Bytes := []

namespace Journal

/-- A call on the log, with its command noted. -/
def step : LogCall → Journal → Journal
  | .append args, J =>
    { aof := J.aof.append args, log := J.log ++ if args = [] then [] else encode args }
  | .flush room now, J => { J with aof := (J.aof.flush room now).2 }

/-- What a flush leaves in the file, after the `base` that was there, is the beginning of the log,
and all of it if the flush succeeds. -/
def Faithful (base : Bytes) : LogCall → Journal → Prop
  | .append _, _ => True
  | .flush room now, J => ∃ x, (J.aof.flush room now).2.data = some (base ++ x) ∧ x <+: J.log ∧
    ((J.aof.flush room now).1 = .ok () → x = J.log)

/-- A flush that cannot write the whole buffer writes none of it, and one that can calls `fflush`
if there is anything to pass on. -/
def WholeOrNothing : LogCall → Journal → Prop
  | .append _, _ => True
  | .flush room now, J =>
    if J.aof.buffer.length ≤ room then J.aof.fflushes now ∨ J.aof.stdio ++ J.aof.buffer = []
    else room = 0

instance : ∀ (e : LogCall) (J : Journal), Decidable (WholeOrNothing e J)
  | .append _, _ => instDecidableTrue
  | .flush room _, J =>
    if h : J.aof.buffer.length ≤ room then decidable_of_iff _ (iff_of_eq (if_pos h)).symm
    else decidable_of_iff _ (iff_of_eq (if_neg h)).symm

/-- Each byte of the log is in the file or on its way there, once. -/
structure Clean (base : Bytes) (J : Journal) : Prop where
  isOpen : J.aof.isOpen = true
  once : ∃ x, J.aof.data = some (base ++ x) ∧ x ++ (J.aof.stdio ++ J.aof.buffer) = J.log

/-- A part of the buffer, which is still to be written, was written already. -/
structure Doubled (base : Bytes) (J : Journal) : Prop where
  isOpen : J.aof.isOpen = true
  ne_nil : J.aof.buffer ≠ []
  more : ∃ d, J.aof.data = some d ∧
    base.length + J.log.length < d.length + J.aof.stdio.length + J.aof.buffer.length ∧
    d.length + J.aof.buffer.length ≤ base.length + J.log.length

variable {base : Bytes} {J : Journal}

/-- An append puts the same bytes at the end of the log and of the buffer. -/
theorem step_append (hopen : J.aof.isOpen = true) (args : Args) : ∃ b,
    (step (.append args) J).log = J.log ++ b ∧
      (step (.append args) J).aof.buffer = J.aof.buffer ++ b ∧
      (step (.append args) J).aof.data = J.aof.data ∧
      (step (.append args) J).aof.stdio = J.aof.stdio ∧
      (step (.append args) J).aof.isOpen = true := by
  by_cases hargs : args = []
  · refine ⟨[], ?_⟩
    simp [step, hargs, Aof.append, hopen]
  · refine ⟨encode args, ?_⟩
    simp [step, Aof.append_of_open hopen hargs, hopen, hargs]

theorem Clean.append (h : Clean base J) (args : Args) : Clean base (step (.append args) J) := by
  obtain ⟨x, hdata, hlog⟩ := h.once
  obtain ⟨b, hl, hb, hd, hs, ho⟩ := step_append h.isOpen args
  refine ⟨ho, x, hd.trans hdata, ?_⟩
  rw [hs, hb, hl, ← hlog]
  simp only [List.append_assoc]

theorem Doubled.append (h : Doubled base J) (args : Args) : Doubled base (step (.append args) J) := by
  obtain ⟨d, hdata, hmore, hle⟩ := h.more
  obtain ⟨b, hl, hb, hd, hs, ho⟩ := step_append h.isOpen args
  refine ⟨ho, ?_, d, hd.trans hdata, ?_, ?_⟩
  · rw [hb]
    exact fun he => h.ne_nil (List.append_eq_nil_iff.mp he).1
  · rw [hl, hs, hb, List.length_append, List.length_append]
    omega
  · rw [hl, hb, List.length_append, List.length_append]
    omega

/-! ### Flushes of a clean log -/

theorem Clean.flush (h : Clean base J) {room : Nat} {now : Int64}
    (hw : WholeOrNothing (.flush room now) J) :
    Clean base (step (.flush room now) J) ∧ Faithful base (.flush room now) J := by
  obtain ⟨x, hdata, hlog⟩ := h.once
  simp only [WholeOrNothing] at hw
  simp only [step, Faithful]
  by_cases hroom : J.aof.buffer.length ≤ room
  · rw [if_pos hroom] at hw
    obtain ⟨a, he, hf⟩ := Aof.flush_whole h.isOpen hroom now
    rw [he]
    by_cases hff : J.aof.fflushes now
    · obtain ⟨hd, hs⟩ := hf.passedOn hff
      have hall : a.data = some (base ++ J.log) := by
        rw [hd, hdata, ← hlog, Option.map_some, List.append_assoc]
      refine ⟨⟨hf.isOpen, J.log, hall, ?_⟩, J.log, hall, List.prefix_refl _, fun _ => rfl⟩
      rw [hs, hf.buffer]
      simp only [List.append_nil]
    · obtain ⟨hd, hs⟩ := hf.kept hff
      have hx : x = J.log := by rw [← hlog, hw.resolve_left hff, List.append_nil]
      refine ⟨⟨hf.isOpen, x, hd.trans hdata, ?_⟩, x, hd.trans hdata, by rw [hx], fun _ => hx⟩
      rw [hs, hf.buffer, List.append_nil, hlog]
  · rw [if_neg hroom] at hw
    subst hw
    rw [Aof.flush_short h.isOpen (Nat.lt_of_not_le hroom)]
    simp only [List.take_zero, List.append_nil]
    exact ⟨⟨h.isOpen, x, hdata, hlog⟩, x, hdata, ⟨_, hlog⟩, fun he => nomatch he⟩

/-- A part of the buffer is written, and will be written again. -/
theorem Clean.doubled (h : Clean base J) {room : Nat} (hpos : room ≠ 0)
    (hroom : room < J.aof.buffer.length) (now : Int64) : Doubled base (step (.flush room now) J) := by
  obtain ⟨x, hdata, hlog⟩ := h.once
  have hlen := congrArg List.length hlog
  simp only [List.length_append] at hlen
  simp only [step]
  rw [Aof.flush_short h.isOpen hroom]
  refine ⟨h.isOpen, ?_, base ++ x, hdata, ?_, ?_⟩
  · exact List.ne_nil_of_length_pos (by show 0 < J.aof.buffer.length; omega)
  · show base.length + J.log.length <
      (base ++ x).length + (J.aof.stdio ++ J.aof.buffer.take room).length + J.aof.buffer.length
    simp only [List.length_append, List.length_take]
    omega
  · show (base ++ x).length + J.aof.buffer.length ≤ base.length + J.log.length
    simp only [List.length_append]
    omega

/-- A flush that succeeds and passes nothing on leaves the file behind. -/
theorem Clean.not_faithful (h : Clean base J) {room : Nat} {now : Int64}
    (hroom : J.aof.buffer.length ≤ room) (hw : ¬ WholeOrNothing (.flush room now) J) :
    ¬ Faithful base (.flush room now) J := by
  obtain ⟨x, hdata, hlog⟩ := h.once
  simp only [WholeOrNothing, if_pos hroom, not_or] at hw
  obtain ⟨a, he, hf⟩ := Aof.flush_whole h.isOpen hroom now
  rintro ⟨y, hy, -, hok⟩
  rw [he] at hy hok
  obtain rfl : x = y :=
    List.append_cancel_left (Option.some.inj (hdata.symm.trans ((hf.kept hw.1).1.symm.trans hy)))
  rw [hok rfl] at hlog
  exact hw.2 (List.append_right_eq_self.mp hlog)

/-! ### Flushes after a part was written -/

theorem Doubled.flush_short (h : Doubled base J) {room : Nat} (hroom : room < J.aof.buffer.length)
    (now : Int64) : Doubled base (step (.flush room now) J) := by
  obtain ⟨d, hdata, hmore, hle⟩ := h.more
  simp only [step]
  rw [Aof.flush_short h.isOpen hroom]
  refine ⟨h.isOpen, h.ne_nil, d, hdata, ?_, hle⟩
  show base.length + J.log.length <
    d.length + (J.aof.stdio ++ J.aof.buffer.take room).length + J.aof.buffer.length
  rw [List.length_append]
  omega

/-- The file is too long, or what is passed on next makes it so. -/
theorem Doubled.not_faithful (h : Doubled base J) {room : Nat} (hroom : J.aof.buffer.length ≤ room)
    (now : Int64) : ¬ Faithful base (.flush room now) J := by
  obtain ⟨d, hdata, hmore, hle⟩ := h.more
  have hpos := List.length_pos_iff.mpr h.ne_nil
  obtain ⟨a, he, hf⟩ := Aof.flush_whole h.isOpen hroom now
  rintro ⟨y, hy, -, hok⟩
  rw [he] at hy hok
  obtain rfl := hok rfl
  by_cases hff : J.aof.fflushes now
  · rw [(hf.passedOn hff).1, hdata, Option.map_some] at hy
    have hlen := congrArg List.length (Option.some.inj hy)
    simp only [List.length_append] at hlen
    omega
  · rw [(hf.kept hff).1, hdata] at hy
    have hlen := congrArg List.length (Option.some.inj hy)
    rw [List.length_append] at hlen
    omega

theorem Doubled.not_along : ∀ {es : List LogCall} {J : Journal} {room : Nat} {now : Int64},
    Doubled base J → (run step es J).aof.buffer.length ≤ room →
    ¬ Along step (Faithful base) (es ++ [.flush room now]) J
  | [], J, room, now, h, hroom, hall => h.not_faithful hroom now hall.1
  | .append args :: es, J, room, now, h, hroom, hall => not_along (h.append args) hroom hall.2
  | .flush room' now' :: es, J, room, now, h, hroom, hall => by
    by_cases hr : J.aof.buffer.length ≤ room'
    · exact h.not_faithful hr now' hall.1
    · exact not_along (h.flush_short (Nat.lt_of_not_le hr) now') hroom hall.2

/-! ### Runs -/

theorem Clean.call (h : Clean base J) {e : LogCall} (he : WholeOrNothing e J) :
    Clean base (step e J) ∧ Faithful base e J := by
  cases e with
  | append args => exact ⟨h.append args, trivial⟩
  | flush room now => exact h.flush he

theorem Clean.along {es : List LogCall} (h : Clean base J) (hw : Along step WholeOrNothing es J) :
    Along step (Faithful base) es J :=
  Along.imp (fun _ _ h he => (h.call he).1) (fun _ _ h he => (h.call he).2) h hw

theorem Clean.wholeOrNothing : ∀ {es : List LogCall} {J : Journal} {room : Nat} {now : Int64},
    Clean base J → (run step es J).aof.buffer.length ≤ room →
    Along step (Faithful base) (es ++ [.flush room now]) J →
    Along step WholeOrNothing (es ++ [.flush room now]) J
  | [], _, _, _, h, hroom, hall =>
    ⟨by_contra fun hw => h.not_faithful hroom hw hall.1, trivial⟩
  | .append args :: _, _, _, _, h, hroom, hall => ⟨trivial, wholeOrNothing (h.append args) hroom hall.2⟩
  | .flush room' now' :: es, J, _, _, h, hroom, hall => by
    have hw : WholeOrNothing (.flush room' now') J := by
      by_contra hw
      by_cases hr : J.aof.buffer.length ≤ room'
      · exact h.not_faithful hr hw hall.1
      · rw [WholeOrNothing, if_neg hr] at hw
        exact (h.doubled hw (Nat.lt_of_not_le hr) now').not_along hroom hall.2
    exact ⟨hw, wholeOrNothing (h.flush hw).1 hroom hall.2⟩

/-- A file that was just opened. -/
structure Opened (base : Bytes) (a : Aof) : Prop where
  isOpen : a.isOpen = true
  data : a.data = some base
  stdio : a.stdio = []
  buffer : a.buffer = []

theorem Opened.clean {a : Aof} (h : Opened base a) : Clean base ⟨a, []⟩ :=
  ⟨h.isOpen, [], by simp [h.data], by simp [h.stdio, h.buffer]⟩

/-- If the flushes of a run write all or nothing, and pass on what they write, the file is faithful
after each of them; and for a run up to a flush that succeeds, only then. -/
theorem faithful_iff {a : Aof} (h : Opened base a) (es : List LogCall) :
    (Along step WholeOrNothing es ⟨a, []⟩ → Along step (Faithful base) es ⟨a, []⟩) ∧
    ∀ (room : Nat) (now : Int64), (run step es ⟨a, []⟩).aof.buffer.length ≤ room →
      (Along step (Faithful base) (es ++ [.flush room now]) ⟨a, []⟩ ↔
        Along step WholeOrNothing (es ++ [.flush room now]) ⟨a, []⟩) :=
  ⟨h.clean.along, fun _ _ hroom => ⟨h.clean.wholeOrNothing hroom, h.clean.along⟩⟩

/-- An empty file. -/
def emptyFile (policy : FsyncPolicy) : Aof := { data := some [], isOpen := true, policy }

/-- The command `SET k v`. -/
def setKey : Args := [str "SET", str "k", str "v"]

/-- A write that takes nothing, and then one that takes all. -/
def retried : List LogCall := [.append setKey, .flush 0 5000]

theorem faithful_retried :
    Along step WholeOrNothing (retried ++ [.flush 27 5100]) ⟨emptyFile .always, []⟩ ∧
      Along step (Faithful []) (retried ++ [.flush 27 5100]) ⟨emptyFile .always, []⟩ := by
  have hw : Along step WholeOrNothing (retried ++ [.flush 27 5100]) ⟨emptyFile .always, []⟩ := by decide
  have hopened : Opened [] (emptyFile .always) := ⟨rfl, rfl, rfl, rfl⟩
  exact ⟨hw, ((faithful_iff hopened retried).2 27 5100 (by decide)).mpr hw⟩

/-- A write that takes 20 of 27 bytes, and then one that takes all: the file has 47 bytes. And a
flush that succeeds within a second of the last `fsync`: the file has only the first command. -/
theorem short_write_repeated :
    (∃ J : Journal, run step [.append setKey, .flush 20 5000, .flush 27 5100] ⟨emptyFile .always, []⟩ = J ∧
      J.log = encode setKey ∧ J.aof.data = some ((encode setKey).take 20 ++ encode setKey)) ∧
    ∃ J : Journal, run step [.append setKey, .flush 27 5000, .append setKey] ⟨emptyFile .everySec, []⟩ = J ∧
      J.log = encode setKey ++ encode setKey ∧ (J.aof.flush 27 5100).1 = .ok () ∧
      (J.aof.flush 27 5100).2.data = some (encode setKey) := by
  exact ⟨⟨_, rfl, by decide, by decide⟩, ⟨_, rfl, by decide, rfl, by decide⟩⟩

end Journal

/-! ## Rewrites -/

namespace Aof

/-- A replay of the log `a'`, with what is on its way to it, applies the commands of `a`, and
commands that are appended are recorded. -/
structure NothingLost (a a' : Aof) : Prop where
  replayed : (replay (some a'.contents)).applied = (replay (some a.contents)).applied
  isOpen : a'.isOpen = true
  recorded : ∀ args, args ≠ [] → (a'.append args).contents = a'.contents ++ encode args

theorem nothingLost_iff {a a' : Aof} : NothingLost a a' ↔
    (replay (some a'.contents)).applied = (replay (some a.contents)).applied ∧ a'.isOpen = true :=
  ⟨fun h => ⟨h.replayed, h.isOpen⟩, fun h => ⟨h.1, h.2, fun _ hargs => contents_append h.2 hargs⟩⟩

/-- What `close` leaves of the log. -/
def closed (room : Nat) (a : Aof) : Bytes := a.data.getD [] ++ a.stdio ++ a.buffer.take room

theorem close_spec {a : Aof} (hopen : a.isOpen = true) (hdata : a.data.isSome = true) (room : Nat) :
    (a.close room).data = some (a.closed room) ∧ (a.close room).isOpen = false :=
  ⟨data_close_take hopen hdata room, isOpen_close room a⟩

/-- A log that was closed is open again if the call succeeds, and then holds what the file does. -/
theorem nothingLost_open {a b : Aof} (hb : b.isOpen = false) (room : Nat) (opens : Bool) (path : Bytes)
    (policy : FsyncPolicy) : NothingLost a (b.open room opens path policy).2 ↔
      opens = true ∧ (replay (some (b.data.getD []))).applied = (replay (some a.contents)).applied := by
  have hclose : b.close room = b := if_neg (by simp [hb])
  rw [nothingLost_iff, Aof.open, hclose]
  cases opens with
  | false => simp [hb]
  | true => simp [contents]

/-- Of a rewrite of `a` whose rename fails: the log held no command if it was removed; if not, the
bytes that `close` could not write, after what it left of a last command, complete none. -/
def Spared (room : Nat) (removes : Bool) (a : Aof) : Prop :=
  if removes then (replay (some a.contents)).applied = []
  else ∀ rs x, Drains requestParser (a.closed room) rs x →
    (replay (some (x.input ++ a.buffer.drop room))).applied = []

theorem spared_iff {room : Nat} {removes : Bool} {a : Aof} : Spared room removes a ↔
    (replay (some (if removes then [] else a.closed room))).applied =
      (replay (some a.contents)).applied := by
  cases removes with
  | true => exact eq_comm
  | false =>
    obtain ⟨rs, x, hd⟩ := Drains.total requestParser (a.closed room)
    obtain ⟨rs', x', hd'⟩ := Drains.total requestParser (x.input ++ a.buffer.drop room)
    have hall : Drains requestParser a.contents (rs ++ rs') x' := by
      have hcut : a.contents = a.closed room ++ a.buffer.drop room := by
        rw [closed, contents, List.append_assoc _ (a.buffer.take room), List.take_append_drop]
      rw [hcut]
      exact hd.append (fun h t => parseRequest_append h t) hd'
    simp only [Spared, Bool.false_eq_true, if_false, replay_drains hd, replay_drains hall, dispatched_append]
    rw [List.self_eq_append_right]
    refine ⟨fun h => ?_, fun h rs₁ x₁ hd₁ => ?_⟩
    · have := h rs x hd
      rwa [replay_drains hd'] at this
    · obtain ⟨rfl, rfl⟩ := hd.det hd₁
      rw [replay_drains hd']
      exact h

/-- Of a rewrite of an open log that fails: nothing is lost exactly when the temporary file could
not be opened or written, or the rename failed, the log could be opened again and was spared. -/
theorem rewrite_keeps_iff {a : Aof} (hopen : a.isOpen = true) (hdata : a.data.isSome = true) (room : Nat)
    (io : RewriteIo) (path : Bytes) (records : List Record)
    (hfail : (a.rewrite room io path records).1 ≠ .ok ()) :
    NothingLost a (a.rewrite room io path records).2 ↔
      io.opens = false ∨ io.writes = false ∨
        io.renames = false ∧ io.reopens = true ∧ Spared room io.removes a := by
  have hsame : NothingLost a a := nothingLost_iff.mpr ⟨rfl, hopen⟩
  obtain ⟨hclosed, hshut⟩ := close_spec hopen hdata room
  unfold rewrite at hfail ⊢
  by_cases ho : io.opens = false
  · rw [if_pos (by simp [ho])]
    exact iff_of_true hsame (.inl ho)
  rw [if_neg (by simp [ho])] at hfail ⊢
  by_cases hw : io.writes = false
  · rw [if_pos (by simp [hw])]
    exact iff_of_true hsame (.inr (.inl hw))
  rw [if_neg (by simp [hw])] at hfail ⊢
  rw [or_iff_right ho, or_iff_right hw]
  simp only [hopen, if_true] at hfail ⊢
  by_cases hr : io.renames = false
  · rw [if_pos (by simp [hr]), and_iff_right hr, spared_iff]
    cases io.removes with
    | true => exact nothingLost_open (by exact hshut) room io.reopens path _
    | false =>
      refine (nothingLost_open (by exact hshut) room io.reopens path _).trans ?_
      rw [if_neg (by decide), if_neg (by decide), hclosed]
      rfl
  · rw [if_neg (by simp [hr])] at hfail ⊢
    refine iff_of_false (fun hn => hfail ?_) fun h => hr h.1
    rw [((nothingLost_open (by exact hshut) room io.reopens path _).mp hn).1]
    rfl

/-- The log of `SET k v`, with `DEL k` on its way to it. -/
def setThenDel : Aof :=
  { data := some (encode Journal.setKey), isOpen := true, buffer := encode [str "DEL", str "k"] }

/-- The temporary file cannot be written. -/
theorem rewrite_keeps_unwritten :
    (setThenDel.rewrite 100 { writes := false } (str "aof") []).1 ≠ .ok () ∧
      NothingLost setThenDel (setThenDel.rewrite 100 { writes := false } (str "aof") []).2 := by
  have hfail : (setThenDel.rewrite 100 { writes := false } (str "aof") []).1 ≠ .ok () := by
    simp [rewrite]
  exact ⟨hfail, (rewrite_keeps_iff rfl rfl 100 _ _ _ hfail).mpr (.inr (.inl rfl))⟩

/-- The log is removed and the new one cannot be renamed: it is open, and empty. Or the new one
is there and cannot be opened: what is appended from then on is ignored. -/
theorem rewrite_loses_log :
    ((setThenDel.rewrite 100 { renames := false } (str "aof") []).1 ≠ .ok () ∧
      (setThenDel.rewrite 100 { renames := false } (str "aof") []).2.contents = [] ∧
      (replay (some setThenDel.contents)).applied = [Journal.setKey, [str "DEL", str "k"]]) ∧
    (setThenDel.rewrite 100 { reopens := false } (str "aof") []).1 ≠ .ok () ∧
      (setThenDel.rewrite 100 { reopens := false } (str "aof") []).2.isOpen = false := by
  refine ⟨⟨by simp [rewrite], by decide, by decide⟩, ?_, by decide⟩
  simp [rewrite, setThenDel, close, Aof.open]

end Aof

end RP
