import RedisPlus.Aof.Replay
import RedisPlus.Aof.Torn
import RedisPlus.Persistence.Log

/-!
# Recovery from a crash, and further appends

A server writes commands to its log, the log is cut anywhere, and the server boots again: it
applies the commands that are whole, leaves the rest of the file as it is, and appends to it
(`loadAof_left`). The next boot applies the same commands and the appended ones, whatever they
are, exactly when the cut fell between two commands (`recovery_iff_boundary`).
-/

namespace RP

open Framework (Drains Rest)

namespace Persistence

/-- A process that starts with this log. -/
def boot (config : PersistenceConfig) (data : Option Bytes) : Persistence := { config, aof := { data } }

/-- The rest of a process: it appends the commands `B`, flushes them at `now`, and ends. Every
write succeeds. -/
def session (B : List Args) (now : Int64) (p : Persistence) : Persistence :=
  let p := B.foldl (fun p args => p.onWrite args) p
  let p := { p with aof := (p.aof.flush p.aof.buffer.length now).2 }
  { p with aof := p.aof.close p.aof.buffer.length }

/-- What a process leaves: the log it started from, and what it appended. -/
theorem data_session {c : Bytes} {p : Persistence} (h : Holds c p) {B : List Args} (hB : ∀ args ∈ B, args ≠ [])
    (now : Int64) : (p.session B now).aof.data = some (c ++ encs B) := by
  have hwritten := Holds.onWrites B h hB
  obtain ⟨hcontents, hfile, hopen⟩ := Aof.contents_flush hwritten.isOpen hwritten.file (Nat.le_refl _) now
  rw [← hwritten.contents, ← hcontents]
  exact Aof.data_close hopen hfile (Nat.le_refl _)

section

variable {π ρ : Type} (table : CommandTable π ρ) (amb : Ambient)

/-- A boot on a log that drains without an error. -/
theorem loadAof_left {s l : Bytes} {rs : List Args} (h : Drains requestParser s rs (.left l))
    (config : PersistenceConfig) (room : Nat) (N : Node π ρ) :
    ∃ L, loadAof table amb room true (boot config (some s)) N = L ∧ L.result = .ok () ∧
      L.applied = dispatched rs ∧ L.pers.config = config ∧ L.pers.aof.isOpen = true ∧
      L.pers.aof.data = some s ∧ L.pers.aof.contents = s := by
  refine ⟨_, rfl, ?_⟩
  simp only [loadAof, boot, Aof.replay_drains h, Aof.replayEnd]
  split <;> simp [Aof.open, Aof.close, Aof.contents]

/-- A boot on a log that does not. -/
theorem loadAof_broken {s l e : Bytes} {rs : List Args} (h : Drains requestParser s rs (.broken e l))
    (config : PersistenceConfig) (room : Nat) (N : Node π ρ) :
    (loadAof table amb room true (boot config (some s)) N).result ≠ .ok () := by
  simp [loadAof, boot, Aof.replay_drains h, Aof.replayEnd]

/-- It applies what it read. -/
theorem node_loadAof (room : Nat) (opens : Bool) (p : Persistence) (N : Node π ρ) :
    (loadAof table amb room opens p N).node =
      (loadAof table amb room opens p N).applied.foldl (fun N args => applySilently table amb args N) N := by
  unfold loadAof
  dsimp only
  split <;> rfl

/-- A boot on a whole log. -/
theorem loadAof_encs {A : List Args} (hA : ∀ args ∈ A, Loggable args) (config : PersistenceConfig)
    (room : Nat) (N : Node π ρ) :
    (loadAof table amb room true (boot config (some (encs A))) N).result = .ok () ∧
      (loadAof table amb room true (boot config (some (encs A))) N).applied = A := by
  have hdrains := commandCode.drains_all fun args h => (hA args h).toWithin
  obtain ⟨_, rfl, hresult, happlied, -⟩ := loadAof_left table amb hdrains config room N
  exact ⟨hresult, happlied.trans (dispatched_loggable hA)⟩

theorem load_of_aof {p : Persistence} (haof : p.config.aofEnabled = true) (rounds room : Nat)
    (rdbFile : Option Bytes) (N : Node π ρ) :
    p.load table amb rounds room true rdbFile N = some (loadAof table amb room true p N) :=
  if_pos haof

end

/-- A command with an empty argument, appended to a torn one, is not applied. -/
theorem not_applied_after_torn {args : Args} (h : Within args) {t u : Bytes} (ht : t ≠ [])
    (he : encode args = t ++ u) (hu : u ≠ []) {rs : List Args} {x : Rest UInt8 Bytes}
    (hd : Drains requestParser (t ++ encode [[]]) rs x) : dispatched rs ≠ [[[]]] := by
  cases hd with
  | stop => exact List.cons_ne_nil _ _ ∘ Eq.symm
  | fail => exact List.cons_ne_nil _ _ ∘ Eq.symm
  | @step _ g m rs _ hp _ =>
    intro hrs
    have hstar : encode [[]] = 42 :: (encode [[]]).tail := by decide
    rw [hstar, requestParser_parse] at hp
    obtain ⟨a, ha, hne⟩ := parseRequest_torn h he ht hu hp
    rw [dispatched_cons, if_neg (List.ne_nil_of_mem ha), List.cons.injEq] at hrs
    rw [hrs.1, List.mem_singleton] at ha
    exact hne ha

section

variable {π ρ : Type} (table : CommandTable π ρ)

/-- Nor by a boot on a log that goes on with it behind the commands `A`. -/
theorem not_applied_of_loadAof (amb : Ambient) {A : List Args} (hA : ∀ args ∈ A, Loggable args)
    {args : Args} (h : Within args) {t u : Bytes} (ht : t ≠ []) (he : encode args = t ++ u) (hu : u ≠ [])
    {config : PersistenceConfig} {room : Nat} {N : Node π ρ}
    (hres : (loadAof table amb room true (boot config (some (encs A ++ (t ++ encode [[]])))) N).result =
      .ok ()) :
    (loadAof table amb room true (boot config (some (encs A ++ (t ++ encode [[]])))) N).applied ≠
      A ++ [[[]]] := by
  obtain ⟨rs, x, hx⟩ := Drains.total requestParser (t ++ encode [[]])
  have hwhole : Drains requestParser (encs A ++ (t ++ encode [[]])) (A ++ rs) x :=
    commandCode.drains (fun a ha => (hA a ha).toWithin) hx
  cases x with
  | broken e l => exact absurd hres (loadAof_broken table amb hwhole config room N)
  | left l =>
    obtain ⟨_, rfl, -, happlied, -⟩ := loadAof_left table amb hwhole config room N
    rw [happlied, dispatched_append, dispatched_loggable hA]
    exact fun heq => not_applied_after_torn h ht he hu hx (List.append_cancel_left heq)

/-- The log of `A`, cut after `n` bytes: the boot succeeds, and the next boot, after any further
commands, succeeds and applies what this one applied and those commands, exactly when the cut
is between two commands. -/
theorem recovery_iff_boundary {config : PersistenceConfig} (haof : config.aofEnabled = true)
    {A : List Args} (hA : ∀ args ∈ A, Loggable args) (n rounds room : Nat) (rdbFile : Option Bytes)
    (amb amb' : Ambient) (now : Int64) (N N' : Node π ρ) :
    ∃ first, (boot config (some ((encs A).take n))).load table amb rounds room true rdbFile N = some first ∧
      first.result = .ok () ∧
      ((∀ B, (∀ args ∈ B, Loggable args) →
        ∃ second, (boot config (first.pers.session B now).aof.data).load table amb' rounds room true
            rdbFile N' = some second ∧
          second.result = .ok () ∧ second.applied = first.applied ++ B) ↔
      ∃ k, (encs A).take n = encs (A.take k)) := by
  have hW : ∀ args ∈ A, commandCode.ok args := fun args h => (hA args h).toWithin
  obtain ⟨k, t, hcut, hd, ht⟩ := commandCode.torn hW (List.take_append_drop n (encs A)).symm
  obtain ⟨first, hfirst, hres, happ, hcfg, hopen, hdata, hcont⟩ := loadAof_left table amb hd config room N
  have hAk (j : Nat) : ∀ args ∈ A.take j, Loggable args := fun args h => hA args (List.mem_of_mem_take h)
  rw [dispatched_loggable (hAk k)] at happ
  have hsession {B : List Args} (hB : ∀ args ∈ B, Loggable args) :
      (first.pers.session B now).aof.data = some ((encs A).take n ++ encs B) := by
    have hholds : Holds ((encs A).take n) first.pers :=
      ⟨by rw [hcfg]; exact haof, hopen, by rw [hdata]; rfl, hcont⟩
    exact data_session hholds (fun args h => (hB args h).ne_nil) now
  refine ⟨first, by rw [load_of_aof _ _ haof, hfirst], hres, ?_, ?_⟩
  · intro hall
    by_contra hbound
    have ht0 : t ≠ [] := by
      rintro rfl
      exact hbound ⟨k, by rw [hcut, List.append_nil]; rfl⟩
    obtain ⟨args, u, hk, he, hu⟩ := ht.resolve_left ht0
    have hempty : ∀ args ∈ ([[[]]] : List Args), Loggable args := by
      simp only [List.mem_singleton, forall_eq]
      exact { count := by decide, size := by decide, ne_nil := by decide }
    obtain ⟨second, hsecond, hres', happ'⟩ := hall [[[]]] hempty
    rw [hsession hempty, load_of_aof _ _ haof, hcut, List.append_assoc, encs_singleton] at hsecond
    obtain rfl := Option.some.inj hsecond
    rw [happ] at happ'
    exact not_applied_of_loadAof table amb' (hAk k) (hW args (List.mem_of_getElem? hk)) ht0 he hu hres' happ'
  · rintro ⟨j, hj⟩ B hB
    have hdj : Drains requestParser ((encs A).take n) (A.take j) (.left []) := by
      rw [hj]; exact commandCode.drains_all fun a h => (hAk j a h).toWithin
    have hkj : A.take k = A.take j := (hd.det hdj).1
    have hjB : ∀ args ∈ A.take j ++ B, Loggable args := by
      intro args h
      rcases List.mem_append.mp h with h | h
      · exact hAk j args h
      · exact hB args h
    obtain ⟨hres', happ'⟩ := loadAof_encs table amb' hjB config room N'
    refine ⟨_, by rw [hsession hB, hj, ← encs_append, load_of_aof _ _ haof], hres', ?_⟩
    rw [happ', happ, hkj]

end

/-- The AOF enabled, with the defaults otherwise. -/
def aofConfig : PersistenceConfig := { aofEnabled := true }

/-- A log of one command, whole. -/
theorem recovery_whole :
    ∃ first, (boot aofConfig (some ((encs [[str "SET", str "k", str "v"]]).take 27))).load {} ⟨0, []⟩ 0 0
        true none bareNode = some first ∧
      ∀ B, (∀ args ∈ B, Loggable args) →
        ∃ second, (boot aofConfig (first.pers.session B 0).aof.data).load {} ⟨0, []⟩ 0 0 true none
            bareNode = some second ∧
          second.result = .ok () ∧ second.applied = first.applied ++ B := by
  have hA : ∀ args ∈ [[str "SET", str "k", str "v"]], Loggable args := by
    simp only [List.mem_singleton, forall_eq]
    exact { count := by decide, size := by decide, ne_nil := by decide }
  obtain ⟨first, hfirst, -, hiff⟩ := recovery_iff_boundary {} (show aofConfig.aofEnabled = true from rfl)
    hA 27 0 0 none ⟨0, []⟩ ⟨0, []⟩ 0 bareNode bareNode
  exact ⟨first, hfirst, hiff.mpr ⟨1, by decide⟩⟩

/-- The same log without its last bulk string: the boot recovers, one command is appended, and
the next boot refuses the log as corrupt. -/
theorem recovery_torn :
    ∃ first second,
      (boot aofConfig (some ((encs [[str "SET", str "k", str "v"]]).take 20))).load {} ⟨0, []⟩ 0 0 true
        none bareNode = some first ∧ first.result = .ok () ∧ first.applied = [] ∧
      (boot aofConfig (first.pers.session [[str "DEL", str "k"]] 0).aof.data).load {} ⟨0, []⟩ 0 0 true
        none bareNode = some second ∧ second.result ≠ .ok () :=
  ⟨_, _, rfl, by decide, by decide, rfl, by decide⟩

end Persistence

end RP
