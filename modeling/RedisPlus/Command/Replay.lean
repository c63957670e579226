import RedisPlus.Command.Effect

/-!
# Replaying propagated commands late

A primary runs client commands; a follower, which may be the same server at its next boot,
applies what each of them propagated, at its own clock and no earlier. `Prompt` is what it
takes for the two to stay in agreement: a command that keeps a key alive must reach the
follower before the key's earlier deadline, and the deadline it propagates must be readable.
Along a whole run the live keys of the two agree exactly when every command is prompt
(`replay_agrees_iff`).
-/

namespace RP

open Framework (Keyspace Write)

/-- A command on the primary, and when the follower applies what it propagates. -/
structure Exchange where
  args : Args
  link : Option ClientLink := none
  primary : Ambient
  follower : Ambient

/-- A primary and a follower. -/
structure Pair (π ρ π' ρ' : Type) where
  primary : Node π ρ
  follower : Node π' ρ'

section

variable {π ρ π' ρ' : Type} (table : CommandTable π ρ) (table' : CommandTable π' ρ')

/-- One command, on the primary and then, if it was dirty, on the follower. -/
def exchange (x : Exchange) (P : Pair π ρ π' ρ') : Pair π ρ π' ρ' :=
  let (result, primary) := dispatch table x.primary x.link x.args P.primary
  ⟨primary,
    if result.dirty then applySilently table' x.follower result.propagate P.follower
    else P.follower⟩

/-- One exchange after the other. -/
def exchanges : List Exchange → Pair π ρ π' ρ' → Pair π ρ π' ρ'
  | [], P => P
  | x :: xs, P => exchanges xs (exchange table table' x P)

/-- The two have the same keys live at `T`, with the same values and deadlines. -/
def Agree (T : Int64) (P : Pair π ρ π' ρ') : Prop :=
  P.primary.store.live T = P.follower.store.live T

/-- Of a propagated command, where the keys `K` were live on the primary: by the time `u` at
which it is applied it does not prolong the life of a key that is dead by then, and if its
deadline cannot be read, its key is dead by then. -/
def InTime (u : Int64) (K : Keyspace Bytes Bytes Int64) : Args → Prop
  | c :: k :: rest =>
    match commandName c, rest with
    | some .persist, _ => (Write.persist k : Write Bytes Bytes Int64).Timely u K
    | some .pexpireat, [n] =>
      match toInt64 n with
      | some d => (Write.expire k d : Write Bytes Bytes Int64).Timely u K
      | none => K.live u k = none
    | some .set, [_, _, n] => toInt64 n = none → K.live u k = none
    | _, _ => True
  | _ => True

/-- What `x` propagates from the primary `N`, if anything, is in time. -/
def Prompt (x : Exchange) (N : Node π ρ) : Prop :=
  (dispatch table x.primary x.link x.args N).1.dirty = true →
    InTime x.follower.now (N.store.live x.primary.now)
      (dispatch table x.primary x.link x.args N).1.propagate

/-- Each exchange is prompt where it comes. -/
def AllPrompt : List Exchange → Node π ρ → Prop
  | [], _ => True
  | x :: xs, N => Prompt table x N ∧ AllPrompt xs (dispatch table x.primary x.link x.args N).2

end

/-- `InTime`, computed. -/
def inTime (u : Int64) (K : Keyspace Bytes Bytes Int64) : Args → Bool
  | c :: k :: rest =>
    match commandName c, rest with
    | some .persist, _ => (K k).all fun e => e.2.all fun d₀ => u < d₀
    | some .pexpireat, [n] =>
      match toInt64 n with
      | some d => (K k).all fun e => e.2.all fun d₀ => u < d → u < d₀
      | none => (K.live u k).isNone
    | some .set, [_, _, n] => (toInt64 n).isNone → (K.live u k).isNone
    | _, _ => true
  | _ => true

theorem inTime_iff (u : Int64) (K : Keyspace Bytes Bytes Int64) (cmd : Args) :
    inTime u K cmd = true ↔ InTime u K cmd := by
  have hall (p : Int64 → Prop) [DecidablePred p] (k : Bytes) :
      ((K k).all fun e => e.2.all fun d₀ => decide (p d₀)) = true ↔
        ∀ v d₀, K k = some (v, some d₀) → p d₀ := by
    cases hk : K k with
    | none => simp
    | some e =>
      obtain ⟨v, d₀⟩ := e
      cases d₀ <;> simp
  unfold inTime
  split
  · split
    · rename_i hname
      simp only [InTime, hname]
      exact hall _ _
    · rename_i n hname
      simp only [InTime, hname]
      cases toInt64 n with
      | some d => exact hall (fun d₀ => u < d → u < d₀) _
      | none => exact Option.isNone_iff_eq_none
    · rename_i hname
      simp [InTime, hname, imp_iff_not_or]
    · rename_i h₁ h₂ h₃
      simp [InTime]
  · rename_i h
    cases cmd with
    | nil => simp [InTime]
    | cons c rest =>
      cases rest with
      | nil => simp [InTime]
      | cons k rest => exact absurd rfl (h c k rest)

instance (u : Int64) (K : Keyspace Bytes Bytes Int64) (cmd : Args) : Decidable (InTime u K cmd) :=
  decidable_of_iff _ (inTime_iff u K cmd)

instance {π ρ : Type} (table : CommandTable π ρ) (x : Exchange) (N : Node π ρ) : Decidable (Prompt table x N) :=
  inferInstanceAs (Decidable (_ = true → _))

/-- A propagated command that gives its key a deadline. -/
def givesDeadline : Args → Bool
  | c :: _ :: rest =>
    match commandName c, rest with
    | some .pexpireat, _ => true
    | some .set, _ :: _ :: _ => true
    | _, _ => false
  | _ => false

/-- Without deadlines a command is always in time. -/
theorem inTime_of_undated {cmd : Args} (h : givesDeadline cmd = false) {u : Int64}
    {K : Keyspace Bytes Bytes Int64} (hK : ∀ k v d, K k ≠ some (v, some d)) : InTime u K cmd := by
  unfold InTime
  split
  · rename_i c k rest
    split
    · exact fun v d hk => absurd hk (hK k v d)
    · rename_i hname
      simp [givesDeadline, hname] at h
    · rename_i hname
      simp [givesDeadline, hname] at h
    · trivial
  · trivial

/-- Where the deadline can be read, to be in time is to be timely. -/
theorem inTime_iff_timely {cmd : Args} {w : Write Bytes Bytes Int64} (hc : Canonical cmd w)
    (h : writtenDeadline w ≠ some Int64.minValue) (u : Int64) (K : Keyspace Bytes Bytes Int64) :
    InTime u K cmd ↔ w.Timely u K := by
  cases hc with
  | set k v d =>
    refine iff_of_true ?_ trivial
    rw [setCanonical]
    split
    · rename_i hd
      have hmin : d ≠ Int64.minValue := fun e =>
        h (by simp only [writtenDeadline]; rw [Store.deadline, if_neg hd, e])
      simp [InTime, show commandName (str "SET") = some .set by decide, toInt64_intToString hmin]
    · simp [InTime, show commandName (str "SET") = some .set by decide]
  | del hc k ks => simp [InTime, hc, Write.Timely]
  | expire k d =>
    have hmin : d ≠ Int64.minValue := fun e => h (congrArg some e)
    simp only [InTime, show commandName (str "PEXPIREAT") = some .pexpireat by decide,
      toInt64_intToString hmin]
  | persist hc k => simp only [InTime, hc]
  | flush hc rest =>
    refine iff_of_true ?_ trivial
    cases rest <;> simp [InTime, hc]

/-- A write of the least deadline leaves its key dead, which is no change for the other keys. -/
theorem inTime_iff_unreadable {cmd : Args} {w : Write Bytes Bytes Int64} (hc : Canonical cmd w)
    (h : writtenDeadline w = some Int64.minValue) (t u : Int64) (K : Keyspace Bytes Bytes Int64) :
    InTime u K cmd ↔ (w.run t K).live u = K.live u := by
  have hmin (T : Int64) : ¬ T < Int64.minValue := Int64.not_lt.mpr T.minValue_le
  -- it is in time if and only if its key `k` is dead, and it leaves `k` dead and the rest alone
  suffices hk : ∃ k, (InTime u K cmd ↔ K.live u k = none) ∧ w.run t K k = none ∧
      ∀ k' ≠ k, w.run t K k' = K k' by
    obtain ⟨k, hin, hdead, hframe⟩ := hk
    rw [hin]
    constructor
    · intro hnone
      funext k'
      by_cases hk' : k' = k
      · rw [hk', hnone, Keyspace.live_of_none hdead]
      · rw [Keyspace.live, hframe k' hk']; rfl
    · intro he
      rw [← he, Keyspace.live_of_none hdead]
  cases hc with
  | set k v d =>
    obtain rfl : d = Int64.minValue := Store.eq_of_deadline h
    refine ⟨k, ?_, ?_, fun k' hk' => Write.run_frame hk'⟩
    · rw [setCanonical, if_pos (by decide)]
      simp only [List.cons_append, List.nil_append, InTime,
        show commandName (str "SET") = some .set by decide, toInt64_intToString_minValue,
        forall_const]
    · simp [Write.run, Store.deadline, show Int64.minValue ≠ kNoExpiry by decide, hmin]
  | expire k d =>
    obtain rfl : d = Int64.minValue := Option.some.inj h
    refine ⟨k, ?_, ?_, fun k' hk' => Write.run_frame hk'⟩
    · simp only [InTime, show commandName (str "PEXPIREAT") = some .pexpireat by decide,
        toInt64_intToString_minValue]
    · simp [Write.run, hmin]
  | del _ _ _ => exact absurd h (by simp [writtenDeadline])
  | persist _ _ => exact absurd h (by simp [writtenDeadline])
  | flush _ _ => exact absurd h (by simp [writtenDeadline])

section

variable {π ρ π' ρ' : Type} (table : CommandTable π ρ) (table' : CommandTable π' ρ')

theorem Agree.mono {T U : Int64} (h : T ≤ U) {P : Pair π ρ π' ρ'} (hP : Agree T P) : Agree U P :=
  Keyspace.live_congr h hP

theorem agree_exchange {x : Exchange} {P : Pair π ρ π' ρ'} {T : Int64} :
    Agree T (exchange table table' x P) ↔
      (dispatch table x.primary x.link x.args P.primary).2.store.live T =
        (if (dispatch table x.primary x.link x.args P.primary).1.dirty = true then
          applySilently table' x.follower (dispatch table x.primary x.link x.args P.primary).1.propagate
            P.follower
        else P.follower).store.live T := Iff.rfl

/-- One command keeps the agreement exactly when it is prompt. -/
theorem agree_exchange_iff {x : Exchange} {P : Pair π ρ π' ρ'}
    (htu : x.primary.now ≤ x.follower.now) (h : Agree x.follower.now P) :
    Agree x.follower.now (exchange table table' x P) ↔ Prompt table x P.primary := by
  have hlive (S : Store) : (S.live x.primary.now).live x.follower.now = S.live x.follower.now :=
    Keyspace.live_live htu S.view
  rw [agree_exchange, Prompt]
  rcases dispatch_effect table x.primary x.link x.args P.primary with ⟨hd, hS⟩ | ⟨w, hd, hc, hS⟩
  · refine iff_of_true ?_ (by simp [hd])
    rw [if_neg (by simp [hd]), ← hlive, hS, hlive]
    exact h
  · rw [if_pos hd, ← hlive, hS]
    simp only [hd, forall_const]
    by_cases hmin : writtenDeadline w = some Int64.minValue
    · rw [applySilently_unreadable table' hc hmin, ← h, ← hlive]
      exact (inTime_iff_unreadable hc hmin _ _ _).symm
    · rw [applySilently_canonical table' hc hmin, ← h, ← hlive]
      exact (Write.live_run htu _ w).trans (inTime_iff_timely hc hmin _ _).symm

/-- After every part of the run, from a time on. -/
theorem agree_exchanges_iff : ∀ (xs : List Exchange) (P : Pair π ρ π' ρ') (u : Int64),
    (∀ x ∈ xs, u ≤ x.follower.now) → xs.Pairwise (fun x y => x.follower.now ≤ y.follower.now) →
    (∀ x ∈ xs, x.primary.now ≤ x.follower.now) → Agree u P →
    ((∀ ys, ys <+: xs → ∀ T, u ≤ T → (∀ y ∈ ys, y.follower.now ≤ T) →
      Agree T (exchanges table table' ys P)) ↔ AllPrompt table xs P.primary)
  | [], P, u, _, _, _, hP => by
    refine iff_of_true ?_ trivial
    intro ys hys T hT _
    rw [List.prefix_nil.mp hys]
    exact hP.mono hT
  | x :: xs, P, u, hu, hle, htu, hP => by
    have hux := hu x List.mem_cons_self
    rw [List.pairwise_cons] at hle
    have hstep := agree_exchange_iff table table' (htu x List.mem_cons_self) (hP.mono hux)
    have hrest (hx : Agree x.follower.now (exchange table table' x P)) :=
      agree_exchanges_iff xs (exchange table table' x P) x.follower.now hle.1 hle.2
        (fun y hy => htu y (List.mem_cons_of_mem _ hy)) hx
    constructor
    · intro h
      have hx := h [x] (by simp) x.follower.now hux (by simp)
      refine ⟨hstep.mp hx, (hrest hx).mp fun ys hys T hT hyT => ?_⟩
      exact h (x :: ys) (by simpa using hys) T (Int64.le_trans hux hT) (by simpa using ⟨hT, hyT⟩)
    · rintro ⟨hprompt, hall⟩ ys hys T hT hyT
      cases ys with
      | nil => exact hP.mono hT
      | cons y ys =>
        obtain ⟨rfl, hys'⟩ := List.cons_prefix_cons.mp hys
        exact (hrest (hstep.mpr hprompt)).mpr hall ys hys' T (hyT _ List.mem_cons_self)
          fun z hz => hyT z (List.mem_cons_of_mem _ hz)

/-- From empty stores, the live keys of the primary and the follower agree after every part of
a run, and ever after, exactly when every command of the run is prompt. -/
theorem replay_agrees_iff (xs : List Exchange)
    (hle : xs.Pairwise fun x y => x.follower.now ≤ y.follower.now)
    (htu : ∀ x ∈ xs, x.primary.now ≤ x.follower.now) (P : Pair π ρ π' ρ')
    (hN : P.primary.store = {}) (hF : P.follower.store = {}) :
    (∀ ys, ys <+: xs → ∀ T, (∀ y ∈ ys, y.follower.now ≤ T) →
      Agree T (exchanges table table' ys P)) ↔ AllPrompt table xs P.primary := by
  have hP : Agree Int64.minValue P := by rw [Agree, hN, hF]
  have := agree_exchanges_iff table table' xs P Int64.minValue (fun x _ => x.follower.now.minValue_le)
    hle htu hP
  rw [← this]
  exact ⟨fun h ys hys T _ hy => h ys hys T hy, fun h ys hys T hy => h ys hys T T.minValue_le hy⟩

end

/-- A key gets a deadline of 100 at 0 and loses it at 50; the follower applies the commands at
`u₁` and `u₂`. -/
def persistRun (u₁ u₂ : Int64) : List Exchange :=
  [⟨[str "SET", str "k", str "v", str "PX", str "100"], none, ⟨0, []⟩, ⟨u₁, []⟩⟩,
    ⟨[str "PERSIST", str "k"], none, ⟨50, []⟩, ⟨u₂, []⟩⟩]

/-- Applied before the deadline, the two agree. -/
theorem persistRun_agrees :
    Agree 60 (exchanges {} {} (persistRun 10 60) ⟨bareNode, bareNode⟩) := by
  refine (replay_agrees_iff {} {} (persistRun 10 60) (by decide) (by decide) ⟨bareNode, bareNode⟩
    rfl rfl).mpr ⟨fun _ => ?_, fun _ => ?_, trivial⟩ _ List.prefix_rfl 60 (by decide)
  · show toInt64 (str "100") = none → _
    exact fun h => absurd h (by decide)
  · intro v d h
    have : (some (v, some d) : Option (Bytes × Option Int64)) = some (str "v", some 100) := by
      rw [← h]; decide
    simp only [Option.some.injEq, Prod.mk.injEq] at this
    rw [this.2]; decide

/-- Replayed at a boot at 200, the key the primary keeps for good is lost. -/
theorem persistRun_replayed_late :
    (persistRun 200 200).Pairwise (fun x y => x.primary.now ≤ y.primary.now ∧
      x.follower.now ≤ y.follower.now) ∧
    (∀ x ∈ persistRun 200 200, x.primary.now ≤ x.follower.now) ∧
    (exchanges {} {} (persistRun 200 200) ⟨bareNode, bareNode⟩).primary.store.live 200 (str "k") =
      some (str "v", none) ∧
    (exchanges {} {} (persistRun 200 200) ⟨bareNode, bareNode⟩).follower.store.live 200 (str "k") =
      none := by
  refine ⟨by decide, by decide, by decide, by decide⟩

end RP
