import Mathlib.Data.List.Forall2

/-!
# Machines that run on events

A machine is a step function on events and states. `run` takes it through a list of events,
`Along` says that each of these meets a condition in the state it happens in, and `collect`
gathers what the steps put out. An invariant that the steps keep under the condition holds
after the run (`Along.invariant`, `Along.imp`), and where the condition is what a step needs to
keep it, only then (`Along.keeps_iff`). A relation between a state, an output and the next state
that composes holds over the run (`Along.collects`), and so does a view of it as a run of another machine
(`Along.views`). Events that put out nothing and keep a
simulation can be left out of a run (`collect_filter`), and a machine that another one simulates puts
out what that one puts out (`Along.simulates`).
-/

namespace Framework

variable {S E O : Type} (step : E → S → S)

/-- The state after the events. -/
def run (es : List E) (s : S) : S := es.foldl (fun s e => step e s) s

@[simp] theorem run_nil (s : S) : run step [] s = s := rfl

@[simp] theorem run_cons (e : E) (es : List E) (s : S) : run step (e :: es) s = run step es (step e s) := rfl

theorem run_append (es es' : List E) (s : S) : run step (es ++ es') s = run step es' (run step es s) :=
  List.foldl_append

/-- Every event meets `P` in the state it happens in. -/
def Along (P : E → S → Prop) : List E → S → Prop
  | [], _ => True
  | e :: es, s => P e s ∧ Along P es (step e s)

instance Along.decide {P : E → S → Prop} [∀ e s, Decidable (P e s)] :
    ∀ (es : List E) (s : S), Decidable (Along step P es s)
  | [], _ => inferInstanceAs (Decidable True)
  | e :: es, s =>
    haveI := Along.decide (P := P) es (step e s)
    inferInstanceAs (Decidable (P e s ∧ Along step P es (step e s)))

/-- What the steps put out, in order. -/
def collect (out : E → S → List O) : List E → S → List O
  | [], _ => []
  | e :: es, s => out e s ++ collect out es (step e s)

variable {step} {P : E → S → Prop} {I : S → Prop}

theorem along_append : ∀ {es es' : List E} {s : S},
    Along step P (es ++ es') s ↔ Along step P es s ∧ Along step P es' (run step es s)
  | [], _, _ => by simp [Along]
  | e :: es, es', s => by
    rw [List.cons_append, Along, Along, along_append, and_assoc, run_cons]

namespace Along

/-- A condition on the events alone may be added. -/
theorem and_mem {Q : E → Prop} : ∀ {es : List E} {s : S}, Along step P es s → (∀ e ∈ es, Q e) →
    Along step (fun e s => P e s ∧ Q e) es s
  | [], _, _, _ => trivial
  | e :: _, _, h, hq =>
    ⟨⟨h.1, hq e List.mem_cons_self⟩, and_mem h.2 fun e' he' => hq e' (List.mem_cons_of_mem _ he')⟩

theorem of_mem {Q : E → Prop} : ∀ {es : List E} (s : S), (∀ e ∈ es, Q e) →
    Along step (fun e _ => Q e) es s
  | [], _, _ => trivial
  | e :: _, s, h =>
    ⟨h e List.mem_cons_self, of_mem (step e s) fun e' he' => h e' (List.mem_cons_of_mem _ he')⟩

theorem of_forall (h : ∀ e s, P e s) : ∀ (es : List E) (s : S), Along step P es s
  | [], _ => trivial
  | e :: es, s => ⟨h e s, of_forall h es (step e s)⟩

/-- An invariant that the steps keep holds after the run. -/
theorem invariant (hstep : ∀ e s, I s → P e s → I (step e s)) :
    ∀ {es : List E} {s : S}, I s → Along step P es s → I (run step es s)
  | [], _, hi, _ => hi
  | e :: es, s, hi, h =>
    show I (run step es (step e s)) from invariant hstep (hstep e s hi h.1) h.2

/-- What the condition and an invariant give of each step. -/
theorem imp {Q : E → S → Prop} (hkeep : ∀ e s, I s → P e s → I (step e s))
    (himp : ∀ e s, I s → P e s → Q e s) : ∀ {es : List E} {s : S}, I s → Along step P es s →
    Along step Q es s
  | [], _, _, _ => trivial
  | e :: _, s, hi, h => ⟨himp e s hi h.1, imp hkeep himp (hkeep e s hi h.1) h.2⟩

/-- If, of events of a kind `Q`, the condition is what a step needs to keep `I`: all the steps meet it
exactly if `I` holds after each. What else the argument is based on, `J`, such steps keep anyway. -/
theorem keeps_iff {J : S → Prop} {Q : E → S → Prop} (hkeep : ∀ e s, J s → Q e s → J (step e s))
    (hstep : ∀ e s, J s → I s → Q e s → (I (step e s) ↔ P e s)) :
    ∀ {es : List E} {s : S}, J s → I s → Along step Q es s →
    (Along step (fun e s => I (step e s)) es s ↔ Along step P es s)
  | [], _, _, _, _ => Iff.rfl
  | e :: es, s, hj, hi, hq => by
    rw [Along, Along, hstep e s hj hi hq.1]
    exact and_congr_right fun hp =>
      keeps_iff hkeep hstep (hkeep e s hj hq.1) ((hstep e s hj hi hq.1).mpr hp) hq.2

/-- A relation that holds over each step, and composes, holds over the run. -/
theorem collects {out : E → S → List O} {R : S → List O → S → Prop} (hnil : ∀ s, R s [] s)
    (htrans : ∀ {s t u : S} {x y : List O}, R s x t → R t y u → R s (x ++ y) u)
    (hkeep : ∀ e s, I s → P e s → I (step e s))
    (hstep : ∀ e s, I s → P e s → R s (out e s) (step e s)) :
    ∀ {es : List E} {s : S}, I s → Along step P es s → R s (collect step out es s) (run step es s)
  | [], s, _, _ => hnil s
  | e :: _, s, hi, h =>
    htrans (hstep e s hi h.1) (collects hnil htrans hkeep hstep (hkeep e s hi h.1) h.2)

/-- If what is seen of a step is a run of another machine, what is seen of a run is. -/
theorem views {S' E' : Type} {view : S → S'} {step' : E' → S' → S'} {trace : E → S → List E'}
    (h : ∀ e s, P e s → view (step e s) = run step' (trace e s) (view s)) {es : List E} {s : S}
    (hes : Along step P es s) : view (run step es s) = run step' (collect step trace es s) (view s) := by
  refine collects (I := fun _ => True) (R := fun s x t => view t = run step' x (view s)) (fun _ => rfl) ?_
    (fun _ _ _ _ => trivial) (fun e s _ => h e s) trivial hes
  intro s t u x y hst htu
  rw [htu, hst, run_append]

end Along

/-- A run, and the one without its silent events. The simulation may depend on the time, which
only goes on. -/
theorem collect_filter {τ : Type} [LE τ] {time : E → τ} {silent : E → Bool} {out : E → S → List O}
    {R : τ → S → S → Prop} {A : O → O → Prop}
    (hmono : ∀ (t u : τ) (s s' : S), t ≤ u → R t s s' → R u s s')
    (hcall : ∀ (e : E) (s s' : S), silent e = false → R (time e) s s' →
      List.Forall₂ A (out e s) (out e s') ∧ R (time e) (step e s) (step e s'))
    (hsilent : ∀ (e : E) (s s' : S), silent e = true → R (time e) s s' →
      out e s = [] ∧ R (time e) (step e s) s') :
    ∀ {es : List E} {t : τ} {s s' : S}, (∀ e ∈ es, t ≤ time e) →
      es.Pairwise (fun e e' => time e ≤ time e') → R t s s' →
      List.Forall₂ A (collect step out es s) (collect step out (es.filter fun e => !silent e) s')
  | [], _, _, _, _, _, _ => .nil
  | e :: es, t, s, s', hle, hpw, hR => by
    rw [List.pairwise_cons] at hpw
    have hnow := hmono _ _ s s' (hle e List.mem_cons_self) hR
    cases hs : silent e with
    | true =>
      obtain ⟨hout, hR'⟩ := hsilent e s s' hs hnow
      rw [collect, hout, List.nil_append, List.filter_cons_of_neg (by simp [hs])]
      exact collect_filter hmono hcall hsilent hpw.1 hpw.2 hR'
    | false =>
      obtain ⟨hout, hR'⟩ := hcall e s s' hs hnow
      rw [List.filter_cons_of_pos (by simp [hs]), collect, collect]
      exact List.rel_append hout (collect_filter hmono hcall hsilent hpw.1 hpw.2 hR')

/-- Two machines on the same events, where a step of the first under the condition is one of the second.
The simulation may depend on the time, which only goes on. -/
theorem Along.simulates {S' O' τ : Type} [LE τ] {time : E → τ} {step' : E → S' → S'}
    {out : E → S → List O} {out' : E → S' → List O'} {R : τ → S → S' → Prop} {A : O → O' → Prop}
    (hmono : ∀ (t u : τ) (s : S) (s' : S'), t ≤ u → R t s s' → R u s s')
    (hstep : ∀ (e : E) (s : S) (s' : S'), P e s → R (time e) s s' →
      List.Forall₂ A (out e s) (out' e s') ∧ R (time e) (step e s) (step' e s')) :
    ∀ {es : List E} {t : τ} {s : S} {s' : S'}, (∀ e ∈ es, t ≤ time e) →
      es.Pairwise (fun e e' => time e ≤ time e') → Along step P es s → R t s s' →
      List.Forall₂ A (collect step out es s) (collect step' out' es s') ∧
        ∀ u, t ≤ u → (∀ e ∈ es, time e ≤ u) → R u (run step es s) (run step' es s')
  | [], t, s, s', _, _, _, hR => ⟨.nil, fun u htu _ => hmono t u s s' htu hR⟩
  | e :: es, t, s, s', hle, hpw, hP, hR => by
    rw [List.pairwise_cons] at hpw
    obtain ⟨hout, hR'⟩ := hstep e s s' hP.1 (hmono _ _ s s' (hle e List.mem_cons_self) hR)
    obtain ⟨houts, hrun⟩ := simulates hmono hstep hpw.1 hpw.2 hP.2 hR'
    refine ⟨List.rel_append hout houts, fun u _ hu => ?_⟩
    exact hrun u (hu e List.mem_cons_self) fun e' he' => hu e' (List.mem_cons_of_mem _ he')

end Framework
