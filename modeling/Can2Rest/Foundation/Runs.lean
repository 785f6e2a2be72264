import Mathlib.Order.Basic

/-!
# Runs of a step function

All nondeterminism is in the events, so a run is a left fold of the step
function.  `Along` says that every event of a run meets a condition, judged on
the state it is taken in; a prefix of such a run is such a run, so what holds
at the end of every run holds in every state a run reaches.
-/

namespace Can2Rest.Foundation

variable {σ ε : Type} (step : σ → ε → σ)

def runFrom (state : σ) (events : List ε) : σ := events.foldl step state

@[simp] theorem runFrom_nil (state : σ) : runFrom step state [] = state := rfl

@[simp] theorem runFrom_cons (state : σ) (event : ε) (events : List ε) :
    runFrom step state (event :: events) =
      runFrom step (step state event) events := rfl

theorem runFrom_append (state : σ) (before after : List ε) :
    runFrom step state (before ++ after) =
      runFrom step (runFrom step state before) after :=
  List.foldl_append

def Along (C : σ → ε → Prop) : σ → List ε → Prop
  | _, [] => True
  | state, event :: events =>
      C state event ∧ Along C (step state event) events

variable {step} {C : σ → ε → Prop}

@[simp] theorem along_nil (state : σ) : Along step C state [] := trivial

@[simp] theorem along_cons (state : σ) (event : ε) (events : List ε) :
    Along step C state (event :: events) ↔
      C state event ∧ Along step C (step state event) events :=
  Iff.rfl

theorem along_append {state : σ} {before after : List ε} :
    Along step C state (before ++ after) ↔
      Along step C state before ∧
        Along step C (runFrom step state before) after := by
  induction before generalizing state with
  | nil => simp
  | cons event before ih => simp [ih, and_assoc]

theorem along_iff_forall {D : ε → Prop} {state : σ} {events : List ε} :
    Along step (fun _ event => D event) state events ↔ ∀ event ∈ events, D event := by
  induction events generalizing state with
  | nil => simp
  | cons event events ih => rw [along_cons, ih, List.forall_mem_cons]

instance instDecidableAlong [∀ state event, Decidable (C state event)] :
    (state : σ) → (events : List ε) → Decidable (Along step C state events)
  | _, [] => isTrue trivial
  | state, event :: events =>
      have := instDecidableAlong (step state event) events
      inferInstanceAs (Decidable (C state event ∧ _))

theorem Along.mono {D : σ → ε → Prop}
    (himp : ∀ state event, C state event → D state event)
    {state : σ} {events : List ε} (h : Along step C state events) :
    Along step D state events := by
  induction events generalizing state with
  | nil => trivial
  | cons event events ih => exact ⟨himp _ _ h.1, ih h.2⟩

theorem along_prefix (step : σ → ε → σ) (state : σ) (events : List ε) :
    Along step (fun s _ => ∃ before, before <+: events ∧ s = runFrom step state before) state
      events := by
  induction events generalizing state with
  | nil => trivial
  | cons event events ih =>
      refine ⟨⟨[], List.nil_prefix, rfl⟩, ?_⟩
      refine Along.mono ?_ (ih (step state event))
      rintro _ _ ⟨before, hbefore, rfl⟩
      exact ⟨event :: before, List.cons_prefix_cons.mpr ⟨rfl, hbefore⟩, rfl⟩

theorem Along.invariant (Inv : σ → Prop)
    (hstep : ∀ state event, C state event → Inv state →
      Inv (step state event))
    {state : σ} {events : List ε} (h : Along step C state events)
    (hinv : Inv state) : Inv (runFrom step state events) := by
  induction events generalizing state with
  | nil => exact hinv
  | cons event events ih => exact ih h.2 (hstep state event h.1 hinv)

theorem runFrom_invariant (Inv : σ → Prop)
    (hstep : ∀ state event, Inv state → Inv (step state event))
    (state : σ) (events : List ε) (hinv : Inv state) :
    Inv (runFrom step state events) := by
  induction events generalizing state with
  | nil => exact hinv
  | cons event events ih => exact ih _ (hstep state event hinv)

/-- Conditions carry over along a run with the help of an invariant. -/
theorem Along.mono_of_invariant {D : σ → ε → Prop} (Inv : σ → Prop)
    (hstep : ∀ state event, C state event → Inv state →
      D state event ∧ Inv (step state event))
    {state : σ} {events : List ε} (h : Along step C state events)
    (hinv : Inv state) : Along step D state events := by
  induction events generalizing state with
  | nil => trivial
  | cons event events ih =>
      obtain ⟨hevent, hnext⟩ := hstep state event h.1 hinv
      exact ⟨hevent, ih h.2 hnext⟩

/-! ## What a run shows -/

section Observed

variable {α : Type} {observe : σ → ε → Option α}

def observed (step : σ → ε → σ) (observe : σ → ε → Option α) : σ → List ε → List α
  | _, [] => []
  | state, event :: events =>
      (observe state event).toList ++ observed step observe (step state event) events

/-- What is shown increases if it lies between a bound before and one after the event. -/
theorem Along.increasing [Preorder α] {bound : σ → α}
    (hquiet : ∀ s e, C s e → observe s e = none → bound s ≤ bound (step s e))
    (hshown : ∀ s e value, C s e → observe s e = some value →
      bound s ≤ value ∧ value < bound (step s e))
    {state : σ} {events : List ε} (h : Along step C state events) :
    (∀ value ∈ observed step observe state events, bound state ≤ value) ∧
      (observed step observe state events).Pairwise (· < ·) := by
  induction events generalizing state with
  | nil => exact ⟨nofun, .nil⟩
  | cons event events ih =>
      obtain ⟨hbound, hpairwise⟩ := ih h.2
      rw [observed]
      cases hobserve : observe state event with
      | none =>
          have hle := hquiet state event h.1 hobserve
          exact ⟨fun value hvalue => hle.trans (hbound value hvalue), hpairwise⟩
      | some first =>
          obtain ⟨hle, hlt⟩ := hshown state event first h.1 hobserve
          refine ⟨fun value hvalue => ?_, List.pairwise_cons.mpr ⟨fun value hvalue => ?_,
            hpairwise⟩⟩
          · rcases List.mem_cons.mp hvalue with rfl | hrest
            · exact hle
            · exact hle.trans (hlt.le.trans (hbound value hrest))
          · exact hlt.trans_le (hbound value hvalue)

end Observed

/-! ## Two runs -/

section TwoRuns

variable {κ : Type} {visible : ε → Bool} {content : ε → κ} {P : ε → Prop}
variable {R : σ → σ → Prop}

theorem runFrom_hidden (hright : ∀ s t e, visible e = false → R s t → R s (step t e))
    {first second : σ} {events : List ε} (hevents : ∀ e ∈ events, visible e = false)
    (h : R first second) : R first (runFrom step second events) := by
  induction events generalizing second with
  | nil => exact h
  | cons event events ih =>
      have hrest : ∀ e ∈ events, visible e = false :=
        fun e he => hevents e (List.mem_cons_of_mem _ he)
      exact ih hrest (hright _ _ _ (hevents event List.mem_cons_self) h)

theorem runFrom_filter {keep : ε → Bool} {Inv : σ → Prop}
    (hinv : ∀ s e, Inv s → Inv (step s e))
    (hkept : ∀ s t e, keep e = true → Inv s → R s t → R (step s e) (step t e))
    (hdropped : ∀ s t e, keep e = false → Inv s → R s t → R (step s e) t)
    {full cut : σ} (events : List ε) (hfull : Inv full) (h : R full cut) :
    R (runFrom step full events) (runFrom step cut (events.filter keep)) := by
  induction events generalizing full cut with
  | nil => exact h
  | cons event events ih =>
      cases hkeep : keep event with
      | true =>
          rw [List.filter_cons_of_pos hkeep]
          exact ih (hinv _ _ hfull) (hkept _ _ _ hkeep hfull h)
      | false =>
          rw [List.filter_cons_of_neg (by simp [hkeep])]
          exact ih (hinv _ _ hfull) (hdropped _ _ _ hkeep hfull h)

/--
Two runs with the same visible contents stay related, if visible events with
equal contents preserve the relation and the others change neither side of it.
-/
theorem runFrom_agree
    (hleft : ∀ s t e, visible e = false → R s t → R (step s e) t)
    (hright : ∀ s t e, visible e = false → R s t → R s (step t e))
    (hboth : ∀ s t e e', visible e = true → visible e' = true → P e →
      content e = content e' → R s t → R (step s e) (step t e'))
    {first second : σ} {events events' : List ε}
    (hcontent : (events.filter visible).map content =
      (events'.filter visible).map content)
    (hP : ∀ e ∈ events, visible e = true → P e) (h : R first second) :
    R (runFrom step first events) (runFrom step second events') := by
  induction events generalizing first second events' with
  | nil =>
      have hnone : ∀ e ∈ events', visible e = false := by
        intro e he
        simp only [List.filter_nil, List.map_nil] at hcontent
        have hempty := List.filter_eq_nil_iff.mp (List.map_eq_nil_iff.mp hcontent.symm)
        simpa using hempty e he
      exact runFrom_hidden hright hnone h
  | cons event events ih =>
      have hrest : ∀ e ∈ events, visible e = true → P e :=
        fun e he => hP e (List.mem_cons_of_mem _ he)
      cases hvisible : visible event with
      | false =>
          rw [List.filter_cons_of_neg (by simp [hvisible])] at hcontent
          exact ih hcontent hrest (hleft _ _ _ hvisible h)
      | true =>
          rw [List.filter_cons_of_pos hvisible, List.map_cons] at hcontent
          obtain ⟨event', rest, hfilter, hsame, hmap⟩ := List.map_eq_cons_iff.mp hcontent.symm
          obtain ⟨before, after, rfl, hbefore, hvisible', hafter⟩ :=
            List.filter_eq_cons_iff.mp hfilter
          have hskipped : ∀ e ∈ before, visible e = false :=
            fun e he => by simpa using hbefore e he
          have hreached := runFrom_hidden hright hskipped h
          rw [runFrom_append, runFrom_cons, runFrom_cons]
          apply ih (by rw [hafter, hmap]) hrest
          exact hboth _ _ _ _ hvisible hvisible' (hP event List.mem_cons_self hvisible)
            hsame.symm hreached

end TwoRuns

end Can2Rest.Foundation
