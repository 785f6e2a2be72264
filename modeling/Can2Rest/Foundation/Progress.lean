import Can2Rest.Foundation.Interleaving
import Mathlib.Data.List.Induction
import Mathlib.Order.Filter.AtTopBot.Basic

/-!
# Progress of infinite runs

An infinite run takes one event at every time.  Fairness says that certain events happen
again and again; what `LeadsTo` where then follows from what every step keeps and what
those events bring nearer.
-/

namespace Can2Rest.Foundation

open Filter

section States

variable {σ ε : Type} (step : σ → ε → σ) (start : σ) (events : Nat → ε)

def stateAt : Nat → σ
  | 0 => start
  | time + 1 => step (stateAt time) (events time)

theorem stateAt_succ (time : Nat) : stateAt step start events (time + 1) =
    step (stateAt step start events time) (events time) := rfl

section Onward

variable {step start events}

theorem stateAt_onward (Inv : σ → Prop) {time : Nat} (hnow : Inv (stateAt step start events time))
    (hstep : ∀ later, time ≤ later → Inv (stateAt step start events later) →
      Inv (step (stateAt step start events later) (events later)))
    {later : Nat} (hle : time ≤ later) : Inv (stateAt step start events later) := by
  induction later, hle using Nat.le_induction with
  | base => exact hnow
  | succ later hle ih => exact hstep later hle ih

theorem stateAt_invariant (Inv : σ → Prop) (hstart : Inv start)
    (hstep : ∀ time, Inv (stateAt step start events time) →
      Inv (step (stateAt step start events time) (events time))) (time : Nat) :
    Inv (stateAt step start events time) :=
  have hzero : Inv (stateAt step start events 0) := hstart
  stateAt_onward Inv hzero (fun later _ => hstep later) (Nat.zero_le time)

end Onward

theorem exists_trace {α : Type} {P : Nat → α → Prop} {R : Nat → α → α → Prop}
    (hstart : ∃ a, P 0 a) (hstep : ∀ time a, P time a → ∃ b, R time a b ∧ P (time + 1) b) :
    ∃ f : Nat → α, (∀ time, P time (f time)) ∧ ∀ time, R time (f time) (f (time + 1)) := by
  obtain ⟨first, hfirst⟩ := hstart
  have : Nonempty α := ⟨first⟩
  choose! next hnext hkeeps using hstep
  let f (time : Nat) : α := Nat.rec first (fun time a => next time a) time
  have hf (time : Nat) : P time (f time) := by
    induction time with
    | zero => exact hfirst
    | succ time ih => exact hkeeps time (f time) ih
  exact ⟨f, hf, fun time => hnext time (f time) (hf time)⟩

variable {events} in
theorem stateAt_eq_runFrom {schedule : List ε}
    (h : ∀ time event, schedule[time]? = some event → events time = event) :
    stateAt step start events schedule.length = runFrom step start schedule := by
  induction schedule using List.reverseRecOn with
  | nil => rfl
  | append_singleton schedule event ih =>
      have hlast : events schedule.length = event := h _ _ (by simp)
      have hfirst : ∀ time event', schedule[time]? = some event' → events time = event' := by
        intro time event' htime
        obtain ⟨hlt, -⟩ := List.getElem?_eq_some_iff.mp htime
        exact h time event' (by rw [List.getElem?_append_left hlt, htime])
      rw [List.length_append, List.length_singleton, stateAt_succ, ih hfirst, hlast,
        runFrom_append]
      rfl

end States

/-! ## Leads to -/

def LeadsTo (P Q : Nat → Prop) : Prop := ∀ time, P time → ∃ later, time ≤ later ∧ Q later

namespace LeadsTo

variable {P Q R : Nat → Prop}

theorem of_imp (h : ∀ time, P time → Q time) : LeadsTo P Q :=
  fun time htime => ⟨time, le_rfl, h time htime⟩

theorem trans (hfirst : LeadsTo P Q) (hsecond : LeadsTo Q R) : LeadsTo P R := by
  intro time htime
  obtain ⟨middle, hmiddle, hQ⟩ := hfirst time htime
  obtain ⟨later, hlater, hR⟩ := hsecond middle hQ
  exact ⟨later, hmiddle.trans hlater, hR⟩

theorem or (hfirst : LeadsTo P R) (hsecond : LeadsTo Q R) :
    LeadsTo (fun time => P time ∨ Q time) R := by
  intro time htime
  rcases htime with hP | hQ
  · exact hfirst time hP
  · exact hsecond time hQ

/-- A recurring event finds `P` still true, if only `Q` ends it. -/
theorem until_happens {happens : Nat → Prop} (hfair : ∃ᶠ time in atTop, happens time)
    (hkeeps : ∀ time, P time → ¬ happens time → P (time + 1) ∨ Q (time + 1)) :
    LeadsTo P fun time => (P time ∧ happens time) ∨ Q time := by
  intro time htime
  obtain ⟨next, hnext, hhappens⟩ := frequently_atTop.mp hfair time
  induction hgap : next - time generalizing time with
  | zero =>
      obtain rfl : time = next := by omega
      exact ⟨time, le_rfl, .inl ⟨htime, hhappens⟩⟩
  | succ gap ih =>
      by_cases hnow : happens time
      · exact ⟨time, le_rfl, .inl ⟨htime, hnow⟩⟩
      rcases hkeeps time htime hnow with hP | hQ
      · obtain ⟨later, hlater, hends⟩ := ih (time + 1) hP (by omega) (by omega)
        exact ⟨later, by omega, hends⟩
      · exact ⟨time + 1, by omega, .inr hQ⟩

theorem of_frequently {happens : Nat → Prop} (hfair : ∃ᶠ time in atTop, happens time)
    (hkeeps : ∀ time, P time → ¬ happens time → P (time + 1) ∨ Q (time + 1))
    (hbrings : ∀ time, P time → happens time → Q (time + 1)) : LeadsTo P Q := by
  refine (until_happens hfair hkeeps).trans (.or ?_ (.of_imp fun _ => id))
  rintro time ⟨hP, hhappens⟩
  exact ⟨time + 1, by omega, hbrings time hP hhappens⟩

/-- A rank that goes down until `Q` holds. -/
theorem of_rank {P : Nat → Nat → Prop}
    (h : ∀ rank, LeadsTo (P rank) fun time => (∃ lower < rank, P lower time) ∨ Q time)
    (rank : Nat) : LeadsTo (P rank) Q := by
  induction rank using Nat.strong_induction_on with
  | h rank ih =>
      refine (h rank).trans (.or ?_ (.of_imp fun _ => id))
      rintro time ⟨lower, hlower, htime⟩
      exact ih lower hlower time htime

end LeadsTo

/-! ## Recurring events of a run -/

section Recurring

variable {σ ε : Type} (step : σ → ε → σ) (start : σ) (events : Nat → ε) (C : σ → ε → Prop)

structure Under (P : σ → Prop) (time : Nat) : Prop where
  onward : ∀ later, time ≤ later → C (stateAt step start events later) (events later)
  now : P (stateAt step start events time)

variable {step start events C} {Inv P Q : σ → Prop} (happens : σ → ε → Prop)

theorem Under.succ {time : Nat} (h : Under step start events C P time)
    (hnext : Q (step (stateAt step start events time) (events time))) :
    Under step start events C Q (time + 1) :=
  ⟨fun later hle => h.onward later (by omega), hnext⟩

theorem LeadsTo.of_events (hinv : ∀ time, Inv (stateAt step start events time))
    (hfair : ∃ᶠ time in atTop, happens (stateAt step start events time) (events time))
    (hkeeps : ∀ s e, Inv s → C s e → ¬ happens s e → P s → P (step s e) ∨ Q (step s e))
    (hbrings : ∀ s e, Inv s → C s e → happens s e → P s → Q (step s e)) :
    LeadsTo (Under step start events C P) (Under step start events C Q) := by
  refine of_frequently hfair (fun time h hnot => ?_) (fun time h hhappens => ?_)
  · exact (hkeeps _ _ (hinv time) (h.onward time le_rfl) hnot h.now).imp h.succ h.succ
  · exact h.succ (hbrings _ _ (hinv time) (h.onward time le_rfl) hhappens h.now)

/-- Recurring events bring a rank down, and the other ones keep it, until `Q` holds. -/
theorem LeadsTo.of_events_rank {P : Nat → σ → Prop}
    (hinv : ∀ time, Inv (stateAt step start events time))
    (hfair : ∃ᶠ time in atTop, happens (stateAt step start events time) (events time))
    (hkeeps : ∀ rank s e, Inv s → C s e → ¬ happens s e → P rank s →
      P rank (step s e) ∨ Q (step s e))
    (hbrings : ∀ rank s e, Inv s → C s e → happens s e → P rank s →
      (∃ lower < rank, P lower (step s e)) ∨ Q (step s e)) (rank : Nat) :
    LeadsTo (Under step start events C (P rank)) (Under step start events C Q) := by
  let ranked (rank : Nat) := Under step start events C (P rank)
  have hranked : ∀ rank, LeadsTo (ranked rank) fun time =>
      (∃ lower < rank, ranked lower time) ∨ Under step start events C Q time := by
    intro rank
    have hnext : LeadsTo (ranked rank)
        (Under step start events C fun s => (∃ lower < rank, P lower s) ∨ Q s) := by
      refine of_events happens hinv hfair (fun s e hInv hC hnot hP => ?_) (hbrings rank)
      exact (hkeeps rank s e hInv hC hnot hP).imp id .inr
    refine hnext.trans (.of_imp ?_)
    rintro time ⟨honward, ⟨lower, hlower, hP⟩ | hQ⟩
    · exact .inl ⟨lower, hlower, honward, hP⟩
    · exact .inr ⟨honward, hQ⟩
  exact of_rank hranked rank

end Recurring

/-! ## Fair threads -/

namespace Pool

variable {I : Interface} {σ ε ι : Type} {L : ι → Type} [DecidableEq ι]
variable (machine : Machine I σ ε) (body : (thread : ι) → L thread → Prog I (L thread))
variable (start : Pool I σ L) {events : Nat → ι × ε} {thread : ι}

theorem exists_scheduled (hfair : ∃ᶠ time in atTop, (events time).1 = thread) (time : Nat) :
    ∃ later, time ≤ later ∧ (events later).1 = thread ∧
      (stateAt (Pool.step machine body) start events later).current thread =
        (stateAt (Pool.step machine body) start events time).current thread := by
  obtain ⟨next, hnext, hthread⟩ := frequently_atTop.mp hfair time
  induction hgap : next - time generalizing time with
  | zero =>
      obtain rfl : time = next := by omega
      exact ⟨time, le_rfl, hthread, rfl⟩
  | succ gap ih =>
      by_cases hnow : (events time).1 = thread
      · exact ⟨time, le_rfl, hnow, rfl⟩
      obtain ⟨later, hlater, hscheduled, hcurrent⟩ := ih (time + 1) (by omega) (by omega)
      exact ⟨later, by omega, hscheduled, hcurrent.trans (current_step_of_ne hnow)⟩

theorem exists_ended (hfair : ∃ᶠ time in atTop, (events time).1 = thread) (time : Nat) :
    ∃ later value, time ≤ later ∧
      (stateAt (Pool.step machine body) start events later).current thread = .ret value := by
  induction hcurrent : (stateAt (Pool.step machine body) start events time).current thread
    generalizing time with
  | ret value => exact ⟨time, value, le_rfl, hcurrent⟩
  | call op next ih =>
      obtain ⟨later, hlater, hscheduled, hsame⟩ := exists_scheduled machine body start hfair time
      subst hscheduled
      obtain ⟨last, value, hlast, hvalue⟩ :=
        ih _ (later + 1) (current_step_call (events later) (hsame.trans hcurrent))
      exact ⟨last, value, by omega, hvalue⟩

end Pool

end Can2Rest.Foundation
