import Mathlib.Logic.Basic

/-!
# Programs made of atomic operations

A program is a finite tree of calls to atomic operations.  One definition of a
function serves both readings that a verification needs: `run` executes it
alone, and the interleaved semantics of `Foundation.Interleaving` executes one
call at a time among the calls of other threads.  The environment of a call
(what a device answers, what time it is) is an explicit argument.
-/

namespace Can2Rest.Foundation

structure Interface where
  Op : Type
  Res : Op → Type

/-- A program over an interface: a result, or a call and what follows it. -/
inductive Prog (I : Interface) (α : Type) : Type where
  | ret (value : α)
  | call (op : I.Op) (next : I.Res op → Prog I α)

abbrev Machine (I : Interface) (σ ε : Type) :=
  (op : I.Op) → ε → σ → I.Res op × σ

namespace Prog

variable {I : Interface} {α β σ ε : Type}

def bind : Prog I α → (α → Prog I β) → Prog I β
  | .ret value, next => next value
  | .call op rest, next => .call op fun result => (rest result).bind next

instance : Monad (Prog I) where
  pure := .ret
  bind := Prog.bind

@[simp] theorem ret_bind (value : α) (next : α → Prog I β) :
    (Prog.ret value : Prog I α) >>= next = next value := rfl

@[simp] theorem call_bind (op : I.Op) (rest : I.Res op → Prog I α)
    (next : α → Prog I β) :
    Prog.call op rest >>= next = .call op fun result => rest result >>= next :=
  rfl

theorem bind_ret (program : Prog I α) :
    (program >>= fun value => .ret value) = program := by
  induction program with
  | ret value => rfl
  | call op rest ih =>
      rw [call_bind]
      congr 1
      funext result
      exact ih result

theorem bind_bind {γ : Type} (program : Prog I α) (first : α → Prog I β)
    (second : β → Prog I γ) :
    program >>= first >>= second =
      program >>= fun value => first value >>= second := by
  induction program with
  | ret value => rfl
  | call op rest ih =>
      simp only [call_bind]
      congr 1
      funext result
      exact ih result

instance : LawfulMonad (Prog I) :=
  LawfulMonad.mk' (Prog I) (fun program => bind_ret program)
    (fun _ _ => rfl)
    (fun program first second => bind_bind program first second)

def perform (op : I.Op) : Prog I (I.Res op) := .call op .ret

/-! ## Running a program alone -/

/-- Execute a program without interference, in one environment. -/
def run (machine : Machine I σ ε) (env : ε) : Prog I α → σ → α × σ
  | .ret value, state => (value, state)
  | .call op next, state =>
      let outcome := machine op env state
      (next outcome.1).run machine env outcome.2

variable (machine : Machine I σ ε) (env : ε)

@[simp] theorem run_ret (value : α) (state : σ) :
    (Prog.ret value : Prog I α).run machine env state = (value, state) := rfl

@[simp] theorem run_pure (value : α) (state : σ) :
    (pure value : Prog I α).run machine env state = (value, state) := rfl

@[simp] theorem run_perform (op : I.Op) (state : σ) :
    (perform op).run machine env state = machine op env state := rfl

@[simp] theorem run_bind (program : Prog I α) (next : α → Prog I β)
    (state : σ) :
    (program >>= next).run machine env state =
      (next (program.run machine env state).1).run machine env
        (program.run machine env state).2 := by
  induction program generalizing state with
  | ret value => rfl
  | call op rest ih =>
      rw [call_bind]
      exact ih _ _

@[simp] theorem run_map (f : α → β) (program : Prog I α) (state : σ) :
    (f <$> program).run machine env state =
      (f (program.run machine env state).1,
        (program.run machine env state).2) := by
  rw [← bind_pure_comp, run_bind, run_pure]

/-! ## The calls of a run -/

def Executes (P : I.Op → σ → Prop) : Prog I α → σ → Prop
  | .ret _, _ => True
  | .call op next, state =>
      P op state ∧ (next (machine op env state).1).Executes P (machine op env state).2

/-! ## Footprints -/

def Uses (P : I.Op → Prop) : Prog I α → Prop
  | .ret _ => True
  | .call op next => P op ∧ ∀ result, (next result).Uses P

@[simp] theorem uses_ret (P : I.Op → Prop) (value : α) :
    (Prog.ret value : Prog I α).Uses P := trivial

@[simp] theorem uses_pure (P : I.Op → Prop) (value : α) :
    (pure value : Prog I α).Uses P := trivial

@[simp] theorem uses_perform {P : I.Op → Prop} {op : I.Op} :
    (perform op).Uses P ↔ P op := by
  simp [perform, Uses]

theorem Uses.bind {P : I.Op → Prop} {program : Prog I α}
    {next : α → Prog I β} (hprogram : program.Uses P)
    (hnext : ∀ value, (next value).Uses P) : (program >>= next).Uses P := by
  induction program with
  | ret value => exact hnext value
  | call op rest ih =>
      rw [call_bind]
      exact ⟨hprogram.1, fun result => ih result (hprogram.2 result)⟩

theorem Uses.mono {P Q : I.Op → Prop} {program : Prog I α}
    (h : program.Uses P) (hPQ : ∀ op, P op → Q op) : program.Uses Q := by
  induction program with
  | ret value => trivial
  | call op rest ih => exact ⟨hPQ op h.1, fun result => ih result (h.2 result)⟩

/-! ## What follows a call -/

def Follows (Q : (op : I.Op) → (I.Res op → Prog I α) → Prop) : Prog I α → Prop
  | .ret _ => True
  | .call op next => Q op next ∧ ∀ result, (next result).Follows Q

theorem Uses.follows {P : I.Op → Prop}
    {Q : (op : I.Op) → (I.Res op → Prog I α) → Prop} (hPQ : ∀ op next, P op → Q op next)
    {program : Prog I α} (h : program.Uses P) : program.Follows Q := by
  induction program with
  | ret value => trivial
  | call op next ih => exact ⟨hPQ op next h.1, fun result => ih result (h.2 result)⟩

theorem Follows.bind {Q : (op : I.Op) → (I.Res op → Prog I α) → Prop}
    {Q' : (op : I.Op) → (I.Res op → Prog I β) → Prop} {program : Prog I α}
    {next : α → Prog I β} (h : program.Follows Q)
    (hQ : ∀ op rest, Q op rest → Q' op fun result => rest result >>= next)
    (hnext : ∀ value, (next value).Follows Q') : (program >>= next).Follows Q' := by
  induction program with
  | ret value => exact hnext value
  | call op rest ih =>
      rw [call_bind]
      exact ⟨hQ op rest h.1, fun result => ih result (h.2 result)⟩

/-! ## The number of calls -/

/-- However the calls are answered, there are at most `count` of them. -/
def Within : Prog I α → Nat → Prop
  | .ret _, _ => True
  | .call _ _, 0 => False
  | .call _ next, count + 1 => ∀ result, (next result).Within count

theorem within_pure (value : α) : (pure value : Prog I α).Within 0 := trivial

theorem within_perform (op : I.Op) : (perform op).Within 1 := fun _ => trivial

theorem Within.mono {program : Prog I α} {count more : Nat} (h : program.Within count)
    (hle : count ≤ more) : program.Within more := by
  induction program generalizing count more with
  | ret value => trivial
  | call op next ih =>
      cases count with
      | zero => exact h.elim
      | succ count =>
          obtain ⟨more, rfl⟩ := Nat.exists_eq_add_of_lt hle
          exact fun result => ih result (h result) (Nat.le_add_right count more)

theorem Within.bind {program : Prog I α} {next : α → Prog I β} {count more : Nat}
    (hprogram : program.Within count) (hnext : ∀ value, (next value).Within more) :
    (program >>= next).Within (count + more) := by
  induction program generalizing count with
  | ret value => exact (hnext value).mono (Nat.le_add_left more count)
  | call op rest ih =>
      cases count with
      | zero => exact hprogram.elim
      | succ count =>
          rw [call_bind, Nat.succ_add]
          exact fun result => ih result (hprogram result)

theorem Within.ended {program : Prog I α} (h : program.Within 0) :
    ∃ value, program = .ret value := by
  cases program with
  | ret value => exact ⟨value, rfl⟩
  | call op next => exact h.elim

/-! ## Rely and guarantee -/

def head : Prog I α → Option I.Op
  | .ret _ => none
  | .call op _ => some op

def ended : Prog I α → Option α
  | .ret value => some value
  | .call _ _ => none

theorem eq_ret_of_head {program : Prog I α} (h : program.head = none) :
    ∃ value, program = .ret value := by
  cases program with
  | ret value => exact ⟨value, rfl⟩
  | call op next => cases h

end Prog

/--
What a thread relies on, what is assumed of its own calls, and what its calls
guarantee.  The rely condition may depend on the call that comes next.
-/
structure Contract (I : Interface) (σ : Type) where
  rely : Option I.Op → σ → σ → Prop
  may : I.Op → σ → Prop
  guarantee : I.Op → σ → Prop

namespace Prog

variable {I : Interface} {α β σ ε : Type}

/--
`Ensures machine contract Post program state`: started in `state`, every call of
the program meets the guarantee and the program ends with `Post`, as long as the
steps of other threads and its own calls are as the contract assumes.
-/
def Ensures (machine : Machine I σ ε) (contract : Contract I σ) (Post : α → σ → Prop) :
    Prog I α → σ → Prop
  | .ret value, state => ∀ later, contract.rely none state later → Post value later
  | .call op next, state =>
      ∀ later, contract.rely (some op) state later →
        contract.guarantee op later ∧
          (contract.may op later → ∀ env,
            (next (machine op env later).1).Ensures machine contract Post
              (machine op env later).2)

variable {machine : Machine I σ ε} {contract : Contract I σ}

theorem Ensures.rely
    (htrans : ∀ {op a b c}, contract.rely op a b → contract.rely op b c →
      contract.rely op a c)
    {Post : α → σ → Prop} {program : Prog I α} {state later : σ}
    (h : program.Ensures machine contract Post state)
    (hrely : contract.rely program.head state later) :
    program.Ensures machine contract Post later := by
  cases program with
  | ret value => exact fun last hlast => h last (htrans hrely hlast)
  | call op next => exact fun last hlast => h last (htrans hrely hlast)

theorem ensures_perform {op : I.Op} {Post : I.Res op → σ → Prop} {state : σ} :
    (perform op).Ensures machine contract Post state ↔
      ∀ later, contract.rely (some op) state later →
        contract.guarantee op later ∧
          (contract.may op later → ∀ env last,
            contract.rely none (machine op env later).2 last →
              Post (machine op env later).1 last) :=
  Iff.rfl

theorem Ensures.bind (hrefl : ∀ a, contract.rely none a a) {Mid : α → σ → Prop}
    {Post : β → σ → Prop} {program : Prog I α} {next : α → Prog I β} {state : σ}
    (h : program.Ensures machine contract Mid state)
    (hnext : ∀ value state, Mid value state →
      (next value).Ensures machine contract Post state) :
    (program >>= next).Ensures machine contract Post state := by
  induction program generalizing state with
  | ret value => exact hnext value state (h state (hrefl state))
  | call op rest ih =>
      rw [call_bind]
      intro later hlater
      exact ⟨(h later hlater).1, fun hmay env => ih _ ((h later hlater).2 hmay env)⟩

theorem Ensures.mono {P Q : α → σ → Prop} (hPQ : ∀ value state, P value state → Q value state)
    {program : Prog I α} {state : σ} (h : program.Ensures machine contract P state) :
    program.Ensures machine contract Q state := by
  induction program generalizing state with
  | ret value => exact fun later hlater => hPQ value later (h later hlater)
  | call op next ih =>
      exact fun later hlater => ⟨(h later hlater).1, fun hmay env =>
        ih _ ((h later hlater).2 hmay env)⟩

theorem Ensures.seq (hrefl : ∀ a, contract.rely none a a) {Post : β → σ → Prop}
    {program : Prog I α} {next : α → Prog I β} {state : σ}
    (h : program.Ensures machine contract (fun _ _ => True) state)
    (hnext : ∀ value state, (next value).Ensures machine contract Post state) :
    (program >>= next).Ensures machine contract Post state :=
  h.bind hrefl fun value state _ => hnext value state

theorem Uses.ensures {P : I.Op → Prop} {Inv : σ → Prop}
    (hrely : ∀ {op a b}, (∀ call ∈ op, P call) → contract.rely op a b → Inv a → Inv b)
    (hguarantee : ∀ op state, P op → Inv state → contract.guarantee op state)
    (hstep : ∀ op state env, P op → contract.may op state → Inv state →
      Inv (machine op env state).2)
    {program : Prog I α} (h : program.Uses P) {state : σ} (hinv : Inv state) :
    program.Ensures machine contract (fun _ => Inv) state := by
  induction program generalizing state with
  | ret value => exact fun later hlater => hrely (by simp) hlater hinv
  | call op next ih =>
      intro later hlater
      have hlaterInv : Inv later := hrely (by simpa using h.1) hlater hinv
      exact ⟨hguarantee op later h.1 hlaterInv, fun hmay env =>
        ih _ (h.2 _) (hstep op later env h.1 hmay hlaterInv)⟩

end Prog

end Can2Rest.Foundation
