import Can2Rest.Accounting

/-!
# Passes one after the other

The main loop, the HTTP handlers and the Redis worker run concurrently; what they share
is nevertheless, at every time, as the account of the passes says.
-/

namespace Can2Rest.Properties

open Foundation Shared

/-- The shared state between two passes is exactly that of the account. -/
structure Accounts (account : Account) (locals : MainLocals) (state : Bridge) : Prop where
  locals : account.locals = locals
  typeRegister : state.typeRegister = account.typeRegister
  mp : state.mp = account.mp
  received : state.history.received = account.received
  dequeued : state.history.dequeued = account.dequeued
  transmitted : state.history.transmitted = account.transmitted
  stored : state.history.stored = account.stored

theorem passes_account (program : Program) (config : ConfigParser) (hash : StringMap)
    (fr : CanFrame) (schedule : List (Thread × Env)) :
    let pool := runFrom (Serving.step program) (Serving.start config hash fr) schedule
    let after := Account.after program.setup config fr
    (∃ passes pass account, Account.Amid (after passes) (after (passes ++ [pass])) account ∧
      account.Agrees pool.shared) ∧
    (∀ locals, pool.current .main = .ret locals →
      ∃ passes, Accounts (after passes) locals pool.shared) ∧
    ∀ event, event.1 ≠ .main →
      Account.Aside pool.shared (Serving.step program pool event).shared := by
  intro pool after
  have h := Account.accounted_run program config hash fr schedule
  refine ⟨?_, fun locals hcurrent => ?_, fun event hthread => h.aside_step hthread⟩
  · obtain ⟨account, ⟨-, passes, pass, hamid⟩, hagrees⟩ := h.within
    exact ⟨passes, pass, account, hamid, hagrees⟩
  · obtain ⟨passes, hlocals, hagrees⟩ := h.balanced hcurrent
    have hsettled := Account.settled_after program.setup config fr passes
    exact ⟨passes, hlocals, hagrees.typeRegister_eq hsettled, hagrees.mp, hagrees.received,
      hagrees.dequeued, hagrees.transmitted, hagrees.stored⟩

end Can2Rest.Properties
