import Can2Rest.Foundation.Interleaving

/-!
# Starting a service

This file models `enable_service` and the loop of the worker it spawns, which
`redis_interface.cpp` and `rest_api.cpp` have in common.  What a worker does for
its clients is one step here; what matters is when it tests `thread_running`.
-/

namespace Can2Rest

open Foundation

/--
The shared members, with whether the worker was spawned and whether an
exception has ended the process.  `started` only records that the flag was set.
-/
structure ServiceState where
  threadRunning : Bool
  updateThread : Bool
  spawned : Bool
  terminated : Bool
  started : Bool
  deriving DecidableEq

/--
Whether the step of a worker succeeds, and whether a `join` returns: on a
detached thread it throws, and on a destroyed one it is undefined.
-/
structure ServiceEnv where
  succeeds : Bool := true
  joins : Bool := false

inductive ServiceOp where
  | testRunning
  | setRunning (value : Bool)
  | testHandle
  | spawn
  | detach
  | recordHandle
  | join
  | isSpawned
  | listen
  | connect
  | update
  deriving DecidableEq

abbrev ServiceOps : Interface where
  Op := ServiceOp
  Res
    | .testRunning => Bool
    | .testHandle => Bool
    | .isSpawned => Bool
    | .listen => Bool
    | .connect => Bool
    | .update => Bool
    | _ => Unit

def serviceMachine : Machine ServiceOps ServiceState ServiceEnv
  | .testRunning, _, s => (s.threadRunning, s)
  | .setRunning value, _, s =>
      ((), { s with threadRunning := value, started := s.started || value })
  | .testHandle, _, s => (s.updateThread, s)
  | .spawn, _, s => ((), { s with spawned := true })
  | .detach, _, s => ((), s)
  | .recordHandle, _, s => ((), { s with updateThread := true })
  | .join, env, s => ((), { s with terminated := s.terminated || !env.joins })
  | .isSpawned, _, s => (s.spawned, s)
  | .listen, env, s => (env.succeeds, s)
  | .connect, env, s => (env.succeeds, s)
  | .update, env, s => (env.succeeds, s)

namespace Service

abbrev Code (α : Type) := Prog ServiceOps α

def perform (op : ServiceOp) : Code (ServiceOps.Res op) := Prog.perform (I := ServiceOps) op

def enableService (en : Bool) : Code Unit := do
  if en then
    if ← perform .testRunning then return ()
    perform .spawn
    perform .detach
    perform .recordHandle
    perform (.setRunning true)
  else
    if ← perform .testHandle then
      perform (.setRunning false)
      perform .join

/-- Where a worker is between two of its tests. -/
inductive Position where
  | unspawned
  | entry
  | connected
  | exited
  deriving DecidableEq

inductive Kind where
  | redisInterface
  | restApi
  deriving DecidableEq

/-- The loops of `redis_interface::recieve_thread_function`. -/
def redisWorker : Position → Code Position
  | .unspawned => do
      if ← perform .isSpawned then return .entry
      return .unspawned
  | .entry => do
      if ← perform .testRunning then
        if ← perform .connect then return .connected
        return .entry
      return .exited
  | .connected => do
      if ← perform .testRunning then
        if ← perform .update then return .connected
        return .entry
      return .entry
  | .exited => return .exited

/-- The end of `rest_api::recieve_thread_function`, from `listen` on. -/
def restWorker : Position → Code Position
  | .unspawned => do
      if ← perform .isSpawned then return .entry
      return .unspawned
  | .entry => do
      if ← perform .listen then return .connected
      enableService false
      return .exited
  | .connected => do
      if ← perform .testRunning then return .connected
      return .exited
  | .exited => return .exited

def worker : Kind → Position → Code Position
  | .redisInterface => redisWorker
  | .restApi => restWorker

/-- The thread that calls `enable_service(true)`, and the worker that it spawns. -/
inductive Thread where
  | starter
  | worker
  deriving DecidableEq

/-- The starter keeps whether its call has returned. -/
abbrev Thread.Local : Thread → Type
  | .starter => Bool
  | .worker => Position

def Thread.body (kind : Kind) : (thread : Thread) → thread.Local → Code thread.Local
  | .starter, false => do
      enableService true
      return true
  | .starter, true => return true
  | .worker, position => Service.worker kind position

abbrev Threads := Pool ServiceOps ServiceState Thread.Local

def initial : Threads where
  shared := ⟨false, false, false, false, false⟩
  current
    | .starter => .ret false
    | .worker => .ret .unspawned

abbrev step (kind : Kind) : Threads → Thread × ServiceEnv → Threads :=
  Pool.step serviceMachine (Thread.body kind)

end Service

end Can2Rest
