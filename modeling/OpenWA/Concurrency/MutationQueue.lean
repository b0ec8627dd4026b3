/-
The keyed mutation queue of `keyed-mutation-queue.ts`.

# The promises

`enqueue` puts `prior.catch(..).then(work).catch(..)` in the map under the
key and hangs a `finally` on it that takes the entry out again, unless later
work has replaced it. `start` is the prior promise's settlement, with any
outcome, reaching the work; `settle` the work's own, with its `catch`; and
`reclaim` the `finally`, a callback of its own: between it and the
settlement anything may run.
-/
import OpenWA.Lib.Chain
import OpenWA.Lib.Reach
import OpenWA.Lib.Text

namespace OpenWA.Mutation

/-- How work settles. -/
inductive Outcome
  | resolved
  | rejected
deriving DecidableEq

/-- The chains of the queue and what has run. -/
structure Queue where
  chains : Chain Text Unit
  /-- The work whose `finally` has not run. -/
  draining : List Nat
  /-- The calls of `work`, in order. -/
  started : List Nat
  /-- The calls of `onUnexpectedError`. -/
  unexpected : List (Text × Nat)

namespace Queue

/-- An empty queue. -/
def new : Queue where
  chains := Chain.empty
  draining := []
  started := []
  unexpected := []

variable (w : Queue)

/-- `enqueue(key, work)`. -/
def enqueue (key : Text) : Queue :=
  { w with
    chains := w.chains.push key ()
    draining := w.draining ++ [w.chains.jobs.length] }

/-- The work of job `j` starts. -/
def start (j : Nat) : Queue :=
  { w with
    chains := w.chains.setPhase j .running
    started := w.started ++ [j] }

/-- The work of job `j` settles. -/
def settle (key : Text) (j : Nat) (outcome : Outcome) : Queue :=
  { w with
    chains := w.chains.setPhase j .settled
    unexpected := if outcome = .rejected then w.unexpected ++ [(key, j)] else w.unexpected }

/-- The `finally` of job `j`. -/
def reclaim (key : Text) (j : Nat) : Queue :=
  { w with
    chains := w.chains.reclaim key j
    draining := w.draining.erase j }

end Queue

/-- What can happen to the queue. -/
inductive QueueAct
  | enqueue (key : Text)
  | start (j : Nat)
  | settle (j : Nat) (outcome : Outcome)
  | reclaim (j : Nat)

/-- The steps of work that is in the queue. -/
def QueueAct.queued : QueueAct → Bool
  | enqueue _ => false
  | _ => true

/-- Every interleaving of the jobs. -/
def queue : Machine Queue QueueAct where
  step
    | .enqueue key, w => some (w.enqueue key)
    | .start j, w => do
      let job ← w.chains.jobs[j]?
      if job.phase = .waiting ∧ w.chains.free job = true then some (w.start j) else none
    | .settle j outcome, w => do
      let job ← w.chains.jobs[j]?
      if job.phase = .running then some (w.settle job.key j outcome) else none
    | .reclaim j, w => do
      let job ← w.chains.jobs[j]?
      if job.phase = .settled ∧ j ∈ w.draining then some (w.reclaim job.key j) else none

end OpenWA.Mutation
