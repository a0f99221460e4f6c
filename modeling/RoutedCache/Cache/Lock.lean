/-!
# Locks

A lock has one holder at most and hands itself over to the jobs that wait for it in the order in which they
asked.  A job that goes while a call of its is still under way leaves the lock to this work, which nobody waits for
any more.
-/

namespace RoutedCache

abbrev JobId := Nat

/-- Who has a lock: a job, or the work that a job has left behind. -/
inductive Holder where
  | job (id : JobId)
  | work
deriving DecidableEq, Repr

structure Lock where
  holder : Option Holder := none
  waiting : List JobId := []
deriving DecidableEq, Repr, Inhabited

namespace Lock

/-- The job becomes the holder of a free lock and waits for any other one. -/
def ask (lock : Lock) (job : JobId) : Lock :=
  match lock.holder with
  | none => { lock with holder := some (.job job) }
  | some _ => { lock with waiting := lock.waiting ++ [job] }

def handOver (lock : Lock) : Lock :=
  match lock.waiting with
  | [] => {}
  | next :: waiting => { holder := some (.job next), waiting }

/-- The job neither holds nor awaits the lock any more. -/
def leave (lock : Lock) (job : JobId) : Lock :=
  if lock.holder = some (.job job) then lock.handOver
  else { lock with waiting := lock.waiting.filter (· ≠ job) }

/-- The job goes, and a lock that it holds stays with its work. -/
def abandon (lock : Lock) (job : JobId) : Lock :=
  if lock.holder = some (.job job) then { lock with holder := some .work } else lock.leave job

/-- The end of the work that was left behind. -/
def release (lock : Lock) : Lock := if lock.holder = some .work then lock.handOver else lock

end Lock

end RoutedCache
