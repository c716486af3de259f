import Mathlib.Logic.Function.Basic
import SqlDbPlugin.Lib.Machine

/-!
# The consumer: two queues, two workers, any number of producers

`consumer.hpp`, step by step. The producers (`P` is any type of threads) run
`consumer::queue`, the workers run `run_blocks` and `run_traces`, and one
thread runs `shutdown` or the destructor, whose bodies are the same. The two
workers are one program on two channels: a channel is a mutex, the queue and
the process queue it guards, and the worker that drains them. They share the
condition variable, so a notification reaches both.

A step is one access to shared data. The reads of `queue.size()` after the
unlock in the over-full branch are such accesses, made without the mutex.
`appended`, `handed` and `beforeExit` are history the program does not keep:
the entries appended to a queue, those passed to `consume_*`, and those
appended when `exit` was set.

The queues hold shared pointers the consumer never looks into, so an entry
is a value of any type `α`. A moved-from `std::deque` is empty, and the log
macros do nothing here.
-/

namespace SqlDb.Consumer

variable {P α : Type}

/-- The two queues: `block_state_queue` and `transaction_trace_queue`, each
with its own mutex (`mtx_blocks`, `mtx_traces`) and worker. -/
inductive Chan
  | blocks
  | traces
  deriving DecidableEq, Repr

/-- Who holds a channel's mutex. -/
inductive Owner (P : Type)
  | producer (p : P)
  | worker
  deriving DecidableEq, Repr

/-- Where a producer is in `consumer::queue`. -/
inductive QueuePc
  | lock         -- `scoped_lock lock(mtx)`
  | test         -- `queue.size() > queue_size`
  | unlockFull   -- the `lock.unlock()` of the over-full branch
  | notifyOne    -- `condition.notify_one()`
  | measure      -- `last_queue_size < queue.size()`, without the mutex
  | remember     -- `last_queue_size = queue.size()`, without the mutex
  | sleep        -- `sleep_for(milliseconds(sleep_time))`
  | relock       -- `lock.lock()`
  | append       -- `queue.emplace_back(e)`
  | unlock       -- `lock.unlock()`
  | notifyAll    -- `condition.notify_all()`
  deriving DecidableEq, Repr

/-- A call of `consumer::queue`: its arguments and its locals. -/
structure QueueCall (α : Type) where
  pc : QueuePc := .lock
  chan : Chan
  e : α
  sleepTime : Int := 100
  lastQueueSize : Nat := 0

/-- Where a worker is in `run_blocks` or `run_traces`. -/
inductive WorkerPc
  | loop               -- `while (!exit)`
  | lock               -- `scoped_lock lock(mtx)`
  | testEmpty          -- `queue.empty()`
  | testExit           -- `&& !exit`
  | wait               -- `condition.wait(lock)`: releases the mutex and blocks
  | blocked            -- in `wait`, not notified
  | woken              -- in `wait`, notified, taking the mutex again
  | size               -- `size_t n = queue.size()`
  | move (n : Nat)     -- `if (n > 0) process_queue = std::move(queue)`
  | unlock (n : Nat)   -- `lock.unlock()`
  | log (n : Nat)      -- the warning for a long queue, or the drain message
  | drain              -- `while (!process_queue.empty())`
  | consume            -- in `consume_block_state` or `consume_transaction_trace`
  | pop                -- `process_queue.pop_front()`
  | notify             -- `condition.notify_all()`
  | done
  deriving DecidableEq, Repr

/-- A queue, its mutex, its process queue and its worker. -/
structure Channel (P α : Type) where
  owner : Option (Owner P) := none
  queue : List α := []
  processQueue : List α := []
  worker : WorkerPc := .loop
  appended : List α := []
  handed : List α := []

/-- Where the thread in `shutdown` or `~consumer` is. -/
inductive CloserPc
  | setExit    -- `exit = true`; before it, the call may not have started
  | notifyAll  -- `condition.notify_all()`
  | join       -- `consume_thread_run_blocks.join()`
  | returned
  deriving DecidableEq, Repr

structure State (P α : Type) where
  exit : Bool := false
  chan : Chan → Channel P α := fun _ => {}
  call : P → Option (QueueCall α) := fun _ => none
  closer : CloserPc := .setExit
  beforeExit : Chan → List α := fun _ => []

/-- How a step's call into code outside the consumer went: it returned, it
threw, or `notify_one` woke the worker of `q`. -/
inductive Outcome
  | returns
  | throws
  | wakes (q : Chan)
  deriving DecidableEq, Repr

/-- The labels: which thread takes a step, and the outcome of the step. -/
inductive Act (P α : Type)
  | push (p : P) (q : Chan) (e : α)     -- `push_block_state(e)` or `push_transaction_trace(e)`
  | produce (p : P) (o : Outcome)
  | work (q : Chan) (o : Outcome)
  | spurious (q : Chan)                 -- a spurious wake-up
  | close
  deriving DecidableEq, Repr

/-! ## The condition variable -/

/-- A blocked worker wakes up. -/
def Channel.wake (c : Channel P α) : Channel P α :=
  if c.worker = .blocked then { c with worker := .woken } else c

def State.setChan (s : State P α) (q : Chan) (c : Channel P α) : State P α :=
  { s with chan := Function.update s.chan q c }

/-- `condition.notify_all()`. -/
def State.notifyAll (s : State P α) : State P α :=
  { s with chan := fun q => (s.chan q).wake }

/-- `condition.notify_one()`: one blocked worker wakes up, if there is one. -/
def State.notifyOne (s : State P α) : Outcome → Option (State P α)
  | .returns =>
    if (s.chan .blocks).worker = .blocked ∨ (s.chan .traces).worker = .blocked then none else some s
  | .wakes q => if (s.chan q).worker = .blocked then some (s.setChan q (s.chan q).wake) else none
  | .throws => none

/-! ## The producers -/

/-- The call of `p` is at `c`. -/
def State.setCall [DecidableEq P] (s : State P α) (p : P) (c : Option (QueueCall α)) : State P α :=
  { s with call := Function.update s.call p c }

/-- The sleep grows if the queue is longer than it was, else shrinks. -/
def QueueCall.measure (c : QueueCall α) (size : Nat) : QueueCall α :=
  if c.lastQueueSize < size then { c with sleepTime := c.sleepTime + 100 }
  else if c.sleepTime - 100 < 0 then { c with sleepTime := 100 }
  else { c with sleepTime := c.sleepTime - 100 }

/-- Takes the mutex of the call's channel and goes to `pc`, if the mutex is free. -/
def State.acquire [DecidableEq P] (s : State P α) (p : P) (c : QueueCall α) (pc : QueuePc) :
    Option (State P α) :=
  match (s.chan c.chan).owner with
  | none => some ((s.setChan c.chan { s.chan c.chan with owner := some (.producer p) }).setCall p
      (some { c with pc }))
  | some _ => none

/-- Releases the mutex of the call's channel. -/
def State.release (s : State P α) (q : Chan) : State P α :=
  s.setChan q { s.chan q with owner := none }

/-- The next step of `consumer::queue` in the call `c` of `p`. -/
def queueStep [DecidableEq P] (queueSize : Nat) (p : P) (o : Outcome) (c : QueueCall α)
    (s : State P α) : Option (State P α) :=
  let q := s.chan c.chan
  match c.pc with
  | .lock => s.acquire p c .test
  | .test =>
    some (s.setCall p (some { c with pc := if q.queue.length > queueSize then .unlockFull else .append }))
  | .unlockFull => some ((s.release c.chan).setCall p (some { c with pc := .notifyOne }))
  | .notifyOne => (s.notifyOne o).map fun s => s.setCall p (some { c with pc := .measure })
  | .measure => some (s.setCall p (some { c.measure q.queue.length with pc := .remember }))
  | .remember => some (s.setCall p (some { c with lastQueueSize := q.queue.length, pc := .sleep }))
  | .sleep => some (s.setCall p (some { c with pc := .relock }))
  | .relock => s.acquire p c .append
  | .append =>
    match o with
    | .returns =>
      some ((s.setChan c.chan { q with queue := q.queue ++ [c.e], appended := q.appended ++ [c.e] }).setCall
        p (some { c with pc := .unlock }))
    -- out of memory: the lock is released, and the caller's handlers log
    | .throws => some ((s.release c.chan).setCall p none)
    | .wakes _ => none
  | .unlock => some ((s.release c.chan).setCall p (some { c with pc := .notifyAll }))
  | .notifyAll => some (s.notifyAll.setCall p none)

/-! ## The workers -/

/-- The next step of a worker on its own channel, in terms of the value of
`exit`. At `notify` the condition variable is notified as well (`workStep`). -/
def Channel.work (exit : Bool) (o : Outcome) (c : Channel P α) : Option (Channel P α) :=
  match c.worker with
  | .loop => some { c with worker := if exit then .done else .lock }
  | .lock | .woken =>
    match c.owner with
    | none => some { c with owner := some .worker, worker := .testEmpty }
    | some _ => none
  | .testEmpty => some { c with worker := if c.queue.isEmpty then .testExit else .size }
  | .testExit => some { c with worker := if exit then .size else .wait }
  | .wait => some { c with owner := none, worker := .blocked }
  | .blocked => none
  | .size => some { c with worker := .move c.queue.length }
  | .move n =>
    if n > 0 then some { c with processQueue := c.queue, queue := [], worker := .unlock n }
    else some { c with worker := .unlock n }
  | .unlock n => some { c with owner := none, worker := .log n }
  | .log _ => some { c with worker := .drain }
  | .drain =>
    match c.processQueue with
    | [] => some { c with worker := .notify }
    | e :: _ => some { c with worker := .consume, handed := c.handed ++ [e] }
  | .consume =>
    match o with
    -- an exception is logged, and control goes on behind the handlers
    | .returns | .throws => some { c with worker := .pop }
    | .wakes _ => none
  | .pop => some { c with processQueue := c.processQueue.tail, worker := .drain }
  | .notify => some { c with worker := .loop }
  | .done => none

def workStep (q : Chan) (o : Outcome) (s : State P α) : Option (State P α) :=
  ((s.chan q).work s.exit o).map fun c =>
    if (s.chan q).worker = .notify then (s.setChan q c).notifyAll else s.setChan q c

/-! ## Shutdown, and the whole system -/

/-- `consumer::shutdown` and `consumer::~consumer`. Only the thread of
`run_blocks` is joined. -/
def closeStep (s : State P α) : Option (State P α) :=
  match s.closer with
  | .setExit =>
    some { s with exit := true, closer := .notifyAll, beforeExit := fun q => (s.chan q).appended }
  | .notifyAll => some { s.notifyAll with closer := .join }
  | .join => if (s.chan .blocks).worker = .done then some { s with closer := .returned } else none
  | .returned => none

def step [DecidableEq P] (queueSize : Nat) : Act P α → State P α → Option (State P α)
  | .push p q e, s =>
    match s.call p with
    | none => some (s.setCall p (some { chan := q, e }))
    | some _ => none
  | .produce p o, s => (s.call p).bind fun c => queueStep queueSize p o c s
  | .work q o, s => workStep q o s
  | .spurious q, s =>
    if (s.chan q).worker = .blocked then some (s.setChan q (s.chan q).wake) else none
  | .close, s => closeStep s

/-- The consumer, from the moment its two threads run. -/
def consumer (P α : Type) [DecidableEq P] (queueSize : Nat) :
    Machine (State P α) (Act P α) where
  init := {}
  step := step queueSize

end SqlDb.Consumer
