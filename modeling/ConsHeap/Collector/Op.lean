import ConsHeap.Collector.Cycle
import ConsHeap.Collector.Inspect
import ConsHeap.Collector.Mutate

/-!
# Operations

The operations of a collector as data, so that a run is a list of them. `Collector.perform` does
one; a recoverable error is an answer like any other, a fault is not.
-/

namespace ConsHeap

namespace Collector

/-- An operation of the collector. The cells in it own their references. -/
inductive Op where
  | make (car cdr : Cell)
  | root (id : PairId)
  | retain (id : PairId)
  | acquire (id : PairId)
  | unroot (id : PairId)
  | write (id : PairId) (side : Side) (value : Cell)
  | step
  | recycle
  | finish
  | cycle
  deriving DecidableEq

/-- What an operation answers. -/
inductive Reply where
  | done
  | made (id : PairId)
  | failed (error : HeapError)
  | demoted (last : Bool)
  | stepped (result : StepResult)
  | recycled (id : Option PairId)
  | disposed (pairs : Nat)
  deriving DecidableEq

/-- Do one operation. -/
def perform : Op → Action Collector Reply
  | .make car cdr => do
    match ← make car cdr with
    | .ok id => return .made id
    | .error e => return .failed e
  | .root id => do
    root id
    return .done
  | .retain id => do
    retain id
    return .done
  | .acquire id => do
    acquire id
    return .done
  | .unroot id => do
    return .demoted (← unroot id)
  | .write id side value => do
    write id side value
    return .done
  | .step => do
    return .stepped (← step)
  | .recycle => do
    return .recycled (← recycle)
  | .finish => do
    return .disposed (← finish)
  | .cycle => do
    return .disposed (← cycle)

end Collector

end ConsHeap
