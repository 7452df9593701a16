import ConsHeap.Store.Basic

/-!
# Operations of a store

What is asked of the color classes, as data, so that a run is a list of such operations.
`Store.perform` does one. Taking members out of a class without putting them into another one
(`pop`, `take`) acts on the single class; whoever does so has to put them back, or return their
slots to the arena.
-/

namespace ConsHeap

namespace Store

/-- An operation on the color classes. -/
inductive Op where
  | add (id : PairId) (target : Color)
  | remove (id : PairId)
  | move (id : PairId) (target : Color)
  | popInto (source target : Color)
  | moveAll (source target : Color)
  | pop (source : Color)
  | take (source : Color)
  deriving DecidableEq

/-- What an operation answers. -/
inductive Reply where
  | done
  | popped (id : Option PairId)
  | moved (pairs : Nat)
  | taken (ids : Array PairId)
  deriving DecidableEq

/-- Do one operation. -/
def perform : Op → Action Store Reply
  | .add id target => do
    add id target
    return .done
  | .remove id => do
    remove id
    return .done
  | .move id target => do
    move id target
    return .done
  | .popInto source target => do
    return .popped (← popInto source target)
  | .moveAll source target => do
    return .moved (← moveAll source target)
  | .pop source => do
    return .popped (← classPop source)
  | .take source => do
    return .taken (← classTake source)

end Store

end ConsHeap
