import ConsHeap.Cell.Literal
import ConsHeap.Collector.Op

/-!
# Client

A collector together with the program that uses it. The program writes cells as literals and names
pairs by id or as the last one allocated; `Client.perform` turns such a request into an operation of
the collector. A request that makes no sense is refused: the cells already built for it are dropped
and the collector is not asked.
-/

namespace ConsHeap

/-- A collector and what its program remembers. -/
structure Client where
  collector : Collector
  supply : Supply := {}

namespace Client

variable {α : Type}

/-- An operation as a program requests it. -/
inductive Request where
  | make (car cdr : Literal)
  | root (id : PairRef)
  | retain (id : PairRef)
  | acquire (id : PairRef)
  | unroot (id : PairRef)
  | write (id : PairRef) (side : Collector.Side) (value : Literal)
  | step
  | recycle
  | finish
  | cycle

/-- The collector taken out of a client, and the way to put it back. -/
def splitCollector : Client → Collector × (Collector → Client)
  | ⟨collector, supply⟩ => (collector, fun collector => ⟨collector, supply⟩)

/-- An action on the collector. -/
@[inline] def onCollector (a : Action Collector α) : Action Client α :=
  Action.focus splitCollector a

/-- The pair that the program means. -/
def resolve (ref : PairRef) : Action Client (Except Refusal PairId) :=
  Action.ask (·.supply.resolve ref)

/-- The cell of a literal. -/
def build (l : Literal) : Action Client (Except Refusal Cell) :=
  Action.updateGet fun ⟨⟨store, objects, generation, options, stats⟩, supply⟩ =>
    match supply.build objects l with
    | .ok (cell, supply, objects) =>
      (.ok cell, ⟨⟨store, objects, generation, options, stats⟩, supply⟩)
    | .error r => (.error r, ⟨⟨store, objects, generation, options, stats⟩, supply⟩)

/-- The rest of a request for which a cell is already built: if it is refused, the cell is
dropped. -/
def holding (cell : Cell) (rest : Action Client (Except Refusal α)) :
    Action Client (Except Refusal α) := do
  match ← rest with
  | .ok a => return .ok a
  | .error r =>
    onCollector (Collector.discard cell)
    return .error r

/-- The cells of two literals, built from left to right. -/
def buildBoth (a b : Literal) : Action Client (Except Refusal (Cell × Cell)) := do
  match ← build a with
  | .error r => return .error r
  | .ok car => return (← holding car (build b)).map fun cdr => (car, cdr)

/-- The operation that a request comes to. Its cells are built before its pair is looked up, so a
cell that cannot be built is refused first. -/
def prepare : Request → Action Client (Except Refusal Collector.Op)
  | .make a b => do
    return (← buildBoth a b).map fun (car, cdr) => .make car cdr
  | .root id => do
    return (← resolve id).map .root
  | .retain id => do
    return (← resolve id).map .retain
  | .acquire id => do
    return (← resolve id).map .acquire
  | .unroot id => do
    return (← resolve id).map .unroot
  | .write id side value => do
    match ← build value with
    | .error r => return .error r
    | .ok cell => return (← holding cell (resolve id)).map fun id => .write id side cell
  | .step => return .ok .step
  | .recycle => return .ok .recycle
  | .finish => return .ok .finish
  | .cycle => return .ok .cycle

/-- The pair that an operation allocated is remembered as the last one. -/
def remember : Collector.Reply → Action Client Unit
  | .made id =>
    Action.update fun c => { c with supply := { c.supply with last := some id } }
  | _ => pure ()

/-- Do what a request asks for, or say why it is refused. -/
def perform (request : Request) : Action Client (Except Refusal Collector.Reply) := do
  match ← prepare request with
  | .error r => return .error r
  | .ok op =>
    -- the cells of the operation belong to the collector from here on
    let reply ← onCollector (Collector.perform op)
    remember reply
    return .ok reply

/-- Forget the dead symbols of the program's table; the answer is how many there were. -/
def prune : Action Client Nat :=
  Action.updateGet fun c =>
    match c.supply.prune c.collector.objects with
    | (dead, supply) => (dead, { c with supply := supply })

end Client

end ConsHeap
