/-!
# Recoverable errors

What an operation of the heap may answer instead of a result. A broken rooting or write discipline
is not reported here: it means that the heap is already corrupt, and it is a `Fault`.
-/

namespace ConsHeap

/-- A recoverable error, by cause. -/
inductive HeapError where
  /-- No further page of pairs could be obtained; `pages` pages of `pageSize` pairs exist. -/
  | outOfMemory (pages pageSize : Nat)
  /-- A pair operation was applied to something else. -/
  | notAPair (what : String)
  /-- An option has a value that cannot be used. -/
  | invalidOption (what : String)
  /-- A written option could not be read. -/
  | config (what : String)
  deriving DecidableEq, Repr

/-- The text of an error. -/
def HeapError.message : HeapError → String
  | outOfMemory pages pageSize =>
    s!"out of memory: cannot allocate pair page {pages} ({pageSize} pairs per page)"
  | notAPair what => what ++ " is not a pair"
  | invalidOption what => "invalid gc option: " ++ what
  | config what => "cannot parse gc option: " ++ what

end ConsHeap
