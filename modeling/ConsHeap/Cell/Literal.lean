import ConsHeap.SymbolTable

/-!
# Literals

A program writes cells down as literals. Building one may make a managed object, intern a symbol in
the program's own table, or refer to an object or a pair that the program met before. The cell that
comes out owns its reference.
-/

namespace ConsHeap

/-- How a program names a pair: by its id, or as the one it allocated last. -/
inductive PairRef where
  | id (id : PairId)
  | last
  deriving DecidableEq, Repr

/-- A cell as a program writes it. -/
inductive Literal where
  | nil
  | integer (value : Int64)
  | pair (ref : PairRef)
  /-- A new string object. -/
  | string (text : String)
  /-- A symbol of the program's own table. -/
  | symbol (name : String)
  /-- One more reference to the object that the program made as number `k`. -/
  | again (k : Nat)

/-- Why a program's request makes no sense. Nothing is done for it. -/
inductive Refusal where
  /-- The object is not there any more. -/
  | freedReference
  /-- No pair was allocated yet. -/
  | noLastPair
  deriving DecidableEq, Repr

/-- The text of a refusal. -/
def Refusal.message : Refusal → String
  | freedReference => "freed ref"
  | noLastPair => "no pair yet"

/-- What a program remembers: its symbols, the objects it made, in order, and the pair it allocated
last. -/
structure Supply where
  symbols : SymbolTable := {}
  made : Array ObjectId := #[]
  last : Option PairId := none

namespace Supply

/-- The pair that a program means. -/
def resolve (s : Supply) : PairRef → Except Refusal PairId
  | .id id => .ok id
  | .last =>
    match s.last with
    | some id => .ok id
    | none => .error .noLastPair

/-- A new object, remembered. -/
def recordMade (s : Supply) (o : ObjectId) : Supply :=
  { s with made := s.made.push o }

/-- The symbol of a name. It is remembered as made unless it was alive before. -/
def symbol (s : Supply) (os : Objects) (name : String) : Cell × Supply × Objects :=
  match s.symbols.living? os name with
  | some o => (.managed o, s, os.retain o)
  | none =>
    -- interning a name that is not alive makes an object
    match s.symbols.intern os name with
    | (o, symbols, os) => (.managed o, { s with symbols := symbols }.recordMade o, os)

/-- A new string object. -/
def string (s : Supply) (os : Objects) (text : String) : Cell × Supply × Objects :=
  match os.alloc ⟨.string, text⟩ with
  | (o, os) => (.managed o, s.recordMade o, os)

/-- The object that was made as number `k`, if it is still alive. -/
def made? (s : Supply) (os : Objects) (k : Nat) : Option ObjectId :=
  s.made[k]?.filter os.isLive

/-- The cell of a literal, with the reference it owns. -/
def build (s : Supply) (os : Objects) : Literal → Except Refusal (Cell × Supply × Objects)
  | .nil => .ok (.nil, s, os)
  | .integer i => .ok (.integer i, s, os)
  | .pair ref => (s.resolve ref).map fun id => (.pair id, s, os)
  | .string text => .ok (s.string os text)
  | .symbol name => .ok (s.symbol os name)
  | .again k =>
    match s.made? os k with
    | some o => .ok (.managed o, s, os.retain o)
    | none => .error .freedReference

/-- Forget the dead symbols of the program's table; the answer is how many there were. -/
def prune (s : Supply) (os : Objects) : Nat × Supply :=
  (s.symbols.dead os, { s with symbols := s.symbols.prune os })

/-- Every object made, with its text as long as it lives and its strong count. -/
def census (s : Supply) (os : Objects) : List (Option String × Nat) :=
  s.made.toList.map fun o => (os.text? o, os.strong o)

end Supply

end ConsHeap
