import ConsHeap.Json.Token

/-!
# JSON values

The grammar of JSON over tokens: one value and nothing after it, no comma before a closing bracket,
nesting of any depth. The parser keeps the open arrays and objects on a stack of its own and looks
at every token once. Members of objects stay in the order of the text, repeated names included.
-/

namespace ConsHeap

/-- A JSON value. Names and strings that stand for no text are `none`. -/
inductive Json where
  | null
  | bool (b : Bool)
  | number (n : Json.Number)
  | string (text : Option String)
  | array (items : List Json)
  | object (members : List (Option String × Json))

namespace Json

/-- An array or object that is still open. What was read of it stands newest first; an object also
knows the name whose value is being read. -/
inductive Frame where
  | array (items : List Json)
  | object (members : List (Option String × Json)) (name : Option String)

/-- What may come next. -/
inductive Expected where
  /-- A value. -/
  | value
  /-- A value or the end of the array that was just opened. -/
  | firstItem
  /-- A name in the object whose earlier members are given. -/
  | name (members : List (Option String × Json))
  /-- A name or the end of the object that was just opened. -/
  | firstName
  /-- The colon after a name. -/
  | colon (members : List (Option String × Json)) (name : Option String)
  /-- A comma, or the end of the innermost array or object, after a value. -/
  | separator (value : Json)

/-- The open arrays and objects, innermost first, and what may come next. -/
structure Parser where
  frames : List Frame := []
  expected : Expected := .value

namespace Parser

/-- The parser after a complete value. -/
def complete (p : Parser) (v : Json) : Parser :=
  { p with expected := .separator v }

/-- The start of a value. -/
def openValue (p : Parser) : Token → Option Parser
  | .null => some (p.complete .null)
  | .bool b => some (p.complete (.bool b))
  | .number n => some (p.complete (.number n))
  | .string s => some (p.complete (.string s))
  | .openBracket => some { p with expected := .firstItem }
  | .openBrace => some { p with expected := .firstName }
  | _ => none

/-- What follows a value inside the innermost open array or object. -/
def afterValue (v : Json) : List Frame → Token → Option Parser
  | .array items :: frames, .comma => some ⟨.array (v :: items) :: frames, .value⟩
  | .array items :: frames, .closeBracket =>
    some ⟨frames, .separator (.array (v :: items).reverse)⟩
  -- after a comma an object waits for a name, so its frame is put back with the colon
  | .object members name :: frames, .comma => some ⟨frames, .name ((name, v) :: members)⟩
  | .object members name :: frames, .closeBrace =>
    some ⟨frames, .separator (.object ((name, v) :: members).reverse)⟩
  | _, _ => none

/-- The parser after one more token, if the token can stand there. -/
def step (p : Parser) (t : Token) : Option Parser :=
  match p.expected with
  | .value => p.openValue t
  | .firstItem =>
    if t = .closeBracket then some (p.complete (.array []))
    else openValue { p with frames := .array [] :: p.frames } t
  | .name members =>
    match t with
    | .string s => some { p with expected := .colon members s }
    | _ => none
  | .firstName =>
    match t with
    | .closeBrace => some (p.complete (.object []))
    | .string s => some { p with expected := .colon [] s }
    | _ => none
  | .colon members name =>
    if t = .colon then some ⟨.object members name :: p.frames, .value⟩ else none
  | .separator v => afterValue v p.frames t

/-- The value read, if nothing is open. -/
def finish (p : Parser) : Option Json :=
  match p.frames, p.expected with
  | [], .separator v => some v
  | _, _ => none

end Parser

/-- The value that tokens write. -/
def ofTokens? (ts : List Token) : Option Json :=
  (ts.foldlM Parser.step {}).bind Parser.finish

/-- The value that a text writes. -/
def parse? (text : String) : Option Json :=
  (tokenize text.toList).bind ofTokens?

end Json

end ConsHeap
