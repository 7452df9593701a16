import ConsHeap.Json.Value
import ConsHeap.Options.Basic

/-!
# Options in JSON

The written form of options is an object with one member for each field, in the order of the fields.
Read are objects with any of these members, in any order and none of them twice, and arrays of up to
four values in the order of the fields. What is missing has its default, and members of other names
are skipped. Numbers are integers of 64 bits, and only the page limit can be absent.
-/

namespace ConsHeap

namespace Options

/-! ### Fields -/

/-- The fields of options, in order. -/
inductive Field where
  | pageSize
  | garbageSteps
  | recycleSteps
  | maxPages
  deriving DecidableEq

namespace Field

def all : List Field :=
  [pageSize, garbageSteps, recycleSteps, maxPages]

/-- The name of a field in the written form. -/
def name : Field → String
  | pageSize => "page_size"
  | garbageSteps => "garbage_steps"
  | recycleSteps => "recycle_steps"
  | maxPages => "max_pages"

/-- The field of a name. -/
def ofName? (name : Option String) : Option Field :=
  name.bind fun n => all.find? fun f => f.name == n

end Field

/-! ### Writing -/

/-- The text of one field's value. -/
def fieldText (o : Options) : Field → String
  | .pageSize => toString o.pageSize
  | .garbageSteps => toString o.garbageSteps
  | .recycleSteps => toString o.recycleSteps
  | .maxPages =>
    match o.maxPages with
    | some n => toString n
    | none => "null"

/-- The written form of options, without blanks. -/
def toJson (o : Options) : String :=
  let members := Field.all.map fun f => "\"" ++ f.name ++ "\":" ++ o.fieldText f
  "\x7b" ++ ",".intercalate members ++ "\x7d"

/-! ### Reading -/

/-- An integer of 64 bits. -/
def word64? : Json → Option Nat
  | .number (.integer n) => if n < UInt64.size then some n else none
  | _ => none

/-- A page limit, or the absence of one. -/
def limit? : Json → Option (Option Nat)
  | .null => some none
  | v => (word64? v).map some

/-- One field read from its value. -/
def setField (o : Options) (f : Field) (v : Json) : Option Options :=
  match f with
  | .pageSize => (word64? v).map fun n => { o with pageSize := n }
  | .garbageSteps => (word64? v).map fun n => { o with garbageSteps := n }
  | .recycleSteps => (word64? v).map fun n => { o with recycleSteps := n }
  | .maxPages => (limit? v).map fun n => { o with maxPages := n }

/-- The members of an object, one after another. `seen` are the fields read before. Every name has
to stand for a text, also that of a member that is skipped. -/
def readMembers : List Field → Options → List (Option String × Json) → Option Options
  | _, o, [] => some o
  | seen, o, (name, v) :: rest =>
    if name.isNone then none
    else
      match Field.ofName? name with
      -- a name that is no field may be repeated
      | none => readMembers seen o rest
      | some f =>
        if f ∈ seen then none else (o.setField f v).bind fun o => readMembers (f :: seen) o rest

/-- The items of an array, field after field. -/
def readItems : List Field → Options → List Json → Option Options
  | _, o, [] => some o
  | [], _, _ :: _ => none
  | f :: fields, o, v :: rest => (o.setField f v).bind fun o => readItems fields o rest

/-- Options from a value. -/
def ofValue? : Json → Option Options
  | .object members => readMembers [] {} members
  | .array items => readItems Field.all {} items
  | _ => none

/-- Options from their written form. They are checked after they were read. -/
def ofJson (text : String) : Except HeapError Options :=
  match (Json.parse? text).bind ofValue? with
  | none => .error (.config "not a written form of options")
  | some o =>
    match o.problem? with
    | some e => .error e
    | none => .ok o

end Options

end ConsHeap
