import FilterSql.Dialect
import FilterSql.Error
import FilterSql.Value

/-! Statement text with slots, and the values bound to them. -/
namespace FilterSql

/-- Text before the first slot, then each slot: its value and the text up to the next one. So there
is always one fragment of text more than there are values. -/
structure Template where
  head : String
  slots : List (Value × String)
  deriving Inhabited

/-- Text for a database with the values of its placeholders in order. -/
structure Rendered where
  sql : String
  values : List Value

namespace Template

def ofText (s : String) : Template := ⟨s, []⟩

def empty : Template := ofText ""

/-- A single slot. -/
def ofValue (v : Value) : Template := ⟨"", [(v, "")]⟩

def fragments (t : Template) : List String := t.head :: t.slots.map (·.2)

def values (t : Template) : List Value := t.slots.map (·.1)

/-- The template of given fragments and values, if their numbers fit. -/
def ofParts (fragments : List String) (values : List Value) : Except SqlError Template :=
  let refused := .error (.incomplete (.fragmentCount fragments.length values.length))
  match fragments with
  | [] => refused
  | head :: rest => if rest.length = values.length then .ok ⟨head, values.zip rest⟩ else refused

/-- The text `head`, the given slots, and then another template, whose first fragment continues the
last one. -/
def appendFrom (t : Template) (head : String) : List (Value × String) → Template
  | [] => ⟨head ++ t.head, t.slots⟩
  | (v, fragment) :: slots =>
    let rest := appendFrom t fragment slots
    ⟨head, (v, rest.head) :: rest.slots⟩

instance : Append Template where
  append a b := appendFrom b a.head a.slots

def push (t : Template) (s : String) : Template := t ++ ofText s

def bind (t : Template) (v : Value) : Template := t ++ ofValue v

def pushName (t : Template) (d : Dialect) (name : String) : Template := t.push (d.quoted name)

def paramCount (t : Template) : Nat := t.slots.length

/-- Whether there is neither text nor a slot. -/
def isEmpty (t : Template) : Bool := t.head.isEmpty && t.slots.isEmpty

/-- The text from slot number `index` on, in parts. -/
def renderFrom (d : Dialect) (index : Nat) : List (Value × String) → List String
  | [] => []
  | (_, fragment) :: slots => d.placeholder index :: fragment :: renderFrom d (index + 1) slots

/-- The text with the placeholders of a database. -/
def render (t : Template) (d : Dialect) : String := String.join (t.head :: renderFrom d 1 t.slots)

def rendered (t : Template) (d : Dialect) : Rendered := ⟨t.render d, t.values⟩

/-- The slots of a list and the text after each, up to the closing parenthesis. -/
def listSlots : List Value → List (Value × String)
  | [] => []
  | [v] => [(v.bound, ")")]
  | v :: w :: values => (v.bound, ", ") :: listSlots (w :: values)

/-- A list in parentheses with a slot for each value. -/
def ofList (values : List Value) : Template :=
  ⟨if values.isEmpty then "()" else "(", listSlots values⟩

end Template
end FilterSql
