import FilterSql.Json.Token

/-! Reading JSON text: a machine that takes one token at a time. -/
namespace FilterSql.Json

/-- An array or object that is still open; the key is that of the member being read. -/
inductive Frame where
  | array (items : List Json)
  | object (members : Fields Json) (key : String)

/-- What may come next. -/
inductive Expect where
  | value
  | valueOrClose
  | key
  | keyOrClose
  | colon
  | separator

/-- The machine between two tokens, or its result. -/
inductive Machine where
  | running (stack : List Frame) (expect : Expect)
  | finished (value : Json)

namespace Machine

def start : Machine := .running [] .value

/-- A value is complete. Of members with one key the first gives the place, the last the value. -/
def complete (value : Json) : List Frame → Machine
  | [] => .finished value
  | .array items :: stack => .running (.array (value :: items) :: stack) .separator
  | .object members key :: stack =>
    .running (.object (Fields.set members key value) key :: stack) .separator

/-- Takes one token; `none` when it may not stand there or opens more than `depth` levels. -/
def step (depth : Nat) (stack : List Frame) : Expect → Token → Option Machine
  | .value, .scalar v | .valueOrClose, .scalar v => some (complete v stack)
  | .value, .string s | .valueOrClose, .string s => some (complete (.string s) stack)
  | .value, .openArray | .valueOrClose, .openArray =>
    if stack.length < depth then some (.running (.array [] :: stack) .valueOrClose) else none
  | .value, .openObject | .valueOrClose, .openObject =>
    if stack.length < depth then some (.running (.object [] "" :: stack) .keyOrClose) else none
  | .key, .string k | .keyOrClose, .string k =>
    match stack with
    | .object members _ :: stack => some (.running (.object members k :: stack) .colon)
    | _ => none
  | .colon, .colon => some (.running stack .value)
  | .separator, .comma =>
    match stack with
    | .array _ :: _ => some (.running stack .value)
    | .object .. :: _ => some (.running stack .key)
    | [] => none
  | .valueOrClose, .closeArray | .separator, .closeArray =>
    match stack with
    | .array items :: stack => some (complete (.array items.reverse) stack)
    | _ => none
  | .keyOrClose, .closeObject | .separator, .closeObject =>
    match stack with
    | .object members _ :: stack => some (complete (.object members) stack)
    | _ => none
  | _, _ => none

/-- Runs until a value is complete, and returns it with the rest of the text. Each step takes at
least one character, so their number bounds the steps. -/
def run (depth : Nat) : Nat → Machine → List Char → Option (Json × List Char)
  | _, .finished value, s => some (value, s)
  | 0, .running .., _ => none
  | steps + 1, .running stack expect, s =>
    match Token.next? (s.dropWhile Token.isSpace) with
    | none => none
    | some (token, rest) =>
      match step depth stack expect token with
      | none => none
      | some machine => run depth steps machine rest

end Machine

/-- The nesting that text may have: so many arrays and objects within each other. -/
def maxDepth : Nat := 127

/-- The value at the start of a text, and what follows it. -/
def readSome? (depth : Nat) (text : String) : Option (Json × List Char) :=
  let s := text.toList
  Machine.run depth (s.length + 1) .start s

/-- Whether nothing but space follows. -/
def isBlankRest (rest : List Char) : Bool := rest.all Token.isSpace

/-- The value that makes up a whole text. -/
def read? (depth : Nat) (text : String) : Option Json :=
  match readSome? depth text with
  | some (value, rest) => if isBlankRest rest then some value else none
  | none => none

end FilterSql.Json
