import FilterSql.Template.Basic

/-! Statements in pieces, before it is decided how names and values are written. -/
namespace FilterSql

inductive Piece where
  | text (s : String)
  | name (name : String)
  | regexOperator
  | value (v : Value)
  /-- The values of a list in parentheses. -/
  | list (values : List Value)

/-- A value or a list of values at one place of a statement. -/
inductive Binding where
  | value (v : Value)
  | list (values : List Value)

abbrev Draft := List Piece

namespace Piece

def literal (d : Dialect) : Piece → String
  | .text s => s
  | .name column => d.quoted column
  | .regexOperator => d.regexOperator
  | .value v => v.literal
  | .list values => Value.listText values

def template (d : Dialect) : Piece → Template
  | .text s => .ofText s
  | .name column => .ofText (d.quoted column)
  | .regexOperator => .ofText d.regexOperator
  | .value v => .ofValue v.bound
  | .list values => .ofList values

def binding? : Piece → Option Binding
  | .value v => some (.value v)
  | .list values => some (.list values)
  | _ => none

end Piece

namespace Draft

/-- The text with all values written out. -/
def literal (draft : Draft) (d : Dialect) : String := String.join (draft.map (Piece.literal d))

/-- The text with a slot for each value. -/
def template (draft : Draft) (d : Dialect) : Template :=
  draft.foldr (fun piece t => piece.template d ++ t) .empty

/-- The values in the order of the text. -/
def bindings (draft : Draft) : List Binding := draft.filterMap Piece.binding?

theorem literal_append (d : Dialect) (a b : Draft) :
    (a ++ b).literal d = a.literal d ++ b.literal d := by
  simp [literal, String.join_append]

theorem bindings_append (a b : Draft) : (a ++ b).bindings = a.bindings ++ b.bindings :=
  List.filterMap_append

/-- Two parts with `joiner` between them; an empty part needs none. -/
def join (joiner : String) (a b : Draft) : Draft :=
  if a.isEmpty then b else if b.isEmpty then a else a ++ .text joiner :: b

@[simp] theorem join_nil_left (joiner : String) (b : Draft) : join joiner [] b = b := rfl

@[simp] theorem join_nil_right (joiner : String) (a : Draft) : join joiner a [] = a := by
  unfold join
  split <;> simp_all

theorem join_assoc (joiner : String) (a b c : Draft) :
    join joiner (join joiner a b) c = join joiner a (join joiner b c) := by
  cases a with
  | nil => rfl
  | cons _ a =>
    cases b with
    | nil => rw [join_nil_left, join_nil_right]
    | cons _ b => cases c <;> simp [join]

/-- Parts with commas between them. -/
def list (parts : List Draft) : Draft := [.text ", "].intercalate parts

theorem list_cons_cons (part next : Draft) (parts : List Draft) :
    list (part :: next :: parts) = part ++ .text ", " :: list (next :: parts) := by
  simp [list]

end Draft
end FilterSql
