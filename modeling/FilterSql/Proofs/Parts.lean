import FilterSql.Draft

/-! Templates as sequences of parts: the operators of the database are settled, and a list is taken
apart into its values. -/
namespace FilterSql

/-- Text as it stands, a name to be quoted, or a slot with its value. -/
inductive Part where
  | text (s : String)
  | name (name : String)
  | slot (v : Value)

abbrev Parts := List Part

namespace Parts

/-- Text and names go on with the fragment they stand in, a slot starts the next one. -/
def template (d : Dialect) : Parts → Template
  | [] => ⟨"", []⟩
  | .text s :: parts => ⟨s ++ (template d parts).head, (template d parts).slots⟩
  | .name name :: parts => ⟨d.quoted name ++ (template d parts).head, (template d parts).slots⟩
  | .slot v :: parts => ⟨"", (v, (template d parts).head) :: (template d parts).slots⟩

def values (parts : Parts) : List Value :=
  parts.filterMap fun | .slot v => some v | _ => none

def names (parts : Parts) : List String :=
  parts.filterMap fun | .name name => some name | _ => none

/-- The characters of the text; the first slot has the number `index`. -/
def chars (d : Dialect) (index : Nat) : Parts → List Char
  | [] => []
  | .text s :: parts => s.toList ++ chars d index parts
  | .name name :: parts => Quoted.enclose d.quote name.toList ++ chars d index parts
  | .slot _ :: parts => (d.placeholder index).toList ++ chars d (index + 1) parts

/-- Parts with commas between them. -/
def list (members : List Parts) : Parts := [.text ", "].intercalate members

end Parts

def Piece.parts (d : Dialect) : Piece → Parts
  | .text s => [.text s]
  | .name column => [.name column]
  | .regexOperator => [.text d.regexOperator]
  | .value v => [.slot v.bound]
  | .list values => .text "(" :: Parts.list (values.map fun v => [.slot v.bound]) ++ [Part.text ")"]

def Draft.parts (d : Dialect) (draft : Draft) : Parts := draft.flatMap (Piece.parts d)

namespace Template

theorem appendFrom_append (t : Template) (s head : String) (slots : List (Value × String)) :
    appendFrom t (s ++ head) slots =
      ⟨s ++ (appendFrom t head slots).head, (appendFrom t head slots).slots⟩ := by
  cases slots with
  | nil => simp [appendFrom, String.append_assoc]
  | cons slot slots => simp [appendFrom]

theorem append_eq (t u : Template) : t ++ u = appendFrom u t.head t.slots := rfl

end Template

namespace Parts

variable {d : Dialect}

theorem template_append (a b : Parts) : template d (a ++ b) = template d a ++ template d b := by
  induction a with
  | nil => simp [template, Template.append_eq, Template.appendFrom]
  | cons part a ih =>
    cases part with
    | text s => simp [template, Template.append_eq, Template.appendFrom_append, ih]
    | name name => simp [template, Template.append_eq, Template.appendFrom_append, ih]
    | slot v => simp [template, Template.append_eq, Template.appendFrom, ih]

@[simp] theorem list_nil : list [] = [] := rfl

@[simp] theorem list_singleton (member : Parts) : list [member] = member := by simp [list]

theorem list_cons_cons (member next : Parts) (members : List Parts) :
    list (member :: next :: members) = member ++ .text ", " :: list (next :: members) := by
  simp [list]

section Contents

variable (parts : Parts) (s name : String) (v : Value)

@[simp] theorem values_nil : values [] = [] := rfl

@[simp] theorem values_text : values (.text s :: parts) = parts.values := rfl

@[simp] theorem values_name : values (.name name :: parts) = parts.values := rfl

@[simp] theorem values_slot : values (.slot v :: parts) = v :: parts.values := rfl

@[simp] theorem values_append (a b : Parts) : values (a ++ b) = values a ++ values b :=
  List.filterMap_append

@[simp] theorem names_nil : names [] = [] := rfl

@[simp] theorem names_text : names (.text s :: parts) = parts.names := rfl

@[simp] theorem names_name : names (.name name :: parts) = name :: parts.names := rfl

@[simp] theorem names_slot : names (.slot v :: parts) = parts.names := rfl

@[simp] theorem names_append (a b : Parts) : names (a ++ b) = names a ++ names b :=
  List.filterMap_append

theorem names_list (members : List Parts) : (list members).names = members.flatMap names := by
  induction members with
  | nil => rfl
  | cons member members ih =>
    cases members with
    | nil => simp
    | cons next members => simp [list_cons_cons, ih]

theorem values_list (members : List Parts) : (list members).values = members.flatMap values := by
  induction members with
  | nil => rfl
  | cons member members ih =>
    cases members with
    | nil => simp
    | cons next members => simp [list_cons_cons, ih]

theorem slots_template : (template d parts).values = parts.values := by
  induction parts with
  | nil => rfl
  | cons part parts ih => cases part <;> simp_all [template, Template.values]

end Contents

/-- The slots of a list as they are written, from the first to the closing parenthesis. -/
theorem template_slots (v : Value) (values : List Value) :
    template d (list ((v :: values).map fun v => [.slot v.bound]) ++ [Part.text ")"]) =
      ⟨"", Template.listSlots (v :: values)⟩ := by
  induction values generalizing v with
  | nil => simp [template, Template.listSlots]
  | cons w values ih =>
    simp only [List.map_cons] at ih ⊢
    simp [list_cons_cons, template, Template.listSlots, ih]

end Parts

theorem Piece.template_parts (d : Dialect) (piece : Piece) :
    piece.template d = Parts.template d (piece.parts d) := by
  cases piece with
  | text s => simp [Piece.template, Piece.parts, Parts.template, Template.ofText]
  | name column => simp [Piece.template, Piece.parts, Parts.template, Template.ofText]
  | regexOperator => simp [Piece.template, Piece.parts, Parts.template, Template.ofText]
  | value v => rfl
  | list values =>
    cases values with
    | nil => rfl
    | cons v values =>
      simp only [Piece.template, Piece.parts, List.cons_append, Parts.template,
        Parts.template_slots]
      rfl

namespace Draft

variable {d : Dialect}

@[simp] theorem parts_nil : Draft.parts d [] = [] := rfl

@[simp] theorem parts_cons (piece : Piece) (draft : Draft) :
    Draft.parts d (piece :: draft) = piece.parts d ++ Draft.parts d draft := rfl

@[simp] theorem parts_append (a b : Draft) :
    Draft.parts d (a ++ b) = Draft.parts d a ++ Draft.parts d b := by
  simp [parts]

theorem parts_list (members : List Draft) :
    Draft.parts d (Draft.list members) = Parts.list (members.map (Draft.parts d)) := by
  induction members with
  | nil => rfl
  | cons member members ih =>
    cases members with
    | nil => simp [Draft.list]
    | cons next members =>
      rw [list_cons_cons, parts_append, parts_cons, ih]
      simp [Parts.list_cons_cons, Piece.parts]

theorem template_parts (draft : Draft) :
    draft.template d = Parts.template d (draft.parts d) := by
  induction draft with
  | nil => rfl
  | cons piece draft ih =>
    rw [parts_cons, Parts.template_append, ← ih, ← Piece.template_parts]
    rfl

end Draft

/-! The text of a template is the text of its parts. -/
namespace Parts

variable {d : Dialect}

theorem chars_eq (parts : Parts) (index : Nat) :
    (template d parts).head.toList ++
        (Template.renderFrom d index (template d parts).slots).flatMap String.toList =
      chars d index parts := by
  induction parts generalizing index with
  | nil => rfl
  | cons part parts ih =>
    cases part with
    | text s => simp [template, chars, ← ih]
    | name name => simp [template, chars, ← ih, Dialect.quoted]
    | slot v => simp [template, chars, ← ih, Template.renderFrom]

theorem toList_render (parts : Parts) :
    ((template d parts).render d).toList = chars d 1 parts := by
  rw [Template.render, String.toList_join, List.flatMap_cons, chars_eq]

/-- Without slots there is one fragment, which holds all the parts. -/
theorem template_of_values_nil {parts : Parts} (h : parts.values = []) :
    template d parts = .ofText ((template d parts).render d) := by
  have hslots : (template d parts).slots = [] := by
    rw [← slots_template (d := d)] at h
    simpa [Template.values] using h
  rw [Template.render, hslots, Template.renderFrom, Template.ofText, ← hslots]
  simp

theorem template_append_slot {parts : Parts} (h : parts.values = []) (v : Value) (rest : Parts) :
    template d (parts ++ .slot v :: rest) =
      ⟨(template d parts).head, (v, (template d rest).head) :: (template d rest).slots⟩ := by
  rw [template_append, template_of_values_nil h]
  simp [template, Template.append_eq, Template.appendFrom, Template.ofText]

end Parts
end FilterSql
