import FilterSql.Filter.Draft

/-! Filters of one shape: they differ in their values alone, and so do their pieces. -/
namespace FilterSql

mutual

/-- The operator with its values struck out; lists keep their lengths. -/
def FilterOp.shape : FilterOp → FilterOp
  | .compare comparison _ => .compare comparison .null
  | .oneOf values => .oneOf (values.map fun _ => .null)
  | .noneOf values => .noneOf (values.map fun _ => .null)
  | .present wanted => .present wanted
  | .not inner => .not (FilterSet.shape inner)

def FilterSet.shape : List FilterOp → List FilterOp
  | [] => []
  | op :: ops => FilterOp.shape op :: FilterSet.shape ops

end

/-- Of a value that stands alone, only whether it is a regular expression. -/
def Condition.shape : Condition → Condition
  | .value (.regex _) => .value (.regex "")
  | .value _ => .value .null
  | .filter set => .filter (FilterSet.shape set)

mutual

def Entry.shape : Entry → Entry
  | .column name condition => .column name condition.shape
  | .root op clauses => .root op (Where.memberShapes clauses)

def Where.shape : List Entry → List Entry
  | [] => []
  | entry :: rest => Entry.shape entry :: Where.shape rest

def Where.memberShapes : List (List Entry) → List (List Entry)
  | [] => []
  | clause :: clauses => Where.shape clause :: Where.memberShapes clauses

end

def Piece.shape : Piece → Piece
  | .value _ => .value .null
  | .list values => .list (values.map fun _ => .null)
  | piece => piece

namespace Draft

/-- The pieces with their values struck out. -/
def shape (draft : Draft) : Draft := draft.map Piece.shape

/-- The pieces differ in their values alone. -/
def Alike (a b : Draft) : Prop := a.shape = b.shape

variable {a a' b b' : Draft}

theorem alike_append (ha : Alike a a') (hb : Alike b b') : Alike (a ++ b) (a' ++ b') := by
  unfold Alike shape at *
  rw [List.map_append, List.map_append, ha, hb]

theorem alike_cons (piece : Piece) (h : Alike b b') : Alike (piece :: b) (piece :: b') :=
  alike_append (a := [piece]) rfl h

theorem isEmpty_eq_of_alike (h : Alike a a') : a.isEmpty = a'.isEmpty := by
  have := congrArg List.isEmpty h
  simpa [shape] using this

theorem alike_join (joiner : String) (ha : Alike a a') (hb : Alike b b') :
    Alike (join joiner a b) (join joiner a' b') := by
  unfold join
  rw [isEmpty_eq_of_alike ha, isEmpty_eq_of_alike hb]
  split
  · exact hb
  · split
    · exact ha
    · exact alike_append ha (alike_cons _ hb)

theorem shape_list (members : List Draft) :
    (Draft.list members).shape = Draft.list (members.map shape) := by
  induction members with
  | nil => rfl
  | cons member members ih =>
    cases members with
    | nil => simp [list]
    | cons next members =>
      simp only [List.map_cons, list_cons_cons] at ih ⊢
      rw [← ih]
      simp [shape, Piece.shape]

end Draft

open Draft (Alike alike_append alike_cons alike_join)

/-! Striking out the values of a filter changes neither what happens nor what is written. -/

theorem enter_alike {depth room : Nat} {inside inside' : Nat → Report Draft}
    (h : ∀ left, Report.Rel Alike (inside left) (inside' left)) :
    Report.Rel Alike (enter depth room inside) (enter depth room inside') := by
  cases room with
  | zero => exact .error [] _
  | succ left => exact h left

mutual

theorem FilterOp.shape_alike (depth room : Nat) (column : String) : ∀ op : FilterOp,
    Report.Rel Alike (FilterOp.draft depth room column op.shape)
      (FilterOp.draft depth room column op)
  | .compare comparison v => .ok [] rfl
  | .oneOf values => .ok [] (by simp [Alike, Draft.shape, Piece.shape])
  | .noneOf values => .ok [] (by simp [Alike, Draft.shape, Piece.shape])
  | .present wanted => .ok [] rfl
  | .not inner => by
    apply Report.rel_bind (FilterSet.shape_alike depth room column inner)
    intro body body' hbody
    exact .ok [] (alike_cons _ (alike_cons _ (alike_append hbody rfl)))

theorem FilterSet.shape_alike (depth room : Nat) (column : String) : ∀ ops : List FilterOp,
    Report.Rel Alike (FilterSet.draft depth room column (FilterSet.shape ops))
      (FilterSet.draft depth room column ops)
  | [] => .error [] _
  | op :: ops => by
    apply enter_alike
    intro left
    apply Report.rel_bind (FilterOp.shape_alike depth left column op)
    intro first first' hfirst
    apply Report.rel_bind (FilterSet.shape_alike_all depth left column ops)
    intro others others' hothers
    exact .ok [] (alike_join _ hfirst hothers)

theorem FilterSet.shape_alike_all (depth room : Nat) (column : String) : ∀ ops : List FilterOp,
    Report.Rel Alike (FilterSet.draftAll depth room column (FilterSet.shape ops))
      (FilterSet.draftAll depth room column ops)
  | [] => .ok [] rfl
  | op :: ops => by
    apply Report.rel_bind (FilterOp.shape_alike depth room column op)
    intro first first' hfirst
    apply Report.rel_bind (FilterSet.shape_alike_all depth room column ops)
    intro others others' hothers
    exact .ok [] (alike_join _ hfirst hothers)

end

theorem Condition.shape_alike (depth room : Nat) (column : String) (condition : Condition) :
    Report.Rel Alike (condition.shape.draft depth room column)
      (condition.draft depth room column) := by
  cases condition with
  | value v => cases v <;> exact .ok [] rfl
  | filter set => exact FilterSet.shape_alike depth room column set

theorem Entry.isRoot_shape (entry : Entry) : entry.shape.isRoot = entry.isRoot := by
  cases entry <;> rfl

theorem Where.length_shape (entries : List Entry) :
    (Where.shape entries).length = entries.length := by
  induction entries with
  | nil => rfl
  | cons entry rest ih => simp [Where.shape, ih]

theorem Where.isEmpty_shape (entries : List Entry) :
    (Where.shape entries).isEmpty = entries.isEmpty := by
  cases entries <;> rfl

theorem Where.all_isEmpty_memberShapes (clauses : List (List Entry)) :
    (Where.memberShapes clauses).all (·.isEmpty) = clauses.all (·.isEmpty) := by
  induction clauses with
  | nil => rfl
  | cons clause clauses ih =>
    rw [Where.memberShapes, List.all_cons, List.all_cons, ih, Where.isEmpty_shape]

mutual

theorem Entry.shape_alike (depth room after : Nat) : ∀ entry : Entry,
    Report.Rel Alike (Entry.draft depth room after entry.shape)
      (Entry.draft depth room after entry)
  | .column name condition => Condition.shape_alike depth room name condition
  | .root op clauses => by
    rw [Entry.shape, Entry.draft, Entry.draft, Where.all_isEmpty_memberShapes]
    split
    · exact .error [] _
    · apply Report.rel_bind (Where.shape_alike_members depth room op clauses)
      intro members members' hmembers
      have hgroup : Alike (.text "(" :: members ++ [Piece.text ")"])
          (.text "(" :: members' ++ [Piece.text ")"]) :=
        alike_cons _ (alike_append hmembers rfl)
      split
      · exact .ok [.droppedKeys op after] hgroup
      · exact .ok [] hgroup

theorem Where.shape_alike (depth room : Nat) : ∀ entries : List Entry,
    Report.Rel Alike (Where.draftEntries depth room (Where.shape entries))
      (Where.draftEntries depth room entries)
  | [] => .ok [] rfl
  | entry :: rest => by
    rw [Where.shape, Where.draftEntries, Where.draftEntries, Where.length_shape,
      Entry.isRoot_shape]
    apply Report.rel_bind (Entry.shape_alike depth room rest.length entry)
    intro first first' hfirst
    split
    · exact .ok [] hfirst
    · apply Report.rel_bind (Where.shape_alike depth room rest)
      intro others others' hothers
      exact .ok [] (alike_join _ hfirst hothers)

theorem Where.shape_alike_members (depth room : Nat) (op : RootOp) :
    ∀ clauses : List (List Entry),
      Report.Rel Alike (Where.draftMembers depth room op (Where.memberShapes clauses))
        (Where.draftMembers depth room op clauses)
  | [] => .ok [] rfl
  | clause :: clauses => by
    have hclauses := Where.shape_alike_members depth room op clauses
    rw [Where.memberShapes, Where.draftMembers, Where.draftMembers, Where.isEmpty_shape]
    split
    · exact hclauses
    · apply Report.rel_bind (enter_alike fun left => Where.shape_alike depth left clause)
      intro first first' hfirst
      apply Report.rel_bind hclauses
      intro others others' hothers
      exact .ok [] (alike_join _ hfirst hothers)

end

end FilterSql
