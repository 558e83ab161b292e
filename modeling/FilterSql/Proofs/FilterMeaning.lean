import FilterSql.Proofs.BooleanText
import FilterSql.Proofs.FilterPieces

/-! What a filter means, as a Boolean function of the truth of its tests. -/
namespace FilterSql

section Meaning

variable (truth : Atom → Bool) (d : Dialect)

mutual

def FilterOp.holds (column : String) : FilterOp → Bool
  | .compare comparison v => truth ⟨column, comparison.symbol, [v.bound]⟩
  | .oneOf values => truth ⟨column, "IN", values.map Value.bound⟩
  | .noneOf values => truth ⟨column, "NOT IN", values.map Value.bound⟩
  | .present wanted => truth ⟨column, if wanted then "IS NOT NULL" else "IS NULL", []⟩
  | .not inner => !FilterSet.holds column inner

def FilterSet.holds (column : String) : List FilterOp → Bool
  | [] => true
  | op :: ops => FilterOp.holds column op && FilterSet.holds column ops

end

def Condition.holds (column : String) : Condition → Bool
  | .value (.regex pattern) => truth ⟨column, d.regexOperator, [.text pattern]⟩
  | .value v => truth ⟨column, "=", [v]⟩
  | .filter set => FilterSet.holds truth column set

mutual

def Entry.holds : Entry → Bool
  | .column name condition => condition.holds truth d name
  | .root .and clauses => Where.allHold clauses
  | .root .or clauses => Where.anyHolds clauses
  | .root .nor clauses => !Where.anyHolds clauses

/-- All entries hold, up to the first root operator. -/
def Where.holds : List Entry → Bool
  | [] => true
  | entry :: rest => entry.holds && (entry.isRoot || Where.holds rest)

/-- All members that are not empty hold. -/
def Where.allHold : List (List Entry) → Bool
  | [] => true
  | clause :: clauses => (clause.isEmpty || Where.holds clause) && Where.allHold clauses

/-- Some member that is not empty holds. -/
def Where.anyHolds : List (List Entry) → Bool
  | [] => false
  | clause :: clauses => (!clause.isEmpty && Where.holds clause) || Where.anyHolds clauses

end

end Meaning

/-! With a single member `NOR` has nothing to stand between, and nothing is negated. -/

mutual

def Entry.NorsPaired : Entry → Prop
  | .column .. => True
  | .root op clauses =>
    (op = .nor → 2 ≤ (clauses.filter (!·.isEmpty)).length) ∧ Where.AllNorsPaired clauses

/-- Each `$nor` has two members at least that are not empty. -/
def Where.NorsPaired : List Entry → Prop
  | [] => True
  | entry :: rest => entry.NorsPaired ∧ (entry.isRoot ∨ Where.NorsPaired rest)

def Where.AllNorsPaired : List (List Entry) → Prop
  | [] => True
  | clause :: clauses => Where.NorsPaired clause ∧ Where.AllNorsPaired clauses

end

namespace RootOp

/-- What two members say together. -/
def both : RootOp → Bool → Bool → Bool
  | .and, x, y => x && y
  | .or, x, y => x || y
  | .nor, x, y => x || y

/-- What a group says when its members are joined. -/
def concluded : RootOp → Bool → Bool
  | .nor, x => !x
  | _, x => x

end RootOp

variable {d : Dialect}

/-! The members of a group that are not empty, joined. -/

/-- What the members of a group say, before it is negated. -/
def Where.joinedHold (truth : Atom → Bool) (d : Dialect) (op : RootOp)
    (clauses : List (List Entry)) : Bool :=
  match op with
  | .and => Where.allHold truth d clauses
  | _ => Where.anyHolds truth d clauses

theorem Entry.holds_root (truth : Atom → Bool) (op : RootOp) (clauses : List (List Entry)) :
    Entry.holds truth d (.root op clauses) =
      op.concluded (Where.joinedHold truth d op clauses) := by
  cases op <;> rfl

theorem Where.joinedHold_cons {clause : List Entry} (h : clause ≠ []) (truth : Atom → Bool)
    (op : RootOp) (clauses : List (List Entry)) :
    Where.joinedHold truth d op (clause :: clauses) =
      op.both (Where.holds truth d clause) (Where.joinedHold truth d op clauses) := by
  have hempty : clause.isEmpty = false := by simpa using h
  cases op <;> simp only [Where.joinedHold, Where.allHold, Where.anyHolds, RootOp.both, hempty,
    Bool.false_or, Bool.not_false, Bool.true_and]

theorem Where.joinedHold_single {clause : List Entry} (h : clause ≠ []) (truth : Atom → Bool)
    (op : RootOp) : Where.joinedHold truth d op [clause] = Where.holds truth d clause := by
  rw [Where.joinedHold_cons h]
  cases op <;> simp [Where.joinedHold, Where.allHold, Where.anyHolds, RootOp.both]

theorem Where.joinedHold_filter (truth : Atom → Bool) (op : RootOp)
    (clauses : List (List Entry)) :
    Where.joinedHold truth d op (clauses.filter (!·.isEmpty)) =
      Where.joinedHold truth d op clauses := by
  induction clauses with
  | nil => rfl
  | cons clause clauses ih =>
    by_cases hclause : clause = []
    · subst hclause
      cases op <;> simpa [Where.joinedHold, Where.allHold, Where.anyHolds] using ih
    · have hempty : clause.isEmpty = false := by simpa using hclause
      rw [List.filter_cons_of_pos (by simp [hempty]), Where.joinedHold_cons hclause, ih,
        Where.joinedHold_cons hclause]

theorem Where.memberPieces_filter (op : RootOp) (clauses : List (List Entry)) :
    Where.memberPieces op (clauses.filter (!·.isEmpty)) = Where.memberPieces op clauses := by
  induction clauses with
  | nil => rfl
  | cons clause clauses ih =>
    cases clause with
    | nil => exact ih
    | cons entry clause =>
      rw [List.filter_cons_of_pos (by simp), Where.memberPieces, ih, Where.memberPieces]

end FilterSql
