import FilterSql.Filter.Basic
import FilterSql.Proofs.Tokens

/-! Boolean expressions as they are read in statement text: `AND` binds tighter than `OR` and `NOR`,
and parentheses group. There is at most one way to read a text. -/
namespace FilterSql

/-- A test of one column, its operands being bound values. -/
structure Atom where
  column : String
  operator : String
  operands : List Value

inductive BoolExpr where
  | atom (a : Atom)
  | not (e : BoolExpr)
  | and (e f : BoolExpr)
  | or (e f : BoolExpr)

def BoolExpr.eval (truth : Atom → Bool) : BoolExpr → Bool
  | .atom a => truth a
  | .not e => !e.eval truth
  | .and e f => e.eval truth && f.eval truth
  | .or e f => e.eval truth || f.eval truth

namespace RootOp

/-- The word between two members of a group. -/
def word : RootOp → String
  | .and => "AND"
  | .or => "OR"
  | .nor => "NOR"

/-- Two members, or a member and those after it. -/
def link (e f : BoolExpr) : RootOp → BoolExpr
  | .and => .and e f
  | .or => .or e f
  | .nor => .or e f

/-- All members of a group; joined by `NOR` it says that none of them holds. -/
def close (e : BoolExpr) : RootOp → BoolExpr
  | .nor => .not e
  | _ => e

theorem word_injective {op op' : RootOp} (h : op.word = op'.word) : op = op' := by
  cases op <;> cases op' <;> simp_all [word]

end RootOp

/-- The operators that compare a column with one value. -/
def Dialect.operators (d : Dialect) : List String :=
  d.regexOperator :: Comparison.all.map Comparison.symbol

def SqlToken.valueList : List Value → List SqlToken
  | [] => []
  | [v] => [.value v]
  | v :: w :: values => .value v :: .comma :: valueList (w :: values)

/-- The forms of a test. -/
inductive Atom.Written (d : Dialect) : List SqlToken → Atom → Prop
  | compare {column operator : String} {v : Value} (h : operator ∈ d.operators) :
      Written d [.name column, .word operator, .value v] ⟨column, operator, [v]⟩
  | oneOf {column : String} {values : List Value} :
      Written d (.name column :: .word "IN" :: .opening ::
        (SqlToken.valueList values ++ [SqlToken.closing])) ⟨column, "IN", values⟩
  | noneOf {column : String} {values : List Value} :
      Written d (.name column :: .word "NOT" :: .word "IN" :: .opening ::
        (SqlToken.valueList values ++ [SqlToken.closing])) ⟨column, "NOT IN", values⟩
  | absent {column : String} :
      Written d [.name column, .word "IS", .word "NULL"] ⟨column, "IS NULL", []⟩
  | present {column : String} :
      Written d [.name column, .word "IS", .word "NOT", .word "NULL"] ⟨column, "IS NOT NULL", []⟩

/-- The ways in which the parts of an expression hold together. -/
inductive ExprLevel where
  /-- A test, a negation, or an expression in parentheses. -/
  | primary
  /-- Operands with the same word between them. -/
  | chain (op : RootOp)
  /-- Whatever may stand in parentheses. -/
  | group

/-- What `AND` joins is smaller than what the other words join. -/
def ExprLevel.operand : RootOp → ExprLevel
  | .and => .primary
  | .or => .chain .and
  | .nor => .chain .and

/-- The readings of tokens as an expression. -/
inductive Reading (d : Dialect) : ExprLevel → List SqlToken → BoolExpr → Prop
  | atom {ts a} (h : Atom.Written d ts a) : Reading d .primary ts (.atom a)
  | negation {ts e} (column : String) (h : Reading d .group ts e) :
      Reading d .primary
        (.name column :: .word "NOT" :: .opening :: (ts ++ [SqlToken.closing])) (.not e)
  | parentheses {ts e} (h : Reading d .group ts e) :
      Reading d .primary (.opening :: (ts ++ [SqlToken.closing])) e
  | last {op ts e} (h : Reading d (.operand op) ts e) : Reading d (.chain op) ts e
  | more {op ts us e f} (h : Reading d (.operand op) ts e) (h' : Reading d (.chain op) us f) :
      Reading d (.chain op) (ts ++ .word op.word :: us) (op.link e f)
  | plain {ts e} (h : Reading d (.chain .and) ts e) : Reading d .group ts e
  | joined {op ts us e f} (hop : op ≠ .and) (h : Reading d (.chain .and) ts e)
      (h' : Reading d (.chain op) us f) :
      Reading d .group (ts ++ .word op.word :: us) (op.close (op.link e f))

/-- What follows does not go on with an expression of the level. -/
def ExprLevel.Stops : ExprLevel → List SqlToken → Prop
  | .primary, _ => True
  | .chain op, rest =>
    rest.head? ≠ some (.word RootOp.and.word) ∧ rest.head? ≠ some (.word op.word)
  | .group, rest => ∀ op : RootOp, rest.head? ≠ some (.word op.word)

variable {d : Dialect}

theorem not_mem_operators {word : String}
    (h : word ∈ ["IN", "NOT", "IS", "AND", "OR", "NOR"]) : word ∉ d.operators := by
  simp only [List.mem_cons, List.not_mem_nil, or_false] at h
  rcases h with rfl | rfl | rfl | rfl | rfl | rfl <;> cases d <;> decide

/-- The values of a list are known once it is closed. -/
theorem valueList_unique {values values' : List Value} {r s : List SqlToken}
    (h : SqlToken.valueList values ++ .closing :: r = SqlToken.valueList values' ++ .closing :: s) :
    values = values' := by
  induction values using SqlToken.valueList.induct generalizing values' with
  | case1 =>
    cases values' using SqlToken.valueList.fun_cases with
    | case1 => rfl
    | case2 v => simp [SqlToken.valueList] at h
    | case3 v w values' => simp [SqlToken.valueList] at h
  | case2 v =>
    cases values' using SqlToken.valueList.fun_cases with
    | case1 => simp [SqlToken.valueList] at h
    | case2 v' => simp_all [SqlToken.valueList]
    | case3 v' w values' => simp [SqlToken.valueList] at h
  | case3 v w values ih =>
    cases values' using SqlToken.valueList.fun_cases with
    | case1 => simp [SqlToken.valueList] at h
    | case2 v' => simp [SqlToken.valueList] at h
    | case3 v' w' values' =>
      simp only [SqlToken.valueList, List.cons_append, List.cons.injEq, SqlToken.value.injEq,
        true_and] at h
      obtain ⟨rfl, h⟩ := h
      rw [ih h]

theorem Atom.Written.unique {ts us r s : List SqlToken} {a b : Atom} (h : Written d ts a)
    (h' : Written d us b) (heq : ts ++ r = us ++ s) : ts = us ∧ a = b := by
  have hin : "IN" ∉ d.operators := not_mem_operators (by decide)
  have hnot : "NOT" ∉ d.operators := not_mem_operators (by decide)
  have his : "IS" ∉ d.operators := not_mem_operators (by decide)
  cases h with
  | compare hop => cases h' <;> simp_all
  | oneOf =>
    cases h' with
    | oneOf =>
      simp only [List.cons_append, List.append_assoc, List.nil_append, List.cons.injEq,
        SqlToken.name.injEq, true_and] at heq
      obtain ⟨rfl, hvalues⟩ := heq
      obtain rfl := valueList_unique hvalues
      exact ⟨rfl, rfl⟩
    | _ => simp_all
  | noneOf =>
    cases h' with
    | noneOf =>
      simp only [List.cons_append, List.append_assoc, List.nil_append, List.cons.injEq,
        SqlToken.name.injEq, true_and] at heq
      obtain ⟨rfl, hvalues⟩ := heq
      obtain rfl := valueList_unique hvalues
      exact ⟨rfl, rfl⟩
    | _ => simp_all
  | absent => cases h' <;> simp_all
  | present => cases h' <;> simp_all

namespace Reading

variable {ts us r s : List SqlToken} {e f : BoolExpr}

/-- A test starts with a column, and what follows is no negation. -/
theorem not_written {column : String} {a : Atom}
    (h : Atom.Written d us a) (heq : .name column :: .word "NOT" :: .opening :: r = us ++ s) :
    False := by
  have hnot : "NOT" ∉ d.operators := not_mem_operators (by decide)
  cases h <;> simp_all

/-- Equal texts do not part where one goes on with a word that does not follow in the other. -/
theorem not_continued {word : String} (h : ts ++ .word word :: us = ts ++ r)
    (hr : r.head? ≠ some (.word word)) : False := by
  obtain rfl := List.append_cancel_left h
  exact hr rfl

theorem stops_closing : ExprLevel.group.Stops (.closing :: r) := by
  simp [ExprLevel.Stops]

theorem stops_of_group {op : RootOp} (h : ExprLevel.group.Stops r) : (ExprLevel.chain op).Stops r :=
  ⟨h .and, h op⟩

theorem stops_operand {op : RootOp} (h : (ExprLevel.chain op).Stops r) :
    (ExprLevel.operand op).Stops r := by
  cases op with
  | and => trivial
  | or => exact ⟨h.1, h.1⟩
  | nor => exact ⟨h.1, h.1⟩

theorem stops_word (op : RootOp) : (ExprLevel.operand op).Stops (.word op.word :: r) := by
  cases op <;> simp [ExprLevel.operand, ExprLevel.Stops, RootOp.word]

theorem stops_joined {op : RootOp} (hop : op ≠ .and) :
    (ExprLevel.chain .and).Stops (.word op.word :: r) := by
  have hword : op.word ≠ RootOp.and.word := fun h => hop (RootOp.word_injective h)
  simpa [ExprLevel.Stops] using hword

/-- An expression of a level is known, and where it ends, if what follows does not go on with it. -/
theorem unique_of_append {level : ExprLevel} (h : Reading d level ts e)
    (h' : Reading d level us f) (hr : level.Stops r) (hs : level.Stops s)
    (heq : ts ++ r = us ++ s) : ts = us ∧ e = f := by
  -- Each part of the first reading ends where the same part of the second one does, because the
  -- word or the parenthesis behind it stops both.
  induction h generalizing us f r s with
  | atom ha =>
    cases h' with
    | atom hb =>
      obtain ⟨rfl, rfl⟩ := ha.unique hb heq
      exact ⟨rfl, rfl⟩
    | negation column hg => exact (not_written ha heq.symm).elim
    | parentheses hg => cases ha <;> simp at heq
  | negation column hg ih =>
    cases h' with
    | atom hb => exact (not_written hb heq).elim
    | negation column' hg' =>
      simp only [List.cons_append, List.append_assoc, List.cons.injEq, SqlToken.name.injEq,
        true_and] at heq
      obtain ⟨rfl, heq⟩ := heq
      obtain ⟨rfl, rfl⟩ := ih hg' stops_closing stops_closing heq
      exact ⟨rfl, rfl⟩
    | parentheses hg' => simp at heq
  | parentheses hg ih =>
    cases h' with
    | atom hb => cases hb <;> simp at heq
    | negation column' hg' => simp at heq
    | parentheses hg' =>
      simp only [List.cons_append, List.append_assoc, List.cons.injEq, true_and] at heq
      obtain ⟨rfl, rfl⟩ := ih hg' stops_closing stops_closing heq
      exact ⟨rfl, rfl⟩
  | @last op ts _ ho ih =>
    cases h' with
    | last ho' => exact ih ho' (stops_operand hr) (stops_operand hs) heq
    | more ho' hc' =>
      rw [List.append_assoc] at heq
      obtain ⟨rfl, rfl⟩ := ih ho' (stops_operand hr) (stops_word op) heq
      exact (not_continued heq.symm hr.2).elim
  | @more op ts us _ _ ho hc iho ihc =>
    rw [List.append_assoc] at heq
    cases h' with
    | last ho' =>
      obtain ⟨rfl, rfl⟩ := iho ho' (stops_word op) (stops_operand hs) heq
      exact (not_continued heq hs.2).elim
    | more ho' hc' =>
      rw [List.append_assoc] at heq
      obtain ⟨rfl, rfl⟩ := iho ho' (stops_word op) (stops_word op) heq
      obtain ⟨-, htail⟩ := List.cons.inj (List.append_cancel_left heq)
      obtain ⟨rfl, rfl⟩ := ihc hc' hr hs htail
      exact ⟨rfl, rfl⟩
  | plain hc ih =>
    cases h' with
    | plain hc' => exact ih hc' (stops_of_group hr) (stops_of_group hs) heq
    | joined hop hc' ha' =>
      rw [List.append_assoc] at heq
      obtain ⟨rfl, rfl⟩ := ih hc' (stops_of_group hr) (stops_joined hop) heq
      exact (not_continued heq.symm (hr _)).elim
  | joined hop hc ha ihc iha =>
    rw [List.append_assoc] at heq
    cases h' with
    | plain hc' =>
      obtain ⟨rfl, rfl⟩ := ihc hc' (stops_joined hop) (stops_of_group hs) heq
      exact (not_continued heq (hs _)).elim
    | joined hop' hc' ha' =>
      rw [List.append_assoc] at heq
      obtain ⟨rfl, rfl⟩ := ihc hc' (stops_joined hop) (stops_joined hop') heq
      obtain ⟨hword, htail⟩ := List.cons.inj (List.append_cancel_left heq)
      obtain rfl := RootOp.word_injective (SqlToken.word.inj hword)
      obtain ⟨rfl, rfl⟩ := iha ha' (stops_of_group hr) (stops_of_group hs) htail
      exact ⟨rfl, rfl⟩

/-- A whole text has at most one reading. -/
theorem unique (h : Reading d .group ts e) (h' : Reading d .group ts f) : e = f :=
  (unique_of_append (r := []) (s := []) h h' (by simp [ExprLevel.Stops])
    (by simp [ExprLevel.Stops]) rfl).2

end Reading
end FilterSql
