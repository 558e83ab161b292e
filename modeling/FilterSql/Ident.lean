/-! Names of tables and columns. -/
namespace FilterSql.Ident

def isStart (c : Char) : Bool := c = '_' || c.isAlpha

def isPart (c : Char) : Bool := c = '_' || c.isAlphanum

theorem isPart_of_isStart {c : Char} (h : isStart c = true) : isPart c = true := by
  simp only [isStart, isPart, Char.isAlphanum, Bool.or_eq_true] at h ⊢
  exact h.imp_right .inl

/-- An ASCII letter or `_`, then ASCII letters, digits and `_`. -/
def isSimple (name : String) : Bool :=
  match name.toList with
  | [] => false
  | c :: s => isStart c && s.all isPart

/-- A projection lists simple names and `*`. -/
def isProjection (name : String) : Bool := name = "*" || isSimple name

end FilterSql.Ident
