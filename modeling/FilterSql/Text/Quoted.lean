/-! Quoted spans: inside a span its quote is written twice, and a single quote closes it. -/
namespace FilterSql.Quoted

/-- Every `q` of the text written twice. -/
def double (q : Char) (s : List Char) : List Char :=
  s.flatMap fun c => if c = q then [q, q] else [c]

/-- The span that holds `s`. -/
def enclose (q : Char) (s : List Char) : List Char :=
  q :: (double q s ++ [q])

/-- The text between the quotes of a closed span: from the left, two quotes read as one. -/
def undouble (q : Char) : List Char → List Char
  | [] => []
  | [c] => [c]
  | c :: d :: s => if c = q ∧ d = q then q :: undouble q s else c :: undouble q (d :: s)

/-- Looks for the quote that closes a span, `n` characters after the opening one. -/
def bodyLengthFrom (q : Char) : Nat → List Char → Option Nat
  | _, [] => none
  | n, [c] => if c = q then some n else none
  | n, c :: d :: s =>
    if c ≠ q then bodyLengthFrom q (n + 1) (d :: s)
    else if d = q then bodyLengthFrom q (n + 2) s
    else some n

/-- How many characters stand before the quote that closes a span, read after its opening quote. -/
def bodyLength? (q : Char) (s : List Char) : Option Nat := bodyLengthFrom q 0 s

/-- The length of the span that starts a text, its two quotes included. -/
def spanLength? (q : Char) : List Char → Option Nat
  | [] => none
  | _ :: s => (bodyLength? q s).map (· + 2)

@[simp] theorem double_nil (q : Char) : double q [] = [] := rfl

theorem double_cons (q c : Char) (s : List Char) :
    double q (c :: s) = (if c = q then [q, q] else [c]) ++ double q s := rfl

theorem double_append (q : Char) (s t : List Char) :
    double q (s ++ t) = double q s ++ double q t := by simp [double]

end FilterSql.Quoted
