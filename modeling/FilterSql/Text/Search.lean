/-! Occurrences of a text in another one, taken from the left and never overlapping. -/
namespace FilterSql.Search

/-- Looks for the first place where `first` and then `rest` stand, `n` characters into the text. -/
def indexFrom (first : Char) (rest : List Char) : Nat → List Char → Option Nat
  | _, [] => none
  | n, c :: s => if c = first && rest.isPrefixOf s then some n else indexFrom first rest (n + 1) s

theorem ne_nil_of_indexFrom {first : Char} {rest s : List Char} {n k : Nat}
    (h : indexFrom first rest n s = some k) : s ≠ [] := by
  rintro rfl
  simp [indexFrom] at h

/-- What is left of a text between the places where `first` and then `rest` stand. -/
def splitFrom (first : Char) (rest s : List Char) : List (List Char) :=
  match _ : indexFrom first rest 0 s with
  | none => [s]
  | some n => s.take n :: splitFrom first rest (s.drop (n + (rest.length + 1)))
  termination_by s.length
  decreasing_by
    have := List.length_pos_iff.2 (ne_nil_of_indexFrom ‹_›)
    simp only [List.length_drop]
    omega

/-- What is left of a text between the occurrences of `pattern`. The empty text occurs nowhere. -/
def split (pattern s : List Char) : List (List Char) :=
  match pattern with
  | [] => [s]
  | first :: rest => splitFrom first rest s

/-- The pieces with `replacement` between each two of them. -/
def join (replacement : List Char) : List (List Char) → List Char
  | [] => []
  | [piece] => piece
  | piece :: pieces => piece ++ (replacement ++ join replacement pieces)

/-- Every occurrence of `pattern` replaced. -/
def replaceAll (pattern replacement s : List Char) : List Char :=
  join replacement (split pattern s)

end FilterSql.Search
