import FilterSql.Ident
import FilterSql.Named.Basic
import FilterSql.Template.Basic
import FilterSql.Text.Quoted

/-! Named placeholders turned into the numbered ones of PostgreSQL. -/
namespace FilterSql.Positional

def isQuote (c : Char) : Bool := c = '\x60' || c = '\x27' || c = '\x22'

/-- Text outside of quotes: each `:name` with a number becomes `$number`. -/
def numberNames (number : String → Option Nat) (s : List Char) : List Char :=
  let plain := s.takeWhile (· ≠ ':')
  match _ : s.dropWhile (· ≠ ':') with
  | [] => plain
  | colon :: rest =>
    if rest.head?.any Ident.isStart then
      let name := rest.takeWhile Ident.isPart
      let token :=
        match number (String.ofList name) with
        | some n => '$' :: Nat.toDigits 10 n
        | none => colon :: name
      plain ++ (token ++ numberNames number (rest.dropWhile Ident.isPart))
    else plain ++ colon :: numberNames number rest
  termination_by s.length
  decreasing_by
    all_goals
      have := (List.dropWhile_sublist (l := s) (· ≠ ':')).length_le
      have := (List.dropWhile_sublist (l := rest) Ident.isPart).length_le
      simp_all only [List.length_cons]
      omega

/-- A quoted span: a name in backticks gets the quotes of PostgreSQL, anything else stays. -/
def requote (q : Char) (body : List Char) : List Char :=
  if q = '\x60' then Quoted.enclose '\x22' (Quoted.undouble q body)
  else q :: (body ++ [q])

/-- Goes through a text span by span: names get their numbers outside of quotes, quotes are changed
where they have to be. What follows a quote that is never closed stays as it is. -/
def renumber (number : String → Option Nat) (s : List Char) : List Char :=
  let plain := numberNames number (s.takeWhile (!isQuote ·))
  match _ : s.dropWhile (!isQuote ·) with
  | [] => plain
  | q :: rest =>
    match Quoted.bodyLength? q rest with
    | none => plain ++ q :: rest
    | some n => plain ++ (requote q (rest.take n) ++ renumber number (rest.drop (n + 1)))
  termination_by s.length
  decreasing_by
    have := (List.dropWhile_sublist (l := s) (!isQuote ·)).length_le
    simp_all only [List.length_cons, List.length_drop]
    omega

/-- The numbers of all names: their places in the order of the names, counted from 1. -/
def ranks (values : NamedValues) : Std.TreeMap String Nat := .ofList (values.keys.zipIdx 1)

end Positional

/-- The query for PostgreSQL, its values in the order of their names. Names without a value stay. -/
def NamedQuery.positional (q : NamedQuery) : Rendered :=
  let ranks := Positional.ranks q.values
  ⟨String.ofList (Positional.renumber (ranks[·]?) q.query.toList), q.values.values⟩

end FilterSql
