import FilterSql.Error

/-! Clauses added to a text. -/
namespace FilterSql

/-- A text that a clause was added to, or left as it was because the clause is refused. -/
structure Extended where
  text : String
  refusal : Option SqlError

/-- Adds all of a clause to a text or nothing. -/
def Extended.of (text : String) : Except SqlError String → Extended
  | .ok clause => ⟨text ++ clause, none⟩
  | .error e => ⟨text, some e⟩

end FilterSql
