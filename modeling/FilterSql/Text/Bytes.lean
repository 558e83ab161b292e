/-! Text cut off by its length in UTF-8. -/
namespace FilterSql.Bytes

/-- The characters that fit into `n` bytes, up to the first that does not. -/
def take (n : Nat) : List Char → List Char
  | [] => []
  | c :: s => if c.utf8Size ≤ n then c :: take (n - c.utf8Size) s else []

/-- The longest start of a text that fits into `n` bytes. -/
def truncate (n : Nat) (text : String) : String :=
  if text.utf8ByteSize ≤ n then text else String.ofList (take n text.toList)

end FilterSql.Bytes
