import FilterSql.Clause
import FilterSql.Text.Blank

/-! The LIMIT clause. -/
namespace FilterSql.Limit

/-- Whether a character stands for the given lower-case letter when case does not count. The long s
is a form of `s`. -/
def isLetter (letter c : Char) : Bool := c.toLower = letter || (letter = 's' && c = '\u017f')

/-- What follows the word `OFFSET`, in any case, at the start of a text. -/
def afterOffset? : List Char → Option (List Char)
  | o :: f :: g :: s :: e :: t :: rest =>
    if isLetter 'o' o && isLetter 'f' f && isLetter 'f' g && isLetter 's' s && isLetter 'e' e &&
        isLetter 't' t then some rest
    else none
  | _ => none

def isNumber (s : List Char) : Bool := !s.isEmpty && s.all Char.isDigit

/-- Whether a text is blank space, at least one character of it, and then a number. -/
def isSpacedNumber (s : List Char) : Bool :=
  (s.head?.any isBlank) && isNumber (s.dropWhile isBlank)

/-- Whether a text may follow the first number: nothing, or a comma or `OFFSET` and a second one.
Blanks around the comma are free, around the word there has to be one. -/
def isTail (s : List Char) : Bool :=
  s.isEmpty ||
    match s.dropWhile isBlank with
    | ',' :: rest => isNumber (rest.dropWhile isBlank)
    | rest => s.head?.any isBlank && (afterOffset? rest).any isSpacedNumber

/-- Numbers are runs of ASCII digits. -/
def isValid (text : String) : Bool :=
  let s := text.toList
  s.head?.any Char.isDigit && isTail (s.dropWhile Char.isDigit)

def check (text : String) : Except SqlError Unit :=
  if isValid text then .ok () else .error (.limit text)

/-- The clause with the limit as given; an absent or empty limit has none. -/
def clause : Option String → Except SqlError String
  | none => .ok ""
  | some text => if text = "" then .ok "" else do
    check text
    return " LIMIT " ++ text

def appendTo (limit : Option String) (text : String) : Extended := .of text (clause limit)

end FilterSql.Limit
