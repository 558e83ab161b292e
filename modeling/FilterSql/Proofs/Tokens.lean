import FilterSql.Proofs.Scan

/-! The words and punctuation of statement text, with names and bound values in their places. -/
namespace FilterSql

/-- What stands at one place of a text whose placeholders are replaced by their values. -/
inductive Sign where
  | name (name : String)
  | value (v : Value)
  | char (c : Char)

inductive SqlToken where
  | name (name : String)
  | value (v : Value)
  | word (word : String)
  | comma
  | opening
  | closing

/-- The value of a placeholder is found by its number; numbers count from 1. -/
def Lexeme.filled (values : List Value) : Lexeme → Option Sign
  | .name n => some (.name n)
  | .char c => some (.char c)
  | .slot 0 => none
  | .slot (place + 1) => .value <$> values[place]?

namespace SqlToken

/-- What a character that belongs to no word stands for; a blank stands for nothing. -/
def ofDelimiter? : Char → Option (List SqlToken)
  | ' ' => some []
  | ',' => some [.comma]
  | '(' => some [.opening]
  | ')' => some [.closing]
  | _ => none

def ofWord (word : List Char) : List SqlToken :=
  if word.isEmpty then [] else [.word (String.ofList word)]

/-- The tokens of a text that goes on with the word read so far. -/
def tokensFrom (word : List Char) : List Sign → List SqlToken
  | [] => ofWord word
  | .name n :: signs => ofWord word ++ .name n :: tokensFrom [] signs
  | .value v :: signs => ofWord word ++ .value v :: tokensFrom [] signs
  | .char c :: signs =>
    match ofDelimiter? c with
    | some tokens => ofWord word ++ tokens ++ tokensFrom [] signs
    | none => tokensFrom (word ++ [c]) signs

end SqlToken

/-- The tokens of the text of a template, read with the quotes and placeholders of a database. -/
def Template.tokens? (d : Dialect) (t : Template) : Option (List SqlToken) := do
  let lexemes ← Lexeme.scan d (t.render d)
  let signs ← lexemes.mapM (Lexeme.filled t.values)
  return SqlToken.tokensFrom [] signs

namespace Parts

def signs : Parts → List Sign
  | [] => []
  | .text s :: parts => s.toList.map .char ++ signs parts
  | .name n :: parts => .name n :: signs parts
  | .slot v :: parts => .value v :: signs parts

variable {d : Dialect} {p q : Parts} {t u : List SqlToken}

@[simp] theorem signs_append (p q : Parts) : signs (p ++ q) = signs p ++ signs q := by
  induction p with
  | nil => rfl
  | cons part p ih => cases part <;> simp [signs, ih]

theorem mapM_filled_chars (values : List Value) (s : List Char) (lexemes : List Lexeme) :
    (s.map Lexeme.char ++ lexemes).mapM (Lexeme.filled values) =
      (s.map Sign.char ++ ·) <$> lexemes.mapM (Lexeme.filled values) := by
  induction s with
  | nil => simp
  | cons c s ih =>
    rw [List.map_cons, List.cons_append, List.mapM_cons, ih, Lexeme.filled]
    cases lexemes.mapM (Lexeme.filled values) <;> rfl

theorem mapM_filled (before : List Value) (p : Parts) :
    (lexemes (before.length + 1) p).mapM (Lexeme.filled (before ++ p.values)) =
      some p.signs := by
  induction p generalizing before with
  | nil => rfl
  | cons part p ih =>
    cases part with
    | text s =>
      rw [lexemes, mapM_filled_chars, values_text, ih]
      rfl
    | name n =>
      rw [lexemes, List.mapM_cons, values_name, ih]
      rfl
    | slot v =>
      have others := ih (before ++ [v])
      have here : (before ++ v :: values p)[before.length]? = some v := by simp
      simp only [List.length_append, List.length_singleton, List.append_assoc,
        List.singleton_append] at others
      rw [lexemes, List.mapM_cons, values_slot, Lexeme.filled, here, others]
      rfl

theorem tokens_template (h : WellSpaced p) :
    (template d p).tokens? d = some (SqlToken.tokensFrom [] p.signs) := by
  have filled := mapM_filled [] p
  rw [Template.tokens?, scan_render h, slots_template]
  simp only [List.length_nil, Nat.zero_add, List.nil_append] at filled
  simp [filled]

/-- No word that ends before the signs goes on in them. -/
def Apart : List Sign → Prop
  | .char c :: _ => (SqlToken.ofDelimiter? c).isSome
  | _ => True

/-- The parts are read as the given tokens, whatever follows them apart from their last word. -/
def Spells (p : Parts) (t : List SqlToken) : Prop :=
  ∀ rest, Apart rest →
    SqlToken.tokensFrom [] (p.signs ++ rest) = t ++ SqlToken.tokensFrom [] rest

theorem apart_append {signs rest : List Sign} (h : Apart signs) (hrest : Apart rest) :
    Apart (signs ++ rest) := by
  cases signs with
  | nil => exact hrest
  | cons sign signs => cases sign <;> exact h

theorem tokensFrom_of_apart {rest : List Sign} (h : Apart rest) (word : List Char) :
    SqlToken.tokensFrom word rest = SqlToken.ofWord word ++ SqlToken.tokensFrom [] rest := by
  cases rest with
  | nil => simp [SqlToken.tokensFrom, SqlToken.ofWord]
  | cons sign rest =>
    cases sign with
    | char c =>
      obtain ⟨tokens, hc⟩ := Option.isSome_iff_exists.mp h
      simp [SqlToken.tokensFrom, hc, SqlToken.ofWord]
    | _ => simp [SqlToken.tokensFrom, SqlToken.ofWord]

theorem spells_nil : Spells [] [] := fun _ _ => rfl

theorem spells_append (hp : Spells p t) (hq : Spells q u) (h : Apart q.signs) :
    Spells (p ++ q) (t ++ u) := by
  intro rest hrest
  rw [signs_append, List.append_assoc, hp _ (apart_append h hrest), hq rest hrest,
    List.append_assoc]

theorem spells_name (n : String) (h : Spells p t) :
    Spells (.name n :: p) (.name n :: t) := by
  intro rest hrest
  simp [signs, SqlToken.tokensFrom, SqlToken.ofWord, h rest hrest]

theorem spells_slot (v : Value) (h : Spells p t) :
    Spells (.slot v :: p) (.value v :: t) := by
  intro rest hrest
  simp [signs, SqlToken.tokensFrom, SqlToken.ofWord, h rest hrest]

/-- Text that ends with a blank or with punctuation needs nothing of what follows it. -/
theorem spells_text {s : String}
    (hs : ∀ signs, SqlToken.tokensFrom [] (s.toList.map .char ++ signs) =
      t ++ SqlToken.tokensFrom [] signs) (h : Spells p u) :
    Spells (.text s :: p) (t ++ u) := by
  intro rest hrest
  rw [signs, List.append_assoc, hs, h rest hrest, List.append_assoc]

/-- Text that ends with a word ends it where the parts end. -/
theorem spells_last {s : String} {word : List Char}
    (hs : ∀ signs, SqlToken.tokensFrom [] (s.toList.map .char ++ signs) =
      t ++ SqlToken.tokensFrom word signs) :
    Spells [.text s] (t ++ SqlToken.ofWord word) := by
  intro rest hrest
  rw [signs, signs, List.append_nil, hs, tokensFrom_of_apart hrest, List.append_assoc]

theorem tokensFrom_of_spells (h : Spells p t) :
    SqlToken.tokensFrom [] p.signs = t := by
  simpa [SqlToken.tokensFrom, SqlToken.ofWord] using h [] trivial

end Parts
end FilterSql
