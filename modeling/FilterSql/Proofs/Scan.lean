import FilterSql.Ident
import FilterSql.Proofs.QuotedSpans
import FilterSql.Proofs.SlotText

/-! A reader of statement text that knows the quotes and placeholders of a database and nothing
else, and the texts it reads as they were written. -/
namespace FilterSql

/-- What the reader finds: a name without its quotes, a placeholder with its number, or any other
character. -/
inductive Lexeme where
  | name (name : String)
  | slot (number : Nat)
  | char (c : Char)

namespace Ident

@[simp] theorem isPart_space : isPart ' ' = false := by decide

@[simp] theorem isPart_comma : isPart ',' = false := by decide

@[simp] theorem isPart_parenthesis : isPart ')' = false := by decide

theorem isDigit_of_not_isPart {c : Char} (h : isPart c = false) : c.isDigit = false := by
  simp_all [isPart, Char.isAlphanum]

end Ident

namespace Dialect

/-- The character a placeholder starts with. -/
def slotMark : Dialect → Char
  | .mysql => '?'
  | .postgres => '$'

/-- The digits of a placeholder: as many as follow, none where placeholders are not numbered. -/
def slotDigits : Dialect → List Char → List Char
  | .mysql, _ => []
  | .postgres, s => s.takeWhile Char.isDigit

/-- The number of a placeholder: its digits, or else its place behind `count` others. -/
def slotNumber (d : Dialect) (count : Nat) (digits : List Char) : Nat :=
  match d with
  | .mysql => count + 1
  | .postgres => Nat.ofDigitChars 10 digits 0

end Dialect

namespace Lexeme

/-- Reads a text behind `count` placeholders. There is no reading if a quote is never closed. -/
def scanFrom (d : Dialect) (count : Nat) : List Char → Option (List Lexeme)
  | [] => some []
  | c :: s =>
    if c = d.quote then
      match Quoted.bodyLength? c s with
      | none => none
      | some n =>
        (.name (String.ofList (Quoted.undouble c (s.take n))) :: ·) <$>
          scanFrom d count (s.drop (n + 1))
    else if c = d.slotMark then
      (.slot (d.slotNumber count (d.slotDigits s)) :: ·) <$>
        scanFrom d (count + 1) (s.drop (d.slotDigits s).length)
    else (.char c :: ·) <$> scanFrom d count s
  termination_by s => s.length

def scan (d : Dialect) (text : String) : Option (List Lexeme) := scanFrom d 0 text.toList

def names (lexemes : List Lexeme) : List String :=
  lexemes.filterMap fun | .name n => some n | _ => none

def slots (lexemes : List Lexeme) : List Nat :=
  lexemes.filterMap fun | .slot number => some number | _ => none

/-- Characters that neither open a quote nor start a placeholder, numbered or named, in any
database. -/
def isPlain (c : Char) : Bool :=
  c ≠ '\x60' && c ≠ '\x22' && c ≠ '\x27' && c ≠ '?' && c ≠ '$' && c ≠ ':'

variable {d : Dialect} {s rest : List Char}

theorem isPlain_ne {c : Char} (h : isPlain c) (d : Dialect) : c ≠ d.quote ∧ c ≠ d.slotMark := by
  cases d <;> simp_all [isPlain, Dialect.quote, Dialect.slotMark]

theorem scanFrom_plain (hs : s.all isPlain) (count : Nat) (rest : List Char) :
    scanFrom d count (s ++ rest) = (s.map .char ++ ·) <$> scanFrom d count rest := by
  induction s with
  | nil => simp
  | cons c s ih =>
    obtain ⟨hc, hs⟩ : isPlain c ∧ s.all isPlain := by simpa using hs
    obtain ⟨hq, hm⟩ := isPlain_ne hc d
    rw [List.cons_append, scanFrom, if_neg hq, if_neg hm, ih hs]
    simp [Function.comp_def]

theorem scanFrom_enclose (name : String) (hrest : rest.head? ≠ some d.quote) (count : Nat) :
    scanFrom d count (Quoted.enclose d.quote name.toList ++ rest) =
      (.name name :: ·) <$> scanFrom d count rest := by
  have body := Quoted.bodyLength?_double hrest name.toList
  rw [Quoted.enclose, List.cons_append, List.append_assoc, List.singleton_append, scanFrom,
    if_pos rfl, body]
  simp only [Quoted.drop_double, List.take_left, Quoted.undouble_double, String.ofList_toList]

/-- The digits of a number are all read, since no digit follows them. -/
theorem slotDigits_toDigits (number : Nat) (hrest : ∀ c ∈ rest.head?, c.isDigit = false) :
    Dialect.postgres.slotDigits (Nat.toDigits 10 number ++ rest) = Nat.toDigits 10 number := by
  have digits : ∀ c ∈ Nat.toDigits 10 number, c.isDigit = true :=
    fun c hc => Nat.isDigit_of_mem_toDigits (by decide) (by decide) hc
  rw [Dialect.slotDigits, takeWhile_run digits hrest]

theorem scanFrom_placeholder (hrest : ∀ c ∈ rest.head?, c.isDigit = false) (count : Nat) :
    scanFrom d count ((d.placeholder (count + 1)).toList ++ rest) =
      (.slot (count + 1) :: ·) <$> scanFrom d (count + 1) rest := by
  cases d with
  | mysql =>
    have text : (Dialect.placeholder .mysql (count + 1)).toList = ['?'] := by
      simp [Dialect.placeholder]
    rw [text, List.singleton_append, scanFrom, if_neg (by decide), if_pos (by rfl)]
    rfl
  | postgres =>
    have text : (Dialect.placeholder .postgres (count + 1)).toList =
        '$' :: Nat.toDigits 10 (count + 1) := by
      simp [Dialect.placeholder, Nat.toList_repr]
    rw [text, List.cons_append, scanFrom, if_neg (by decide), if_pos (by rfl),
      slotDigits_toDigits _ hrest]
    simp [Dialect.slotNumber, Nat.ofDigitChars_ten_toDigits]

end Lexeme

namespace Parts

/-- The parts go on with text that can belong to neither a name nor a placeholder before them. -/
def Breaks : Parts → Prop
  | [] => True
  | .text s :: parts =>
    match s.toList with
    | [] => Breaks parts
    | c :: _ => Ident.isPart c = false
  | _ :: _ => False

/-- No text contains a quote or a placeholder, and what follows names and slots keeps them apart. -/
def WellSpaced : Parts → Prop
  | [] => True
  | .text s :: parts => s.toList.all Lexeme.isPlain ∧ WellSpaced parts
  | _ :: parts => Breaks parts ∧ WellSpaced parts

/-- What the reader finds in the parts, the first slot having the number `index`. -/
def lexemes (index : Nat) : Parts → List Lexeme
  | [] => []
  | .text s :: parts => s.toList.map .char ++ lexemes index parts
  | .name n :: parts => .name n :: lexemes index parts
  | .slot _ :: parts => .slot index :: lexemes (index + 1) parts

variable {d : Dialect} {a b : Parts}

theorem breaks_append (ha : Breaks a) (hb : Breaks b) : Breaks (a ++ b) := by
  induction a with
  | nil => exact hb
  | cons part a ih =>
    cases part with
    | text s =>
      simp only [List.cons_append, Breaks] at ha ⊢
      split at ha
      · exact ih ha
      · exact ha
    | name n => exact ha
    | slot v => exact ha

theorem wellSpaced_append (ha : WellSpaced a) (hb : WellSpaced b) (h : Breaks b) :
    WellSpaced (a ++ b) := by
  induction a with
  | nil => exact hb
  | cons part a ih =>
    cases part with
    | text s => exact ⟨ha.1, ih ha.2⟩
    | name n => exact ⟨breaks_append ha.1 h, ih ha.2⟩
    | slot v => exact ⟨breaks_append ha.1 h, ih ha.2⟩

theorem breaks_of_append (h : Breaks (a ++ b)) : Breaks a := by
  induction a with
  | nil => trivial
  | cons part a ih =>
    cases part with
    | text s =>
      simp only [List.cons_append, Breaks] at h ⊢
      split at h
      · exact ih h
      · exact h
    | name n => exact h
    | slot v => exact h

theorem wellSpaced_of_append (h : WellSpaced (a ++ b)) : WellSpaced a ∧ WellSpaced b := by
  induction a with
  | nil => exact ⟨trivial, h⟩
  | cons part a ih =>
    obtain ⟨ha, hb⟩ := ih (by cases part <;> exact h.2)
    refine ⟨?_, hb⟩
    cases part with
    | text s => exact ⟨h.1, ha⟩
    | name n => exact ⟨breaks_of_append h.1, ha⟩
    | slot v => exact ⟨breaks_of_append h.1, ha⟩

theorem wellSpaced_list {members : List Parts} (h : ∀ member ∈ members, WellSpaced member) :
    WellSpaced (list members) := by
  induction members with
  | nil => trivial
  | cons member members ih =>
    cases members with
    | nil => simpa using h
    | cons next members =>
      rw [list_cons_cons]
      have rest := ih fun m hm => h m (List.mem_cons_of_mem _ hm)
      exact wellSpaced_append (h member List.mem_cons_self) ⟨by decide, rest⟩ (by simp [Breaks])

/-- However names and slots are written, the character after them is neither a quote nor part of a
name. -/
theorem head_of_breaks {write : Parts → List Char} (hnil : write [] = [])
    (htext : ∀ s parts, write (.text s :: parts) = s.toList ++ write parts) (h : WellSpaced a)
    (hb : Breaks a) : ∀ c ∈ (write a).head?, Lexeme.isPlain c ∧ Ident.isPart c = false := by
  induction a with
  | nil => simp [hnil]
  | cons part a ih =>
    cases part with
    | text s =>
      rw [htext]
      simp only [Breaks] at hb
      split at hb
      next hs => simpa [hs] using ih h.2 hb
      next c s' hs =>
        have hc : Lexeme.isPlain c := by
          have := h.1
          simp only [hs, List.all_cons, Bool.and_eq_true] at this
          exact this.1
        simpa [hs, hb] using hc
    | name n => exact hb.elim
    | slot v => exact hb.elim

theorem head_chars (h : WellSpaced a) (hb : Breaks a) (index : Nat) :
    ∀ c ∈ (chars d index a).head?, c ≠ d.quote ∧ Ident.isPart c = false := by
  intro c hc
  have next : Lexeme.isPlain c ∧ Ident.isPart c = false :=
    head_of_breaks (by rfl) (fun _ _ => by rfl) h hb c hc
  exact ⟨(Lexeme.isPlain_ne next.1 d).1, next.2⟩

theorem head_textFrom (h : WellSpaced a) (hb : Breaks a) (placeholder : Nat → String) (k : Nat) :
    ∀ c ∈ (textFrom d placeholder k a).head?, Lexeme.isPlain c ∧ Ident.isPart c = false :=
  head_of_breaks (by rfl) (fun s _ => textFrom_text s) h hb

/-- The reader finds in a well-spaced text what was written into it. -/
theorem scanFrom_chars (h : WellSpaced a) (count : Nat) :
    Lexeme.scanFrom d count (chars d (count + 1) a) = some (lexemes (count + 1) a) := by
  induction a generalizing count with
  | nil => simp [chars, Lexeme.scanFrom, lexemes]
  | cons part a ih =>
    cases part with
    | text s =>
      rw [chars, Lexeme.scanFrom_plain h.1, ih h.2]
      rfl
    | name n =>
      have next := head_chars (d := d) h.2 h.1 (count + 1)
      rw [chars, Lexeme.scanFrom_enclose n, ih h.2]
      · rfl
      · intro hq
        exact (next _ hq).1 rfl
    | slot v =>
      have next := head_chars (d := d) h.2 h.1 (count + 2)
      rw [chars, Lexeme.scanFrom_placeholder fun c hc => Ident.isDigit_of_not_isPart (next c hc).2,
        ih h.2]
      rfl

theorem scan_render (h : WellSpaced a) :
    Lexeme.scan d ((template d a).render d) = some (lexemes 1 a) := by
  rw [Lexeme.scan, toList_render]
  exact scanFrom_chars h 0

theorem scan_head (h : a.values = []) (hspaced : WellSpaced a) :
    Lexeme.scan d (template d a).head = some (lexemes 1 a) := by
  rw [template_of_values_nil h]
  exact scan_render hspaced

theorem lexemes_append (h : a.values = []) (index : Nat) :
    lexemes index (a ++ b) = lexemes index a ++ lexemes index b := by
  induction a with
  | nil => rfl
  | cons part a ih =>
    cases part with
    | text s => simp [lexemes, ih h]
    | name n => simp [lexemes, ih h]
    | slot v => simp at h

theorem names_lexemes (index : Nat) (parts : Parts) :
    Lexeme.names (lexemes index parts) = parts.names := by
  induction parts generalizing index with
  | nil => rfl
  | cons part parts ih =>
    cases part <;> simp_all [lexemes, Lexeme.names, List.filterMap_append]

theorem slots_lexemes (index : Nat) (parts : Parts) :
    Lexeme.slots (lexemes index parts) = List.range' index parts.values.length := by
  induction parts generalizing index with
  | nil => rfl
  | cons part parts ih =>
    cases part <;>
      simp_all [lexemes, Lexeme.slots, List.filterMap_append, List.range'_succ]

end Parts
end FilterSql
