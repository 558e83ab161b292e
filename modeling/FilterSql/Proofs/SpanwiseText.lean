import FilterSql.Proofs.ByteOrder
import FilterSql.Proofs.ClauseText
import FilterSql.Proofs.PositionalText

/-! Texts rewritten one after the other, and what each kind of text is rewritten to by itself. -/
namespace FilterSql

namespace Positional

/-- Where a reader of a text stands who has seen it character by character. -/
inductive Place where
  | outside
  | inside (quote : Char)
  /-- Behind a quote that closes the span, unless it turns out to be the first of two. -/
  | behind (quote : Char)
  deriving DecidableEq

namespace Place

def next : Place → Char → Place
  | .outside, c => if isQuote c then .inside c else .outside
  | .inside q, c => if c = q then .behind q else .inside q
  | .behind q, c => if c = q then .inside q else if isQuote c then .inside c else .outside

def after (s : List Char) : Place := s.foldl next .outside

variable {q : Char} {s rest : List Char}

theorem foldl_unquoted (hs : ∀ e ∈ s, isQuote e = false) : s.foldl next .outside = .outside := by
  induction s with
  | nil => rfl
  | cons e s ih =>
    obtain ⟨he, hs⟩ := List.forall_mem_cons.mp hs
    rw [List.foldl_cons, next, he, if_neg (by decide), ih hs]

theorem foldl_double (q : Char) (text : List Char) :
    (Quoted.double q text).foldl next (.inside q) = .inside q := by
  induction text with
  | nil => rfl
  | cons c text ih =>
    rw [Quoted.double_cons, List.foldl_append]
    split
    · simpa [next] using ih
    next hc => simpa [next, hc] using ih

/-- A span is behind the reader if it is not gone on with. -/
theorem foldl_behind (hrest : rest.head? ≠ some q) (hne : rest ≠ []) :
    rest.foldl next (.behind q) = after rest := by
  cases rest with
  | nil => exact absurd rfl hne
  | cons c rest =>
    have hc : c ≠ q := by simpa using hrest
    simp only [after, List.foldl_cons, next, if_neg hc]

theorem foldl_unclosed {n : Nat} (h : Quoted.bodyLengthFrom q n s = none) :
    s.foldl next (.inside q) = .inside q := by
  induction n, s using Quoted.bodyLengthFrom.induct q with
  | case1 n => rfl
  | case2 n => simp [Quoted.bodyLengthFrom] at h
  | case3 n c hc => simp [next, hc]
  | case4 n c d s hc ih =>
    rw [Quoted.bodyLengthFrom, if_pos hc] at h
    rw [List.foldl_cons, next, if_neg hc, ih h]
  | case5 n c s hc ih =>
    obtain rfl : c = q := by simpa using hc
    rw [Quoted.bodyLengthFrom, if_neg hc, if_pos rfl] at h
    simpa [next] using ih h
  | case6 n c d s hc hd =>
    rw [Quoted.bodyLengthFrom, if_neg hc, if_neg hd] at h
    cases h

theorem after_unclosed (hs : ∀ e ∈ s, isQuote e = false) (hq : isQuote q = true)
    (h : Quoted.bodyLength? q rest = none) : after (s ++ q :: rest) = .inside q := by
  rw [after, List.foldl_append, foldl_unquoted hs, List.foldl_cons, next, if_pos hq,
    foldl_unclosed h]

theorem after_span (hs : ∀ e ∈ s, isQuote e = false) (hq : isQuote q = true)
    (text rest : List Char) :
    after (s ++ (Quoted.enclose q text ++ rest)) = rest.foldl next (.behind q) := by
  rw [after, List.foldl_append, foldl_unquoted hs, List.foldl_append, Quoted.enclose,
    List.foldl_cons, next, if_pos hq, List.foldl_append, foldl_double]
  simp [next]

end Place

variable {number : String → Option Nat} {a b : List Char} {q : Char}

/-- A text that no span and no name of the text before it goes on in is rewritten on its own. -/
theorem renumber_append_of_place (hinside : ∀ q, Place.after a ≠ .inside q)
    (hbehind : ∀ q, Place.after a = .behind q → b.head? ≠ some q)
    (hb : ∀ c ∈ b.head?, Ident.isPart c = false) :
    renumber number (a ++ b) = renumber number a ++ renumber number b := by
  induction a using span_induction with
  | unquoted s hs => rw [renumber_unquoted_append hs hb, renumber_unquoted hs]
  | unclosed s q t hs hq h => exact absurd (Place.after_unclosed hs hq h) (hinside q)
  | span s q text rest hs hq hrest ih =>
    have hnext : (rest ++ b).head? ≠ some q := by
      cases rest with
      | nil => exact hbehind q (Place.after_span hs hq text [])
      | cons c rest => exact hrest
    have hplace : ∀ p, Place.after rest = p → p ≠ .outside →
        Place.after (s ++ (Quoted.enclose q text ++ rest)) = p := by
      rintro p rfl hp
      have hne : rest ≠ [] := by
        rintro rfl
        exact hp rfl
      rw [Place.after_span hs hq, Place.foldl_behind hrest hne]
    have later := ih (fun p hp => hinside p (hplace _ hp nofun))
      (fun p hp => hbehind p (hplace _ hp nofun))
    rw [List.append_assoc, List.append_assoc, renumber_append_enclose hs hq,
      renumber_enclose hq hnext, later, renumber_append_enclose hs hq, renumber_enclose hq hrest]
    simp only [List.append_assoc]

/-- A span that is all of a text. -/
theorem renumber_span (hq : isQuote q = true) (text : List Char) :
    renumber number (Quoted.enclose q text) = Quoted.enclose (newQuote q) text := by
  simpa [renumber_nil] using @renumber_enclose number q [] hq (by simp) text

/-- A name that is all of a text. -/
theorem renumber_simple {name : String} (h : Ident.isSimple name) :
    renumber number (":" ++ name).toList = token number name.toList := by
  have start : name.toList.head?.any Ident.isStart := by
    unfold Ident.isSimple at h
    split at h
    next => cases h
    next c s hname =>
      rw [hname]
      exact (Bool.and_eq_true_iff.mp h).1
  have text : (":" ++ name).toList = ':' :: (name.toList ++ []) := by simp
  rw [text, renumber_name start (Ident.isPart_of_isSimple h) (by simp), renumber_nil,
    List.append_nil]

end Positional

open Positional (Place)

namespace NamedValues

/-- The text for PostgreSQL of a text with these values. -/
def rewritten (values : NamedValues) (text : String) : String :=
  (NamedQuery.mk text values).positional.sql

/-- How texts are rewritten with these values: one after the other, where no span and no name goes
on in the next, and each kind of text in its own way. The value of a name has the number of the
name. -/
structure Spanwise (values : NamedValues) : Prop where
  append : ∀ a b : String, (∀ q, Place.after a.toList ≠ .inside q) →
    (∀ q, Place.after a.toList = .behind q → b.toList.head? ≠ some q) →
    (∀ c ∈ b.toList.head?, Ident.isPart c = false) →
    values.rewritten (a ++ b) = values.rewritten a ++ values.rewritten b
  name : ∀ name, values.rewritten (Dialect.mysql.quoted name) = Dialect.postgres.quoted name
  literal : ∀ q, q = '\x27' ∨ q = '\x22' → ∀ text,
    values.rewritten (String.ofList (Quoted.enclose q text)) = String.ofList (Quoted.enclose q text)
  numbered : ∀ name, Ident.isSimple name → name ∈ values →
    values.rewritten (":" ++ name) = "$" ++ toString (values.rank name)
  unknown : ∀ name, Ident.isSimple name → name ∉ values →
    values.rewritten (":" ++ name) = ":" ++ name
  value : ∀ text name, name ∈ values →
    (NamedQuery.mk text values).positional.values[values.rank name - 1]? = values[name]?

theorem rewritten_eq (values : NamedValues) (text : String) : values.rewritten text =
    String.ofList (Positional.renumber ((Positional.ranks values)[·]?) text.toList) := rfl

/-- Whatever the values are, texts are rewritten span by span. -/
theorem rewritten_spanwise (values : NamedValues) : values.Spanwise where
  append a b hinside hbehind hb := by
    simp only [rewritten_eq, String.toList_append,
      Positional.renumber_append_of_place hinside hbehind hb, String.ofList_append]
  name name := by
    rw [rewritten_eq, Dialect.quoted, String.toList_ofList, Positional.renumber_span (by decide)]
    rfl
  literal q hq text := by
    have hquote : Positional.isQuote q = true ∧ Positional.newQuote q = q := by
      rcases hq with rfl | rfl <;> decide
    rw [rewritten_eq, String.toList_ofList, Positional.renumber_span hquote.1, hquote.2]
  numbered name hsimple hname := by
    rw [rewritten_eq, Positional.renumber_simple hsimple, Positional.token, String.ofList_toList,
      Positional.ranks_eq, if_pos hname, ← String.toList_inj]
    simp [Nat.toList_repr]
  unknown name hsimple hname := by
    rw [rewritten_eq, Positional.renumber_simple hsimple, Positional.token, String.ofList_toList,
      Positional.ranks_eq, if_neg hname, ← String.toList_inj]
    simp
  value text name hname := by
    obtain ⟨i, hi⟩ := List.mem_iff_getElem?.mp (Std.TreeMap.mem_keys.mpr hname)
    rw [rank_of_getElem? hi]
    exact getElem?_values hi

/-- Names in the order of their bytes: capital letters first, letters with accents last. -/
def accented : NamedValues :=
  .ofList [("\u00e9", Value.int 3), ("a", Value.int 2), ("Z", Value.int 1)]

theorem rewritten_accented :
    accented.rewritten ("x = \x27:a\x60\x27" ++ " OR \x60:a\x60=") =
      accented.rewritten "x = \x27:a\x60\x27" ++ accented.rewritten " OR \x60:a\x60=" ∧
    accented.rewritten ":a" = "$2" ∧ accented.rewritten ":b" = ":b" ∧
    (NamedQuery.mk ":a" accented).positional.values[1]? = accented["a"]? := by
  have h := rewritten_spanwise accented
  have place : Place.after "x = \x27:a\x60\x27".toList = .behind '\x27' := by decide
  have rank : accented.rank "a" = 2 := by decide +kernel
  have number := h.numbered "a" (by decide) (by decide +kernel)
  have value := h.value ":a" "a" (by decide +kernel)
  rw [rank] at number value
  refine ⟨h.append _ _ ?_ ?_ ?_, number, h.unknown "b" (by decide) (by decide +kernel), value⟩
  · rw [place]
    exact nofun
  · rw [place]
    rintro _ ⟨⟩
    decide
  · rintro _ ⟨⟩
    decide

end NamedValues
end FilterSql
