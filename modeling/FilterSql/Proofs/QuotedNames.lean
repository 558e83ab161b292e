import FilterSql.Proofs.ByteSpans
import FilterSql.Proofs.Occurrences
import Mathlib.Algebra.Group.Nat.Even
import Mathlib.Data.List.Induction

/-! Names in quotes: the scan for the end of a span stops where a quoted name ends, whatever the name
holds, and the name is read back from between the quotes. A span is open if and only if each run of
quotes behind its first one is of even length. -/
namespace FilterSql

namespace Quoted

variable {q c : Char} {s text before after : List Char} {n : Nat}

/-- The quotes of a text that are written twice, read as one from the left. -/
theorem replaceAll_eq_undouble (q : Char) (s : List Char) :
    Search.replaceAll [q, q] [q] s = undouble q s := by
  induction s using undouble.induct q with
  | case1 => exact Search.replaceAll_nil _ _
  | case2 c =>
    have single : ¬ [q, q] <+: [c] := by simp
    rw [Search.replaceAll_cons single, Search.replaceAll_nil, undouble]
  | case3 c d s h ih =>
    obtain ⟨rfl, rfl⟩ := h
    rw [undouble, if_pos ⟨rfl, rfl⟩, ← ih]
    exact Search.replaceAll_append (by simp) _ _
  | case4 c d s h ih =>
    have other : ¬ [q, q] <+: c :: d :: s := by simpa [eq_comm] using h
    rw [Search.replaceAll_cons other, ih, undouble, if_neg h]

/-! Runs of quotes. -/

/-- So many quotes stand in a row, with no other one before or behind them. -/
def IsRun (q : Char) (s : List Char) (n : Nat) : Prop :=
  ∃ before after, s = before ++ (List.replicate n q ++ after) ∧
    before.getLast? ≠ some q ∧ after.head? ≠ some q

/-- What does not end with a quote ends where a character of the text does. -/
theorem exists_double_of_append (h : double q text = before ++ after)
    (hbefore : before.getLast? ≠ some q) : ∃ rest, after = double q rest := by
  induction text generalizing before with
  | nil =>
    obtain ⟨-, rfl⟩ := List.append_eq_nil_iff.mp h.symm
    exact ⟨[], rfl⟩
  | cons c text ih =>
    have shorter {e : Char} {s : List Char} (hs : (e :: s).getLast? ≠ some q) :
        s.getLast? ≠ some q := by
      intro hlast
      rw [List.getLast?_cons, hlast, Option.getD_some] at hs
      exact hs rfl
    cases before with
    | nil => exact ⟨c :: text, h.symm⟩
    | cons e before =>
      rw [double_cons] at h
      by_cases hc : c = q
      · rw [if_pos hc, List.cons_append, List.singleton_append, List.cons_append] at h
        obtain ⟨rfl, behind⟩ := List.cons.inj h
        -- The text cannot end between the two quotes, as it would end with the first of them.
        cases before with
        | nil => exact absurd rfl hbefore
        | cons d before => exact ih (List.cons.inj behind).2 (shorter (shorter hbefore))
      · rw [if_neg hc, List.singleton_append, List.cons_append] at h
        exact ih (List.cons.inj h).2 (shorter hbefore)

/-- A text whose quotes are doubled starts with an even number of them. -/
theorem even_of_double (h : double q text = List.replicate n q ++ after)
    (hafter : after.head? ≠ some q) : Even n := by
  induction text generalizing n with
  | nil =>
    cases n with
    | zero => exact Even.zero
    | succ n => cases h
  | cons c text ih =>
    rw [double_cons] at h
    match n with
    | 0 => exact Even.zero
    | 1 =>
      split at h
      next =>
        obtain ⟨-, rfl⟩ := List.cons.inj h
        exact absurd rfl hafter
      next hc => exact absurd (List.cons.inj h).1 hc
    | n + 2 =>
      split at h
      next => exact (ih (List.cons.inj (List.cons.inj h).2).2).add ⟨1, rfl⟩
      next hc => exact absurd (List.cons.inj h).1 hc

theorem even_of_isRun (h : IsRun q (double q text) n) : Even n := by
  obtain ⟨before, after, h, hbefore, hafter⟩ := h
  obtain ⟨rest, hrest⟩ := exists_double_of_append h hbefore
  exact even_of_double hrest.symm hafter

theorem double_replicate (q : Char) (n : Nat) :
    double q (List.replicate n q) = List.replicate (2 * n) q := by
  induction n with
  | zero => rfl
  | succ n ih => rw [List.replicate_succ, double_cons, if_pos rfl, ih]; rfl

/-- The quotes at the end of a text, as many as there are. -/
theorem exists_trailing (q : Char) (s : List Char) :
    ∃ front n, s = front ++ List.replicate n q ∧ front.getLast? ≠ some q := by
  induction s using List.reverseRecOn with
  | nil => exact ⟨[], 0, rfl, nofun⟩
  | append_singleton s c ih =>
    by_cases hc : c = q
    · obtain ⟨front, n, hs, hfront⟩ := ih
      refine ⟨front, n + 1, ?_, hfront⟩
      rw [hs, hc, List.append_assoc, List.replicate_succ']
    · exact ⟨s ++ [c], 0, by simp, by simpa using hc⟩

theorem getLast?_double (h : s.getLast? ≠ some q) : (double q s).getLast? ≠ some q := by
  rcases List.eq_nil_or_concat s with rfl | ⟨front, c, rfl⟩
  · nofun
  · have hc : c ≠ q := by simpa using h
    simp [double_append, double_cons, hc]

/-- The quote that closes a span ends a run of odd length. -/
theorem exists_odd_run (hafter : after.head? ≠ some q) (text : List Char) :
    ∃ n, IsRun q (double q text ++ q :: after) (2 * n + 1) := by
  obtain ⟨front, n, rfl, hfront⟩ := exists_trailing q text
  refine ⟨n, double q front, after, ?_, getLast?_double hfront, hafter⟩
  rw [double_append, double_replicate, List.replicate_succ']
  simp

/-- No quote closes a span if and only if all runs of quotes in it are of even length. -/
theorem bodyLength?_eq_none_iff :
    bodyLength? q s = none ↔ ∀ n, IsRun q s n → Even n := by
  constructor
  · intro h n hrun
    obtain ⟨text, rfl⟩ := exists_double_of_none h
    exact even_of_isRun hrun
  · intro heven
    cases hbody : bodyLength? q s with
    | none => rfl
    | some k =>
      obtain ⟨text, after, rfl, hafter⟩ := exists_double hbody
      obtain ⟨n, hrun⟩ := exists_odd_run hafter text
      obtain ⟨m, hm⟩ := heven _ hrun
      omega

end Quoted

namespace Dialect

open Positional

variable {d : Dialect} {name rest text : String}

theorem isQuote_quote (d : Dialect) : isQuote d.quote = true := by
  cases d <;> rfl

theorem quoted_append (d : Dialect) (name rest : String) : d.quoted name ++ rest =
    .ofList (Quoted.enclose d.quote name.toList ++ rest.toList) := by
  rw [quoted, String.ofList_append, String.ofList_toList]

/-- The scan of the bytes stops behind the quoted name. -/
theorem spanBytes?_quoted (hrest : rest.toList.head? ≠ some d.quote) :
    spanBytes? (d.quoted name ++ rest) (quoteByte d.quote) =
      some (d.quoted name).utf8ByteSize := by
  rw [quoted_append, spanBytes?_enclose (isQuote_quote d) hrest, quoted]

/-- The scan of the characters stops at the same place. -/
theorem spanLength?_quoted (hrest : rest.toList.head? ≠ some d.quote) :
    Quoted.spanLength? d.quote (d.quoted name ++ rest).toList = some (d.quoted name).length := by
  have body := Quoted.bodyLength?_double hrest name.toList
  rw [quoted_append, String.toList_ofList, Quoted.enclose, List.cons_append, List.append_assoc,
    List.singleton_append, Quoted.spanLength?, body, Option.map_some, quoted, String.length_ofList]
  simp [Quoted.enclose]

/-- Of the part between the outer quotes, two quotes read as one make the name. -/
theorem slice?_quoted (d : Dialect) (name : String) :
    ∃ body, Utf8.slice? (d.quoted name) 1 ((d.quoted name).utf8ByteSize - 1) = some body ∧
      String.ofList (Search.replaceAll [d.quote, d.quote] [d.quote] body.toList) = name := by
  refine ⟨_, slice?_enclose (isQuote_quote d) name.toList, ?_⟩
  rw [String.toList_ofList, Quoted.replaceAll_eq_undouble, Quoted.undouble_double,
    String.ofList_toList]

theorem spanLength?_eq_none_iff (hquote : text.toList.head? = some d.quote) :
    Quoted.spanLength? d.quote text.toList = none ↔
      ∀ n, Quoted.IsRun d.quote text.toList.tail n → Even n := by
  obtain ⟨behind, hbehind⟩ := List.head?_eq_some_iff.mp hquote
  rw [hbehind, Quoted.spanLength?, Option.map_eq_none_iff, Quoted.bodyLength?_eq_none_iff,
    List.tail_cons]

theorem spanBytes?_eq_none_iff (hquote : text.toList.head? = some d.quote) :
    spanBytes? text (quoteByte d.quote) = none ↔
      ∀ n, Quoted.IsRun d.quote text.toList.tail n → Even n := by
  obtain ⟨behind, hbehind⟩ := List.head?_eq_some_iff.mp hquote
  obtain rfl : text = .ofList (d.quote :: behind) := by
    rw [← hbehind, String.ofList_toList]
  rw [hbehind, List.tail_cons, ← Quoted.bodyLength?_eq_none_iff]
  constructor
  · intro hnone
    cases hbody : Quoted.bodyLength? d.quote behind with
    | none => rfl
    | some k =>
      obtain ⟨body, rest, rfl, hrest⟩ := Quoted.exists_double hbody
      have closed := spanBytes?_enclose (isQuote_quote d) hrest body
      rw [Quoted.enclose, List.cons_append, List.append_assoc, List.singleton_append, hnone]
        at closed
      cases closed
  · exact spanBytes?_unclosed (isQuote_quote d)

/-- Names are quoted and read back: whatever the name, and whatever follows that does not start with
the quote, the scan gives the length of the quoted name, and two quotes read as one in its body give
the name. The scan of a text that starts with the quote finds no end if and only if the quotes behind
it all stand in runs of even length. -/
theorem quoted_read_back (d : Dialect) :
    (∀ name rest : String, rest.toList.head? ≠ some d.quote →
      spanBytes? (d.quoted name ++ rest) (quoteByte d.quote) =
        some (d.quoted name).utf8ByteSize ∧
      Quoted.spanLength? d.quote (d.quoted name ++ rest).toList =
        some (d.quoted name).length ∧
      ∃ body, Utf8.slice? (d.quoted name) 1 ((d.quoted name).utf8ByteSize - 1) = some body ∧
        String.ofList (Search.replaceAll [d.quote, d.quote] [d.quote] body.toList) = name) ∧
    ∀ text : String, text.toList.head? = some d.quote →
      (spanBytes? text (quoteByte d.quote) = none ↔
        ∀ n, Quoted.IsRun d.quote text.toList.tail n → Even n) ∧
      (Quoted.spanLength? d.quote text.toList = none ↔
        ∀ n, Quoted.IsRun d.quote text.toList.tail n → Even n) :=
  ⟨fun name _ hrest => ⟨spanBytes?_quoted hrest, spanLength?_quoted hrest, slice?_quoted d name⟩,
    fun _ hquote => ⟨spanBytes?_eq_none_iff hquote, spanLength?_eq_none_iff hquote⟩⟩

/-- A name between its own quotes with another name behind it, and a quote that only a doubled one
follows. -/
theorem quoted_read_back_backticks :
    spanBytes? (mysql.quoted "`é`" ++ " = 1") (quoteByte '`') = some 8 ∧
    (spanBytes? "`a``" (quoteByte '`') = none ↔
      ∀ n, Quoted.IsRun '`' ['a', '`', '`'] n → Even n) :=
  ⟨((quoted_read_back mysql).1 "`é`" " = 1" (by decide)).1,
    ((quoted_read_back mysql).2 "`a``" (by decide)).1⟩

end Dialect
end FilterSql
