import FilterSql.Proofs.PositionalText

/-! A text that was rewritten to numbered placeholders is not changed by being rewritten again. -/
namespace FilterSql

namespace Positional

variable {number : String → Option Nat} {q : Char} {s text rest : List Char}

/-! In text without quotes, the rewriting leaves no name that has a number. -/

theorem colon_notMem_number (n : Nat) : ':' ∉ '$' :: Nat.toDigits 10 n := by
  rw [List.mem_cons, not_or]
  exact ⟨by decide, fun hc => absurd (Nat.isDigit_of_mem_toDigits (by decide) (by decide) hc)
    (by decide)⟩

/-- Only a name at the very start changes the first character, and a `$` stands there then. -/
theorem head?_numberNames (number : String → Option Nat) (s : List Char) :
    (numberNames number s).head? = s.head? ∨ (numberNames number s).head? = some '$' := by
  cases s using name_induction with
  | nil => rw [numberNames_nil]; exact .inl rfl
  | char c s hc => rw [numberNames_cons hc]; exact .inl rfl
  | colon s hstart => rw [numberNames_colon hstart]; exact .inl rfl
  | name name s hstart hname hs =>
    rw [numberNames_name hstart hname hs, token]
    cases number (String.ofList name) with
    | some n => exact .inr rfl
    | none => exact .inl rfl

theorem head_numberNames {p : Char → Bool} (hp : p '$' = false) (h : ∀ e ∈ s.head?, p e = false) :
    ∀ e ∈ (numberNames number s).head?, p e = false := by
  rcases head?_numberNames number s with hs | hs
  · rwa [hs]
  · rw [hs]
    simpa using hp

theorem numberNames_numberNames (number : String → Option Nat) (s : List Char) :
    numberNames number (numberNames number s) = numberNames number s := by
  induction s using name_induction with
  | nil => rw [numberNames_nil, numberNames_nil]
  | char c s hc ih => rw [numberNames_cons hc, numberNames_cons hc, ih]
  | colon s hstart ih =>
    have hstart' : (numberNames number s).head?.any Ident.isStart = false := by
      simp only [Option.any_eq_false] at hstart ⊢
      simpa using head_numberNames (p := Ident.isStart) (by decide) (by simpa using hstart)
    rw [numberNames_colon hstart, numberNames_colon hstart', ih]
  | name name s hstart hname hs ih =>
    rw [numberNames_name hstart hname hs, token]
    cases hnumber : number (String.ofList name) with
    | some n =>
      dsimp only
      rw [numberNames_append_of_notMem (colon_notMem_number n), ih]
    | none =>
      have behind : ∀ e ∈ (numberNames number s).head?, Ident.isPart e = false :=
        head_numberNames (by decide) hs
      dsimp only
      rw [List.cons_append, numberNames_name hstart hname behind, ih, token, hnumber]
      rfl

theorem isQuote_numberNames (h : ∀ e ∈ s, isQuote e = false) :
    ∀ e ∈ numberNames number s, isQuote e = false := by
  induction s using name_induction with
  | nil => rw [numberNames_nil]; exact nofun
  | char c s hc ih =>
    rw [List.forall_mem_cons] at h
    rw [numberNames_cons hc, List.forall_mem_cons]
    exact ⟨h.1, ih h.2⟩
  | colon s hstart ih =>
    rw [List.forall_mem_cons] at h
    rw [numberNames_colon hstart, List.forall_mem_cons]
    exact ⟨h.1, ih h.2⟩
  | name name s hstart hname hs ih =>
    rw [List.forall_mem_cons, List.forall_mem_append] at h
    rw [numberNames_name hstart hname hs, List.forall_mem_append]
    refine ⟨?_, ih h.2.2⟩
    unfold token
    split
    · rw [List.forall_mem_cons]
      refine ⟨by decide, fun e he => isQuote_of_isPart ?_⟩
      have digit := Nat.isDigit_of_mem_toDigits (by decide) (by decide) he
      simp [Ident.isPart, Char.isAlphanum, digit]
    · rw [List.forall_mem_cons]
      exact ⟨h.1, h.2.1⟩

/-! Spans are the same after the first time, or two of them have become one. -/

theorem isQuote_newQuote (hq : isQuote q = true) : isQuote (newQuote q) = true := by
  unfold newQuote
  split
  · decide
  · exact hq

theorem newQuote_newQuote (q : Char) : newQuote (newQuote q) = newQuote q := by
  unfold newQuote
  split
  · decide
  · rfl

/-- The quote that closes a span and the one that opens the next are read as one doubled quote. -/
theorem enclose_append_enclose (q : Char) (a b rest : List Char) :
    Quoted.enclose q a ++ (Quoted.enclose q b ++ rest) =
      Quoted.enclose q (a ++ q :: b) ++ rest := by
  simp [Quoted.enclose, Quoted.double_append, Quoted.double_cons]

/-- A span before a text that stays the same stays the same, also if it goes on with the first quote
of that text. -/
theorem renumber_enclose_of_fixed (hq : isQuote q = true) (hnew : newQuote q = q)
    (h : renumber number rest = rest) (text : List Char) :
    renumber number (Quoted.enclose q text ++ rest) = Quoted.enclose q text ++ rest := by
  by_cases hhead : rest.head? = some q
  · obtain ⟨t, rfl⟩ : ∃ t, rest = q :: t := by
      cases rest with
      | nil => cases hhead
      | cons e t => exact ⟨t, by simpa using hhead⟩
    cases hbody : Quoted.bodyLength? q t with
    | none =>
      -- The quote that is open in the text is then the second of two, and the span is open.
      have fused : Quoted.enclose q text ++ q :: t =
          q :: (Quoted.double q (text ++ [q]) ++ t) := by
        simp [Quoted.enclose, Quoted.double_append, Quoted.double_cons]
      have unclosed : Quoted.bodyLength? q (Quoted.double q (text ++ [q]) ++ t) = none := by
        rw [Quoted.bodyLength?, Quoted.bodyLengthFrom_double_append, Nat.zero_add,
          Quoted.bodyLength?_eq_none.mp hbody]
      rw [fused, renumber_unclosed hq unclosed]
    | some n =>
      obtain ⟨next, t, rfl, ht⟩ := Quoted.exists_double hbody
      have fused : q :: (Quoted.double q next ++ q :: t) = Quoted.enclose q next ++ t := by
        simp [Quoted.enclose]
      rw [fused, renumber_enclose hq ht, hnew, List.append_cancel_left_eq] at h
      rw [fused, enclose_append_enclose, renumber_enclose hq ht, hnew, h]
  · rw [renumber_enclose hq hhead, hnew, h]

theorem renumber_renumber (number : String → Option Nat) (s : List Char) :
    renumber number (renumber number s) = renumber number s := by
  induction s using span_induction with
  | unquoted s hs =>
    rw [renumber_unquoted hs, renumber_unquoted (isQuote_numberNames hs), numberNames_numberNames]
  | unclosed s q t hs hq hbody =>
    rw [renumber_append_quote hs hq, renumber_unclosed hq hbody,
      renumber_append_quote (isQuote_numberNames hs) hq, renumber_unclosed hq hbody,
      numberNames_numberNames]
  | span s q text rest hs hq hhead ih =>
    have again := renumber_enclose_of_fixed (isQuote_newQuote hq) (newQuote_newQuote q) ih text
    rw [renumber_append_enclose hs hq, renumber_enclose hq hhead,
      renumber_append_enclose (isQuote_numberNames hs) (isQuote_newQuote hq), again,
      numberNames_numberNames]

end Positional

/-- The text for PostgreSQL is not changed by being rewritten with the same values again: no name
comes to stand outside of quotes, even where quotes that were apart are read as one, or where the
last quote is never closed. -/
theorem NamedQuery.positional_positional (q : NamedQuery) :
    (NamedQuery.mk q.positional.sql q.values).positional = q.positional := by
  simp only [positional, String.toList_ofList, Positional.renumber_renumber]

end FilterSql
