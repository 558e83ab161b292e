import FilterSql.Proofs.ParamIds
import FilterSql.Proofs.Scan
import FilterSql.Proofs.StatementShape

/-! The text of a named query without the numbers of its placeholders. -/
namespace FilterSql

namespace NamedQuery

/-- The text with a `?` for every placeholder: a colon, an `x`, and all the digits that follow,
which are at least four. -/
def erase : List Char → List Char
  | [] => []
  | c :: s =>
    let digits := s.tail.takeWhile Char.isDigit
    if c = ':' ∧ s.head? = some 'x' ∧ 4 ≤ digits.length then
      '?' :: erase (s.tail.drop digits.length)
    else c :: erase s
  termination_by s => s.length
  decreasing_by
    all_goals
      simp only [List.length_drop, List.length_tail, List.length_cons]
      omega

variable {c : Char} {s rest : List Char}

@[simp] theorem erase_nil : erase [] = [] := by
  rw [erase]

theorem erase_cons (h : c ≠ ':') (s : List Char) : erase (c :: s) = c :: erase s := by
  rw [erase, if_neg fun hc => h hc.1]

theorem erase_append_of_notMem (h : ':' ∉ s) (rest : List Char) :
    erase (s ++ rest) = s ++ erase rest := by
  induction s with
  | nil => rfl
  | cons c s ih =>
    obtain ⟨hc, hs⟩ : ':' ≠ c ∧ ':' ∉ s := by simpa using h
    rw [List.cons_append, erase_cons hc.symm, ih hs, List.cons_append]

theorem erase_placeholder (h : 4 ≤ (s.takeWhile Char.isDigit).length) :
    erase (':' :: 'x' :: s) = '?' :: erase (s.drop (s.takeWhile Char.isDigit).length) := by
  rw [erase]
  simp [h]

theorem erase_colon (h : ∀ digits, s = 'x' :: digits → (digits.takeWhile Char.isDigit).length < 4) :
    erase (':' :: s) = ':' :: erase s := by
  rw [erase, if_neg]
  rintro ⟨-, hx, hlength⟩
  cases s with
  | nil => cases hx
  | cons e digits =>
    obtain rfl : e = 'x' := by simpa using hx
    exact absurd (h digits rfl) (by simpa using hlength)

/-- A placeholder ends before a character that is no part of one. -/
theorem erase_append_cons (hc : c ≠ ':' ∧ c ≠ 'x' ∧ c.isDigit = false) (s rest : List Char) :
    erase (s ++ c :: rest) = erase s ++ c :: erase rest := by
  have behind : ∀ e ∈ (c :: rest).head?, e.isDigit = false := by simpa using hc.2.2
  induction s using erase.induct with
  | case1 => simpa [erase] using erase_cons hc.1 rest
  | case2 e s digits h ih =>
    obtain ⟨rfl, hx, hlength⟩ := h
    obtain ⟨t, rfl⟩ : ∃ t, s = 'x' :: t := by
      cases s with
      | nil => cases hx
      | cons e t => exact ⟨t, by simpa using hx⟩
    have all := takeWhile_append behind t
    have fits : (t.takeWhile Char.isDigit).length ≤ t.length := (List.takeWhile_sublist _).length_le
    simp only [digits, List.tail_cons] at hlength ih
    rw [List.cons_append, List.cons_append, erase_placeholder (all ▸ hlength), all,
      List.drop_append_of_le_length fits, ih, erase_placeholder hlength, List.cons_append]
  | case3 e s digits h ih =>
    by_cases he : e = ':'
    · subst he
      have short : ∀ t, s = 'x' :: t → (t.takeWhile Char.isDigit).length < 4 := by
        rintro t rfl
        simpa [digits] using h
      -- With `c` behind it, the text still is no placeholder: `c` is neither its `x` nor a digit.
      have short' : ∀ t, s ++ c :: rest = 'x' :: t → (t.takeWhile Char.isDigit).length < 4 := by
        intro t ht
        cases s with
        | nil => exact absurd (List.cons.inj ht).1 hc.2.1
        | cons e s =>
          obtain ⟨rfl, rfl⟩ := List.cons.inj ht
          show ((s ++ c :: rest).takeWhile Char.isDigit).length < 4
          rw [takeWhile_append behind]
          exact short s rfl
      rw [List.cons_append, erase_colon short', erase_colon short, ih, List.cons_append]
    · rw [List.cons_append, erase_cons he, erase_cons he, ih, List.cons_append]

theorem erase_namedPlaceholder (hrest : ∀ c ∈ rest.head?, c.isDigit = false) (k : Nat) :
    erase ((namedPlaceholder k).toList ++ rest) = '?' :: erase rest := by
  have digits : ∀ c ∈ Rfc3339.padded 4 k, c.isDigit = true :=
    fun _ => Rfc3339.isDigit_of_mem_padded
  have all : (Rfc3339.padded 4 k ++ rest).takeWhile Char.isDigit = Rfc3339.padded 4 k := by
    have none : rest.takeWhile Char.isDigit = [] := takeWhile_append hrest []
    rw [List.takeWhile_append_of_pos digits, none, List.append_nil]
  rw [toList_namedPlaceholder, List.cons_append, List.cons_append, erase_placeholder, all,
    List.drop_left]
  rw [all]
  exact Rfc3339.le_length_padded 4 k

/-- The quote that closes a name is no part of a placeholder. -/
theorem erase_enclose (name rest : List Char) :
    erase (Quoted.enclose '\x60' name ++ rest) =
      erase (Quoted.enclose '\x60' name) ++ erase rest := by
  have close : ∀ rest, erase (Quoted.enclose '\x60' name ++ rest) =
      erase ('\x60' :: Quoted.double '\x60' name) ++ '\x60' :: erase rest := by
    intro rest
    rw [← erase_append_cons (by decide)]
    simp [Quoted.enclose]
  have alone := close []
  rw [List.append_nil, erase_nil] at alone
  rw [close, alone, List.append_assoc]
  rfl

end NamedQuery

namespace Parts

/-- The text with a `?` for every slot. Only names may hold the text of a placeholder. -/
def erased : Parts → List Char
  | [] => []
  | .text s :: parts => s.toList ++ erased parts
  | .name name :: parts =>
    NamedQuery.erase (Quoted.enclose '\x60' name.toList) ++ erased parts
  | .slot _ :: parts => '?' :: erased parts

open NamedQuery (erase erase_nil erase_append_of_notMem erase_enclose erase_namedPlaceholder) in
/-- Which numbers the placeholders have makes no difference. -/
theorem erase_textFrom {parts : Parts} (h : WellSpaced parts) (number : Nat → Nat) (k : Nat) :
    erase (textFrom .mysql (fun i => namedPlaceholder (number i)) k parts) = erased parts := by
  induction parts generalizing k with
  | nil => exact erase_nil
  | cons part parts ih =>
    cases part with
    | text s =>
      have plain : ':' ∉ s.toList := fun hc => absurd (List.all_eq_true.mp h.1 _ hc) (by decide)
      rw [textFrom_text, erase_append_of_notMem plain, ih h.2, erased]
    | name name =>
      rw [textFrom_name, Dialect.quote, erase_enclose, ih h.2, erased]
    | slot v =>
      rw [textFrom_slot, erase_namedPlaceholder, ih h.2, erased]
      exact fun c hc => Ident.isDigit_of_not_isPart (head_textFrom h.2 h.1 _ _ c hc).2

end Parts
end FilterSql
