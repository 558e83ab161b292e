import FilterSql.Proofs.Interleaving
import FilterSql.Proofs.LimitText
import Mathlib.Data.List.Chain

/-! What can be found in the text of the clauses behind a filter. -/
namespace FilterSql

/-- The first letters of null, of the booleans and of the text that stands for a date. -/
def wordStarts : List Char := ['n', 't', 'f', '_']

/-- No such letter stands right behind a space. -/
def Wordless (s : List Char) : Prop := s.IsChain fun a b => a = ' ' → b ∉ wordStarts

instance (s : List Char) : Decidable (Wordless s) :=
  inferInstanceAs (Decidable (s.IsChain _))

section Wordless

variable {s t : List Char}

theorem wordless_of_notMem (h : ' ' ∉ s) : Wordless s := by
  refine (List.pairwise_iff_getElem.mpr fun i j hi _ _ hspace => ?_).isChain
  exact absurd (hspace ▸ List.getElem_mem hi) h

theorem wordless_of_all (h : s.all (· ∉ wordStarts)) : Wordless (' ' :: s) := by
  have all : (' ' :: s).all (· ∉ wordStarts) := by
    rw [List.all_cons, Bool.and_eq_true]
    exact ⟨by decide, h⟩
  refine (List.pairwise_iff_getElem.mpr fun i j _ hj _ _ => ?_).isChain
  simpa using List.all_eq_true.mp all _ (List.getElem_mem hj)

theorem wordless_space_cons (ht : Wordless t) (hhead : ∀ c ∈ t.head?, c ∉ wordStarts) :
    Wordless (' ' :: t) :=
  List.isChain_cons.mpr ⟨fun c hc _ => hhead c hc, ht⟩

/-- What may follow a space may follow any text. -/
theorem wordless_append (hs : Wordless s) (ht : Wordless (' ' :: t)) : Wordless (s ++ t) := by
  obtain ⟨hhead, ht⟩ := List.isChain_cons.mp ht
  exact List.isChain_append.mpr ⟨hs, ht, fun _ _ c hc _ => hhead c hc rfl⟩

/-- A class of characters without those letters. -/
theorem notMem_wordStarts {p : Char → Bool} (hp : wordStarts.all (!p ·)) {c : Char} (h : p c) :
    c ∉ wordStarts := by
  intro hc
  have := List.all_eq_true.mp hp c hc
  simp [h] at this

theorem notMem_of_all {p : Char → Bool} (h : s.all p) {c : Char} (hc : p c = false) : c ∉ s := by
  intro hmem
  rw [List.all_eq_true.mp h c hmem] at hc
  cases hc

end Wordless

/-- The text starts with a space if it is not empty, and what is found by quotes, by parentheses or
as a word that is no number is not found in it. -/
structure ClauseText (s : List Char) : Prop where
  quote_notMem : '\x22' ∉ s
  parenthesis_notMem : ')' ∉ s
  head_eq : ∀ c ∈ s.head?, c = ' '
  wordless : Wordless s

namespace ClauseText

variable {s t : List Char}

theorem nil : ClauseText [] := ⟨by simp, by simp, by simp, List.isChain_nil⟩

theorem append (hs : ClauseText s) (ht : ClauseText t) : ClauseText (s ++ t) where
  quote_notMem := by simpa using ⟨hs.quote_notMem, ht.quote_notMem⟩
  parenthesis_notMem := by simpa using ⟨hs.parenthesis_notMem, ht.parenthesis_notMem⟩
  head_eq := by
    cases s with
    | nil => exact ht.head_eq
    | cons c s => exact hs.head_eq
  wordless := by
    refine wordless_append hs.wordless (wordless_space_cons ht.wordless fun c hc => ?_)
    rw [ht.head_eq c hc]
    decide

theorem not_infix (hs : ClauseText s) {c : Char} (hc : c ∈ wordStarts) (word : List Char) :
    ¬ ' ' :: c :: word <:+: s := fun h =>
  have chain := List.IsChain.infix hs.wordless h
  (List.isChain_cons_cons.mp chain).1 rfl hc

theorem not_infix_null (hs : ClauseText s) : ¬ ' ' :: Value.null.literal.toList <:+: s :=
  hs.not_infix (c := 'n') (by decide) "ull".toList

theorem not_infix_bool (hs : ClauseText s) (b : Bool) :
    ¬ ' ' :: (Value.bool b).literal.toList <:+: s := by
  cases b with
  | false => exact hs.not_infix (c := 'f') (by decide) "alse".toList
  | true => exact hs.not_infix (c := 't') (by decide) "rue".toList

theorem not_infix_date (hs : ClauseText s) (time : Instant) :
    ¬ ' ' :: (Value.date time).literal.toList <:+: s := by
  have text : (Value.date time).literal =
      "__DATE_PLACEHOLDER_" ++ (toString time.millis ++ "__") := String.append_assoc
  have chars := (congrArg String.toList text).trans String.toList_append
  rw [chars]
  exact hs.not_infix (c := '_') (by decide) _

end ClauseText

/-! The limit. -/
namespace Limit

variable {s : List Char}

theorem digit_notMem_wordStarts (c : Char) (h : c.isDigit) : c ∉ wordStarts :=
  notMem_wordStarts (by decide) h

theorem blank_notMem_wordStarts (c : Char) (h : isBlank c) : c ∉ wordStarts :=
  notMem_wordStarts (by decide) h

theorem all_of_isNumber (h : isNumber s) : s.all (· ∉ wordStarts) := by
  simp only [isNumber, Bool.and_eq_true, List.all_eq_true, decide_eq_true_eq] at h ⊢
  exact fun c hc => digit_notMem_wordStarts c (h.2 c hc)

theorem all_of_isNumber_dropWhile (h : isNumber (s.dropWhile isBlank)) :
    s.all (· ∉ wordStarts) :=
  all_of_dropWhile (by simpa using blank_notMem_wordStarts) (all_of_isNumber h)

theorem isLetter_ne_space {letter c : Char} (hl : isLetter letter ' ' = false)
    (h : isLetter letter c) : c ≠ ' ' := by
  rintro rfl
  rw [hl] at h
  cases h

/-- The word `OFFSET` and what follows it. -/
theorem wordless_of_afterOffset {rest : List Char} (h : afterOffset? s = some rest)
    (hrest : rest.all (· ∉ wordStarts)) : Wordless (' ' :: s) := by
  unfold afterOffset? at h
  split at h
  next o f g s e t tail =>
    split at h
    next hletters =>
      obtain rfl : tail = rest := by simpa using h
      simp only [Bool.and_eq_true] at hletters
      obtain ⟨⟨⟨⟨⟨ho, hf⟩, hg⟩, hs⟩, he⟩, ht⟩ := hletters
      have letters : Wordless [o, f, g, s, e, t] := by
        apply wordless_of_notMem
        simpa using ⟨(isLetter_ne_space rfl ho).symm, (isLetter_ne_space rfl hf).symm,
          (isLetter_ne_space rfl hg).symm, (isLetter_ne_space rfl hs).symm,
          (isLetter_ne_space rfl he).symm, (isLetter_ne_space rfl ht).symm⟩
      have word : Wordless [' ', o, f, g, s, e, t] := by
        apply wordless_space_cons letters
        rintro c ⟨⟩
        exact @notMem_wordStarts (isLetter 'o') (by decide) o ho
      exact wordless_append word (wordless_of_all hrest)
    next => cases h
  next => cases h

theorem wordless_of_dropWhile {p : Char → Bool} (hp : ∀ c, p c → c ∉ wordStarts)
    (h : Wordless (' ' :: s.dropWhile p)) : Wordless (' ' :: s) := by
  induction s with
  | nil => exact h
  | cons c s ih =>
    by_cases hc : p c
    · rw [List.dropWhile_cons_of_pos hc] at h
      have first : Wordless [' ', c] := List.isChain_pair.mpr fun _ => hp c hc
      exact wordless_append first (ih h)
    · rwa [List.dropWhile_cons_of_neg hc] at h

theorem wordless_of_isTail (h : isTail s) : Wordless (' ' :: s) := by
  simp only [isTail, Bool.or_eq_true, List.isEmpty_iff] at h
  rcases h with rfl | h
  · exact .singleton ' '
  · split at h
    next rest hs =>
      apply wordless_of_all
      apply all_of_dropWhile (by simpa using blank_notMem_wordStarts)
      have number := all_of_isNumber_dropWhile h
      rw [hs, List.all_cons, Bool.and_eq_true]
      exact ⟨by decide, number⟩
    next =>
      obtain ⟨-, h⟩ := Bool.and_eq_true_iff.mp h
      cases hoffset : afterOffset? (s.dropWhile isBlank) with
      | none => simp [hoffset] at h
      | some rest =>
        rw [hoffset, Option.any_some, isSpacedNumber, Bool.and_eq_true] at h
        have offset := wordless_of_afterOffset hoffset (all_of_isNumber_dropWhile h.2)
        exact wordless_of_dropWhile blank_notMem_wordStarts offset

theorem wordless_of_isValid {text : String} (h : isValid text) :
    Wordless (' ' :: text.toList) := by
  simp only [isValid, Bool.and_eq_true] at h
  exact wordless_of_dropWhile digit_notMem_wordStarts (wordless_of_isTail h.2)

theorem clauseText {limit : Option String} {text : String} (h : clause limit = .ok text) :
    ClauseText text.toList := by
  rcases clause_eq_ok h with rfl | ⟨given, hvalid, rfl⟩
  · exact .nil
  · have chars := all_isLimitChar_of_isValid hvalid
    refine ⟨?_, ?_, by simp, ?_⟩
    · simpa using @notMem_of_all _ _ chars '\x22' (by decide)
    · simpa using @notMem_of_all _ _ chars ')' (by decide)
    · rw [String.toList_append]
      exact wordless_append (by decide) (wordless_of_isValid hvalid)

end Limit

/-! The order. -/

theorem Quoted.mem_enclose {q c : Char} {s : List Char} (h : c ∈ Quoted.enclose q s) :
    c = q ∨ c ∈ s := by
  simp only [Quoted.enclose, Quoted.double, List.mem_cons, List.mem_append, List.mem_flatMap,
    List.not_mem_nil, or_false] at h
  rcases h with h | ⟨e, he, h⟩ | h
  · exact .inl h
  · split at h
    · exact .inl (by simpa using h)
    · exact .inr (by simpa using (List.mem_singleton.mp h) ▸ he)
  · exact .inl h

theorem Ident.isPart_of_isSimple {name : String} (h : isSimple name) :
    ∀ c ∈ name.toList, isPart c := by
  unfold isSimple at h
  split at h
  next => cases h
  next c s hname =>
    obtain ⟨hstart, hall⟩ := Bool.and_eq_true_iff.mp h
    rw [hname, List.forall_mem_cons]
    exact ⟨isPart_of_isStart hstart, List.all_eq_true.mp hall⟩

namespace OrderBy

/-- The characters of an order are those of names, backticks and those of its keywords. -/
def isOrderChar (c : Char) : Bool :=
  Ident.isPart c || c = '\x60' || " ORDER BY , ASC DESC".toList.contains c

/-- A text that starts with a name of the order and goes on with its characters. -/
structure OrderText (s : List Char) : Prop where
  chars : s.all isOrderChar
  head_eq : s.head? = some '\x60'
  wordless : Wordless s

theorem OrderText.wordless_space_cons {s : List Char} (h : OrderText s) : Wordless (' ' :: s) :=
  FilterSql.wordless_space_cons h.wordless (by simp [h.head_eq, wordStarts])

theorem orderText_term {column : String} (h : Ident.isSimple column) (dir : Direction) :
    OrderText (Draft.literal [.name column, .text (" " ++ dir.keyword)] .mysql).toList := by
  have text : (Draft.literal [.name column, .text (" " ++ dir.keyword)] .mysql).toList =
      Quoted.enclose '\x60' column.toList ++ (' ' :: dir.keyword.toList) := by
    simp [Draft.literal, Piece.literal, Dialect.quoted, Dialect.quote]
  have name : ∀ c ∈ Quoted.enclose '\x60' column.toList, c = '\x60' ∨ Ident.isPart c = true :=
    fun c hc => (Quoted.mem_enclose hc).imp_right (Ident.isPart_of_isSimple h c)
  rw [text]
  refine ⟨?_, rfl, ?_⟩
  · rw [List.all_append, Bool.and_eq_true]
    refine ⟨List.all_eq_true.mpr fun c hc => ?_, by cases dir <;> decide⟩
    rcases name c hc with rfl | hpart
    · decide
    · simp [isOrderChar, hpart]
  · refine wordless_append (wordless_of_notMem fun hc => ?_) (by cases dir <;> decide)
    rcases name ' ' hc with h | h <;> revert h <;> decide

theorem orderText_append {s t : List Char} (hs : OrderText s) (ht : OrderText t) :
    OrderText (s ++ (',' :: ' ' :: t)) where
  chars := by
    have comma : isOrderChar ',' = true := by decide
    have space : isOrderChar ' ' = true := by decide
    simp [hs.chars, ht.chars, comma, space]
  head_eq := by simp [hs.head_eq]
  wordless := by
    have comma : Wordless [' ', ',', ' '] := by decide
    exact wordless_append hs.wordless (wordless_append comma ht.wordless_space_cons)

theorem orderText_list {terms : List Draft} (hne : terms ≠ [])
    (h : ∀ term ∈ terms, OrderText (term.literal .mysql).toList) :
    OrderText ((Draft.list terms).literal .mysql).toList := by
  induction terms with
  | nil => exact absurd rfl hne
  | cons term terms ih =>
    obtain ⟨hterm, hterms⟩ := List.forall_mem_cons.mp h
    cases terms with
    | nil => simpa [Draft.list] using hterm
    | cons next terms =>
      have rest := orderText_append hterm (ih (List.cons_ne_nil _ _) hterms)
      rw [Draft.list_cons_cons, Draft.literal_append, Draft.literal_cons]
      simpa [Piece.literal] using rest

theorem clauseText {order : OrderBy} {text : String} (h : order.clause .mysql = .ok text) :
    ClauseText text.toList := by
  obtain ⟨draft, hdraft, rfl⟩ := Except.map_eq_ok.mp h
  obtain ⟨terms, hterms, rfl⟩ := draft_eq_ok hdraft
  split
  next => exact .nil
  next hne =>
    have each : ∀ term ∈ terms, OrderText (term.literal .mysql).toList := by
      intro term hterm
      obtain ⟨column, dir, hsimple, rfl⟩ := terms_eq_ok hterms term hterm
      exact orderText_term hsimple dir
    have list := orderText_list (by simpa using hne) each
    have text : (Draft.literal (.text " ORDER BY " :: Draft.list terms) .mysql).toList =
        " ORDER BY ".toList ++ ((Draft.list terms).literal .mysql).toList := by
      rw [Draft.literal_cons, String.toList_append]
      rfl
    rw [text]
    refine ⟨?_, ?_, by simp, ?_⟩
    · simpa using @notMem_of_all _ _ list.chars '\x22' (by decide)
    · simpa using @notMem_of_all _ _ list.chars ')' (by decide)
    · exact wordless_append (by decide) list.wordless_space_cons

end OrderBy
end FilterSql
