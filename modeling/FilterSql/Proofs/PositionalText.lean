import FilterSql.Named.Positional
import FilterSql.Proofs.QuotedSpans

/-! How the rewriting to numbered placeholders goes through a text from the left. -/
namespace FilterSql.Positional

variable {number : String → Option Nat} {c q : Char} {s rest out name : List Char}

/-! Names, in text without quotes. -/

theorem numberNames_eq (number : String → Option Nat) (s : List Char) :
    numberNames number s = s.takeWhile (· ≠ ':') ++
      match s.dropWhile (· ≠ ':') with
      | [] => []
      | colon :: rest =>
        if rest.head?.any Ident.isStart then
          (match number (String.ofList (rest.takeWhile Ident.isPart)) with
            | some n => '$' :: Nat.toDigits 10 n
            | none => colon :: rest.takeWhile Ident.isPart) ++
          numberNames number (rest.dropWhile Ident.isPart)
        else colon :: numberNames number rest := by
  rw [numberNames]
  split
  next h => rw [h, List.append_nil]
  next colon rest h =>
    rw [h]
    dsimp only
    split <;> rfl

/-- What a name is written as: its number, or as it was if it has none. -/
def token (number : String → Option Nat) (name : List Char) : List Char :=
  match number (String.ofList name) with
  | some n => '$' :: Nat.toDigits 10 n
  | none => ':' :: name

theorem numberNames_nil : numberNames number [] = [] := by
  rw [numberNames_eq]
  rfl

theorem numberNames_cons (hc : c ≠ ':') (s : List Char) :
    numberNames number (c :: s) = c :: numberNames number s := by
  have hp : decide (c ≠ ':') = true := by simpa using hc
  rw [numberNames_eq, numberNames_eq number s,
    List.takeWhile_cons_of_pos (p := fun c => decide (c ≠ ':')) hp,
    List.dropWhile_cons_of_pos (p := fun c => decide (c ≠ ':')) hp, List.cons_append]

theorem numberNames_append_of_notMem (hs : ':' ∉ s) (rest : List Char) :
    numberNames number (s ++ rest) = s ++ numberNames number rest := by
  induction s with
  | nil => rfl
  | cons e s ih =>
    obtain ⟨he, hs⟩ : ':' ≠ e ∧ ':' ∉ s := by simpa using hs
    rw [List.cons_append, numberNames_cons he.symm, ih hs, List.cons_append]

theorem numberNames_colon (h : s.head?.any Ident.isStart = false) :
    numberNames number (':' :: s) = ':' :: numberNames number s := by
  rw [numberNames_eq, List.takeWhile_cons_of_neg (by simp), List.dropWhile_cons_of_neg (by simp)]
  simp only [h, Bool.false_eq_true, if_false, List.nil_append]

theorem numberNames_name (hstart : name.head?.any Ident.isStart)
    (hname : ∀ e ∈ name, Ident.isPart e = true) (hrest : ∀ e ∈ rest.head?, Ident.isPart e = false) :
    numberNames number (':' :: (name ++ rest)) = token number name ++ numberNames number rest := by
  have first : (name ++ rest).head?.any Ident.isStart = true := by
    cases name with
    | nil => simp at hstart
    | cons e name => exact hstart
  rw [numberNames_eq, List.takeWhile_cons_of_neg (by simp), List.dropWhile_cons_of_neg (by simp)]
  simp only [first, if_true, takeWhile_run hname hrest, dropWhile_run hname hrest, List.nil_append]
  rfl

/-- Induction over a text by its names: each of them ends where it can go on no further. -/
theorem name_induction {motive : List Char → Prop} (nil : motive [])
    (char : ∀ c s, c ≠ ':' → motive s → motive (c :: s))
    (colon : ∀ s, s.head?.any Ident.isStart = false → motive s → motive (':' :: s))
    (name : ∀ name rest : List Char, name.head?.any Ident.isStart →
      (∀ e ∈ name, Ident.isPart e = true) → (∀ e ∈ rest.head?, Ident.isPart e = false) →
      motive rest → motive (':' :: (name ++ rest))) (s : List Char) : motive s := by
  induction hlength : s.length using Nat.strong_induction_on generalizing s with
  | h length ih =>
    subst hlength
    cases s with
    | nil => exact nil
    | cons c s =>
      by_cases hc : c = ':'
      · subst hc
        cases hstart : s.head?.any Ident.isStart with
        | false => exact colon s hstart (ih s.length (Nat.lt_succ_self _) s rfl)
        | true =>
          have shorter := (List.dropWhile_sublist (l := s) Ident.isPart).length_le
          have first : (s.takeWhile Ident.isPart).head?.any Ident.isStart := by
            cases s with
            | nil => simp at hstart
            | cons e s =>
              have he : Ident.isStart e = true := by simpa using hstart
              rw [List.takeWhile_cons_of_pos (Ident.isPart_of_isStart he)]
              exact hstart
          have last : ∀ e ∈ (s.dropWhile Ident.isPart).head?, Ident.isPart e = false := by
            intro e he
            have := List.head?_dropWhile_not Ident.isPart s
            rwa [Option.mem_def.mp he] at this
          have whole := name _ _ first (fun e he => List.mem_takeWhile_imp he) last
            (ih _ (Nat.lt_succ_of_le shorter) _ rfl)
          rwa [List.takeWhile_append_dropWhile] at whole
      · exact char c s hc (ih s.length (Nat.lt_succ_self _) s rfl)

/-- A text that no name goes on in is rewritten on its own. -/
theorem numberNames_append (hrest : ∀ e ∈ rest.head?, Ident.isPart e = false) (s : List Char) :
    numberNames number (s ++ rest) = numberNames number s ++ numberNames number rest := by
  -- Neither what follows a colon nor what follows a name changes with `rest` behind it.
  have behind {p : Char → Bool} (hp : ∀ e, p e = true → Ident.isPart e = true) {t : List Char}
      (ht : ∀ e ∈ t.head?, p e = false) : ∀ e ∈ (t ++ rest).head?, p e = false := by
    cases t with
    | nil => exact fun e he => Bool.eq_false_iff.mpr fun h => by simpa [hp e h] using hrest e he
    | cons e t => exact ht
  induction s using name_induction with
  | nil => rw [numberNames_nil]; rfl
  | char c s hc ih => rw [List.cons_append, numberNames_cons hc, numberNames_cons hc, ih]; rfl
  | colon s hstart ih =>
    have hstart' : (s ++ rest).head?.any Ident.isStart = false := by
      simp only [Option.any_eq_false] at hstart ⊢
      exact behind (fun _ => Ident.isPart_of_isStart) hstart
    rw [List.cons_append, numberNames_colon hstart', numberNames_colon hstart, ih]
    rfl
  | name name s hstart hname hs ih =>
    rw [List.cons_append, List.append_assoc, numberNames_name hstart hname (behind (fun _ h => h) hs),
      numberNames_name hstart hname hs, ih, List.append_assoc]

/-! Quoted spans. -/

/-- The text before the first quote, then the span that it opens, and then what follows. -/
theorem renumber_eq (number : String → Option Nat) (s : List Char) :
    renumber number s = numberNames number (s.takeWhile (!isQuote ·)) ++
      match s.dropWhile (!isQuote ·) with
      | [] => []
      | q :: rest =>
        match Quoted.bodyLength? q rest with
        | none => q :: rest
        | some n => requote q (rest.take n) ++ renumber number (rest.drop (n + 1)) := by
  rw [renumber]
  split
  next h => rw [h, List.append_nil]
  next q rest h =>
    rw [h]
    dsimp only
    cases Quoted.bodyLength? q rest with
    | none => rfl
    | some n => rfl

theorem renumber_nil : renumber number [] = [] := by
  rw [renumber_eq, numberNames_eq]
  rfl

/-- Text without quotes is rewritten on its own if its last name ends with it. -/
theorem renumber_append (hs : ∀ e ∈ s, isQuote e = false)
    (h : numberNames number (s ++ rest.takeWhile (!isQuote ·)) =
      out ++ numberNames number (rest.takeWhile (!isQuote ·))) :
    renumber number (s ++ rest) = out ++ renumber number rest := by
  have hs' : ∀ e ∈ s, (!isQuote e) = true := fun e he => by rw [hs e he]; rfl
  rw [renumber_eq, renumber_eq number rest, List.takeWhile_append_of_pos hs',
    List.dropWhile_append_of_pos hs', h, List.append_assoc]

theorem renumber_plain (hs : ∀ e ∈ s, isQuote e = false ∧ e ≠ ':') (rest : List Char) :
    renumber number (s ++ rest) = s ++ renumber number rest :=
  renumber_append (fun e he => (hs e he).1)
    (numberNames_append_of_notMem (fun he => (hs ':' he).2 rfl) _)

theorem renumber_unquoted_append (hs : ∀ e ∈ s, isQuote e = false)
    (hrest : ∀ e ∈ rest.head?, Ident.isPart e = false) :
    renumber number (s ++ rest) = numberNames number s ++ renumber number rest := by
  refine renumber_append hs (numberNames_append (fun e he => ?_) s)
  rw [List.head?_takeWhile] at he
  exact hrest e (Option.filter_eq_some_iff.mp he).1

theorem renumber_unquoted (hs : ∀ e ∈ s, isQuote e = false) :
    renumber number s = numberNames number s := by
  simpa [renumber_nil] using @renumber_unquoted_append number s [] hs nofun

theorem isQuote_of_isPart (h : Ident.isPart c = true) : isQuote c = false := by
  have other : ∀ q, Ident.isPart q = false → c ≠ q := by
    rintro q hq rfl
    rw [h] at hq
    cases hq
  simp [isQuote, other _ (by decide : Ident.isPart '\x60' = false),
    other _ (by decide : Ident.isPart '\x27' = false),
    other _ (by decide : Ident.isPart '\x22' = false)]

theorem isPart_of_isQuote (h : isQuote c = true) : Ident.isPart c = false := by
  cases hc : Ident.isPart c with
  | false => rfl
  | true => rw [isQuote_of_isPart hc] at h; cases h

/-- The text before a quote is rewritten on its own. -/
theorem renumber_append_quote (hs : ∀ e ∈ s, isQuote e = false) (hq : isQuote q = true)
    (t : List Char) :
    renumber number (s ++ q :: t) = numberNames number s ++ renumber number (q :: t) :=
  renumber_unquoted_append hs (by simpa using isPart_of_isQuote hq)

theorem renumber_name (hstart : name.head?.any Ident.isStart)
    (hname : ∀ e ∈ name, Ident.isPart e = true) (hrest : ∀ e ∈ rest.head?, Ident.isPart e = false) :
    renumber number (':' :: (name ++ rest)) = token number name ++ renumber number rest := by
  have unquoted : ∀ e ∈ ':' :: name, isQuote e = false :=
    List.forall_mem_cons.mpr ⟨by decide, fun e he => isQuote_of_isPart (hname e he)⟩
  have alone := @numberNames_name number [] name hstart hname nofun
  rw [List.append_nil, numberNames_nil, List.append_nil] at alone
  rw [← alone, ← List.cons_append, renumber_unquoted_append unquoted hrest]

/-- The quotes of PostgreSQL for those of a span. -/
def newQuote (q : Char) : Char := if q = '\x60' then '\x22' else q

theorem requote_double (q : Char) (text : List Char) :
    requote q (Quoted.double q text) = Quoted.enclose (newQuote q) text := by
  unfold requote newQuote
  split
  · rw [Quoted.undouble_double]
  · rfl

/-- A closed span holds the same text in the quotes of PostgreSQL. -/
theorem renumber_enclose (hq : isQuote q = true) (hrest : rest.head? ≠ some q) (text : List Char) :
    renumber number (Quoted.enclose q text ++ rest) =
      Quoted.enclose (newQuote q) text ++ renumber number rest := by
  have opening : (!isQuote q) = false := by rw [hq]; rfl
  rw [Quoted.enclose, List.cons_append, List.append_assoc, List.singleton_append, renumber_eq,
    List.takeWhile_cons_of_neg (by simp [opening]), List.dropWhile_cons_of_neg (by simp [opening]),
    numberNames_nil]
  simp only [Quoted.bodyLength?_double hrest text, List.take_left, Quoted.drop_double,
    requote_double, List.nil_append]

/-- The text before a span is rewritten on its own. -/
theorem renumber_append_enclose (hs : ∀ e ∈ s, isQuote e = false) (hq : isQuote q = true)
    (text rest : List Char) :
    renumber number (s ++ (Quoted.enclose q text ++ rest)) =
      numberNames number s ++ renumber number (Quoted.enclose q text ++ rest) :=
  renumber_append_quote hs hq _

theorem renumber_unclosed (hq : isQuote q = true) (h : Quoted.bodyLength? q s = none) :
    renumber number (q :: s) = q :: s := by
  have opening : (!isQuote q) = false := by rw [hq]; rfl
  rw [renumber_eq, List.takeWhile_cons_of_neg (by simp [opening]),
    List.dropWhile_cons_of_neg (by simp [opening]), numberNames_nil]
  simp only [h, List.nil_append]

/-- Induction over a text by its spans: each of them ends with a quote that is not doubled, and the
last quote may be left open. -/
theorem span_induction {motive : List Char → Prop}
    (unquoted : ∀ s, (∀ e ∈ s, isQuote e = false) → motive s)
    (unclosed : ∀ s q t, (∀ e ∈ s, isQuote e = false) → isQuote q = true →
      Quoted.bodyLength? q t = none → motive (s ++ q :: t))
    (span : ∀ s q text rest, (∀ e ∈ s, isQuote e = false) → isQuote q = true →
      rest.head? ≠ some q → motive rest → motive (s ++ (Quoted.enclose q text ++ rest)))
    (s : List Char) : motive s := by
  induction hlength : s.length using Nat.strong_induction_on generalizing s with
  | h length ih =>
    subst hlength
    have before : ∀ e ∈ s.takeWhile (!isQuote ·), isQuote e = false := by
      intro e he
      simpa using List.mem_takeWhile_imp he
    have whole := List.takeWhile_append_dropWhile (p := (!isQuote ·)) (l := s)
    cases hrest : s.dropWhile (!isQuote ·) with
    | nil =>
      rw [hrest, List.append_nil] at whole
      rw [← whole]
      exact unquoted _ before
    | cons q t =>
      have hq : isQuote q = true := by
        have := List.head?_dropWhile_not (!isQuote ·) s
        simpa [hrest] using this
      rw [← whole, hrest]
      cases hbody : Quoted.bodyLength? q t with
      | none => exact unclosed _ q t before hq hbody
      | some n =>
        obtain ⟨text, rest, rfl, hhead⟩ := Quoted.exists_double hbody
        have shorter : rest.length < s.length := by
          have length := congrArg List.length (whole.symm.trans (congrArg _ hrest))
          simp only [List.length_append, List.length_cons] at length
          omega
        have closed := span _ q text rest before hq hhead (ih _ shorter rest rfl)
        simpa [Quoted.enclose] using closed

end FilterSql.Positional
