import FilterSql.Proofs.BooleanText

/-! Text that can be read as a boolean expression has balanced parentheses, and an operand on either
side of each joining word. -/
namespace FilterSql

/-- How many parentheses are open behind the tokens, if each one that closes was open. -/
def SqlToken.openFrom? : Nat → List SqlToken → Option Nat
  | n, [] => some n
  | n, .opening :: ts => openFrom? (n + 1) ts
  | 0, .closing :: _ => none
  | n + 1, .closing :: ts => openFrom? n ts
  | n, _ :: ts => openFrom? n ts

/-- The tokens end with an operand. -/
def Ends (d : Dialect) (ts : List SqlToken) : Prop :=
  ∃ us e, us <:+ ts ∧ Reading d .primary us e

/-- The tokens begin with an operand. -/
def Begins (d : Dialect) (ts : List SqlToken) : Prop :=
  ∃ us e, us <+: ts ∧ Reading d .primary us e

/-- Each joining word has an operand right before it and another one right behind it. -/
def Supplied (d : Dialect) (ts : List SqlToken) : Prop :=
  ∀ (op : RootOp) (a b : List SqlToken), ts = a ++ .word op.word :: b → Ends d a ∧ Begins d b

variable {d : Dialect}

theorem Ends.append {us : List SqlToken} (h : Ends d us) (ts : List SqlToken) :
    Ends d (ts ++ us) := by
  obtain ⟨p, x, hp, hx⟩ := h
  exact ⟨p, x, List.suffix_append_of_suffix hp, hx⟩

theorem Begins.append {ts : List SqlToken} (h : Begins d ts) (us : List SqlToken) :
    Begins d (ts ++ us) := by
  obtain ⟨p, x, hp, hx⟩ := h
  exact ⟨p, x, hp.trans (List.prefix_append ts us), hx⟩

namespace Reading

variable {ts us : List SqlToken} {e : BoolExpr}

theorem openFrom?_append (n : Nat) (ts us : List SqlToken) :
    SqlToken.openFrom? n (ts ++ us) =
      (SqlToken.openFrom? n ts).bind fun m => SqlToken.openFrom? m us := by
  induction ts generalizing n with
  | nil => rfl
  | cons t ts ih =>
    cases t with
    | closing =>
      cases n with
      | zero => rfl
      | succ n => exact ih n
    | opening => exact ih (n + 1)
    | _ => exact ih n

theorem openFrom?_valueList (n : Nat) (values : List Value) :
    SqlToken.openFrom? n (SqlToken.valueList values) = some n := by
  induction values using SqlToken.valueList.induct with
  | case1 => rfl
  | case2 v => rfl
  | case3 v w values ih => simpa [SqlToken.valueList, SqlToken.openFrom?] using ih

/-- The parentheses of an expression are its own: none is left open, and none is closed that was
open before. -/
theorem openFrom?_eq {level : ExprLevel} (h : Reading d level ts e) (n : Nat) :
    SqlToken.openFrom? n ts = some n := by
  induction h generalizing n with
  | atom ha =>
    cases ha <;> simp [SqlToken.openFrom?, openFrom?_append, openFrom?_valueList]
  | negation column hg ih => simp [SqlToken.openFrom?, openFrom?_append, ih]
  | parentheses hg ih => simp [SqlToken.openFrom?, openFrom?_append, ih]
  | last ho ih => exact ih n
  | more ho hc iho ihc => simp [openFrom?_append, SqlToken.openFrom?, iho, ihc]
  | plain hc ih => exact ih n
  | joined hop hc ha ihc iha => simp [openFrom?_append, SqlToken.openFrom?, ihc, iha]

theorem word_not_mem_valueList (word : String) (values : List Value) :
    .word word ∉ SqlToken.valueList values := by
  induction values using SqlToken.valueList.induct with
  | case1 => simp [SqlToken.valueList]
  | case2 v => simp [SqlToken.valueList]
  | case3 v w values ih => simpa [SqlToken.valueList] using ih

theorem word_not_mem_written {a : Atom} (h : Atom.Written d ts a) (op : RootOp) :
    .word op.word ∉ ts := by
  have hop : op.word ∉ d.operators := not_mem_operators (by cases op <;> decide)
  cases h with
  | compare hmem =>
    have hne : op.word ≠ _ := fun heq => hop (heq ▸ hmem)
    simpa using hne
  | oneOf => cases op <;> simp [word_not_mem_valueList, RootOp.word]
  | noneOf => cases op <;> simp [word_not_mem_valueList, RootOp.word]
  | absent => cases op <;> simp [RootOp.word]
  | present => cases op <;> simp [RootOp.word]

/-- An expression begins and ends with an operand. -/
theorem edges {level : ExprLevel} (h : Reading d level ts e) : Begins d ts ∧ Ends d ts := by
  induction h with
  | atom ha => exact ⟨⟨_, _, List.prefix_rfl, .atom ha⟩, _, _, List.suffix_rfl, .atom ha⟩
  | negation column hg ih =>
    exact ⟨⟨_, _, List.prefix_rfl, .negation column hg⟩, _, _, List.suffix_rfl,
      .negation column hg⟩
  | parentheses hg ih =>
    exact ⟨⟨_, _, List.prefix_rfl, .parentheses hg⟩, _, _, List.suffix_rfl, .parentheses hg⟩
  | last ho ih => exact ih
  | plain hc ih => exact ih
  | more ho hc iho ihc =>
    exact ⟨iho.1.append _, (ihc.2.append [_]).append _⟩
  | joined hop hc ha ihc iha =>
    exact ⟨ihc.1.append _, (iha.2.append [_]).append _⟩

/-- An element between two parts stands in the first one, in the middle, or in the second one. -/
theorem cut {α : Type} {p q a b : List α} {x y : α} (h : p ++ x :: q = a ++ y :: b) :
    (∃ c, p = a ++ y :: c ∧ b = c ++ x :: q) ∨ (p = a ∧ x = y ∧ q = b) ∨
      ∃ c, q = c ++ y :: b ∧ a = p ++ x :: c := by
  obtain ⟨c, rfl, hc⟩ | ⟨c, rfl, hc⟩ := List.append_eq_append_iff.mp h
  · cases c with
    | nil =>
      obtain ⟨rfl, rfl⟩ := List.cons.inj hc
      exact .inr (.inl ⟨by simp, rfl, rfl⟩)
    | cons z c =>
      obtain ⟨rfl, rfl⟩ := List.cons.inj hc
      exact .inr (.inr ⟨c, rfl, rfl⟩)
  · cases c with
    | nil =>
      obtain ⟨rfl, rfl⟩ := List.cons.inj hc
      exact .inr (.inl ⟨by simp, rfl, rfl⟩)
    | cons z c =>
      obtain ⟨rfl, rfl⟩ := List.cons.inj hc
      exact .inl ⟨c, rfl, rfl⟩

theorem supplied_joined {op : RootOp} (hts : Supplied d ts) (hus : Supplied d us)
    (hends : Ends d ts) (hbegins : Begins d us) : Supplied d (ts ++ .word op.word :: us) := by
  intro op' a b heq
  obtain ⟨c, rfl, rfl⟩ | ⟨rfl, -, rfl⟩ | ⟨c, rfl, rfl⟩ := cut heq
  · obtain ⟨hleft, hright⟩ := hts op' a c rfl
    exact ⟨hleft, hright.append _⟩
  · exact ⟨hends, hbegins⟩
  · obtain ⟨hleft, hright⟩ := hus op' c b rfl
    exact ⟨(hleft.append [_]).append _, hright⟩

theorem supplied_cons {t : SqlToken} (ht : ∀ op : RootOp, t ≠ .word op.word)
    (hts : Supplied d ts) : Supplied d (t :: ts) := by
  intro op a b heq
  cases a with
  | nil => exact absurd (List.cons.inj heq).1 (ht op)
  | cons t' a =>
    obtain ⟨rfl, rfl⟩ := List.cons.inj heq
    obtain ⟨hleft, hright⟩ := hts op a b rfl
    exact ⟨hleft.append [_], hright⟩

theorem supplied_closed (hts : Supplied d ts) :
    Supplied d (.opening :: (ts ++ [SqlToken.closing])) := by
  refine supplied_cons (by simp) fun op a b heq => ?_
  obtain ⟨c, rfl, rfl⟩ | ⟨-, hword, -⟩ | ⟨c, hnil, -⟩ := cut heq
  · obtain ⟨hleft, hright⟩ := hts op a c rfl
    exact ⟨hleft, hright.append _⟩
  · cases hword
  · simp at hnil

/-- No joining word of an expression lacks an operand. -/
theorem supplied {level : ExprLevel} (h : Reading d level ts e) : Supplied d ts := by
  induction h with
  | atom ha =>
    rintro op a b rfl
    exact absurd (by simp) (word_not_mem_written ha op)
  | negation column hg ih =>
    have hnot : ∀ op : RootOp, SqlToken.word "NOT" ≠ .word op.word := by
      rintro (_ | _ | _) <;> simp [RootOp.word]
    exact supplied_cons (by simp) (supplied_cons hnot (supplied_closed ih))
  | parentheses hg ih => exact supplied_closed ih
  | last ho ih => exact ih
  | plain hc ih => exact ih
  | more ho hc iho ihc => exact supplied_joined iho ihc ho.edges.2 hc.edges.1
  | joined hop hc ha ihc iha => exact supplied_joined ihc iha hc.edges.2 ha.edges.1

end Reading
end FilterSql
