import FilterSql.Proofs.FilterPieces

/-! The nesting of filters, and what comes of composing one: its pieces if it is filled and is not
nested deeper than the bound, and otherwise a refusal for one of these two. -/
namespace FilterSql

mutual

/-- How many operator sets lie within each other inside the operator. -/
def FilterOp.nesting : FilterOp → Nat
  | .not inner => FilterSet.innerNesting inner + 1
  | _ => 0

/-- The greatest nesting of the operators. -/
def FilterSet.innerNesting : List FilterOp → Nat
  | [] => 0
  | op :: ops => max op.nesting (FilterSet.innerNesting ops)

end

def FilterSet.nesting (set : FilterSet) : Nat := FilterSet.innerNesting set + 1

def Condition.nesting : Condition → Nat
  | .value _ => 0
  | .filter set => FilterSet.nesting set

mutual

/-- A group is no level of its own. -/
def Entry.nesting : Entry → Nat
  | .column _ condition => condition.nesting
  | .root _ clauses => Where.memberNesting clauses

/-- The greatest nesting of the entries up to the first root operator. -/
def Where.innerNesting : List Entry → Nat
  | [] => 0
  | entry :: rest =>
    if entry.isRoot then entry.nesting else max entry.nesting (Where.innerNesting rest)

/-- The greatest nesting of the members that are not empty. -/
def Where.memberNesting : List (List Entry) → Nat
  | [] => 0
  | clause :: clauses =>
    if clause.isEmpty then Where.memberNesting clauses
    else max (Where.innerNesting clause + 1) (Where.memberNesting clauses)

end

def Where.nesting (w : Where) : Nat := Where.innerNesting w + 1

/-- What comes of something that is nested in some way: it is composed if there is room for the
nesting, and refused for the bound if there is not, unless it is refused before that for
something empty in it. -/
inductive Guarded (depth room nesting : Nat) (filled : Prop) (draft : Draft) :
    Except SqlError Draft → Prop
  | composed (hroom : nesting ≤ room) (hfilled : filled) :
    Guarded depth room nesting filled draft (.ok draft)
  | tooDeep (hroom : room < nesting) :
    Guarded depth room nesting filled draft (.error (.nestingTooDeep depth))
  | empty (hfilled : ¬ filled) (column : String) :
    Guarded depth room nesting filled draft (.error (.emptyFilter column))

namespace Guarded

variable {depth room m n : Nat} {p q : Prop} {a b : Draft} {r r' : Report Draft}

theorem congr {outcome : Except SqlError Draft} (h : Guarded depth room n p a outcome)
    (hpq : p ↔ q) : Guarded depth room n q a outcome := by
  cases h with
  | composed hroom hp => exact .composed hroom (hpq.mp hp)
  | tooDeep hroom => exact .tooDeep hroom
  | empty hp column => exact .empty (fun hq => hp (hpq.mpr hq)) column

/-- What needs no room is composed. -/
theorem leaf (a : Draft) : Guarded depth room 0 True a (.ok a) := .composed (Nat.zero_le room) trivial

/-- One level more needs room for one more. -/
theorem enter {inside : Nat → Report Draft}
    (h : ∀ left, Guarded depth left n p a (inside left).outcome) :
    Guarded depth room (n + 1) p a (FilterSql.enter depth room inside).outcome := by
  cases room with
  | zero => exact .tooDeep (Nat.succ_pos n)
  | succ left =>
    have inner := h left
    rw [FilterSql.enter]
    generalize (inside left).outcome = outcome at inner ⊢
    cases inner with
    | composed hroom hp => exact .composed (Nat.succ_le_succ hroom) hp
    | tooDeep hroom => exact .tooDeep (Nat.succ_lt_succ hroom)
    | empty hp column => exact .empty hp column

theorem bind (h : Guarded depth room n p a r.outcome) {f : Draft → Report Draft}
    (hf : (f a).outcome = .ok b) : Guarded depth room n p b (r >>= f).outcome := by
  rw [Report.outcome_bind]
  generalize r.outcome = outcome at h ⊢
  cases h with
  | composed hroom hp =>
    have next : (Except.ok a >>= fun a => (f a).outcome) = .ok b := hf
    rw [next]
    exact .composed hroom hp
  | tooDeep hroom => exact .tooDeep hroom
  | empty hp column => exact .empty hp column

/-- Of two parts the one that is nested deeper decides, and the first that is refused. -/
theorem join (joiner : String) (h : Guarded depth room m p a r.outcome)
    (h' : Guarded depth room n q b r'.outcome) :
    Guarded depth room (max m n) (p ∧ q) (Draft.join joiner a b)
      (do let first ← r; return Draft.join joiner first (← r')).outcome := by
  simp only [Report.outcome_bind]
  generalize r.outcome = outcome at h ⊢
  generalize r'.outcome = outcome' at h' ⊢
  cases h with
  | tooDeep hroom => exact .tooDeep (Nat.lt_of_lt_of_le hroom (Nat.le_max_left m n))
  | empty hp column => exact .empty (fun hpq => hp hpq.1) column
  | composed hroom hp =>
    cases h' with
    | composed hroom' hq => exact .composed (Nat.max_le.mpr ⟨hroom, hroom'⟩) ⟨hp, hq⟩
    | tooDeep hroom' => exact .tooDeep (Nat.lt_of_lt_of_le hroom' (Nat.le_max_right m n))
    | empty hq column => exact .empty (fun hpq => hq hpq.2) column

end Guarded

/-! The bound on the nesting of operators, of operator sets and of entries. -/

mutual

theorem FilterOp.guarded (depth room : Nat) (column : String) : ∀ op : FilterOp,
    Guarded depth room op.nesting op.Filled (op.pieces column)
      (FilterOp.draft depth room column op).outcome
  | .compare .. => .leaf _
  | .oneOf _ => .leaf _
  | .noneOf _ => .leaf _
  | .present _ => .leaf _
  | .not inner => (FilterSet.guarded depth room column inner).bind rfl

theorem FilterSet.guarded (depth room : Nat) (column : String) : ∀ ops : List FilterOp,
    Guarded depth room (FilterSet.nesting ops) (ops ≠ [] ∧ FilterSet.AllFilled ops)
      (FilterSet.pieces column ops) (FilterSet.draft depth room column ops).outcome
  | [] => .empty (fun h => h.1 rfl) column
  | op :: ops => by
    apply Guarded.enter
    intro left
    have both := (FilterOp.guarded depth left column op).join " AND "
      (FilterSet.guarded_all depth left column ops)
    exact both.congr ⟨fun h => ⟨List.cons_ne_nil op ops, h⟩, And.right⟩

theorem FilterSet.guarded_all (depth room : Nat) (column : String) : ∀ ops : List FilterOp,
    Guarded depth room (FilterSet.innerNesting ops) (FilterSet.AllFilled ops)
      (FilterSet.pieces column ops) (FilterSet.draftAll depth room column ops).outcome
  | [] => .leaf []
  | op :: ops => (FilterOp.guarded depth room column op).join " AND "
      (FilterSet.guarded_all depth room column ops)

end

theorem Condition.guarded (depth room : Nat) (column : String) (condition : Condition) :
    Guarded depth room condition.nesting condition.Filled (condition.pieces column)
      (condition.draft depth room column).outcome := by
  cases condition with
  | value v => cases v <;> exact .leaf _
  | filter set => exact FilterSet.guarded depth room column set

mutual

theorem Entry.guarded (depth room after : Nat) : ∀ entry : Entry,
    Guarded depth room entry.nesting entry.Filled entry.pieces
      (Entry.draft depth room after entry).outcome
  | .column name condition => Condition.guarded depth room name condition
  | .root op clauses => by
    have members := Where.guarded_members depth room op clauses
    rw [Entry.draft]
    -- That all members are empty is noticed before anything is entered, whatever the room.
    split
    next hall =>
      have none : ¬ ∃ clause ∈ clauses, clause ≠ [] := by simpa using hall
      exact .empty (fun h => none h.1) op.key
    next hall =>
      have some : ∃ clause ∈ clauses, clause ≠ [] := by simpa using hall
      refine Guarded.congr (members.bind ?_) ⟨fun h => ⟨some, h⟩, And.right⟩
      split <;> rfl

theorem Where.guarded_entries (depth room : Nat) : ∀ entries : List Entry,
    Guarded depth room (Where.innerNesting entries) (Where.Filled entries) (Where.pieces entries)
      (Where.draftEntries depth room entries).outcome
  | [] => .leaf []
  | entry :: rest => by
    have first := Entry.guarded depth room rest.length entry
    rw [Where.innerNesting, Where.Filled, Where.pieces, Where.draftEntries]
    cases entry.isRoot with
    | true =>
      simp only [if_true, true_or, and_true]
      exact first.bind rfl
    | false =>
      simp only [Bool.false_eq_true, if_false, false_or]
      exact first.join " AND " (Where.guarded_entries depth room rest)

theorem Where.guarded_members (depth room : Nat) (op : RootOp) :
    ∀ clauses : List (List Entry),
      Guarded depth room (Where.memberNesting clauses) (Where.AllFilled clauses)
        (Where.memberPieces op clauses) (Where.draftMembers depth room op clauses).outcome
  | [] => .leaf []
  | [] :: clauses =>
    (Where.guarded_members depth room op clauses).congr ⟨fun h => ⟨trivial, h⟩, And.right⟩
  | (entry :: rest) :: clauses =>
    (Guarded.enter fun left => Where.guarded_entries depth left (entry :: rest)).join op.joiner
      (Where.guarded_members depth room op clauses)

end

namespace Where

theorem guarded (depth : Nat) (w : Where) :
    Guarded depth depth (Where.nesting w) (Where.Filled w) (Where.pieces w)
      (Where.draft depth w).outcome :=
  .enter fun left => Where.guarded_entries depth left w

theorem draft_eq_ok_iff {limit : Nat} {w : Where} {draft : Draft} :
    (Where.draft limit w).outcome = .ok draft ↔
      Where.Filled w ∧ Where.nesting w ≤ limit ∧ draft = Where.pieces w := by
  have guarded := Where.guarded limit w
  constructor
  · intro h
    rw [h] at guarded
    cases guarded with
    | composed hroom hfilled => exact ⟨hfilled, hroom, rfl⟩
  · rintro ⟨hfilled, hroom, rfl⟩
    generalize (Where.draft limit w).outcome = outcome at guarded ⊢
    cases guarded with
    | composed => rfl
    | tooDeep hdeep => exact absurd hroom (Nat.not_le.mpr hdeep)
    | empty hempty => exact absurd hfilled hempty

theorem draft_outcome {limit : Nat} {w : Where} {draft : Draft}
    (h : (Where.draft limit w).outcome = .ok draft) :
    Where.Filled w ∧ draft = Where.pieces w :=
  have ⟨hfilled, _, hpieces⟩ := draft_eq_ok_iff.mp h
  ⟨hfilled, hpieces⟩

end Where
end FilterSql
