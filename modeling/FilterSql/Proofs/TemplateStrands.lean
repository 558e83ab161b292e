import FilterSql.Proofs.SlotText
import FilterSql.Report
import FilterSql.Template.Step
import Mathlib.Data.List.ModifyLast
import Mathlib.Logic.Basic

/-! Templates as two strands, fragments and values, that are lengthened side by side. They belong
together as long as every operation keeps one fragment more than there are values. -/
namespace FilterSql

open Template (Step)

/-- Fragments and values, whatever their numbers. -/
structure Strands where
  fragments : List String
  values : List Value

namespace Strands

/-- There is one fragment more than there are values. -/
def Fit (s : Strands) : Prop := s.fragments.length = s.values.length + 1

def empty : Strands := ⟨[""], []⟩

/-- Text goes on with the last fragment. -/
def push (s : Strands) (text : String) : Strands :=
  { s with fragments := s.fragments.modifyLast (· ++ text) }

/-- A value ends the last fragment, and the next one starts behind it. -/
def bind (s : Strands) (v : Value) : Strands := ⟨s.fragments ++ [""], s.values ++ [v]⟩

/-- The first fragment that is appended goes on with the last one there, the others follow. -/
def append (s other : Strands) : Strands :=
  match other.fragments with
  | [] => { s with values := s.values ++ other.values }
  | first :: rest => ⟨(s.push first).fragments ++ rest, s.values ++ other.values⟩

mutual

def step (s : Strands) : Step → Except SqlError Strands
  | .startText text => .ok ⟨[text], []⟩
  | .startEmpty => .ok empty
  | .startValue v => .ok ⟨["", ""], [v]⟩
  | .startParts fragments values =>
    if fragments.length = values.length + 1 then .ok ⟨fragments, values⟩
    else .error (.incomplete (.fragmentCount fragments.length values.length))
  | .push text => .ok (s.push text)
  | .bind v => .ok (s.bind v)
  | .pushName d name => .ok (s.push (d.quoted name))
  | .append steps => s.append <$> run empty steps

/-- All steps in order, up to the first that is refused. -/
def run (s : Strands) : List Step → Except SqlError Strands
  | [] => .ok s
  | first :: steps => do run (← s.step first) steps

end

end Strands

namespace Template

/-- The fragments and the values of a template. -/
def strands (t : Template) : Strands := ⟨t.fragments, t.values⟩

theorem fit_strands (t : Template) : t.strands.Fit := by
  simp [Strands.Fit, strands, fragments, values]

/-- Given parts make a template if and only if they fit, and it has these very parts. -/
theorem strands_ofParts (fragments : List String) (values : List Value) :
    strands <$> ofParts fragments values =
      if fragments.length = values.length + 1 then .ok ⟨fragments, values⟩
      else .error (.incomplete (.fragmentCount fragments.length values.length)) := by
  cases fragments with
  | nil => rfl
  | cons head rest =>
    by_cases hlength : rest.length = values.length
    · have texts : (values.zip rest).map (·.2) = rest := List.map_snd_zip (by omega)
      have bound : (values.zip rest).map (·.1) = values := List.map_fst_zip (by omega)
      simp only [ofParts, hlength, if_true, List.length_cons]
      exact congrArg Except.ok (congrArg₂ Strands.mk (congrArg (head :: ·) texts) bound)
    · simp only [ofParts, hlength, if_false, List.length_cons, Nat.add_right_cancel_iff]
      rfl

theorem fragments_appendFrom (t : Template) (head : String) (slots : List (Value × String)) :
    (appendFrom t head slots).fragments =
      (head :: slots.map (·.2)).modifyLast (· ++ t.head) ++ t.slots.map (·.2) := by
  induction slots generalizing head with
  | nil => rfl
  | cons slot slots ih =>
    have later : (head :: slot.2 :: slots.map (·.2)).modifyLast (· ++ t.head) =
        head :: (slot.2 :: slots.map (·.2)).modifyLast (· ++ t.head) :=
      List.modifyLast_append_of_right_ne_nil _ [head] _ (List.cons_ne_nil _ _)
    rw [List.map_cons, later, List.cons_append, ← ih]
    rfl

theorem values_appendFrom (t : Template) (head : String) (slots : List (Value × String)) :
    (appendFrom t head slots).values = slots.map (·.1) ++ t.values := by
  induction slots generalizing head with
  | nil => rfl
  | cons slot slots ih => exact congrArg (slot.1 :: ·) (ih slot.2)

theorem values_append (a b : Template) : (a ++ b).values = a.values ++ b.values :=
  values_appendFrom b a.head a.slots

/-! Every operation on templates does to the two strands what it says there. -/

theorem strands_append (a b : Template) : (a ++ b).strands = a.strands.append b.strands :=
  congrArg₂ Strands.mk (fragments_appendFrom b a.head a.slots) (values_append a b)

theorem strands_push (t : Template) (s : String) : (t.push s).strands = t.strands.push s := by
  rw [push, strands_append]
  simp [Strands.append, Strands.push, strands, ofText, fragments, values]

theorem strands_bind (t : Template) (v : Value) : (t.bind v).strands = t.strands.bind v := by
  have same (l : List String) : l.modifyLast (fun s => s) = l := by
    rcases l.eq_nil_or_concat with rfl | ⟨l, s, rfl⟩
    · rfl
    · rw [List.concat_eq_append, List.modifyLast_concat]
  rw [bind, strands_append]
  simp [Strands.append, Strands.push, Strands.bind, strands, ofValue, fragments, values, same]

mutual

theorem strands_apply (t : Template) : ∀ step : Step,
    strands <$> step.apply t = t.strands.step step
  | .startText _ => rfl
  | .startEmpty => rfl
  | .startValue _ => rfl
  | .startParts fragments values => by
    rw [Step.apply, strands_ofParts, Strands.step]
  | .push s => congrArg Except.ok (strands_push t s)
  | .bind v => congrArg Except.ok (strands_bind t v)
  | .pushName d name => congrArg Except.ok (strands_push t (d.quoted name))
  | .append steps => by
    have inner := strands_applyAll empty steps
    rw [Step.apply, Strands.step, show Strands.empty = empty.strands from rfl, ← inner]
    cases Step.applyAll empty steps with
    | error e => rfl
    | ok other => exact congrArg Except.ok (strands_append t other)

/-- A run on templates is the same run on their strands. -/
theorem strands_applyAll (t : Template) : ∀ steps : List Step,
    strands <$> Step.applyAll t steps = t.strands.run steps
  | [] => rfl
  | step :: steps => by
    rw [Step.applyAll, Strands.run, ← strands_apply t step]
    cases step.apply t with
    | error e => rfl
    | ok next => exact strands_applyAll next steps

end

/-! Appending. -/

theorem append_assoc (a b c : Template) : a ++ b ++ c = a ++ (b ++ c) := by
  obtain ⟨head, slots⟩ := a
  simp only [append_eq]
  induction slots generalizing head with
  | nil => simp [appendFrom, appendFrom_append]
  | cons slot slots ih => simp [appendFrom, ih slot.2]

theorem empty_append (t : Template) : empty ++ t = t := by
  simp [append_eq, empty, ofText, appendFrom]

theorem append_empty (t : Template) : t ++ empty = t := by
  obtain ⟨head, slots⟩ := t
  rw [append_eq]
  induction slots generalizing head with
  | nil => simp [appendFrom, empty, ofText]
  | cons slot slots ih => simp [appendFrom, ih slot.2]

theorem exists_ofParts {s : Strands} (h : s.Fit) :
    ∃ t, ofParts s.fragments s.values = .ok t ∧ t.strands = s :=
  Except.map_eq_ok.mp ((strands_ofParts s.fragments s.values).trans (if_pos h))

/-- Parts that fit are those of a template, and templates form a monoid: appending does to the parts
what it says there, it may be bracketed in any way, and the empty template makes no difference
on either side. -/
theorem append_monoid {a b c : Strands} (ha : a.Fit) (hb : b.Fit) (hc : c.Fit) :
    ∃ t u v : Template, ofParts a.fragments a.values = .ok t ∧
      ofParts b.fragments b.values = .ok u ∧ ofParts c.fragments c.values = .ok v ∧
      (t ++ u).strands = a.append b ∧ t ++ u ++ v = t ++ (u ++ v) ∧
      empty ++ t = t ∧ t ++ empty = t := by
  obtain ⟨t, ht, rfl⟩ := exists_ofParts ha
  obtain ⟨u, hu, rfl⟩ := exists_ofParts hb
  obtain ⟨v, hv, -⟩ := exists_ofParts hc
  exact ⟨t, u, v, ht, hu, hv, strands_append t u, append_assoc t u v, empty_append t,
    append_empty t⟩

/-- A statement without a value between two that begin and end with a slot. -/
theorem append_monoid_slots :
    ∃ t u v : Template, ofParts ["", ""] [.int 1] = .ok t ∧ ofParts [" AND "] [] = .ok u ∧
      ofParts ["", ", ", ""] [.null, .text "a"] = .ok v ∧
      (t ++ u).strands = ⟨["", " AND "], [.int 1]⟩ ∧ t ++ u ++ v = t ++ (u ++ v) ∧
      empty ++ t = t ∧ t ++ empty = t :=
  append_monoid (a := ⟨["", ""], [.int 1]⟩) (b := ⟨[" AND "], []⟩)
    (c := ⟨["", ", ", ""], [.null, .text "a"]⟩) rfl rfl rfl

end Template
end FilterSql
