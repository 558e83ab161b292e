import FilterSql.Proofs.Interleaving
import FilterSql.Proofs.TemplateStrands

/-! What a run of steps leaves, read off the steps alone: those before the last start are forgotten,
and each of the others adds its text and its values to what stands before it. -/
namespace FilterSql.Template

namespace Step

/-- Whether the step puts a new template in the place of the one so far. -/
def starts : Step → Bool
  | .startText _ | .startEmpty | .startValue _ | .startParts .. => true
  | .push _ | .bind _ | .pushName .. | .append _ => false

mutual

/-- Given parts have one fragment more than values, also in what is appended. -/
def Fits : Step → Prop
  | .startParts fragments values => fragments.length = values.length + 1
  | .append steps => AllFit steps
  | _ => True

def AllFit : List Step → Prop
  | [] => True
  | step :: steps => step.Fits ∧ AllFit steps

end

mutual

/-- The values that the step adds. -/
def bound : Step → List Value
  | .startValue v | .bind v => [v]
  | .startParts _ values => values
  | .append steps => boundSince steps
  | .startText _ | .startEmpty | .push _ | .pushName .. => []

/-- The values of the steps since the last start, in order. -/
def boundSince : List Step → List Value
  | [] => []
  | step :: steps =>
    if steps.any starts then boundSince steps else step.bound ++ boundSince steps

end

mutual

/-- The text that the step adds where the next slot has the number `k`. What is appended is numbered
on from there. -/
def text (d : Dialect) (k : Nat) : Step → String
  | .startText s | .push s => s
  | .startEmpty => ""
  | .startValue _ | .bind _ => d.placeholder k
  | .startParts fragments values =>
    interleave fragments ((List.range' k values.length).map d.placeholder)
  | .pushName d' name => d'.quoted name
  | .append steps => textSince d k steps

/-- The texts of the steps since the last start, one behind the other. -/
def textSince (d : Dialect) (k : Nat) : List Step → String
  | [] => ""
  | step :: steps =>
    if steps.any starts then textSince d k steps
    else step.text d k ++ textSince d (k + step.bound.length) steps

end

end Step

/-- A template goes on from another one with some values and with a text, which depends on the
number of its first slot. -/
structure Continues (before after : Template) (values : List Value)
    (text : Dialect → Nat → String) : Prop where
  values_eq : after.values = before.values ++ values
  text_eq (d : Dialect) (k : Nat) : after.textFrom d.placeholder k =
    before.textFrom d.placeholder k ++ text d (k + before.values.length)

namespace Continues

variable {a b c : Template} {values values' : List Value} {text text' : Dialect → Nat → String}

theorem refl (t : Template) : Continues t t [] fun _ _ => "" :=
  ⟨by simp, by simp⟩

theorem trans (h : Continues a b values text) (h' : Continues b c values' text') :
    Continues a c (values ++ values') fun d k => text d k ++ text' d (k + values.length) where
  values_eq := by rw [h'.values_eq, h.values_eq, List.append_assoc]
  text_eq d k := by
    rw [h'.text_eq, h.text_eq, h.values_eq, List.length_append, String.append_assoc,
      Nat.add_assoc]

/-- What goes on from nothing goes on in the same way from any template it is appended to. -/
theorem behind (h : Continues empty b values text) (a : Template) :
    Continues a (a ++ b) values text where
  values_eq := by rw [values_append, h.values_eq]; rfl
  text_eq d k := by
    rw [textFrom_append, h.text_eq, empty, textFrom_ofText, String.empty_append]
    simp [Template.values, ofText]

/-- Each template goes on from nothing with all that it has. -/
theorem of_eq (hvalues : b.values = values)
    (htext : ∀ d k, b.textFrom (Dialect.placeholder d) k = text d k) :
    Continues empty b values text :=
  ⟨hvalues, fun d k => by
    rw [htext, empty, textFrom_ofText, String.empty_append]
    rfl⟩

theorem of_ofText (s : String) : Continues empty (ofText s) [] fun _ _ => s :=
  of_eq rfl fun _ k => textFrom_ofText s k

theorem of_ofValue (v : Value) : Continues empty (ofValue v) [v] fun d k => d.placeholder k :=
  of_eq rfl fun _ k => textFrom_ofValue v k

end Continues

theorem slotsText_eq_interleave (placeholder : Nat → String) (k : Nat) (head : String)
    (slots : List (Value × String)) :
    head ++ slotsText placeholder k slots =
      interleave (head :: slots.map (·.2)) ((List.range' k slots.length).map placeholder) := by
  induction slots generalizing head k with
  | nil => simp [slotsText, interleave]
  | cons slot slots ih =>
    rw [slotsText, ih, List.length_cons, List.range'_succ, List.map_cons, List.map_cons, interleave]

/-- The text of a template is its fragments with the placeholders between them. -/
theorem textFrom_eq_interleave (t : Template) (placeholder : Nat → String) (k : Nat) :
    t.textFrom placeholder k =
      interleave t.fragments ((List.range' k t.values.length).map placeholder) := by
  rw [textFrom, slotsText_eq_interleave, Template.values, List.length_map]
  rfl

theorem continues_ofParts {t : Template} {fragments : List String} {values : List Value}
    (h : ofParts fragments values = .ok t) : Continues empty t values
      fun d k => interleave fragments ((List.range' k values.length).map d.placeholder) := by
  have parts := strands_ofParts fragments values
  rw [h] at parts
  split at parts
  · obtain ⟨rfl, rfl⟩ := Strands.mk.inj (Except.ok.inj parts)
    exact .of_eq rfl fun d k => textFrom_eq_interleave t d.placeholder k
  · cases parts

/-! One step, and then a run by induction on it. -/

/-- What is kept of a template: nothing if there is a start after it. -/
def keep (t : Template) (started : Bool) : Template := if started then empty else t

theorem keep_empty (started : Bool) : empty.keep started = empty := ite_self empty

mutual

theorem continues_step {t u : Template} : ∀ step : Step, step.apply t = .ok u →
    Continues (t.keep step.starts) u step.bound fun d k => step.text d k
  | .startText s, h => Except.ok.inj h ▸ .of_ofText s
  | .startEmpty, h => Except.ok.inj h ▸ .refl empty
  | .startValue v, h => Except.ok.inj h ▸ .of_ofValue v
  | .startParts fragments values, h => continues_ofParts h
  | .push s, h => Except.ok.inj h ▸ (Continues.of_ofText s).behind t
  | .bind v, h => Except.ok.inj h ▸ (Continues.of_ofValue v).behind t
  | .pushName d name, h => Except.ok.inj h ▸ (Continues.of_ofText (d.quoted name)).behind t
  | .append steps, h => by
    obtain ⟨other, hother, rfl⟩ := Except.map_eq_ok.mp h
    -- What is appended starts from nothing, so a start in it forgets nothing of `t`.
    have inner := continues_run steps hother
    rw [keep_empty] at inner
    exact inner.behind t

theorem continues_run {t u : Template} : ∀ steps : List Step, Step.applyAll t steps = .ok u →
    Continues (t.keep (steps.any Step.starts)) u (Step.boundSince steps)
      fun d k => Step.textSince d k steps
  | [], h => Except.ok.inj h ▸ .refl t
  | step :: steps, h => by
    obtain ⟨next, hstep, hsteps⟩ := Except.bind_eq_ok.mp h
    have first := continues_step step hstep
    have rest := continues_run steps hsteps
    simp only [List.any_cons, Step.boundSince, Step.textSince]
    -- A start among the later steps forgets this one, with all that it went on from.
    split
    next hstarts =>
      rw [hstarts] at rest ⊢
      rwa [Bool.or_true]
    next hstarts =>
      have hnone : steps.any Step.starts = false := by simpa using hstarts
      rw [hnone] at rest ⊢
      rw [Bool.or_false]
      exact first.trans rest

end

/-! Which steps are accepted. -/

/-- Steps that fit are accepted. Of others it is told how many fragments and values were given. -/
inductive Settled (fits : Prop) : Except SqlError Template → Prop
  | accepted (h : fits) (t : Template) : Settled fits (.ok t)
  | refused (h : ¬ fits) {fragments values : Nat} (hne : fragments ≠ values + 1) :
    Settled fits (.error (.incomplete (.fragmentCount fragments values)))

theorem Settled.congr {fits fits' : Prop} {outcome : Except SqlError Template}
    (h : Settled fits outcome) (hfits : fits ↔ fits') : Settled fits' outcome := by
  cases h with
  | accepted h t => exact .accepted (hfits.mp h) t
  | refused h hne => exact .refused (fun h' => h (hfits.mpr h')) hne

theorem settled_ofParts (fragments : List String) (values : List Value) :
    Settled (fragments.length = values.length + 1) (ofParts fragments values) := by
  have parts := strands_ofParts fragments values
  cases h : ofParts fragments values with
  | ok t =>
    rw [h] at parts
    split at parts
    next hfit => exact .accepted hfit t
    next => cases parts
  | error e =>
    rw [h] at parts
    split at parts
    next => cases parts
    next hfit =>
      obtain rfl := Except.error.inj parts
      exact .refused hfit hfit

mutual

theorem settled_step (t : Template) : ∀ step : Step, Settled step.Fits (step.apply t)
  | .startText s => .accepted trivial _
  | .startEmpty => .accepted trivial _
  | .startValue v => .accepted trivial _
  | .startParts fragments values => settled_ofParts fragments values
  | .push s => .accepted trivial _
  | .bind v => .accepted trivial _
  | .pushName d name => .accepted trivial _
  | .append steps => by
    have inner := settled_run empty steps
    rw [Step.apply]
    generalize Step.applyAll empty steps = outcome at inner ⊢
    cases inner with
    | accepted h other => exact .accepted h (t ++ other)
    | refused h hne => exact .refused h hne

theorem settled_run (t : Template) : ∀ steps : List Step,
    Settled (Step.AllFit steps) (Step.applyAll t steps)
  | [] => .accepted trivial t
  | step :: steps => by
    have first := settled_step t step
    rw [Step.applyAll]
    generalize step.apply t = outcome at first ⊢
    cases first with
    | accepted h next => exact (settled_run next steps).congr ⟨fun hall => ⟨h, hall⟩, And.right⟩
    | refused h hne => exact .refused (fun hall => h hall.1) hne

end

theorem allFit_of_isPrefix {done steps : List Step} (h : done <+: steps)
    (hfit : Step.AllFit steps) : Step.AllFit done := by
  obtain ⟨rest, rfl⟩ := h
  induction done with
  | nil => trivial
  | cons step done ih => exact ⟨hfit.1, ih hfit.2⟩

/-- Steps from the empty template on are refused if given parts do not fit. Otherwise there is, after
each of them, one fragment more than there are values, as in the run on the two strands; the
values are those of the steps since the last start, and so is the text for any database. -/
theorem steps_from_empty (steps : List Step) :
    (¬ Step.AllFit steps → ∃ fragments values, fragments ≠ values + 1 ∧
      Step.applyAll empty steps = .error (.incomplete (.fragmentCount fragments values))) ∧
    (Step.AllFit steps → ∀ done, done <+: steps → ∃ t, Step.applyAll empty done = .ok t ∧
      Strands.empty.run done = .ok ⟨t.fragments, t.values⟩ ∧
      t.fragments.length = t.values.length + 1 ∧ t.values = Step.boundSince done ∧
      ∀ d, t.render d = Step.textSince d 1 done) := by
  constructor
  · intro hfit
    have settled := settled_run empty steps
    generalize Step.applyAll empty steps = outcome at settled ⊢
    cases settled with
    | accepted h t => exact absurd h hfit
    | refused h hne => exact ⟨_, _, hne, rfl⟩
  · intro hfit done hdone
    have settled := settled_run empty done
    generalize hrun : Step.applyAll empty done = outcome at settled
    cases settled with
    | refused h hne => exact absurd (allFit_of_isPrefix hdone hfit) h
    | accepted h t =>
      have strands := strands_applyAll empty done
      have continues := continues_run done hrun
      rw [hrun] at strands
      rw [keep_empty] at continues
      refine ⟨t, rfl, strands.symm, fit_strands t, continues.values_eq, fun d => ?_⟩
      rw [render_eq_textFrom, continues.text_eq, empty, textFrom_ofText, String.empty_append]
      rfl

/-- Starts at both levels, given parts, and a template appended to one that is appended itself. -/
def nestedSteps : List Step :=
  [.bind .null, .startText "SELECT ", .pushName .postgres "a", .push " = ", .bind (.text "?"),
    .append [.push "lost", .startParts [" IN (", ", ", ""] [.int 1, .int 1],
      .append [.startValue .null, .push ")"]], .bind (.int 2)]

theorem steps_from_empty_nested :
    (∃ t, Step.applyAll empty nestedSteps = .ok t ∧
      t.fragments = ["SELECT \"a\" = ", " IN (", ", ", "", ")", ""] ∧
      t.values = [.text "?", .int 1, .int 1, .null, .int 2] ∧
      t.render .postgres = "SELECT \"a\" = $1 IN ($2, $3$4)$5") ∧
    ∃ fragments values, fragments ≠ values + 1 ∧
      Step.applyAll empty [.append [.push "a", .startParts ["b"] [.null]]] =
        .error (.incomplete (.fragmentCount fragments values)) := by
  have hfit : Step.AllFit nestedSteps := by simp [nestedSteps, Step.AllFit, Step.Fits]
  obtain ⟨t, ht, hstrands, -, hvalues, htext⟩ :=
    (steps_from_empty nestedSteps).2 hfit nestedSteps (List.prefix_refl _)
  have hfragments := congrArg Strands.fragments (Except.ok.inj hstrands)
  refine ⟨⟨t, ht, hfragments.symm, hvalues, htext .postgres⟩, ?_⟩
  exact (steps_from_empty _).1 (by simp [Step.AllFit, Step.Fits])

end FilterSql.Template
