import FilterSql.Template.Basic

/-! Templates put together step by step. -/
namespace FilterSql.Template

/-- A step either starts over or goes on from the template so far. -/
inductive Step where
  | startText (s : String)
  | startEmpty
  | startValue (v : Value)
  | startParts (fragments : List String) (values : List Value)
  | push (s : String)
  | bind (v : Value)
  | pushName (d : Dialect) (name : String)
  /-- Appends a template that is put together on its own. -/
  | append (steps : List Step)

mutual

def Step.apply (t : Template) : Step → Except SqlError Template
  | .startText s => .ok (.ofText s)
  | .startEmpty => .ok .empty
  | .startValue v => .ok (.ofValue v)
  | .startParts fragments values => Template.ofParts fragments values
  | .push s => .ok (t.push s)
  | .bind v => .ok (t.bind v)
  | .pushName d name => .ok (t.pushName d name)
  | .append steps => (t ++ ·) <$> Step.applyAll .empty steps

/-- All steps in order; the first that is refused ends the work. -/
def Step.applyAll (t : Template) : List Step → Except SqlError Template
  | [] => .ok t
  | step :: steps => do Step.applyAll (← step.apply t) steps

end

end FilterSql.Template
