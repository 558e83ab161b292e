import FilterSql.Proofs.Scan

/-! The bound values of a template, each with the column and the operator that stand before its slot,
read off the fragments of the template. -/
namespace FilterSql

/-- A value together with the column and the operator that it is bound for. -/
structure BoundValue where
  column : String
  operator : String
  value : Value

/-- What has been read of a fragment: the text behind its last name, or the text it starts with if
there is no name. The place of the slot before a fragment is carried along until a name follows. -/
inductive Before where
  | slot (place : Option (String × String)) (text : List Char)
  | name (column : String) (text : List Char)

namespace Before

/-- A placeholder inside a fragment would belong to no slot. -/
def next : Before → Lexeme → Before
  | .slot place text, .char c => .slot place (text ++ [c])
  | .name column text, .char c => .name column (text ++ [c])
  | _, .name column => .name column []
  | _, .slot _ => .slot none []

/-- The text without the blanks around it and without the parenthesis that opens a list. -/
def operatorOf (text : List Char) : String :=
  String.ofList ((text.dropWhile (· = ' ')).reverse.dropWhile (fun c => c = ' ' || c = '(')).reverse

/-- The column and the operator of a slot that comes next. Behind another slot and a comma they are
those of the slot before. -/
def place? : Before → Option (String × String)
  | .slot place text => if text = [',', ' '] then place else none
  | .name column text => some (column, operatorOf text)

end Before

namespace Template

/-- The bound values of slots, each with the fragment before it, behind a slot at a place. -/
def boundValuesFrom (d : Dialect) (place : Option (String × String)) :
    List (String × Value) → Option (List BoundValue)
  | [] => some []
  | (fragment, v) :: slots => do
    let lexemes ← Lexeme.scan d fragment
    let (column, operator) ← (lexemes.foldl Before.next (.slot place [])).place?
    let others ← boundValuesFrom d (some (column, operator)) slots
    return ⟨column, operator, v⟩ :: others

/-- The bound values, each with the name and the operator that end the fragment before its slot. -/
def boundValues? (d : Dialect) (t : Template) : Option (List BoundValue) :=
  boundValuesFrom d none (t.fragments.zip t.values)

end Template

namespace Parts

/-- Parts that are read from one state to another and bind the given values on the way. -/
inductive Binds : Before → Parts → List BoundValue → Before → Prop
  | nil (b : Before) : Binds b [] [] b
  | text {b b' : Before} {s : String} {parts : Parts} {l : List BoundValue}
      (h : Binds ((s.toList.map Lexeme.char).foldl Before.next b) parts l b') :
      Binds b (.text s :: parts) l b'
  | name {b b' : Before} {column : String} {parts : Parts} {l : List BoundValue}
      (h : Binds (.name column []) parts l b') : Binds b (.name column :: parts) l b'
  | slot {b b' : Before} {column operator : String} {v : Value} {parts : Parts}
      {l : List BoundValue} (hplace : b.place? = some (column, operator))
      (h : Binds (.slot (some (column, operator)) []) parts l b') :
      Binds b (.slot v :: parts) (⟨column, operator, v⟩ :: l) b'

variable {d : Dialect} {b b' b'' : Before} {p q : Parts} {l m : List BoundValue}

theorem binds_append (hp : Binds b p l b') (hq : Binds b' q m b'') :
    Binds b (p ++ q) (l ++ m) b'' := by
  induction hp with
  | nil => exact hq
  | text _ ih => exact .text (ih hq)
  | name _ ih => exact .name (ih hq)
  | slot hplace _ ih => exact .slot hplace (ih hq)

theorem values_of_binds (h : Binds b p l b') : l.map (·.value) = p.values := by
  induction h with
  | nil => rfl
  | text _ ih => exact ih
  | name _ ih => exact ih
  | slot _ _ ih => simp [ih]

theorem binds_none (h : p.values = []) (b : Before) : ∃ b', Binds b p [] b' := by
  induction p generalizing b with
  | nil => exact ⟨b, .nil b⟩
  | cons part p ih =>
    cases part with
    | text s =>
      obtain ⟨b', hb⟩ := ih h _
      exact ⟨b', .text hb⟩
    | name column =>
      obtain ⟨b', hb⟩ := ih h _
      exact ⟨b', .name hb⟩
    | slot v => simp at h

/-- The values of a list are all bound at the place of its first one. -/
theorem binds_list {column operator : String} (values : List Value)
    (hplace : b.place? = some (column, operator)) :
    ∃ b', Binds b (list (values.map fun v => [.slot v.bound]))
      (values.map fun v => ⟨column, operator, v.bound⟩) b' := by
  induction values generalizing b with
  | nil => exact ⟨b, .nil b⟩
  | cons v values ih =>
    cases values with
    | nil => exact ⟨_, .slot hplace (.nil _)⟩
    | cons w values =>
      have comma : ((", ".toList.map Lexeme.char).foldl Before.next
          (.slot (some (column, operator)) [])).place? = some (column, operator) := by rfl
      obtain ⟨b', rest⟩ := ih comma
      exact ⟨b', .slot hplace (.text rest)⟩

/-! Reading a template fragment by fragment is reading its parts. -/

/-- `pending` is what the fragment before the parts already contains. -/
theorem boundValuesFrom_template (h : Binds b p l b') (pending : Parts)
    (place : Option (String × String)) (hpending : pending.values = [])
    (hb : (lexemes 1 pending).foldl Before.next (.slot place []) = b)
    (hspaced : WellSpaced (pending ++ p)) :
    Template.boundValuesFrom d place
      ((template d (pending ++ p)).fragments.zip (template d (pending ++ p)).values) = some l := by
  -- Text and names are added to what is pending, and a slot starts over with nothing.
  induction h generalizing pending place with
  | nil =>
    rw [slots_template]
    simp [hpending, Template.boundValuesFrom]
  | @text b b' s parts l _ ih =>
    rw [List.append_cons] at hspaced ⊢
    apply ih _ place (by simp [hpending]) _ hspaced
    simp [lexemes_append hpending, lexemes, hb]
  | @name b b' column parts l _ ih =>
    rw [List.append_cons] at hspaced ⊢
    apply ih _ place (by simp [hpending]) _ hspaced
    simp [lexemes_append hpending, lexemes, hb, Before.next]
  | @slot b b' column operator v parts l hplace _ ih =>
    obtain ⟨hfirst, -, hspaced⟩ := wellSpaced_of_append hspaced
    have others := ih [] (some (column, operator)) rfl rfl hspaced
    rw [template_append_slot hpending]
    simp only [List.nil_append] at others
    simp only [Template.fragments, Template.values, List.map_cons, List.zip_cons_cons] at others ⊢
    simp [Template.boundValuesFrom, scan_head hpending hfirst, hb, hplace, others]

/-- The parts bind the given values wherever they stand. -/
def Always (p : Parts) (l : List BoundValue) : Prop := ∀ b, ∃ b', Binds b p l b'

theorem always_append (hp : Always p l) (hq : Always q m) : Always (p ++ q) (l ++ m) := by
  intro b
  obtain ⟨b', hp⟩ := hp b
  obtain ⟨b'', hq⟩ := hq b'
  exact ⟨b'', binds_append hp hq⟩

theorem always_text (s : String) (h : Always p l) : Always (.text s :: p) l := by
  intro b
  obtain ⟨b', h⟩ := h _
  exact ⟨b', .text h⟩

theorem always_name (column : String) (h : Always p l) : Always (.name column :: p) l := by
  intro b
  obtain ⟨b', h⟩ := h _
  exact ⟨b', .name h⟩

theorem eq_nil_of_always (h : Always [] l) : l = [] := by
  obtain ⟨b', h⟩ := h (.slot none [])
  cases h
  rfl

theorem foldl_next_name (column : String) (text s : List Char) :
    (s.map Lexeme.char).foldl Before.next (.name column text) = .name column (text ++ s) := by
  induction s generalizing text with
  | nil => simp
  | cons c s ih => simp [Before.next, ih]

/-- A slot belongs to the column and the operator right before it. -/
theorem always_slot {s operator : String} (h : Before.operatorOf s.toList = operator)
    (column : String) (v : Value) :
    Always [.name column, .text s, .slot v] [⟨column, operator, v⟩] := by
  intro b
  refine ⟨_, .name (.text (.slot ?_ (.nil _)))⟩
  rw [foldl_next_name, List.nil_append, Before.place?, h]

/-- All values of a list belong to the column and the operator before it. -/
theorem always_column_list {s operator : String}
    (h : Before.operatorOf (s.toList ++ ['(']) = operator) (column : String) (values : List Value) :
    Always (([.name column, .text s, .text "("] : Parts) ++
        list (values.map fun v => [.slot v.bound]))
      (values.map fun v => ⟨column, operator, v.bound⟩) := by
  intro b
  have place : (((s.toList ++ ['(']).map Lexeme.char).foldl Before.next
      (.name column [])).place? = some (column, operator) := by
    rw [foldl_next_name, List.nil_append, Before.place?, h]
  rw [List.map_append, List.foldl_append] at place
  obtain ⟨b', hlist⟩ := binds_list values place
  exact ⟨b', .name (.text (.text hlist))⟩

end Parts
end FilterSql
