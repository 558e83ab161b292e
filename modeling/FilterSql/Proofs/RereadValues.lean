import FilterSql.Proofs.JsonForms

/-! Values written as JSON and read back. The JSON has no mark of a value's type, so a regular
expression comes back as a text; everything else comes back as it was, in arrays of any depth. -/
namespace FilterSql.Value

/-- A value stands in another one: it is that value, or stands in an item of it. -/
inductive Within (u : Value) : Value → Prop
  | self : Within u u
  | item {v items} (hmem : v ∈ items) (h : Within u v) : Within u (.array items)

variable {u v : Value} {items : List Value} {pattern : String}

@[simp] theorem within_array :
    Within u (.array items) ↔ u = .array items ∨ ∃ v ∈ items, Within u v := by
  constructor
  · intro h
    cases h with
    | self => exact .inl rfl
    | item hmem h => exact .inr ⟨_, hmem, h⟩
  · rintro (rfl | ⟨v, hmem, h⟩)
    · exact .self
    · exact .item hmem h

/-- Only itself stands in a value that is no array. -/
@[simp] theorem within_of_ne_array (h : ∀ items, v ≠ .array items) : Within u v ↔ u = v := by
  constructor
  · intro hu
    cases hu with
    | self => rfl
    | item hmem hu => exact absurd rfl (h _)
  · rintro rfl
    exact .self

/-- Null, booleans, integers, finite numbers, texts, regular expressions, and arrays of these. -/
structure Portable (v : Value) : Prop where
  finite : ∀ x, Within (.float x) v → x.isFinite = true
  undated : ∀ t, ¬ Within (.date t) v

theorem Portable.item (h : Portable (.array items)) (hmem : v ∈ items) : Portable v where
  finite x hx := h.finite x (.item hmem hx)
  undated t ht := h.undated t (.item hmem ht)

mutual

/-- Each regular expression replaced by the text of its pattern, at every depth. -/
def regexAsText : Value → Value
  | .regex pattern => .text pattern
  | .array items => .array (regexAsTexts items)
  | v => v

def regexAsTexts : List Value → List Value
  | [] => []
  | v :: items => regexAsText v :: regexAsTexts items

end

theorem regexAsTexts_eq_map (items : List Value) : regexAsTexts items = items.map regexAsText := by
  induction items with
  | nil => rfl
  | cons v items ih => simp [regexAsTexts, ih]

/-! What stands in a value whose regular expressions are replaced. -/

/-- It is what has become of something that stood there. -/
theorem exists_of_within_regexAsText (h : Within u v.regexAsText) :
    ∃ w, Within w v ∧ w.regexAsText = u := by
  generalize ht : v.regexAsText = t at h
  induction h generalizing v with
  | self => exact ⟨v, .self, ht⟩
  | item hmem _ ih =>
    cases v with
    | array items =>
      rw [regexAsText, regexAsTexts_eq_map] at ht
      obtain rfl := Value.array.inj ht
      obtain ⟨part, hpart, heq⟩ := List.mem_map.mp hmem
      obtain ⟨w, hw, hu⟩ := ih heq
      exact ⟨w, .item hpart hw, hu⟩
    | _ => cases ht

theorem not_within_regexAsText (v : Value) (pattern : String) :
    ¬ Within (.regex pattern) v.regexAsText := by
  intro h
  obtain ⟨w, -, hw⟩ := exists_of_within_regexAsText h
  cases w <;> cases hw

theorem Portable.regexAsText (h : Portable v) : Portable v.regexAsText where
  finite x hx := by
    obtain ⟨w, hmem, hw⟩ := exists_of_within_regexAsText hx
    cases w with
    | float y =>
      cases hw
      exact h.finite x hmem
    | _ => cases hw
  undated t ht := by
    obtain ⟨w, hmem, hw⟩ := exists_of_within_regexAsText ht
    cases w with
    | date t' =>
      cases hw
      exact h.undated t hmem
    | _ => cases hw

theorem regexAsText_ne_of_within (h : Within (.regex pattern) v) : v.regexAsText ≠ v := by
  induction h with
  | self => nofun
  | @item v items hmem _ ih =>
    intro heq
    rw [Value.regexAsText, regexAsTexts_eq_map] at heq
    have same : items.map Value.regexAsText = items.map id := by
      rw [List.map_id]
      exact Value.array.inj heq
    exact ih (List.map_eq_map_iff.mp same v hmem)

mutual

theorem regexAsText_of_not_within : ∀ {v : Value}, (∀ pattern, ¬ Within (.regex pattern) v) →
    v.regexAsText = v
  | .null, _ | .bool _, _ | .int _, _ | .float _, _ | .text _, _ | .date _, _ => rfl
  | .regex pattern, h => absurd .self (h pattern)
  | .array _, h => congrArg Value.array
    (regexAsTexts_of_not_within fun _ hmem pattern hw => h pattern (.item hmem hw))

theorem regexAsTexts_of_not_within : ∀ {items : List Value},
    (∀ v ∈ items, ∀ pattern, ¬ Within (.regex pattern) v) → regexAsTexts items = items
  | [], _ => rfl
  | v :: items, h => by
    obtain ⟨hv, hitems⟩ := List.forall_mem_cons.mp h
    rw [regexAsTexts, regexAsText_of_not_within hv, regexAsTexts_of_not_within hitems]

end

theorem regexAsText_eq_self_iff :
    v.regexAsText = v ↔ ∀ pattern, ¬ Within (.regex pattern) v :=
  ⟨fun h _ hw => regexAsText_ne_of_within hw h, regexAsText_of_not_within⟩

/-! The JSON of a value is a form of it: it holds no object that could be a date, a regular
expression or a set of operators. -/

mutual

theorem json_toJson : ∀ {v : Value}, Portable v → ValueJson v.toJson v.regexAsText
  | .null, _ => .null
  | .bool b, _ => .bool b
  | .int n, _ => .int n
  | .float x, h => by
    rw [toJson, if_pos (h.finite x .self)]
    exact .float x
  | .text s, _ => .text s
  | .date t, h => absurd .self (h.undated t)
  | .regex pattern, _ => .text pattern
  | .array _, h => .array (json_toJsons fun _ hmem => h.item hmem)

theorem json_toJsons : ∀ {items : List Value}, (∀ v ∈ items, Portable v) →
    ValuesJson (toJsons items) (regexAsTexts items)
  | [], _ => .nil
  | _ :: _, h => by
    obtain ⟨hv, hitems⟩ := List.forall_mem_cons.mp h
    exact .cons (json_toJson hv) (json_toJsons hitems)

end

/-- A value is read back from its JSON with its regular expressions as texts. So it comes back as it
was if and only if it has none, and what comes back does so from then on. -/
theorem reread_regexAsText (h : Portable v) :
    Value.ofJson v.toJson = .ok v.regexAsText ∧
      (Value.ofJson v.toJson = .ok v ↔ ∀ pattern, ¬ Within (.regex pattern) v) ∧
      ∀ w, Value.ofJson v.toJson = .ok w → Value.ofJson w.toJson = .ok w := by
  have reread : Value.ofJson v.toJson = .ok v.regexAsText := ofJson_of_json (json_toJson h)
  refine ⟨reread, ?_, fun w hw => ?_⟩
  · rw [reread, Except.ok.injEq, regexAsText_eq_self_iff]
  · obtain rfl : v.regexAsText = w := Except.ok.inj (reread.symm.trans hw)
    have again := ofJson_of_json (json_toJson h.regexAsText)
    rwa [regexAsText_of_not_within (not_within_regexAsText v)] at again

/-- A pattern that is written like a date, an integer at the end of its range, and empty arrays. -/
def assorted : Value :=
  .array [.null, .regex "2025-01-01T00:00:00Z", .array [.int (-9223372036854775808), .text "$regex",
    .array [.array [], .regex ""]], .bool false]

theorem reread_regexAsText_nested : Value.ofJson assorted.toJson =
    .ok (.array [.null, .text "2025-01-01T00:00:00Z", .array [.int (-9223372036854775808),
      .text "$regex", .array [.array [], .text ""]], .bool false]) ∧
    Value.ofJson assorted.toJson ≠ .ok assorted := by
  have portable : Portable assorted := ⟨by simp [assorted], by simp [assorted]⟩
  obtain ⟨reread, same, -⟩ := reread_regexAsText portable
  refine ⟨reread, fun h => same.mp h "" ?_⟩
  simp [assorted]

end FilterSql.Value
