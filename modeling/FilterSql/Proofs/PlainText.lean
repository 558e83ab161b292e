import FilterSql.Value

/-! Values without quotes are written as one word. -/
namespace FilterSql

/-- A text without a space. -/
def Unspaced (s : String) : Prop := ' ' ∉ s.toList

instance (s : String) : Decidable (Unspaced s) := inferInstanceAs (Decidable (' ' ∉ s.toList))

theorem unspaced_append {s t : String} (hs : Unspaced s) (ht : Unspaced t) :
    Unspaced (s ++ t) := by
  simpa [Unspaced] using ⟨hs, ht⟩

theorem space_notMem_toDigits (n : Nat) : ' ' ∉ Nat.toDigits 10 n := fun h =>
  absurd (Nat.isDigit_of_mem_toDigits (by decide) (by decide) h) (by decide)

theorem unspaced_natText (n : Nat) : Unspaced (toString n) := by
  simpa [Unspaced, Nat.toList_repr] using space_notMem_toDigits n

theorem unspaced_intText (n : Int) : Unspaced (toString n) := by
  cases n with
  | ofNat n => exact unspaced_natText n
  | negSucc n => exact unspaced_append (s := "-") (by decide) (unspaced_natText (n + 1))

namespace Decimal

theorem unspaced_zeros (n : Int) : Unspaced (zeros n) := by
  simp [Unspaced, zeros]

theorem unspaced_pointAfter {digits : List Char} (h : ' ' ∉ digits) (n : Nat) :
    Unspaced (pointAfter digits n) := by
  have first : ' ' ∉ digits.take n := fun hc => h (List.mem_of_mem_take hc)
  have rest : ' ' ∉ digits.drop n := fun hc => h (List.mem_of_mem_drop hc)
  unfold pointAfter
  apply unspaced_append
  · simpa [Unspaced] using first
  · split
    · exact List.not_mem_nil
    · exact unspaced_append (s := ".") (by decide) (by simpa [Unspaced] using rest)

theorem unspaced_write {style : FloatStyle} (hstyle : Unspaced style.afterInteger) (d : Decimal) :
    Unspaced (d.write style) := by
  have digits := space_notMem_toDigits d.digits
  have text : Unspaced (String.ofList (Nat.toDigits 10 d.digits)) := by
    simpa [Unspaced] using digits
  simp only [write]
  split
  · split
    · exact unspaced_append (unspaced_append text (unspaced_zeros _)) hstyle
    · split
      · exact unspaced_pointAfter digits _
      · exact unspaced_append (unspaced_append (s := "0.") (by decide) (unspaced_zeros _)) text
  · apply unspaced_append _ (unspaced_natText _)
    apply unspaced_append (unspaced_pointAfter digits 1)
    split <;> decide

end Decimal

theorem Binary64.unspaced_write {style : FloatStyle} {special : Datum → String}
    (hstyle : Unspaced style.afterInteger) (hspecial : ∀ d, Unspaced (special d)) (x : Binary64) :
    Unspaced (x.write style special) := by
  unfold write
  split
  · apply unspaced_append
    · split <;> decide
    · split
      · exact unspaced_append (s := "0") (by decide) hstyle
      · exact Decimal.unspaced_write hstyle _
  · exact hspecial _

namespace Value

/-- Whether the value is found by what stands before it: it has no quotes and is no array. -/
def IsWord : Value → Prop
  | .text _ => False
  | .regex _ => False
  | .array _ => False
  | _ => True

theorem unspaced_floatText (x : Binary64) : Unspaced (floatText x) := by
  apply Binary64.unspaced_write (by decide)
  intro d
  split
  · split <;> decide
  · decide

theorem unspaced_literal {v : Value} (h : v.IsWord) : Unspaced v.literal := by
  cases v with
  | null => decide
  | bool b => cases b <;> decide
  | int n => exact unspaced_intText n.toInt
  | float x => exact unspaced_floatText x
  | date t =>
    have start : Unspaced "__DATE_PLACEHOLDER_" := by decide
    exact unspaced_append (unspaced_append start (unspaced_intText t.millis)) (by decide)
  | text s => exact h.elim
  | regex pattern => exact h.elim
  | array items => exact h.elim

end Value
end FilterSql
