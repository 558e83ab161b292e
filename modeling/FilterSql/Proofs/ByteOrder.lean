import FilterSql.Named.Positional
import FilterSql.Proofs.ParamIds
import Mathlib.Tactic.SplitIfs

/-! Texts are ordered as their bytes in UTF-8, and names are numbered in that order. -/
namespace FilterSql

-- Powers are those of the core library, whatever else is imported.
attribute [local instance (2000)] instPowNat

namespace Utf8

/-- How many bytes follow the first. -/
def width (n : Nat) : Nat :=
  if n ≤ 0x7f then 0 else if n ≤ 0x7ff then 1 else if n ≤ 0xffff then 2 else 3

/-- The first byte: the highest bits behind a mark of the width. -/
def lead (n : Nat) : Nat :=
  if n ≤ 0x7f then n else if n ≤ 0x7ff then n / 64 + 0xc0
  else if n ≤ 0xffff then n / 4096 + 0xe0 else n / 262144 + 0xf0

/-- The lowest six bits behind a mark. -/
def low (n : Nat) : UInt8 := UInt8.ofNat (n % 64 + 0x80)

/-- The bytes behind the first, six bits in each of them. -/
def tail : Nat → Nat → List UInt8
  | 0, _ => []
  | k + 1, n => tail k (n / 64) ++ [low n]

variable {m n k : Nat} {s t : List UInt8}

theorem toNat_lt (c : Char) : c.toNat < 0x110000 := by
  rcases c.valid with h | h
  · exact Nat.lt_trans h (by decide)
  · exact h.2

theorem encodeChar_eq (c : Char) : String.utf8EncodeChar c =
    UInt8.ofNat (lead c.toNat) :: tail (width c.toNat) c.toNat := by
  have bound := toNat_lt c
  unfold Char.toNat at *
  unfold String.utf8EncodeChar lead width
  dsimp only
  generalize c.val.toNat = n at *
  split_ifs with h1 h2 h3
  · rfl
  · rw [Nat.mod_eq_of_lt (show n / 64 < 32 by omega)]
    rfl
  · rw [Nat.mod_eq_of_lt (show n / 4096 < 16 by omega)]
    rfl
  · rw [Nat.mod_eq_of_lt (show n / 262144 < 8 by omega)]
    have h : n / 64 / 64 = n / 4096 := Nat.div_div_eq_div_mul n 64 64
    simp only [tail, h, low, List.nil_append, List.cons_append]

theorem lead_lt (hn : n < 0x110000) : lead n < 256 := by
  unfold lead
  split_ifs <;> omega

/-- Greater characters have greater first bytes, or else as many bytes and greater lowest bits. -/
theorem lead_lt_lead (h : m < n) : lead m < lead n ∨
    lead m = lead n ∧ width m = width n ∧ m % 64 ^ width m < n % 64 ^ width m := by
  unfold lead width
  split_ifs <;> omega

theorem low_lt_low (h : m % 64 < n % 64) : low m < low n := by
  rw [UInt8.lt_iff_toNat_lt, low, low, UInt8.toNat_ofNat', UInt8.toNat_ofNat']
  omega

theorem mod_pow_succ (k n : Nat) : n % 64 ^ (k + 1) = n % 64 + 64 * (n / 64 % 64 ^ k) := by
  rw [Nat.pow_succ', Nat.mod_mul]

theorem tail_congr (h : m % 64 ^ k = n % 64 ^ k) : tail k m = tail k n := by
  induction k generalizing m n with
  | zero => rfl
  | succ k ih =>
    rw [mod_pow_succ, mod_pow_succ] at h
    have last : m % 64 = n % 64 := by omega
    have others : m / 64 % 64 ^ k = n / 64 % 64 ^ k := by omega
    rw [tail, tail, ih others, low, low, last]

theorem tail_lt_tail (h : m % 64 ^ k < n % 64 ^ k) (s t : List UInt8) :
    tail k m ++ s < tail k n ++ t := by
  induction k generalizing m n s t with
  | zero => simp [Nat.mod_one] at h
  | succ k ih =>
    rw [mod_pow_succ, mod_pow_succ] at h
    rw [tail, tail, List.append_assoc, List.append_assoc]
    rcases Nat.lt_or_ge (m / 64 % 64 ^ k) (n / 64 % 64 ^ k) with hlt | hge
    · exact ih hlt _ _
    · rw [tail_congr (show m / 64 % 64 ^ k = n / 64 % 64 ^ k by omega)]
      apply List.append_left_lt
      exact List.cons_lt_cons_iff.mpr (.inl (low_lt_low (by omega)))

theorem encodeChar_lt {c e : Char} (h : c < e) (s t : List UInt8) :
    String.utf8EncodeChar c ++ s < String.utf8EncodeChar e ++ t := by
  rw [encodeChar_eq, encodeChar_eq, List.cons_append, List.cons_append, List.cons_lt_cons_iff]
  rcases lead_lt_lead (show c.toNat < e.toNat from h) with hlt | ⟨heq, hwidth, hlow⟩
  · left
    rw [UInt8.lt_iff_toNat_lt, UInt8.toNat_ofNat', UInt8.toNat_ofNat',
      Nat.mod_eq_of_lt (lead_lt (toNat_lt c)), Nat.mod_eq_of_lt (lead_lt (toNat_lt e))]
    exact hlt
  · rw [heq, ← hwidth]
    exact .inr ⟨rfl, tail_lt_tail hlow s t⟩

/-- The bytes of a text. -/
def bytes (s : String) : List UInt8 := s.toUTF8.data.toList

theorem bytes_eq (s : String) : bytes s = s.toList.flatMap String.utf8EncodeChar := by
  rw [bytes, String.toUTF8_eq_toByteArray, ← String.utf8Encode_toList, List.utf8Encode,
    List.toList_data_toByteArray]

theorem encode_lt {s t : List Char} (h : s < t) :
    s.flatMap String.utf8EncodeChar < t.flatMap String.utf8EncodeChar := by
  induction s generalizing t with
  | nil =>
    cases t with
    | nil => exact absurd h (List.lt_irrefl [])
    | cons e t =>
      rw [List.flatMap_cons, encodeChar_eq]
      exact List.nil_lt_cons _ _
  | cons c s ih =>
    cases t with
    | nil => exact absurd h (List.not_lt_nil _)
    | cons e t =>
      rw [List.flatMap_cons, List.flatMap_cons]
      rcases List.cons_lt_cons_iff.mp h with hlt | ⟨rfl, hrest⟩
      · exact encodeChar_lt hlt _ _
      · exact List.append_left_lt (ih hrest)

/-- Characters are ordered as they are encoded, so texts are ordered as their bytes. -/
theorem lt_iff_bytes_lt (s t : String) : s < t ↔ bytes s < bytes t := by
  have encoded {s t : String} (h : s < t) : bytes s < bytes t := by
    rw [bytes_eq, bytes_eq]
    exact encode_lt h
  refine ⟨encoded, fun h => ?_⟩
  by_cases hst : s < t
  · exact hst
  · by_cases hts : t < s
    · exact absurd h (List.lt_asymm (encoded hts))
    · obtain rfl := String.le_antisymm (String.not_lt.mp hts) (String.not_lt.mp hst)
      exact absurd h (List.lt_irrefl _)

end Utf8

/-- In a list in order, as many members are less as stand before. -/
theorem countP_lt_of_getElem? {l : List String} (h : l.Pairwise (· < ·)) {i : Nat} {name : String}
    (hi : l[i]? = some name) : l.countP (· < name) = i := by
  obtain ⟨hlt, rfl⟩ := List.getElem?_eq_some_iff.mp hi
  rw [← List.take_append_drop i l, List.drop_eq_getElem_cons hlt, List.pairwise_append,
    List.pairwise_cons] at h
  obtain ⟨-, ⟨later, -⟩, earlier⟩ := h
  have all : (l.take i).countP (· < l[i]) = i := by
    rw [List.countP_eq_length.mpr, List.length_take, Nat.min_eq_left hlt.le]
    exact fun key hkey => decide_eq_true (earlier key hkey _ List.mem_cons_self)
  have none : (l[i] :: l.drop (i + 1)).countP (· < l[i]) = 0 := by
    simp only [List.countP_eq_zero, List.forall_mem_cons, decide_eq_true_eq]
    exact ⟨String.lt_irrefl _, fun key hkey => String.lt_asymm (later key hkey)⟩
  rw [← List.drop_eq_getElem_cons hlt] at none
  calc l.countP (· < l[i])
    _ = (l.take i ++ l.drop i).countP (· < l[i]) := by rw [List.take_append_drop]
    _ = i := by rw [List.countP_append, all, none, Nat.add_zero]

namespace NamedValues

variable {values : NamedValues} {name : String} {i : Nat}

/-- The place of a name among the names in the order of their bytes, counted from 1. -/
def rank (values : NamedValues) (name : String) : Nat :=
  1 + values.keys.countP fun key => Utf8.bytes key < Utf8.bytes name

theorem rank_of_getElem? (h : values.keys[i]? = some name) : values.rank name = i + 1 := by
  have order : (fun key => decide (Utf8.bytes key < Utf8.bytes name)) = (decide <| · < name) := by
    funext key
    simp only [Utf8.lt_iff_bytes_lt]
  rw [rank, order, countP_lt_of_getElem? values.pairwise_keys h, Nat.add_comm]

theorem getElem?_values (h : values.keys[i]? = some name) : values.values[i]? = values[name]? := by
  rw [← Std.TreeMap.map_fst_toList_eq_keys, List.getElem?_map, Option.map_eq_some_iff] at h
  obtain ⟨⟨key, v⟩, hfield, rfl⟩ := h
  have hget := Std.TreeMap.mem_toList_iff_getElem?_eq_some.mp (List.mem_of_getElem? hfield)
  rw [values_eq, List.getElem?_map, hfield, hget]
  rfl

end NamedValues

namespace Positional

variable {values : NamedValues} {name : String}

/-- The number of a name is its place in the order of the names. -/
theorem ranks_of_getElem? {i : Nat} (h : values.keys[i]? = some name) :
    (ranks values)[name]? = some (i + 1) := by
  refine Std.TreeMap.getElem?_ofList_of_mem Std.ReflCmp.compare_self ?_ ?_
  · rw [List.pairwise_iff_getElem]
    intro j k hj hk hjk heq
    have lt := List.pairwise_iff_getElem.mp values.pairwise_keys j k (by simpa using hj)
      (by simpa using hk) hjk
    simp only [List.getElem_zipIdx] at heq
    rw [Std.LawfulEqCmp.eq_of_compare heq] at lt
    exact String.lt_irrefl _ lt
  · rw [List.mk_mem_zipIdx_iff_le_and_getElem?_sub]
    simp [h]

theorem ranks_eq (values : NamedValues) (name : String) :
    (ranks values)[name]? = if name ∈ values then some (values.rank name) else none := by
  split
  next h =>
    obtain ⟨i, hi⟩ := List.mem_iff_getElem?.mp (Std.TreeMap.mem_keys.mpr h)
    rw [ranks_of_getElem? hi, NamedValues.rank_of_getElem? hi]
  next h =>
    apply Std.TreeMap.getElem?_ofList_of_contains_eq_false
    simpa [List.zipIdx_map_fst, Std.TreeMap.mem_keys] using h

end Positional
end FilterSql
