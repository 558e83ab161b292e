import FilterSql.Proofs.ByteOrder
import FilterSql.Proofs.PositionalText

/-! Quoted spans by offsets into the bytes of a text. -/
namespace FilterSql

namespace Utf8

variable {a b s t : String} {c : Char} {start stop : Nat}

/-- The text between two offsets, if both lie inside of the text and between its characters. -/
def slice? (s : String) (start stop : Nat) : Option String :=
  if h : String.Pos.Raw.IsValid s ⟨start⟩ ∧ String.Pos.Raw.IsValid s ⟨stop⟩ ∧ start ≤ stop then
    some (s.extract ⟨⟨start⟩, h.1⟩ ⟨⟨stop⟩, h.2.1⟩)
  else none

theorem length_bytes (s : String) : (bytes s).length = s.utf8ByteSize := by
  rw [← String.size_toByteArray]
  rfl

theorem slice?_append (a t b : String) : slice? (a ++ (t ++ b)) a.utf8ByteSize
    (a.utf8ByteSize + t.utf8ByteSize) = some t := by
  have first : String.Pos.Raw.IsValid (a ++ (t ++ b)) ⟨a.utf8ByteSize⟩ :=
    String.Pos.Raw.isValid_iff_exists_append.mpr ⟨a, t ++ b, rfl, rfl⟩
  have last : String.Pos.Raw.IsValid (a ++ (t ++ b)) ⟨a.utf8ByteSize + t.utf8ByteSize⟩ := by
    refine String.Pos.Raw.isValid_iff_exists_append.mpr ⟨a ++ t, b, String.append_assoc.symm, ?_⟩
    rw [← String.utf8ByteSize_append]
    rfl
  have before : a.toByteArray.extract a.utf8ByteSize (a.utf8ByteSize + t.utf8ByteSize) = .empty :=
    ByteArray.extract_eq_empty_iff.mpr (by simp)
  have inside : t.toByteArray.extract 0 t.utf8ByteSize = t.toByteArray := by
    rw [← String.size_toByteArray, ByteArray.extract_zero_size]
  rw [slice?, dif_pos ⟨first, last, Nat.le_add_right _ _⟩, Option.some.injEq,
    ← String.toByteArray_inj, String.toByteArray_extract]
  simp [ByteArray.extract_append, before, inside]

theorem slice?_front (t b : String) : slice? (t ++ b) 0 t.utf8ByteSize = some t := by
  simpa using slice?_append "" t b

theorem slice?_back (a t : String) :
    slice? (a ++ t) a.utf8ByteSize (a ++ t).utf8ByteSize = some t := by
  simpa using slice?_append a t ""

/-- Of two texts that start the same text the shorter one starts the longer one. -/
theorem exists_append_of_le (h : a ++ b = s ++ t) (hle : a.utf8ByteSize ≤ s.utf8ByteSize) :
    ∃ u, s = a ++ u := by
  have chars := congrArg String.toList h
  rw [String.toList_append, String.toList_append] at chars
  rcases List.append_eq_append_iff.mp chars with ⟨u, hs, -⟩ | ⟨u, ha, -⟩
  · refine ⟨.ofList u, ?_⟩
    rw [← String.toList_inj, hs, String.toList_append, String.toList_ofList]
  · have longer : a = s ++ .ofList u := by
      rw [← String.toList_inj, ha, String.toList_append, String.toList_ofList]
    have size := congrArg String.utf8ByteSize longer
    rw [String.utf8ByteSize_append] at size
    have none : String.ofList u = "" := String.utf8ByteSize_eq_zero_iff.mp (by omega)
    exact ⟨"", by rw [longer, none, String.append_empty, String.append_empty]⟩

/-- The offsets have to be those of a part of the text. -/
theorem slice?_eq_some_iff : slice? s start stop = some t ↔
    ∃ a b, s = a ++ (t ++ b) ∧ start = a.utf8ByteSize ∧ stop = start + t.utf8ByteSize := by
  constructor
  · intro h
    have valid : String.Pos.Raw.IsValid s ⟨start⟩ ∧ String.Pos.Raw.IsValid s ⟨stop⟩ ∧
        start ≤ stop := by
      unfold slice? at h
      split at h
      next hvalid => exact hvalid
      next => cases h
    obtain ⟨hstart, hstop, hle⟩ := valid
    obtain ⟨a, rest, rfl, first⟩ := String.Pos.Raw.isValid_iff_exists_append.mp hstart
    obtain ⟨front, b, hfront, last⟩ := String.Pos.Raw.isValid_iff_exists_append.mp hstop
    obtain rfl : start = a.utf8ByteSize := congrArg String.Pos.Raw.byteIdx first
    obtain rfl : stop = front.utf8ByteSize := congrArg String.Pos.Raw.byteIdx last
    obtain ⟨part, rfl⟩ := exists_append_of_le hfront hle
    rw [String.append_assoc] at hfront
    rw [hfront, String.utf8ByteSize_append, slice?_append] at h
    obtain rfl := Option.some.inj h
    exact ⟨a, b, hfront, rfl, String.utf8ByteSize_append⟩
  · rintro ⟨a, b, rfl, rfl, rfl⟩
    exact slice?_append a t b

/-! A quote is one byte that is no part of another character. -/

theorem le_of_mem_tail {k n : Nat} {b : UInt8} (h : b ∈ tail k n) : 128 ≤ b.toNat := by
  induction k generalizing n with
  | zero => cases h
  | succ k ih =>
    rcases List.mem_append.mp h with h | h
    · exact ih h
    · rw [List.mem_singleton.mp h, low, UInt8.toNat_ofNat']
      omega

/-- A byte below 128 is in the encoding of no character but its own. -/
theorem notMem_encodeChar {b : UInt8} (hb : b.toNat < 128) (h : c.toNat ≠ b.toNat) :
    b ∉ String.utf8EncodeChar c := by
  rw [encodeChar_eq, List.mem_cons]
  rintro (hlead | htail)
  · have byte := congrArg UInt8.toNat hlead
    rw [UInt8.toNat_ofNat', Nat.mod_eq_of_lt (lead_lt (toNat_lt c))] at byte
    unfold lead at byte
    split_ifs at byte <;> omega
  · have := le_of_mem_tail htail
    omega

end Utf8

/-! The end of a span. -/
namespace Positional

/-- Looks for the byte that closes a span, from an offset on; two of them in a row are passed over.
The result is the offset behind it. -/
def closing? (bytes : List UInt8) (quote : UInt8) (i : Nat) : Option Nat :=
  if h : i < bytes.length then
    if bytes[i] = quote then
      if bytes[i + 1]? = some quote then closing? bytes quote (i + 2) else some (i + 1)
    else closing? bytes quote (i + 1)
  else none
  termination_by bytes.length - i

/-- How many bytes the span has that starts a text, both quotes included. -/
def spanBytes? (text : String) (quote : UInt8) : Option Nat := closing? (Utf8.bytes text) quote 1

section Closing

variable {bytes front rest : List UInt8} {quote b : UInt8} {i n : Nat}

theorem closing?_bounds (h : closing? bytes quote i = some n) : i < n ∧ n ≤ bytes.length := by
  induction i using closing?.induct bytes quote with
  | case1 i hi heq hdouble ih =>
    rw [closing?, dif_pos hi, if_pos heq, if_pos hdouble] at h
    obtain ⟨_, _⟩ := ih h
    omega
  | case2 i hi heq hdouble =>
    rw [closing?, dif_pos hi, if_pos heq, if_neg hdouble] at h
    obtain rfl := Option.some.inj h
    omega
  | case3 i hi hne ih =>
    rw [closing?, dif_pos hi, if_neg hne] at h
    obtain ⟨_, _⟩ := ih h
    omega
  | case4 i hi =>
    rw [closing?, dif_neg hi] at h
    cases h

/-- Another byte is passed over. -/
theorem closing?_of_ne (hb : b ≠ quote) : closing? (front ++ b :: rest) quote front.length =
    closing? (front ++ b :: rest) quote (front.length + 1) := by
  rw [closing?, dif_pos (by simp), if_neg (by simpa using hb)]

theorem closing?_doubled : closing? (front ++ quote :: quote :: rest) quote front.length =
    closing? (front ++ quote :: quote :: rest) quote (front.length + 2) := by
  rw [closing?, dif_pos (by simp), if_pos (by simp), if_pos (by simp)]

theorem closing?_close (hrest : rest.head? ≠ some quote) :
    closing? (front ++ quote :: rest) quote front.length = some (front.length + 1) := by
  have single : (front ++ quote :: rest)[front.length + 1]? ≠ some quote := by
    rw [List.head?_eq_getElem?] at hrest
    rw [List.getElem?_append_right (Nat.le_succ _)]
    simpa using hrest
  rw [closing?, dif_pos (by simp), if_pos (by simp), if_neg single]

theorem closing?_end : closing? bytes quote bytes.length = none := by
  rw [closing?, dif_neg (Nat.lt_irrefl _)]

theorem closing?_skip {mid : List UInt8} (h : quote ∉ mid) (front : List UInt8) :
    closing? (front ++ (mid ++ rest)) quote front.length =
      closing? (front ++ (mid ++ rest)) quote (front.length + mid.length) := by
  induction mid generalizing front with
  | nil => rfl
  | cons b mid ih =>
    obtain ⟨hb, hmid⟩ : quote ≠ b ∧ quote ∉ mid := by simpa using h
    have step := @closing?_of_ne front (mid ++ rest) quote b hb.symm
    have behind := ih hmid (front ++ [b])
    simp only [List.append_assoc, List.singleton_append, List.length_append,
      List.length_singleton] at behind
    rw [List.cons_append, step, behind, List.length_cons]
    congr 1
    omega

end Closing

section Quote

variable {q c : Char} {text rest : List Char}

/-- The byte of a quote. -/
def quoteByte (q : Char) : UInt8 := UInt8.ofNat q.toNat

theorem quote_cases (hq : isQuote q = true) : q = '\x60' ∨ q = '\x27' ∨ q = '\x22' := by
  simpa [isQuote, or_assoc] using hq

theorem encodeChar_quote (hq : isQuote q = true) : String.utf8EncodeChar q = [quoteByte q] := by
  rcases quote_cases hq with rfl | rfl | rfl <;> rfl

theorem quoteByte_notMem (hq : isQuote q = true) (hc : c ≠ q) :
    quoteByte q ∉ String.utf8EncodeChar c := by
  have single : (quoteByte q).toNat = q.toNat ∧ q.toNat < 128 := by
    rcases quote_cases hq with rfl | rfl | rfl <;> decide
  refine Utf8.notMem_encodeChar (by omega) ?_
  rw [single.1]
  exact fun h => hc (Char.toNat_inj.mp h)

/-- The bytes of some characters. -/
abbrev encode (s : List Char) : List UInt8 := s.flatMap String.utf8EncodeChar

theorem head?_encode (hq : isQuote q = true) (h : rest.head? ≠ some q) :
    (encode rest).head? ≠ some (quoteByte q) := by
  cases rest with
  | nil => nofun
  | cons c rest =>
    have hc : c ≠ q := by simpa using h
    have first := quoteByte_notMem hq hc
    rw [encode, List.flatMap_cons, Utf8.encodeChar_eq] at *
    intro hhead
    have lead := Option.some.inj hhead
    exact first (lead ▸ List.mem_cons_self)

/-- A text whose quotes are doubled is passed over. -/
theorem closing?_double (hq : isQuote q = true) (text : List Char) (front rest : List UInt8) :
    closing? (front ++ (encode (Quoted.double q text) ++ rest)) (quoteByte q) front.length =
      closing? (front ++ (encode (Quoted.double q text) ++ rest)) (quoteByte q)
        (front.length + (encode (Quoted.double q text)).length) := by
  induction text generalizing front with
  | nil => rfl
  | cons c text ih =>
    by_cases hc : c = q
    · subst hc
      have code : encode (Quoted.double c (c :: text)) =
          quoteByte c :: quoteByte c :: encode (Quoted.double c text) := by
        simp [Quoted.double_cons, encode, encodeChar_quote hq]
      have behind := ih (front ++ [quoteByte c, quoteByte c])
      simp only [List.append_assoc, List.cons_append, List.nil_append, List.length_append,
        List.length_cons, List.length_nil] at behind
      rw [code, List.cons_append, List.cons_append, closing?_doubled, behind]
      congr 1
      simp only [List.length_cons]
      omega
    · have code : encode (Quoted.double q (c :: text)) =
          String.utf8EncodeChar c ++ encode (Quoted.double q text) := by
        simp [Quoted.double_cons, hc, encode]
      have behind := ih (front ++ String.utf8EncodeChar c)
      rw [List.append_assoc, List.length_append] at behind
      rw [code, List.append_assoc, closing?_skip (quoteByte_notMem hq hc), behind]
      congr 1
      simp only [List.length_append]
      omega

theorem bytes_ofList (s : List Char) : Utf8.bytes (.ofList s) = encode s := by
  rw [Utf8.bytes_eq, String.toList_ofList]

theorem spanBytes?_enclose (hq : isQuote q = true) (hrest : rest.head? ≠ some q)
    (text : List Char) : spanBytes? (.ofList (Quoted.enclose q text ++ rest)) (quoteByte q) =
      some (String.ofList (Quoted.enclose q text)).utf8ByteSize := by
  have code : encode (Quoted.enclose q text ++ rest) =
      [quoteByte q] ++ (encode (Quoted.double q text) ++ (quoteByte q :: encode rest)) := by
    simp [Quoted.enclose, encode, encodeChar_quote hq]
  have size : (String.ofList (Quoted.enclose q text)).utf8ByteSize =
      ([quoteByte q] ++ encode (Quoted.double q text)).length + 1 := by
    rw [← Utf8.length_bytes, bytes_ofList]
    simp [Quoted.enclose, encode, encodeChar_quote hq]
  have skipped := closing?_double hq text [quoteByte q] (quoteByte q :: encode rest)
  have closed := @closing?_close ([quoteByte q] ++ encode (Quoted.double q text)) (encode rest)
    (quoteByte q) (head?_encode hq hrest)
  rw [List.append_assoc, List.length_append] at closed
  rw [spanBytes?, bytes_ofList, code, size, List.length_append]
  exact skipped.trans closed

theorem utf8ByteSize_quote (hq : isQuote q = true) : (String.ofList [q]).utf8ByteSize = 1 := by
  rw [← Utf8.length_bytes, bytes_ofList, encode, List.flatMap_singleton, encodeChar_quote hq]
  rfl

/-- Between the two quotes of a span. -/
theorem slice?_enclose (hq : isQuote q = true) (text : List Char) :
    Utf8.slice? (.ofList (Quoted.enclose q text)) 1
      ((String.ofList (Quoted.enclose q text)).utf8ByteSize - 1) =
      some (.ofList (Quoted.double q text)) := by
  have span : String.ofList (Quoted.enclose q text) =
      .ofList [q] ++ (.ofList (Quoted.double q text) ++ .ofList [q]) := by
    rw [← String.ofList_append, ← String.ofList_append]
    rfl
  have size : (String.ofList (Quoted.enclose q text)).utf8ByteSize - 1 =
      (String.ofList [q]).utf8ByteSize + (String.ofList (Quoted.double q text)).utf8ByteSize := by
    rw [span, String.utf8ByteSize_append, String.utf8ByteSize_append, utf8ByteSize_quote hq]
    omega
  have body := Utf8.slice?_append (.ofList [q]) (.ofList (Quoted.double q text)) (.ofList [q])
  rw [← size, ← span, utf8ByteSize_quote hq] at body
  exact body

/-- Without a closing quote all quotes are doubled. -/
theorem spanBytes?_unclosed (hq : isQuote q = true) (h : Quoted.bodyLength? q rest = none) :
    spanBytes? (.ofList (q :: rest)) (quoteByte q) = none := by
  obtain ⟨text, rfl⟩ := Quoted.exists_double_of_none h
  have code : encode (q :: Quoted.double q text) =
      [quoteByte q] ++ (encode (Quoted.double q text) ++ []) := by
    simp [encode, encodeChar_quote hq]
  have skipped := closing?_double hq text [quoteByte q] []
  have length : [quoteByte q].length + (encode (Quoted.double q text)).length =
      ([quoteByte q] ++ (encode (Quoted.double q text) ++ [])).length := by
    rw [List.append_nil, List.length_append]
  rw [spanBytes?, bytes_ofList, code]
  refine skipped.trans ?_
  rw [length, closing?_end]

end Quote

end Positional
end FilterSql
