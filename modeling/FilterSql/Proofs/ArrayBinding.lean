import FilterSql.Proofs.BigEndian
import FilterSql.Proofs.FirstError
import Mathlib

/-! Arrays as parameters: a reader of their layout takes out what each item writes on its own. -/
namespace FilterSql.Wire

variable {items : List Value} {type element : ParamType}

/-- A reader takes its part off the front of some bytes, or refuses them. -/
abbrev ByteReader (α : Type) := StateT (List UInt8) Option α

/-- What an array of one dimension tells: whether it has nulls, the number of the type of its
items, how many there are, the index of the first one, and the bytes of each, `none` for null. -/
structure ArrayForm where
  hasNull : Bool
  element : Nat
  count : Nat
  lowerBound : Int
  items : List (Option (List UInt8))

/-- The form of an array with the given bytes of its items. -/
def ArrayForm.ofEntries (type element : ParamType) (entries : List (Option (List UInt8))) :
    ArrayForm where
  hasNull := entries.any Option.isNone
  element := element.id.toNat
  count := entries.length
  lowerBound := type.lowerBound
  items := entries

/-! The layout of an array, by a reader of it. -/
namespace ByteReader

def take (count : Nat) : ByteReader (List UInt8) := fun bytes =>
  if count ≤ bytes.length then some (bytes.take count, bytes.drop count) else none

def int32 : ByteReader Int := signed <$> take 4

def uint32 : ByteReader Nat := unsigned <$> take 4

/-- The number of dimensions, which has to be one. -/
def oneDimension : ByteReader Unit := do
  if (← int32) = 1 then return () else failure

def flag : ByteReader Bool := do
  match ← int32 with
  | 0 => return false
  | 1 => return true
  | _ => failure

def count : ByteReader Nat := do
  let n ← int32
  if 0 ≤ n then return n.toNat else failure

/-- The bytes of an item behind their number; the number -1 stands for null. -/
def item : ByteReader (Option (List UInt8)) := do
  let length ← int32
  if length = -1 then return none
  else if 0 ≤ length then some <$> take length.toNat
  else failure

def itemsOf : Nat → ByteReader (List (Option (List UInt8)))
  | 0 => return []
  | count + 1 => do return (← item) :: (← itemsOf count)

/-- The head of an array, and its items. -/
def array : ByteReader ArrayForm := do
  oneDimension
  let hasNull ← flag
  let element ← uint32
  let count ← count
  let lowerBound ← int32
  return ⟨hasNull, element, count, lowerBound, ← itemsOf count⟩

end ByteReader

/-- Reads an array of one dimension that leaves nothing over. -/
def ArrayForm.read? (bytes : List UInt8) : Option ArrayForm :=
  match ByteReader.array.run bytes with
  | some (form, []) => some form
  | _ => none

/-! Each part is read off the front of what was written. -/
namespace ByteReader

variable {α β : Type} {bytes rest : List UInt8}

/-- A reader goes on behind the part that the one before it took. -/
theorem run_then {reader : ByteReader α} {next : α → ByteReader β} {a : α}
    (h : reader.run bytes = some (a, rest)) : (reader >>= next).run bytes = (next a).run rest := by
  rw [StateT.run_bind, h]
  rfl

theorem run_take (bytes rest : List UInt8) :
    (take bytes.length).run (bytes ++ rest) = some (bytes, rest) := by
  simp [take, StateT.run]

theorem run_take_bigEndian (width : Nat) (n : Int) (rest : List UInt8) :
    (take width).run (bigEndian width n ++ rest) = some (bigEndian width n, rest) := by
  have front := run_take (bigEndian width n) rest
  rwa [length_bigEndian] at front

theorem run_int32 {n : Int} (h : Fits 4 n) :
    int32.run (bigEndian 4 n ++ rest) = some (n, rest) := by
  rw [int32, StateT.run_map, run_take_bigEndian, Option.map_eq_map, Option.map_some,
    signed_bigEndian (by decide) h]

theorem run_uint32 (n : UInt32) :
    uint32.run (bigEndian 4 (n.toNat : Int) ++ rest) = some (n.toNat, rest) := by
  have small : (n.toNat : Int) < 256 ^ 4 := by
    have := n.toNat_lt
    norm_num
    omega
  have number := unsigned_bigEndian_of_lt (Int.natCast_nonneg _) small
  rw [uint32, StateT.run_map, run_take_bigEndian, Option.map_eq_map, Option.map_some,
    Nat.cast_inj.mp number]

theorem run_oneDimension : oneDimension.run (bigEndian 4 1 ++ rest) = some ((), rest) := by
  rw [oneDimension, run_then (run_int32 (by decide))]
  rfl

theorem run_flag (b : Bool) :
    flag.run (bigEndian 4 (if b then 1 else 0) ++ rest) = some (b, rest) := by
  cases b with
  | false =>
    rw [flag, run_then (run_int32 (by decide))]
    rfl
  | true =>
    rw [flag, run_then (run_int32 (by decide))]
    rfl

theorem run_count {n : Nat} (h : n < 2 ^ 31) :
    count.run (bigEndian 4 (n : Int) ++ rest) = some (n, rest) := by
  rw [count, run_then (run_int32 (fits_iff_lt.mpr h))]
  simp [Int.natCast_nonneg n]

theorem run_item {entry : Option (List UInt8)}
    (h : ∀ bytes, entry = some bytes → bytes.length < 2 ^ 31) (rest : List UInt8) :
    item.run (framed entry ++ rest) = some (entry, rest) := by
  cases entry with
  | none =>
    rw [item, framed, run_then (run_int32 (by decide))]
    rfl
  | some bytes =>
    rw [item, framed, List.append_assoc, run_then (run_int32 (fits_iff_lt.mpr (h bytes rfl)))]
    have notNull : (bytes.length : Int) ≠ -1 := by omega
    simp [notNull, Int.natCast_nonneg bytes.length, run_take]

theorem run_itemsOf {entries : List (Option (List UInt8))}
    (h : ∀ bytes, some bytes ∈ entries → bytes.length < 2 ^ 31) (rest : List UInt8) :
    (itemsOf entries.length).run (entries.flatMap framed ++ rest) = some (entries, rest) := by
  induction entries with
  | nil => rfl
  | cons entry entries ih =>
    have first : ∀ bytes, entry = some bytes → bytes.length < 2 ^ 31 :=
      fun bytes hbytes => h bytes (hbytes ▸ List.mem_cons_self)
    have others := ih fun bytes hbytes => h bytes (List.mem_cons_of_mem entry hbytes)
    rw [List.length_cons, itemsOf, List.flatMap_cons, List.append_assoc,
      run_then (run_item first _), run_then others]
    rfl

theorem fits_lowerBound (type : ParamType) : Fits 4 type.lowerBound := by
  unfold ParamType.lowerBound
  split <;> decide

/-- The form of an array is read back from its bytes. -/
theorem run_array {entries : List (Option (List UInt8))} (hcount : entries.length < 2 ^ 31)
    (h : ∀ bytes, some bytes ∈ entries → bytes.length < 2 ^ 31) :
    array.run (arrayBytes type element entries) = some (.ofEntries type element entries, []) := by
  have items := run_itemsOf h []
  rw [List.append_nil] at items
  simp only [arrayBytes, List.append_assoc]
  rw [array, run_then run_oneDimension, run_then (run_flag _), run_then (run_uint32 _),
    run_then (run_count hcount), run_then (run_int32 (fits_lowerBound type)), run_then items]
  rfl

end ByteReader

/-! An array is what its items are on their own. -/

/-- A value as an item of an array: its length has to be told as well. -/
def asItem (element : ParamType) (v : Value) : Except BindError (Option (List UInt8)) :=
  encode v element >>= sendable

theorem asItem_eq_ok_iff {v : Value} {entry : Option (List UInt8)} :
    asItem element v = .ok entry ↔ encode v element = .ok entry ∧
      ∀ bytes, entry = some bytes → bytes.length < 2 ^ 31 := by
  have told : Fits 4 (entry.elim 0 List.length : Nat) ↔
      ∀ bytes, entry = some bytes → bytes.length < 2 ^ 31 := by
    rw [fits_iff_lt]
    cases entry <;> simp
  rw [asItem, Except.bind_eq_ok]
  constructor
  · rintro ⟨out, hout, hsendable⟩
    obtain ⟨length, hlength, rfl⟩ := Except.map_eq_ok.mp hsendable
    exact ⟨hout, told.mp (sent_eq_ok_iff.mp hlength).1⟩
  · rintro ⟨hout, hsmall⟩
    exact ⟨entry, hout, Except.map_eq_ok.mpr ⟨_, sent_of_fits (told.mpr hsmall), rfl⟩⟩

theorem asItem_of_small {v : Value}
    (h : ∀ bytes, encode v element = .ok (some bytes) → bytes.length < 2 ^ 31) :
    asItem element v = encode v element := by
  cases hv : encode v element with
  | error e =>
    rw [asItem, hv]
    rfl
  | ok entry => exact asItem_eq_ok_iff.mpr ⟨hv, fun bytes hbytes => h bytes (hbytes ▸ hv)⟩

theorem encodeAll_eq_mapM (items : List Value) (element : ParamType) :
    encodeAll items element = items.mapM (asItem element) := by
  induction items with
  | nil => rfl
  | cons v items ih =>
    rw [encodeAll, ih, List.mapM_cons]
    rfl

theorem asJson?_of_element? (h : type.element? = some element) (v : Value) :
    asJson? v type = none := by
  cases type with
  | base t => cases h
  | _ => rfl

/-- The number of items is checked before all of them. -/
theorem encode_array (h : type.element? = some element) (items : List Value) :
    encode (.array items) type = sent 4 (items.length : Nat) >>= fun _ =>
      (some <| arrayBytes type element ·) <$> items.mapM (asItem element) := by
  rw [← encodeAll_eq_mapM, encode, asJson?_of_element? h, h, map_eq_pure_bind]

theorem encode_array_of_lt (h : type.element? = some element) (hcount : items.length < 2 ^ 31) :
    encode (.array items) type =
      (some <| arrayBytes type element ·) <$> items.mapM (asItem element) := by
  rw [encode_array h, sent_of_fits (fits_iff_lt.mpr hcount)]
  rfl

theorem encode_array_of_le (h : type.element? = some element) (hcount : 2 ^ 31 ≤ items.length) :
    encode (.array items) type = .error .unsendable := by
  rw [encode_array h, sent_of_not_fits (mt fits_iff_lt.mp (Nat.not_lt.mpr hcount))]
  rfl

theorem encode_other {v : Value} (hnull : v ≠ .null) (harray : ∀ items, v ≠ .array items) :
    encode v type = match asJson? v type with
      | some bytes => .ok (some bytes)
      | none => some <$> scalar v type := by
  cases v with
  | null => exact absurd rfl hnull
  | array items => exact absurd rfl (harray items)
  | _ => rfl

/-- Only null has no bytes. -/
theorem encode_eq_none_iff {v : Value} : encode v type = .ok none ↔ v = .null := by
  constructor
  · intro h
    by_contra hnull
    by_cases harray : ∃ items, v = .array items
    · obtain ⟨items, rfl⟩ := harray
      rw [encode] at h
      split at h
      next => cases h
      next =>
        obtain ⟨_, -, h⟩ := Except.bind_eq_ok.mp h
        obtain ⟨_, -, h⟩ := Except.bind_eq_ok.mp h
        cases h
      next => cases h
    · rw [encode_other hnull (not_exists.mp harray)] at h
      split at h
      next => cases h
      next =>
        obtain ⟨_, -, h⟩ := Except.map_eq_ok.mp h
        cases h
  · rintro rfl
    rw [encode]

/-- A type that is neither one of arrays nor JSON has no form of an array. -/
theorem encode_array_of_none (h : type.element? = none)
    (hjson : type ∉ [.base .json, .base .jsonb]) :
    encode (.array items) type = .error (.notArray type) := by
  have other : asJson? (.array items) type = none := by
    unfold asJson?
    split <;> simp_all
  rw [encode, other, h]

/-- What the form of an array tells about the items that were bound. -/
structure ArrayForm.Tells (form : ArrayForm) (items : List Value) (type element : ParamType) :
    Prop where
  hasNull : form.hasNull = true ↔ ∃ v ∈ items, encode v element = .ok none
  elementId : form.element = element.id.toNat
  count : form.count = items.length
  lowerBound : form.lowerBound = type.lowerBound
  entries : List.Forall₂ (fun v entry => encode v element = .ok entry) items form.items
  nulls : List.Forall₂ (fun v entry => entry = none ↔ v = Value.null) items form.items

theorem tells_of_forall₂ {entries : List (Option (List UInt8))}
    (h : List.Forall₂ (fun v entry => encode v element = .ok entry) items entries) :
    (ArrayForm.ofEntries type element entries).Tells items type element where
  hasNull := by
    rw [← Except.mem_iff_of_forall₂ h, ArrayForm.ofEntries, List.any_eq_true]
    simp
  elementId := rfl
  count := h.length_eq.symm
  lowerBound := rfl
  entries := h
  nulls := h.imp fun v entry hentry => by
    rw [← encode_eq_none_iff, hentry, Except.ok.injEq]

/-- An array is bound if and only if each of its items is, and their number can be told. -/
theorem isOk_encode_array_iff (h : type.element? = some element) :
    (∃ out, encode (.array items) type = .ok out) ↔ items.length < 2 ^ 31 ∧
      ∀ v ∈ items, ∃ entry, asItem element v = .ok entry := by
  rcases Nat.lt_or_ge items.length (2 ^ 31) with hcount | hcount
  · rw [and_iff_right hcount, ← Except.isOk_mapM_iff, encode_array_of_lt h hcount]
    constructor
    · rintro ⟨out, hout⟩
      obtain ⟨entries, hentries, -⟩ := Except.map_eq_ok.mp hout
      exact ⟨entries, hentries⟩
    · rintro ⟨entries, hentries⟩
      exact ⟨_, Except.map_eq_ok.mpr ⟨entries, hentries, rfl⟩⟩
  · rw [encode_array_of_le h hcount]
    exact iff_of_false nofun fun told => Nat.not_lt.mpr hcount told.1

/-- Whatever is bound tells its items: what four bytes do not tell has been refused. -/
theorem exists_form_of_encode_array (h : type.element? = some element)
    {out : Option (List UInt8)} (hout : encode (.array items) type = .ok out) :
    ∃ bytes form, out = some bytes ∧ ArrayForm.read? bytes = some form ∧
      form.Tells items type element := by
  obtain ⟨hcount, -⟩ := (isOk_encode_array_iff h).mp ⟨out, hout⟩
  rw [encode_array_of_lt h hcount] at hout
  obtain ⟨entries, hentries, rfl⟩ := Except.map_eq_ok.mp hout
  have each := Except.mapM_eq_ok_iff.mp hentries
  have alone : List.Forall₂ (fun v entry => encode v element = .ok entry) items entries :=
    each.imp fun _ _ hentry => (asItem_eq_ok_iff.mp hentry).1
  have small : ∀ bytes, some bytes ∈ entries → bytes.length < 2 ^ 31 := by
    intro bytes hbytes
    obtain ⟨v, -, hentry⟩ := (Except.mem_iff_of_forall₂ each).mp hbytes
    exact (asItem_eq_ok_iff.mp hentry).2 bytes rfl
  have count : entries.length < 2 ^ 31 := alone.length_eq ▸ hcount
  have read : ArrayForm.read? (arrayBytes type element entries) =
      some (.ofEntries type element entries) := by
    rw [ArrayForm.read?, ByteReader.run_array count small]
  exact ⟨_, _, rfl, read, tells_of_forall₂ alone⟩

/-- What becomes of an array that is bound to a type of arrays. It is bound if and only if each item
is bound on its own, and fails with the first one that fails; and what is written is read back as
what the items write on their own. -/
structure ArrayBound (items : List Value) (type element : ParamType) : Prop where
  accepted : (∃ out, encode (.array items) type = .ok out) ↔
    ∀ v ∈ items, ∃ out, encode v element = .ok out
  refused : ∀ e, encode (.array items) type = .error e ↔
    Except.FirstError (encode · element) items e
  framed : ∀ out, encode (.array items) type = .ok out → ∃ bytes form,
    out = some bytes ∧ ArrayForm.read? bytes = some form ∧ form.Tells items type element

/-- Arrays are bound to types of arrays item by item, and to no other type but those of JSON. -/
theorem array_framed (items : List Value) (type : ParamType) :
    (∀ element, type.element? = some element → items.length < 2 ^ 31 →
      (∀ v ∈ items, ∀ bytes, encode v element = .ok (some bytes) → bytes.length < 2 ^ 31) →
      ArrayBound items type element) ∧
    (type.element? = none → type ∉ [.base .json, .base .jsonb] →
      encode (.array items) type = .error (.notArray type)) := by
  refine ⟨fun element h hcount hsize => ?_, encode_array_of_none⟩
  have alone : ∀ v ∈ items, asItem element v = encode v element :=
    fun v hv => asItem_of_small (hsize v hv)
  exact {
    accepted := by
      rw [isOk_encode_array_iff h, and_iff_right hcount]
      exact forall₂_congr fun v hv => by rw [alone v hv]
    refused := fun e => by
      rw [encode_array_of_lt h hcount, Except.map_eq_error, Except.mapM_eq_error_iff,
        Except.firstError_congr alone]
    framed := fun out => exists_form_of_encode_array h }

/-- In an array of JSON an array is written as text, and a null between the items is told apart
from one inside of an item. In an array of integers the array inside is refused, although an item
behind it has no form either. -/
theorem array_framed_nested :
    (∃ bytes form, encode (.array [.array [.int 1, .null], .null])
        (.array "_json" 199 (.base .json)) = .ok (some bytes) ∧
      ArrayForm.read? bytes = some form ∧ form.hasNull = true ∧ form.count = 2) ∧
    encode (.array [.int 1, .array [.null], .bool true]) .int2vector =
      .error (.notArray (.base .int2)) ∧
    encode (.array []) (.base .int8) = .error (.notArray (.base .int8)) := by
  have text : encode (.array [.int 1, .null]) (.base .json) =
      .ok (some [91, 49, 44, 110, 117, 108, 108, 93]) := by cbv
  have small : ∀ v ∈ [.array [.int 1, .null], .null], ∀ bytes,
      encode v (.base .json) = .ok (some bytes) → bytes.length < 2 ^ 31 := by
    rw [List.forall_mem_cons, List.forall_mem_singleton, text]
    constructor
    · rintro _ ⟨⟩
      decide
    · rintro _ ⟨⟩
  have one : ∀ v ∈ [.int 1, .array [.null], .bool true], ∀ bytes,
      encode v (.base .int2) = .ok (some bytes) → bytes.length < 2 ^ 31 := by
    rw [List.forall_mem_cons, List.forall_mem_cons, List.forall_mem_singleton]
    refine ⟨?_, ?_, ?_⟩
    · rintro _ ⟨⟩
      decide
    · rintro _ ⟨⟩
    · rintro _ ⟨⟩
  refine ⟨?_, ?_, (array_framed [] (.base .int8)).2 rfl (by decide)⟩
  · have bound := (array_framed _ (.array "_json" 199 (.base .json))).1 _ rfl (by decide) small
    obtain ⟨out, hout⟩ := bound.accepted.mpr
      (List.forall_mem_cons.mpr ⟨⟨_, text⟩, List.forall_mem_singleton.mpr ⟨none, rfl⟩⟩)
    obtain ⟨bytes, form, rfl, hread, htells⟩ := bound.framed out hout
    exact ⟨bytes, form, hout, hread, htells.hasNull.mpr ⟨.null, by simp, rfl⟩, htells.count⟩
  · have bound := (array_framed _ .int2vector).1 _ rfl (by decide) one
    exact (bound.refused _).mpr ⟨[.int 1], .array [.null], [.bool true], rfl,
      List.forall_mem_singleton.mpr ⟨_, rfl⟩, rfl⟩

end FilterSql.Wire
