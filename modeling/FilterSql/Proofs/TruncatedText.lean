import FilterSql.Compiler
import FilterSql.Proofs.ByteSpans
import Mathlib.Data.Nat.Find

/-! Statements cut off for the log: what is left is the longest start that fits into so many bytes,
no character of it cut in two. -/
namespace FilterSql

namespace Utf8

variable {text : String} {c : Char} {s : List Char} {b : UInt8} {i k n : Nat}

/-- A byte that starts a character. -/
def starts (b : UInt8) : Bool := b.toNat < 0x80 || 0xc0 ≤ b.toNat

/-- An offset that cuts no character in two, as the byte behind it tells. -/
def atBoundary (text : String) (i : Nat) : Bool :=
  i = 0 ||
    match (bytes text)[i]? with
    | some b => starts b
    | none => i = text.utf8ByteSize

theorem lt_of_mem_tail (h : b ∈ tail k n) : b.toNat < 0xc0 := by
  induction k generalizing n with
  | zero => cases h
  | succ k ih =>
    rcases List.mem_append.mp h with h | h
    · exact ih h
    · rw [List.mem_singleton.mp h, low, UInt8.toNat_ofNat']
      omega

theorem starts_of_mem_tail (h : b ∈ tail k n) : starts b = false := by
  have := le_of_mem_tail h
  have := lt_of_mem_tail h
  simp only [starts, Bool.or_eq_false_iff, decide_eq_false_iff_not]
  omega

theorem starts_lead (c : Char) : starts (UInt8.ofNat (lead c.toNat)) = true := by
  have byte : (UInt8.ofNat (lead c.toNat)).toNat = lead c.toNat := by
    rw [UInt8.toNat_ofNat', Nat.mod_eq_of_lt (lead_lt (toNat_lt c))]
  simp only [starts, byte, Bool.or_eq_true, decide_eq_true_eq]
  unfold lead
  split_ifs <;> omega

/-- Inside of a character the next byte starts none. -/
theorem starts_inside {e : UInt8} (h : (String.utf8EncodeChar c)[i]? = some e) (hi : i ≠ 0) :
    starts e = false := by
  obtain ⟨j, rfl⟩ := Nat.exists_eq_succ_of_ne_zero hi
  rw [encodeChar_eq, List.getElem?_cons_succ] at h
  exact starts_of_mem_tail (List.mem_of_getElem? h)

theorem exists_split (hi : i ≤ (s.flatMap String.utf8EncodeChar).length)
    (h : ∀ e, (s.flatMap String.utf8EncodeChar)[i]? = some e → starts e = true) :
    ∃ front back, s = front ++ back ∧ i = (front.flatMap String.utf8EncodeChar).length := by
  induction s generalizing i with
  | nil => exact ⟨[], [], rfl, Nat.le_zero.mp hi⟩
  | cons c s ih =>
    rw [List.flatMap_cons, List.length_append] at hi
    rw [List.flatMap_cons] at h
    -- No byte inside of the first character starts one, so the offset is 0 or behind it.
    rcases Nat.lt_or_ge i (String.utf8EncodeChar c).length with hlt | hge
    · rcases Nat.eq_zero_or_pos i with rfl | hpos
      · exact ⟨[], c :: s, rfl, rfl⟩
      · have here := List.getElem?_eq_getElem hlt
        have first := h _ ((List.getElem?_append_left hlt).trans here)
        rw [starts_inside here hpos.ne'] at first
        cases first
    · obtain ⟨front, back, rfl, hfront⟩ := ih (i := i - (String.utf8EncodeChar c).length)
        (by omega) fun e he => h e (by rwa [List.getElem?_append_right hge])
      refine ⟨c :: front, back, rfl, ?_⟩
      rw [List.flatMap_cons, List.length_append]
      omega

theorem atBoundary_iff : atBoundary text i = true ↔
    ∃ front back, text = front ++ back ∧ i = front.utf8ByteSize := by
  constructor
  · intro h
    rcases Nat.eq_zero_or_pos i with rfl | hpos
    · exact ⟨"", text, String.empty_append.symm, rfl⟩
    rw [atBoundary, decide_eq_false hpos.ne', Bool.false_or] at h
    have split : i ≤ (bytes text).length ∧ ∀ e, (bytes text)[i]? = some e → starts e = true := by
      cases hbyte : (bytes text)[i]? with
      | some b =>
        rw [hbyte] at h
        obtain ⟨hlt, -⟩ := List.getElem?_eq_some_iff.mp hbyte
        exact ⟨hlt.le, fun e he => Option.some.inj he ▸ h⟩
      | none =>
        rw [hbyte, decide_eq_true_eq, ← length_bytes] at h
        exact ⟨h.le, nofun⟩
    rw [bytes_eq] at split
    obtain ⟨front, back, htext, hi⟩ := exists_split split.1 split.2
    refine ⟨.ofList front, .ofList back, ?_, ?_⟩
    · rw [← String.ofList_append, ← htext, String.ofList_toList]
    · rw [hi, ← length_bytes, bytes_eq, String.toList_ofList]
  · rintro ⟨front, back, rfl, rfl⟩
    have behind : (bytes (front ++ back))[front.utf8ByteSize]? = (bytes back)[0]? := by
      rw [bytes_eq, String.toList_append, List.flatMap_append, ← bytes_eq, ← bytes_eq,
        ← length_bytes, List.getElem?_append_right (Nat.le_refl _), Nat.sub_self]
    rw [atBoundary, behind, bytes_eq, Bool.or_eq_true]
    right
    cases hback : back.toList with
    | nil =>
      obtain rfl := String.toList_eq_nil_iff.mp hback
      simp
    | cons c s =>
      rw [List.flatMap_cons, encodeChar_eq]
      exact starts_lead c

/-- The last offset up to `n` that cuts no character in two, looked for from `n` downwards. -/
def floor (text : String) (n : Nat) : Nat := Nat.findGreatest (atBoundary text · = true) n

end Utf8

namespace Bytes

variable {n : Nat} {c : Char} {s front : List Char} {text part : String}

/-- The start of a text up to the last offset that fits and cuts no character in two. -/
def truncate? (n : Nat) (text : String) : Option String :=
  if text.utf8ByteSize ≤ n then some text else Utf8.slice? text 0 (Utf8.floor text n)

/-- A part is what a text starts with, whole characters of at most `n` bytes, and no other such part
is longer. -/
structure Longest (n : Nat) (text part : String) : Prop where
  start : part.toList <+: text.toList
  whole : Utf8.atBoundary text part.utf8ByteSize = true
  fits : part.utf8ByteSize ≤ n
  longest : ∀ i ≤ n, Utf8.atBoundary text i = true → i ≤ part.utf8ByteSize

theorem utf8ByteSize_cons (c : Char) (s : List Char) :
    (String.ofList (c :: s)).utf8ByteSize = c.utf8Size + (String.ofList s).utf8ByteSize := by
  have first : String.ofList (c :: s) = String.singleton c ++ .ofList s := by
    rw [String.singleton_eq_ofList, ← String.ofList_append]
    rfl
  rw [first, String.utf8ByteSize_append, String.utf8ByteSize_singleton]

theorem take_isPrefix (n : Nat) (s : List Char) : take n s <+: s := by
  induction s generalizing n with
  | nil => exact List.prefix_refl []
  | cons c s ih =>
    rw [take]
    split
    next => exact (List.prefix_cons_inj c).mpr (ih _)
    next => exact List.nil_prefix

theorem utf8ByteSize_take (n : Nat) (s : List Char) :
    (String.ofList (take n s)).utf8ByteSize ≤ n := by
  induction s generalizing n with
  | nil => exact Nat.zero_le n
  | cons c s ih =>
    rw [take]
    split
    next hc =>
      have := ih (n - c.utf8Size)
      rw [utf8ByteSize_cons]
      omega
    next => exact Nat.zero_le n

/-- What fits is taken. -/
theorem isPrefix_take (hfront : front <+: s) (hn : (String.ofList front).utf8ByteSize ≤ n) :
    front <+: take n s := by
  induction front generalizing n s with
  | nil => exact List.nil_prefix
  | cons c front ih =>
    obtain ⟨back, rfl⟩ := hfront
    rw [utf8ByteSize_cons] at hn
    rw [List.cons_append, take, if_pos (by omega), List.prefix_cons_inj]
    exact ih (List.prefix_append front back) (by omega)

theorem truncate_eq (n : Nat) (text : String) : truncate n text = .ofList (take n text.toList) := by
  rw [truncate]
  split
  next hn =>
    have whole : text.toList <+: take n text.toList :=
      isPrefix_take (List.prefix_refl _) (by rwa [String.ofList_toList])
    rw [(take_isPrefix n text.toList).eq_of_length_le whole.length_le, String.ofList_toList]
  next => rfl

/-- What is left over by the cut. -/
theorem exists_truncate_append (n : Nat) (text : String) : ∃ rest, text = truncate n text ++ rest := by
  obtain ⟨rest, hrest⟩ := take_isPrefix n text.toList
  refine ⟨.ofList rest, ?_⟩
  rw [truncate_eq, ← String.ofList_append, hrest, String.ofList_toList]

theorem longest_truncate (n : Nat) (text : String) : Longest n text (truncate n text) where
  start := by
    rw [truncate_eq, String.toList_ofList]
    exact take_isPrefix n text.toList
  whole := by
    obtain ⟨rest, hrest⟩ := exists_truncate_append n text
    exact Utf8.atBoundary_iff.mpr ⟨_, rest, hrest, rfl⟩
  fits := by
    rw [truncate_eq]
    exact utf8ByteSize_take n text.toList
  longest := by
    intro i hi h
    obtain ⟨front, back, rfl, rfl⟩ := Utf8.atBoundary_iff.mp h
    have taken : front.toList <+: take n (front ++ back).toList :=
      isPrefix_take (by simp) (by rwa [String.ofList_toList])
    obtain ⟨more, hmore⟩ := taken
    rw [truncate_eq, ← hmore, String.ofList_append, String.ofList_toList,
      String.utf8ByteSize_append]
    exact Nat.le_add_right _ _

theorem eq_of_isPrefix {first second : String} (h : first.toList <+: second.toList)
    (size : first.utf8ByteSize = second.utf8ByteSize) : first = second := by
  obtain ⟨rest, hrest⟩ := h
  have longer : second = first ++ .ofList rest := by
    rw [← String.toList_inj, ← hrest, String.toList_append, String.toList_ofList]
  rw [longer, String.utf8ByteSize_append] at size
  have none : String.ofList rest = "" := String.utf8ByteSize_eq_zero_iff.mp (by omega)
  rw [longer, none, String.append_empty]

/-- There is one longest part only. -/
theorem Longest.unique {other : String} (h : Longest n text part) (hother : Longest n text other) :
    part = other := by
  have size : part.utf8ByteSize = other.utf8ByteSize :=
    Nat.le_antisymm (hother.longest _ h.fits h.whole) (h.longest _ hother.fits hother.whole)
  rcases List.prefix_or_prefix_of_prefix h.start hother.start with hle | hle
  · exact eq_of_isPrefix hle size
  · exact (eq_of_isPrefix hle size.symm).symm

theorem longest_iff : Longest n text part ↔ part = truncate n text :=
  ⟨fun h => h.unique (longest_truncate n text), fun h => h ▸ longest_truncate n text⟩

/-- The search ends where the longest part does. -/
theorem floor_eq (n : Nat) (text : String) :
    Utf8.floor text n = (truncate n text).utf8ByteSize := by
  have kept := longest_truncate n text
  have found : Utf8.atBoundary text (Utf8.floor text n) = true :=
    Nat.findGreatest_spec (P := (Utf8.atBoundary text · = true)) (Nat.zero_le n) rfl
  exact Nat.le_antisymm (kept.longest _ (Nat.findGreatest_le n) found)
    (Nat.le_findGreatest kept.fits kept.whole)

/-- The offset that is found is one where the text can be cut. -/
theorem truncate?_eq (n : Nat) (text : String) : truncate? n text = some (truncate n text) := by
  rw [truncate?]
  split
  next hn => rw [truncate, if_pos hn]
  next hn =>
    obtain ⟨rest, hrest⟩ := exists_truncate_append n text
    have cut := Utf8.slice?_front (truncate n text) rest
    rw [← hrest, ← floor_eq] at cut
    exact cut

end Bytes

/-! The text of a statement in the log. -/

/-- How a text reads under a limit to its bytes: as it is, or as the part of it that is kept with
three dots behind. -/
inductive Abridged (limit : Option Nat) (sql : String) : String → Prop where
  | whole (h : ∀ n, limit = some n → sql.utf8ByteSize ≤ n) : Abridged limit sql sql
  | cut {n : Nat} {part : String} (hlimit : limit = some n) (h : n < sql.utf8ByteSize)
      (hpart : Bytes.Longest n sql part) : Abridged limit sql (part ++ "...")

/-- With a result the last event is the one for it. -/
def Report.LogsLast {α : Type} (r : Report α) (event : α → Event) : Prop :=
  ∀ a, r.outcome = .ok a → r.events.getLast? = some (event a)

theorem Report.LogsLast.bind {α β : Type} {r : Report α} {f : α → Report β} {event : β → Event}
    (h : ∀ a, (f a).LogsLast event) : (r >>= f).LogsLast event := by
  intro b hb
  obtain ⟨a, ha, hb⟩ := outcome_bind_eq_ok.mp hb
  rw [events_bind ha, List.getLast?_append, h a b hb, Option.some_or]

namespace Compiler

variable (c : Compiler) (s : Statement)

theorem abridged_iff {sql text : String} :
    Abridged c.maxLoggedBytes sql text ↔ text = c.logged sql := by
  constructor
  · intro h
    cases h with
    | whole h =>
      unfold logged
      split
      next n hlimit => rw [if_neg (Nat.not_lt.mpr (h n hlimit))]
      next => rfl
    | cut hlimit h hpart =>
      rw [logged, hlimit, Bytes.longest_iff.mp hpart]
      exact (if_pos h).symm
  · rintro rfl
    unfold logged
    split
    next n hlimit =>
      split
      next h => exact .cut hlimit h (Bytes.longest_truncate n sql)
      next h =>
        refine .whole ?_
        intro m hm
        obtain rfl : n = m := Option.some.inj (hlimit.symm.trans hm)
        exact Nat.le_of_not_lt h
    next hlimit =>
      refine .whole ?_
      intro n hn
      rw [hlimit] at hn
      cases hn

/-- A statement is logged behind all that happens while it is composed. -/
theorem logsLast {α : Type} (r : Report α) (mode : Mode) (count : α → Nat) (sql : α → String) :
    Report.LogsLast (do
      c.applyPolicy s
      let a ← r
      c.logComposed s mode (count a) (sql a)
      return a) fun a => .composed s.kind mode (count a) (c.logged (sql a)) := by
  refine .bind fun _ => .bind fun a => ?_
  intro b hb
  obtain rfl : a = b := Except.ok.inj hb
  rfl

/-- A text is cut where no character is cut in two, as near to the limit as can be. Each statement
that is composed, in whatever form, is logged at the end: as it is if it fits or there is no limit,
or else as what is kept of it with three dots behind. -/
theorem logged_longest :
    (∀ n text, Bytes.truncate? n text = some (Bytes.truncate n text) ∧
      ∀ part, Bytes.Longest n text part ↔ part = Bytes.truncate n text) ∧
    (∀ sql text, Abridged c.maxLoggedBytes sql text ↔ text = c.logged sql) ∧
    (c.template s).LogsLast (fun t =>
      .composed s.kind .template t.paramCount (c.logged (t.render c.dialect))) ∧
    (c.literal s).LogsLast (fun sql => .composed s.kind .full 0 (c.logged sql)) ∧
    (c.named s).LogsLast (fun q => .composed s.kind .named q.values.size (c.logged q.query)) :=
  ⟨fun n text => ⟨Bytes.truncate?_eq n text, fun _ => Bytes.longest_iff⟩,
    fun _ _ => c.abridged_iff, c.logsLast s _ .template _ _, c.logsLast s _ .full _ _,
    c.logsLast s _ .named _ _⟩

/-- The limit lies inside of the only character of the name. -/
theorem logged_longest_accented :
    (({ maxLoggedBytes := some 14 } : Compiler).literal (.delete { table := "é" })).events.getLast? =
      some (.composed .delete .full 0 "DELETE FROM \x60...") := by
  obtain ⟨-, -, -, literal, -⟩ :=
    logged_longest { maxLoggedBytes := some 14 } (.delete { table := "é" })
  have composed : (({ maxLoggedBytes := some 14 } : Compiler).literal
    (.delete { table := "é" })).outcome = .ok "DELETE FROM \x60é\x60" := by rfl
  exact literal _ composed

end Compiler
end FilterSql
