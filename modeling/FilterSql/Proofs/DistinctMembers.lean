import FilterSql.Filter.Decode
import FilterSql.Json.Reader
import Mathlib.Logic.Basic

/-! JSON whose objects have no key twice, as all JSON that is read from text. -/
namespace FilterSql

mutual

/-- No object in the value has two members with one key. -/
def Json.Distinct : Json → Prop
  | .array items => Json.AllDistinct items
  | .object members => (Fields.names members).Nodup ∧ Json.MembersDistinct members
  | _ => True

def Json.AllDistinct : List Json → Prop
  | [] => True
  | j :: items => j.Distinct ∧ Json.AllDistinct items

def Json.MembersDistinct : List (String × Json) → Prop
  | [] => True
  | (_, j) :: members => j.Distinct ∧ Json.MembersDistinct members

end

namespace Fields

variable {α : Type}

theorem nodup_names_set {fields : Fields α} (h : fields.names.Nodup) (name : String) (value : α) :
    (fields.set name value).names.Nodup := by
  rw [names_set]
  split
  next => exact h
  next hnew => simpa [List.nodup_append, h] using fun n hn => ne_of_mem_of_not_mem hn hnew

end Fields

namespace Json

theorem allDistinct_append {items more : List Json} (h : AllDistinct items)
    (hmore : AllDistinct more) : AllDistinct (items ++ more) := by
  induction items with
  | nil => exact hmore
  | cons j items ih => exact ⟨h.1, ih h.2⟩

theorem allDistinct_reverse {items : List Json} (h : AllDistinct items) :
    AllDistinct items.reverse := by
  induction items with
  | nil => trivial
  | cons j items ih =>
    rw [List.reverse_cons]
    exact allDistinct_append (ih h.2) ⟨h.1, trivial⟩

theorem membersDistinct_set {members : Fields Json} {key : String} {j : Json}
    (h : MembersDistinct members) (hj : j.Distinct) : MembersDistinct (members.set key j) := by
  induction members with
  | nil => exact ⟨hj, trivial⟩
  | cons field members ih =>
    obtain ⟨first, old⟩ := field
    rw [Fields.set]
    split
    · exact ⟨hj, h.2⟩
    · exact ⟨h.1, ih h.2⟩

/-! The reader keeps what it has read of each open array and object distinct. -/

def Token.Distinct : Token → Prop
  | .scalar value => value.Distinct
  | _ => True

def Frame.Distinct : Frame → Prop
  | .array items => AllDistinct items
  | .object members _ => (Fields.names members).Nodup ∧ MembersDistinct members

namespace Machine

def Distinct : Machine → Prop
  | .running stack _ => ∀ frame ∈ stack, frame.Distinct
  | .finished value => value.Distinct

theorem distinct_complete {value : Json} {stack : List Frame} (h : value.Distinct)
    (hstack : ∀ frame ∈ stack, frame.Distinct) : (complete value stack).Distinct := by
  cases stack with
  | nil => exact h
  | cons frame stack =>
    rw [List.forall_mem_cons] at hstack
    cases frame with
    | array items =>
      simp only [complete, Distinct, List.forall_mem_cons]
      exact ⟨⟨h, hstack.1⟩, hstack.2⟩
    | object members key =>
      simp only [complete, Distinct, List.forall_mem_cons]
      exact ⟨⟨Fields.nodup_names_set hstack.1.1 key value, membersDistinct_set hstack.1.2 h⟩,
        hstack.2⟩

theorem distinct_step {depth : Nat} {stack : List Frame} {expect : Expect} {token : Token}
    {next : Machine} (h : step depth stack expect token = some next) (htoken : token.Distinct)
    (hstack : ∀ frame ∈ stack, frame.Distinct) : next.Distinct := by
  revert h
  fun_cases step depth stack expect token with
  -- A value is complete.
  | case1 value | case2 value =>
    rintro ⟨⟩
    exact distinct_complete htoken hstack
  | case3 s | case4 s =>
    rintro ⟨⟩
    exact distinct_complete trivial hstack
  -- An array or an object is opened.
  | case5 | case7 =>
    rintro ⟨⟩
    exact List.forall_mem_cons.mpr ⟨trivial, hstack⟩
  | case9 | case11 =>
    rintro ⟨⟩
    exact List.forall_mem_cons.mpr ⟨⟨List.nodup_nil, trivial⟩, hstack⟩
  -- A key, a colon or a comma.
  | case13 k members key stack | case15 k members key stack =>
    rintro ⟨⟩
    rw [List.forall_mem_cons] at hstack
    exact List.forall_mem_cons.mpr hstack
  | case17 | case18 | case19 =>
    rintro ⟨⟩
    exact hstack
  -- An array or an object is closed.
  | case21 items stack | case23 items stack =>
    rintro ⟨⟩
    rw [List.forall_mem_cons] at hstack
    exact distinct_complete (allDistinct_reverse hstack.1) hstack.2
  | case25 members key stack | case27 members key stack =>
    rintro ⟨⟩
    rw [List.forall_mem_cons] at hstack
    exact distinct_complete hstack.1 hstack.2
  | _ => nofun

end Machine

/-! The tokens that are values on their own are neither arrays nor objects. -/
namespace Token

theorem distinct_number {negative : Bool} {s rest : List Char} {token : Token}
    (h : number? negative s = some (token, rest)) : token.Distinct := by
  obtain ⟨⟨digits, s⟩, -, h⟩ := Option.bind_eq_some_iff.mp h
  obtain ⟨⟨decimals, s⟩, -, h⟩ := Option.bind_eq_some_iff.mp h
  obtain ⟨⟨exponent, s⟩, -, h⟩ := Option.bind_eq_some_iff.mp h
  rcases ite_eq_iff.mp h with ⟨-, h⟩ | ⟨-, h⟩
  · obtain ⟨rfl, -⟩ := Prod.mk.inj (Option.some.inj h)
    trivial
  · obtain ⟨x, -, h⟩ := Option.bind_eq_some_iff.mp h
    obtain ⟨rfl, -⟩ := Prod.mk.inj (Option.some.inj h)
    trivial

theorem distinct_word {word : String} {value : Json} {s rest : List Char} {token : Token}
    (h : word? word value s = some (token, rest)) (hvalue : value.Distinct) : token.Distinct := by
  obtain ⟨left, -, h⟩ := Option.map_eq_some_iff.mp h
  obtain ⟨rfl, -⟩ := Prod.mk.inj h
  exact hvalue

theorem distinct_next {s rest : List Char} {token : Token} (h : next? s = some (token, rest)) :
    token.Distinct := by
  revert h
  fun_cases next? s with
  | case9 s => exact distinct_number
  | case10 c s => exact distinct_number
  | case11 c s | case12 c s | case13 c s => exact fun h => distinct_word h trivial
  | case8 s =>
    intro h
    obtain ⟨_, -, h⟩ := Option.map_eq_some_iff.mp h
    obtain ⟨rfl, -⟩ := Prod.mk.inj h
    trivial
  | case1 | case14 => nofun
  | _ =>
    rintro ⟨⟩
    trivial

end Token

theorem Machine.distinct_run {depth steps : Nat} {machine : Machine} {s rest : List Char}
    {value : Json} (h : Machine.run depth steps machine s = some (value, rest))
    (hmachine : machine.Distinct) : value.Distinct := by
  induction steps generalizing machine s with
  | zero =>
    cases machine with
    | running stack expect => cases h
    | finished result =>
      obtain ⟨rfl, -⟩ := Prod.mk.inj (Option.some.inj h)
      exact hmachine
  | succ steps ih =>
    cases machine with
    | finished result =>
      obtain ⟨rfl, -⟩ := Prod.mk.inj (Option.some.inj h)
      exact hmachine
    | running stack expect =>
      rw [Machine.run] at h
      split at h
      next => cases h
      next token left htoken =>
        split at h
        next => cases h
        next machine hstep =>
          exact ih h (Machine.distinct_step hstep (Token.distinct_next htoken) hmachine)

/-- What is read from the start of a text has no key twice in any object. -/
theorem distinct_of_readSome {depth : Nat} {text : String} {rest : List Char} {value : Json}
    (h : readSome? depth text = some (value, rest)) : value.Distinct :=
  Machine.distinct_run h (by simp [Machine.start, Machine.Distinct])

theorem distinct_of_read {depth : Nat} {text : String} {value : Json}
    (h : read? depth text = some value) : value.Distinct := by
  rw [read?] at h
  split at h
  next found rest hfound =>
    split at h
    next => exact Option.some.inj h ▸ distinct_of_readSome hfound
    next => cases h
  next => cases h

end Json
end FilterSql
