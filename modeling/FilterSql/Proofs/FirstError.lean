import FilterSql.Report
import Mathlib.Data.List.Forall2

/-! Lists worked off in order, up to the first member that fails. -/
namespace FilterSql.Except

variable {ε α β : Type} {f : α → Except ε β} {x : α} {xs : List α} {e : ε}

/-- The error of the first member on which the function fails. -/
def FirstError (f : α → Except ε β) (xs : List α) (e : ε) : Prop :=
  ∃ before x after, xs = before ++ x :: after ∧ (∀ y ∈ before, ∃ b, f y = .ok b) ∧ f x = .error e

theorem firstError_cons :
    FirstError f (x :: xs) e ↔ f x = .error e ∨ (∃ b, f x = .ok b) ∧ FirstError f xs e := by
  constructor
  · rintro ⟨before, y, after, heq, hbefore, hy⟩
    cases before with
    | nil =>
      obtain ⟨rfl, -⟩ := List.cons.inj heq
      exact .inl hy
    | cons z before =>
      obtain ⟨rfl, rfl⟩ := List.cons.inj heq
      obtain ⟨hx, hbefore⟩ := List.forall_mem_cons.mp hbefore
      exact .inr ⟨hx, before, y, after, rfl, hbefore, hy⟩
  · rintro (hx | ⟨hx, before, y, after, rfl, hbefore, hy⟩)
    · exact ⟨[], x, xs, rfl, List.forall_mem_nil _, hx⟩
    · exact ⟨x :: before, y, after, rfl, List.forall_mem_cons.mpr ⟨hx, hbefore⟩, hy⟩

theorem firstError_congr {g : α → Except ε β} (h : ∀ x ∈ xs, f x = g x) :
    FirstError f xs e ↔ FirstError g xs e := by
  induction xs with
  | nil => simp [FirstError]
  | cons x xs ih =>
    obtain ⟨hx, hxs⟩ := List.forall_mem_cons.mp h
    rw [firstError_cons, firstError_cons, hx, ih hxs]

theorem exists_firstError_iff :
    (∃ e, FirstError f xs e) ↔ ∃ x ∈ xs, ∃ e, f x = .error e := by
  induction xs with
  | nil => simp [FirstError]
  | cons x xs ih =>
    rw [List.exists_mem_cons_iff, ← ih]
    simp only [firstError_cons, exists_or, exists_and_left]
    cases f x <;> simp

theorem map_eq_error {γ : Type} {g : α → γ} {r : Except ε α} :
    g <$> r = .error e ↔ r = .error e := by
  cases r <;> simp [Functor.map, Except.map]

theorem bind_eq_error {γ : Type} {g : α → Except ε γ} {r : Except ε α} :
    r >>= g = .error e ↔ r = .error e ∨ ∃ a, r = .ok a ∧ g a = .error e := by
  cases r <;> simp [bind, Except.bind]

theorem mapM_eq_ok_iff {ys : List β} :
    xs.mapM f = .ok ys ↔ List.Forall₂ (fun x y => f x = .ok y) xs ys := by
  induction xs generalizing ys with
  | nil => cases ys <;> simp [pure, Except.pure]
  | cons x xs ih =>
    rw [List.mapM_cons, bind_eq_ok, List.forall₂_cons_left_iff]
    refine exists_congr fun y => ?_
    rw [bind_eq_ok, exists_and_left]
    simp only [ih, pure, Except.pure, Except.ok.injEq, eq_comm]

/-- The results are those of the members. -/
theorem mem_iff_of_forall₂ {ys : List β} (h : List.Forall₂ (fun x y => f x = .ok y) xs ys) {y : β} :
    y ∈ ys ↔ ∃ x ∈ xs, f x = .ok y := by
  induction h with
  | nil => simp
  | cons hy _ ih => rw [List.mem_cons, ih, List.exists_mem_cons_iff, hy, Except.ok.injEq, eq_comm]

theorem mapM_eq_error_iff : xs.mapM f = .error e ↔ FirstError f xs e := by
  induction xs with
  | nil => simp [FirstError, pure, Except.pure]
  | cons x xs ih =>
    rw [List.mapM_cons, bind_eq_error, firstError_cons, ← ih]
    simp [bind_eq_error, pure, Except.pure]

/-- Either the function succeeds on all members, or there is a first one on which it fails. -/
theorem isOk_mapM_iff : (∃ ys, xs.mapM f = .ok ys) ↔ ∀ x ∈ xs, ∃ y, f x = .ok y := by
  induction xs with
  | nil => simp [pure, Except.pure]
  | cons x xs ih =>
    rw [List.forall_mem_cons, ← ih, List.mapM_cons]
    simp [bind_eq_ok, pure, Except.pure]

end FilterSql.Except
