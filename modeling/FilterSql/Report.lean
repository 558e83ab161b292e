import FilterSql.Event

/-! Results together with the events on the way to them. -/
namespace FilterSql

theorem Except.bind_eq_ok {ε α β : Type} {x : Except ε α} {f : α → Except ε β} {b : β} :
    x >>= f = .ok b ↔ ∃ a, x = .ok a ∧ f a = .ok b := by
  cases x <;> simp [bind, Except.bind]

theorem Except.map_eq_ok {ε α β : Type} {x : Except ε α} {f : α → β} {b : β} :
    f <$> x = .ok b ↔ ∃ a, x = .ok a ∧ f a = b := by
  cases x <;> simp [Functor.map, Except.map]

/-- A result or the error that ended the work, and the events up to then. -/
structure Report (α : Type) where
  events : List Event
  outcome : Except SqlError α

namespace Report

variable {α β : Type}

def fail (e : SqlError) : Report α := ⟨[], .error e⟩

def log (event : Event) : Report Unit := ⟨[event], .ok ()⟩

def ofExcept (outcome : Except SqlError α) : Report α := ⟨[], outcome⟩

/-- Goes on after a result; after an error nothing more happens. -/
protected def bind (r : Report α) (f : α → Report β) : Report β :=
  match r.outcome with
  | .ok a =>
    let next := f a
    ⟨r.events ++ next.events, next.outcome⟩
  | .error e => ⟨r.events, .error e⟩

instance : Monad Report where
  pure a := ⟨[], .ok a⟩
  bind := Report.bind

@[simp] theorem pure_eq (a : α) : (pure a : Report α) = ⟨[], .ok a⟩ := rfl

@[simp] theorem ok_bind (events : List Event) (a : α) (f : α → Report β) :
    (⟨events, .ok a⟩ : Report α) >>= f = ⟨events ++ (f a).events, (f a).outcome⟩ := rfl

@[simp] theorem error_bind (events : List Event) (e : SqlError) (f : α → Report β) :
    (⟨events, .error e⟩ : Report α) >>= f = ⟨events, .error e⟩ := rfl

instance : LawfulMonad Report :=
  .mk' Report
    (fun r => by obtain ⟨events, e | a⟩ := r <;> simp [Functor.map, Report.bind])
    (fun a f => by simp)
    (fun r f g => by
      obtain ⟨events, e | a⟩ := r
      · simp
      · rcases h : f a with ⟨events', e | b⟩ <;> simp [h])

@[simp] theorem fail_bind (e : SqlError) (f : α → Report β) :
    (fail e : Report α) >>= f = fail e := rfl

@[simp] theorem log_bind (event : Event) (f : Unit → Report β) :
    log event >>= f = ⟨event :: (f ()).events, (f ()).outcome⟩ := rfl

@[simp] theorem outcome_fail (e : SqlError) : (fail e : Report α).outcome = .error e := rfl

@[simp] theorem outcome_log (event : Event) : (log event).outcome = .ok () := rfl

@[simp] theorem outcome_ofExcept (x : Except SqlError α) : (ofExcept x).outcome = x := rfl

theorem outcome_bind (r : Report α) (f : α → Report β) :
    (r >>= f).outcome = r.outcome >>= fun a => (f a).outcome := by
  obtain ⟨events, e | a⟩ := r <;> rfl

/-- A result of two steps is one of the second, after a result of the first. -/
theorem outcome_bind_eq_ok {r : Report α} {f : α → Report β} {b : β} :
    (r >>= f).outcome = .ok b ↔ ∃ a, r.outcome = .ok a ∧ (f a).outcome = .ok b := by
  obtain ⟨events, e | a⟩ := r <;> simp

theorem events_bind {r : Report α} {a : α} (h : r.outcome = .ok a) (f : α → Report β) :
    (r >>= f).events = r.events ++ (f a).events := by
  obtain ⟨events, outcome⟩ := r
  obtain rfl : outcome = .ok a := h
  rfl

theorem outcome_map_eq_ok {r : Report α} {f : α → β} {b : β} :
    (f <$> r).outcome = .ok b ↔ ∃ a, r.outcome = .ok a ∧ f a = b := by
  simp [map_eq_pure_bind, outcome_bind_eq_ok]

/-- Two reports of the same events with the same error or with results that are related. -/
inductive Rel (R : α → β → Prop) : Report α → Report β → Prop
  | ok {a b} (events : List Event) (h : R a b) : Rel R ⟨events, .ok a⟩ ⟨events, .ok b⟩
  | error (events : List Event) (e : SqlError) : Rel R ⟨events, .error e⟩ ⟨events, .error e⟩

theorem of_rel {R : α → β → Prop} {r : Report α} {r' : Report β} {a : α} {b : β} (h : Rel R r r')
    (ha : r.outcome = .ok a) (hb : r'.outcome = .ok b) : R a b := by
  cases h with
  | ok events h => exact Except.ok.inj ha ▸ Except.ok.inj hb ▸ h
  | error events e => cases ha

theorem rel_refl {R : α → α → Prop} (hR : ∀ a, R a a) (r : Report α) : Rel R r r := by
  obtain ⟨events, e | a⟩ := r
  · exact .error events e
  · exact .ok events (hR a)

theorem rel_symm {R : α → α → Prop} (hR : ∀ {a b}, R a b → R b a) {r r' : Report α}
    (h : Rel R r r') : Rel R r' r := by
  cases h with
  | ok events h => exact .ok events (hR h)
  | error events e => exact .error events e

theorem rel_trans {R : α → α → Prop} (hR : ∀ {a b c}, R a b → R b c → R a c)
    {r r' r'' : Report α} (h : Rel R r r') (h' : Rel R r' r'') : Rel R r r'' := by
  cases h with
  | ok events h =>
    cases h' with
    | ok _ h' => exact .ok events (hR h h')
  | error events e => exact h'

theorem rel_bind {γ δ : Type} {R : α → β → Prop} {S : γ → δ → Prop} {r : Report α} {r' : Report β}
    {f : α → Report γ} {f' : β → Report δ} (h : Rel R r r')
    (hf : ∀ {a b}, R a b → Rel S (f a) (f' b)) : Rel S (r >>= f) (r' >>= f') := by
  cases h with
  | error events e => exact .error events e
  | @ok a b events hab =>
    have next := hf hab
    simp only [ok_bind]
    cases hfa : f a
    cases hfb : f' b
    rw [hfa, hfb] at next
    cases next with
    | ok later h => exact .ok _ h
    | error later e => exact .error _ e

end Report
end FilterSql
