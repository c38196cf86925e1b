set_option autoImplicit false

/-!
# Steps that may refuse

The readers of bytes and of tokens thread what is left to read through `Except`.  A sequence of
such readers gives a result exactly when its parts do, one behind the other.  Loading and
evaluation keep their state when they stop early; there a sequence runs as far as its first part
that stops.
-/

namespace ReplEngine.Reading

variable {σ ε α β : Type}

theorem bind_eq_ok {x : StateT σ (Except ε) α} {f : α → StateT σ (Except ε) β} {s : σ}
    {r : β × σ} :
    (x >>= f) s = .ok r ↔ ∃ a mid, x s = .ok (a, mid) ∧ f a mid = .ok r := by
  simp only [bind, StateT.bind, Except.bind]
  cases x s with
  | error e => simp
  | ok p =>
    obtain ⟨a, mid⟩ := p
    constructor
    · intro h
      exact ⟨a, mid, rfl, h⟩
    · rintro ⟨a', mid', h, h'⟩
      cases h
      exact h'

/-- A reader that accepts hands its result on. -/
theorem bind_of_ok {x : StateT σ (Except ε) α} {s mid : σ} {a : α} (h : x s = .ok (a, mid))
    (f : α → StateT σ (Except ε) β) : (x >>= f) s = f a mid := by
  simp only [bind, StateT.bind, h, Except.bind]

theorem map_of_ok {x : StateT σ (Except ε) α} {s mid : σ} {a : α} (h : x s = .ok (a, mid))
    (f : α → β) : (f <$> x) s = .ok (f a, mid) := by
  rw [map_eq_pure_bind, bind_of_ok h]
  rfl

theorem pure_eq_ok {a b : α} {s rest : σ} :
    (pure a : StateT σ (Except ε) α) s = .ok (b, rest) ↔ a = b ∧ s = rest := by
  show Except.ok (a, s) = Except.ok (b, rest) ↔ _
  simp

theorem map_eq_ok {f : α → β} {x : StateT σ (Except ε) α} {s : σ} {b : β} {rest : σ} :
    (f <$> x) s = .ok (b, rest) ↔ ∃ a, x s = .ok (a, rest) ∧ f a = b := by
  rw [map_eq_pure_bind, bind_eq_ok]
  simp only [pure_eq_ok]
  constructor
  · rintro ⟨a, mid, h, rfl, rfl⟩
    exact ⟨a, h, rfl⟩
  · rintro ⟨a, h, rfl⟩
    exact ⟨a, rest, h, rfl, rfl⟩

/-- The result of a reader, what is left forgotten. -/
theorem map_fst_eq_ok {r : Except ε (α × σ)} {a : α} :
    r.map Prod.fst = .ok a ↔ ∃ a' s, r = .ok (a', s) ∧ a' = a := by
  cases r with
  | error e => simp [Except.map]
  | ok p =>
    obtain ⟨a', s⟩ := p
    simp [Except.map]

/-! ## A state that outlives a refusal -/

/-- A sequence that cannot stop early. -/
theorem run_bind {x : StateM σ α} {f : α → StateM σ β} {s mid : σ} {a : α}
    (h : x.run s = (a, mid)) : (x >>= f).run s = (f a).run mid := by
  show (f (x.run s).1).run (x.run s).2 = (f a).run mid
  rw [h]

theorem run_get (s : σ) : (get : ExceptT ε (StateM σ) σ).run s = (.ok s, s) := rfl

theorem run_bind_ok {x : ExceptT ε (StateM σ) α} {f : α → ExceptT ε (StateM σ) β} {s mid : σ}
    {a : α} (h : x.run s = (.ok a, mid)) : (x >>= f).run s = (f a).run mid := by
  show (ExceptT.bindCont f (x.run s).1).run (x.run s).2 = (f a).run mid
  rw [h]
  rfl

theorem run_bind_error {x : ExceptT ε (StateM σ) α} {f : α → ExceptT ε (StateM σ) β} {s mid : σ}
    {e : ε} (h : x.run s = (.error e, mid)) : (x >>= f).run s = (.error e, mid) := by
  show (ExceptT.bindCont f (x.run s).1).run (x.run s).2 = (.error e, mid)
  rw [h]
  rfl

end ReplEngine.Reading
