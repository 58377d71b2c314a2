import DocComments.Extraction

/-!
# Outcomes of steps that can fail

A chain of steps succeeds if each of them does. The lemmas take such chains apart, for plain
results and for results with notes; the notes have no influence on the result. Two outcomes have the
`SameResult` if they differ at most in why they fail.
-/

namespace DocComments

variable {ε ε' α β : Type}

theorem except_bind_eq_ok {x : Except ε α} {f : α → Except ε β} {b : β} :
    x >>= f = .ok b ↔ ∃ a, x = .ok a ∧ f a = .ok b := by
  cases x with
  | error e => simp [bind, Except.bind]
  | ok a => simp [bind, Except.bind]

theorem except_bind_eq_error {x : Except ε α} {f : α → Except ε β} {e : ε} :
    x >>= f = .error e ↔ x = .error e ∨ ∃ a, x = .ok a ∧ f a = .error e := by
  cases x with
  | error e' => simp [bind, Except.bind]
  | ok a => simp [bind, Except.bind]

theorem except_map_eq_ok {x : Except ε α} {f : α → β} {b : β} :
    x.map f = .ok b ↔ ∃ a, x = .ok a ∧ f a = b := by
  cases x with
  | error e => simp [Except.map]
  | ok a => simp [Except.map]

theorem except_bind_congr {x : Except ε α} {f g : α → Except ε β} (h : ∀ a, x = .ok a → f a = g a) :
    x >>= f = x >>= g := by
  cases x with
  | error e => rfl
  | ok a => exact h a rfl

/-- Both give the same value, or both fail. -/
inductive SameResult : Except ε α → Except ε' α → Prop where
  | ok (a : α) : SameResult (.ok a) (.ok a)
  | error (e : ε) (e' : ε') : SameResult (.error e) (.error e')

theorem sameResult_iff {x : Except ε α} {y : Except ε' α} :
    SameResult x y ↔ ∀ a, x = .ok a ↔ y = .ok a := by
  constructor
  · intro h a
    cases h with
    | ok b => simp
    | error e e' => simp
  · intro h
    cases x with
    | ok a =>
      rw [(h a).mp rfl]
      exact .ok a
    | error e =>
      cases y with
      | ok a => cases (h a).mpr rfl
      | error e' => exact .error e e'

theorem SameResult.refl (x : Except ε α) : SameResult x x :=
  sameResult_iff.mpr fun _ => Iff.rfl

theorem SameResult.mapError {ζ : Type} {x : Except ε α} {y : Except ε' α} (h : SameResult x y)
    (f : ε → ζ) (g : ε' → ζ) : SameResult (x.mapError f) (y.mapError g) := by
  cases h with
  | ok a => exact .ok a
  | error e e' => exact .error (f e) (g e')

namespace Traced

theorem result_bind_eq_ok {x : Traced α} {f : α → Traced β} {b : β} :
    (x >>= f).result = .ok b ↔ ∃ a, x.result = .ok a ∧ (f a).result = .ok b := by
  change (Traced.bind x f).result = .ok b ↔ _
  unfold Traced.bind
  cases h : x.result with
  | error failure => simp
  | ok a => simp

end Traced

end DocComments
