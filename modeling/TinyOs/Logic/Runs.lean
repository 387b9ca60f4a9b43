/-
  TinyOs.Logic.Runs — runs of a fallible machine under an environment's discipline.

  `step s op` is what the code does on `op`: a next state, or the error that ends the
  run. `legal s op` is what the environment may ask for in `s`. `Reach` collects the
  states of all runs whose steps are legal.

  Rules:
  - `Reach.invariant`: a property of the first states kept by every legal step.
  - `Reach.mono`: from fewer first states a stricter discipline reaches fewer states.
  - `Reach.simulate`: a machine that agrees step by step with another one reaches
    only states related to states the other reaches.
  - `Reach.script`: where a list of operations leads, checked by evaluation.
  - `Agree`: two fallible computations that end in related states or in one error.
-/

namespace TinyOs.Logic

section Fallible

variable {ε α β γ δ : Type _}

/-- Both succeed with related results, or both stop with the same error. -/
def Agree (R : α → β → Prop) : Except ε α → Except ε β → Prop
  | .ok a, .ok b => R a b
  | .error e, .error e' => e = e'
  | _, _ => False

@[simp] theorem agree_ok {R : α → β → Prop} {a : α} {b : β} :
    Agree R (.ok a : Except ε α) (.ok b) ↔ R a b := Iff.rfl

@[simp] theorem agree_error {R : α → β → Prop} {e e' : ε} :
    Agree R (.error e : Except ε α) (.error e' : Except ε β) ↔ e = e' := Iff.rfl

@[simp] theorem ok_bind (a : α) (f : α → Except ε β) : ((.ok a : Except ε α) >>= f) = f a := rfl

@[simp] theorem error_bind (e : ε) (f : α → Except ε β) : ((.error e : Except ε α) >>= f) = .error e := rfl

theorem Agree.bind {R : α → β → Prop} {T : γ → δ → Prop} {x : Except ε α} {y : Except ε β}
    {f : α → Except ε γ} {g : β → Except ε δ} (h : Agree R x y) (hf : ∀ a b, R a b → Agree T (f a) (g b)) :
    Agree T (x >>= f) (y >>= g) := by
  cases x <;> cases y
  · simpa using h
  · exact h.elim
  · exact h.elim
  · exact hf _ _ h

/-- Both start with the same computation. -/
theorem Agree.cons {R : β → γ → Prop} {x y : Except ε α} {f : α → Except ε β} {g : α → Except ε γ} (e : x = y)
    (h : ∀ a, Agree R (f a) (g a)) : Agree R (x >>= f) (y >>= g) := by
  subst e
  cases x
  · rfl
  · exact h _

theorem Agree.of_ok {R : α → β → Prop} {x : Except ε α} {y : Except ε β} (h : Agree R x y) {a : α} (hx : x = .ok a) :
    ∃ b, y = .ok b ∧ R a b := by
  subst hx
  cases y with
  | error e => exact h.elim
  | ok b => exact ⟨b, rfl, h⟩

theorem Agree.of_error {R : α → β → Prop} {x : Except ε α} {y : Except ε β} (h : Agree R x y) {e : ε}
    (hx : x = .error e) : y = .error e := by
  subst hx
  cases y with
  | error e' => exact congrArg _ (Eq.symm h)
  | ok b => exact h.elim

/-- What a successful sequence did. -/
theorem bind_ok_iff {x : Except ε α} {f : α → Except ε β} {b : β} :
    (x >>= f) = .ok b ↔ ∃ a, x = .ok a ∧ f a = .ok b := by
  cases x <;> simp

theorem bind_error_iff {x : Except ε α} {f : α → Except ε β} {e : ε} :
    (x >>= f) = .error e ↔ x = .error e ∨ ∃ a, x = .ok a ∧ f a = .error e := by
  cases x <;> simp

/-- A result that passes a test, from the test's evaluation. -/
theorem ok_of_any {x : Except ε α} {p : α → Bool} (h : x.toOption.any p = true) : ∃ a, x = .ok a ∧ p a = true := by
  cases x with
  | error e => cases h
  | ok a => exact ⟨a, rfl, h⟩

theorem ok_getD {x : Except ε α} {d : α} (h : x.isOk = true) : x = .ok (x.toOption.getD d) := by
  cases x with
  | error e => cases h
  | ok a => rfl

def errorOf : Except ε α → Option ε
  | .error e => some e
  | .ok _ => none

theorem errorOf_eq {x : Except ε α} {e : ε} : errorOf x = some e ↔ x = .error e := by
  cases x <;> simp [errorOf]

end Fallible

section Reach

variable {S T Op ε : Type _}

inductive Reach (first : S → Prop) (legal : S → Op → Prop) (step : S → Op → Except ε S) : S → Prop
  | first {s : S} : first s → Reach first legal step s
  | step {s s' : S} (op : Op) : Reach first legal step s → legal s op → step s op = .ok s' →
      Reach first legal step s'

variable {first : S → Prop} {legal : S → Op → Prop} {step : S → Op → Except ε S}

theorem Reach.invariant {P : S → Prop} (h0 : ∀ s, first s → P s)
    (hs : ∀ s s' op, P s → legal s op → step s op = .ok s' → P s') {s : S} (h : Reach first legal step s) : P s := by
  induction h with
  | first h => exact h0 _ h
  | step op _ hl he ih => exact hs _ _ op ih hl he

theorem Reach.mono {first' : S → Prop} {legal' : S → Op → Prop} (hf : ∀ s, first s → first' s)
    (hl : ∀ s op, legal s op → legal' s op) {s : S} (h : Reach first legal step s) : Reach first' legal' step s := by
  induction h with
  | first h => exact .first (hf _ h)
  | step op _ h he ih => exact .step op ih (hl _ _ h) he

theorem Reach.simulate {first' : T → Prop} {legal' : T → Op → Prop} {step' : T → Op → Except ε T} {R : S → T → Prop}
    (h0 : ∀ s, first s → ∃ t, first' t ∧ R s t)
    (hs : ∀ s t op, R s t → Reach first' legal' step' t → legal s op →
      legal' t op ∧ Agree R (step s op) (step' t op))
    {s : S} (h : Reach first legal step s) : ∃ t, Reach first' legal' step' t ∧ R s t := by
  induction h with
  | first h =>
    obtain ⟨t, ht, hR⟩ := h0 _ h
    exact ⟨t, .first ht, hR⟩
  | step op _ hl he ih =>
    obtain ⟨t, ht, hR⟩ := ih
    obtain ⟨hl', ha⟩ := hs _ _ op hR ht hl
    obtain ⟨t', ht', hR'⟩ := ha.of_ok he
    exact ⟨t', .step op ht hl' ht', hR'⟩

/-! ### Scripts -/

/-- The state after `op`, if that does not stop. -/
def next (step : S → Op → Except ε S) (s : S) (op : Op) : S := (step s op).toOption.getD s

theorem step_next {s : S} {op : Op} (h : (step s op).isOk = true) : step s op = .ok (next step s op) := ok_getD h

theorem Reach.extend {s : S} (h : Reach first legal step s) (op : Op) (hl : legal s op)
    (hk : (step s op).isOk = true) : Reach first legal step (next step s op) := h.step op hl (step_next hk)

/-- Every operation of the list is legal where it is asked for, and succeeds. -/
def legalRun (legal : S → Op → Prop) [∀ s op, Decidable (legal s op)] (step : S → Op → Except ε S) : S → List Op → Bool
  | _, [] => true
  | s, op :: ops => decide (legal s op) && (step s op).isOk && legalRun legal step (next step s op) ops

theorem Reach.script [∀ s op, Decidable (legal s op)] {s : S} {ops : List Op} (h : Reach first legal step s)
    (hl : legalRun legal step s ops = true) : Reach first legal step (ops.foldl (next step) s) := by
  induction ops generalizing s with
  | nil => exact h
  | cons op ops ih =>
    simp only [legalRun, Bool.and_eq_true, decide_eq_true_eq] at hl
    exact ih (h.extend op hl.1.1 hl.1.2) hl.2

end Reach

end TinyOs.Logic
