import UnitCheck.Binary64.Literal
import UnitCheck.Dimension.Basic

/-! # Outcomes

A reader that calls others succeeds when each of them does. What the readers of both grammars compute
with is partial: a product or a quotient may overflow, and a power needs a number text that writes a
finite number. -/

namespace UnitCheck

section Except
variable {ε α β : Type}

theorem ok_or_error (x : Except ε α) : (∃ a, x = .ok a) ∨ ∃ e, x = .error e := by
  cases x with
  | error e => exact Or.inr ⟨e, rfl⟩
  | ok a => exact Or.inl ⟨a, rfl⟩

theorem bind_eq_ok {x : Except ε α} {f : α → Except ε β} {b : β} :
    (x >>= f) = .ok b ↔ ∃ a, x = .ok a ∧ f a = .ok b := by
  cases x with
  | error e => exact ⟨fun h => (by cases h), fun ⟨_, h, _⟩ => (by cases h)⟩
  | ok a => exact ⟨fun h => ⟨a, rfl, h⟩, fun ⟨_, h, hf⟩ => (by cases h; exact hf)⟩

theorem bind_eq_error {x : Except ε α} {f : α → Except ε β} {e : ε} :
    (x >>= f) = .error e ↔ x = .error e ∨ ∃ a, x = .ok a ∧ f a = .error e := by
  cases x with
  | error e' =>
    constructor
    · intro h
      cases h
      exact Or.inl rfl
    · rintro (h | ⟨a, h, -⟩)
      · cases h
        rfl
      · cases h
  | ok a =>
    constructor
    · intro h
      exact Or.inr ⟨a, rfl, h⟩
    · rintro (h | ⟨b, h, hf⟩)
      · cases h
      · cases h
        exact hf

theorem map_eq_ok {x : Except ε α} {f : α → β} {b : β} : x.map f = .ok b ↔ ∃ a, x = .ok a ∧ f a = b := by
  cases x with
  | error e => exact ⟨fun h => (by cases h), fun ⟨_, h, _⟩ => (by cases h)⟩
  | ok a => exact ⟨fun h => ⟨a, rfl, Except.ok.inj h⟩, fun ⟨_, h, hf⟩ => (by cases h; exact congrArg _ hf)⟩

theorem map_eq_error {x : Except ε α} {f : α → β} {e : ε} : x.map f = .error e ↔ x = .error e := by
  cases x with
  | error e' => exact ⟨fun h => congrArg _ (Except.error.inj h), fun h => congrArg _ (Except.error.inj h)⟩
  | ok a => exact ⟨fun h => (by cases h), fun h => (by cases h)⟩

theorem mapError_eq_ok {δ : Type} {x : Except ε α} {f : ε → δ} {a : α} : x.mapError f = .ok a ↔ x = .ok a := by
  cases x with
  | error e => exact ⟨fun h => (by cases h), fun h => (by cases h)⟩
  | ok b => exact ⟨fun h => congrArg _ (Except.ok.inj h), fun h => congrArg _ (Except.ok.inj h)⟩

theorem mapError_eq_error {δ : Type} {x : Except ε α} {f : ε → δ} {e : δ} :
    x.mapError f = .error e ↔ ∃ e', x = .error e' ∧ e = f e' := by
  constructor
  · intro h
    cases x with
    | error e' => exact ⟨e', rfl, (Except.error.inj h).symm⟩
    | ok a => cases h
  · rintro ⟨e', rfl, rfl⟩
    rfl

theorem toOption_eq_some {x : Except ε α} {a : α} : x.toOption = some a ↔ x = .ok a := by
  cases x <;> simp [Except.toOption]

theorem bind_congr_ok {x : Except ε α} {f g : α → Except ε β} (h : ∀ a, x = .ok a → f a = g a) :
    (x >>= f) = (x >>= g) := by
  cases x with
  | error e => rfl
  | ok a => exact h a rfl

@[simp] theorem ok_bind (a : α) (f : α → Except ε β) : (Except.ok a >>= f) = f a := rfl

@[simp] theorem error_bind (e : ε) (f : α → Except ε β) : (Except.error e >>= f) = .error e := rfl

theorem map_eq_bind (x : Except ε α) (f : α → β) : x.map f = x >>= fun a => .ok (f a) := by
  cases x <;> rfl

/-- If the outcome is a failure, it is one that `P` holds of. -/
def OnError (P : ε → Prop) (x : Except ε α) : Prop := ∀ e, x = .error e → P e

variable {P Q : ε → Prop} {x : Except ε α}

theorem OnError.ok (a : α) : OnError P (.ok a) := by
  intro e he
  cases he

theorem OnError.error {e : ε} (h : P e) : OnError P (.error e : Except ε α) := by
  intro e' he
  cases he
  exact h

theorem OnError.imp (h : OnError P x) (hPQ : ∀ e, P e → Q e) : OnError Q x := fun e he => hPQ e (h e he)

theorem OnError.bind {f : α → Except ε β} (h : OnError P x) (hf : ∀ a, x = .ok a → OnError P (f a)) :
    OnError P (x >>= f) := by
  intro e he
  cases hx : x with
  | error e' =>
    rw [hx] at he
    cases he
    exact h e hx
  | ok a =>
    rw [hx] at he
    exact hf a hx e he

theorem OnError.map (f : α → β) (h : OnError P x) : OnError P (x.map f) := fun e he => h e (map_eq_error.mp he)

end Except

namespace Dimension

/-- The product, if it does not overflow. -/
def mul? (a b : Dimension) : Option Dimension := (a.mul b).toOption

/-- The quotient, if it does not overflow. -/
def div? (a b : Dimension) : Option Dimension := (a.div b).toOption

/-- The power to the number that a text writes, if it writes a finite one and the power does not overflow. -/
def raised? (d : Dimension) (text : String) : Option Dimension :=
  match Binary64.read? text.toList with
  | some (.finite x) => d.pow? (.finite x)
  | _ => none

theorem mul?_eq_some {a b d : Dimension} : a.mul? b = some d ↔ a.mul b = .ok d := by
  unfold mul?
  cases a.mul b <;> simp [Except.toOption]

theorem div?_eq_some {a b d : Dimension} : a.div? b = some d ↔ a.div b = .ok d := by
  unfold div?
  cases a.div b <;> simp [Except.toOption]

/-- A number that is not finite is no exponent, so the texts that write one need no case of their own. -/
theorem raised?_eq_some {d e : Dimension} {text : String} :
    d.raised? text = some e ↔ ∃ x, Binary64.read? text.toList = some x ∧ d.pow? x = some e := by
  unfold raised?
  cases Binary64.read? text.toList with
  | none => simp
  | some x => cases x <;> simp [pow?]

end Dimension

end UnitCheck
