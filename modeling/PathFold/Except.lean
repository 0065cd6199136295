/-! Results and errors behind a function on results or on errors. -/

namespace Except

variable {ε δ β γ γ' κ : Type}

theorem map_eq_ok_iff {e : Except ε β} {f : β → γ} {c : γ} :
    e.map f = .ok c ↔ ∃ b, e = .ok b ∧ f b = c := by
  cases e <;> simp [Except.map]

theorem map_eq_error_iff {e : Except ε β} {f : β → γ} {error : ε} :
    e.map f = .error error ↔ e = .error error := by
  cases e <;> simp [Except.map]

theorem map_map (e : Except ε β) (f : β → γ) (g : γ → κ) : (e.map f).map g = e.map (g ∘ f) := by
  cases e <;> rfl

/-- Two ways of going on come to the same if they do so on every result. -/
theorem map_comm {e : Except ε β} {f : β → γ} {g : γ → κ} {f' : β → γ'} {g' : γ' → κ}
    (same : ∀ b, g (f b) = g' (f' b)) : (e.map f).map g = (e.map f').map g' := by
  have same : g ∘ f = g' ∘ f' := funext same
  rw [map_map, map_map, same]

theorem mapError_eq_error_iff {e : Except ε β} {f : ε → δ} {error : δ} :
    e.mapError f = .error error ↔ ∃ cause, e = .error cause ∧ f cause = error := by
  constructor
  · intro h
    cases e with
    | error cause => exact ⟨cause, rfl, Except.error.inj h⟩
    | ok b => cases h
  · rintro ⟨cause, rfl, rfl⟩
    rfl

end Except
