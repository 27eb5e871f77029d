import InterfaceSchema.Token

/-!
# Rules

A `Rule` reads tokens from the front of a list. It leaves the rest also when it
fails, so that reading can go on from there. `Shrinks` and `Keeps` bound the
rest of a successful reading; a loop of rules, `Rule.iterate`, ends because each
of its steps reads a token.
-/

namespace InterfaceSchema

/-- A rule of the grammar: what it has read or why it fails, with the tokens
that are left. -/
abbrev Rule (α : Type) := EStateM SyntaxError (List Token) α

/-- The tokens left by a successful reading are fewer. -/
def Rule.Shrinks {α : Type} (r : Rule α) : Prop :=
  ∀ ⦃ts a rest⦄, r ts = .ok a rest → rest.length < ts.length

/-- The tokens left by a successful reading are not more. -/
def Rule.Keeps {α : Type} (r : Rule α) : Prop :=
  ∀ ⦃ts a rest⦄, r ts = .ok a rest → rest.length ≤ ts.length

namespace Rule

variable {α β σ : Type}

theorem Shrinks.keeps {r : Rule α} (h : r.Shrinks) : r.Keeps := fun _ _ _ hr => Nat.le_of_lt (h hr)

theorem bind_eq_ok {r : Rule α} {f : α → Rule β} {ts rest : List Token} {b : β}
    (h : (r >>= f) ts = .ok b rest) : ∃ a mid, r ts = .ok a mid ∧ f a mid = .ok b rest := by
  simp only [bind, EStateM.bind] at h
  split at h
  · exact ⟨_, _, ‹_›, h⟩
  · cases h

theorem keeps_pure (a : α) : (pure a : Rule α).Keeps := by
  intro ts b rest h
  cases h
  exact Nat.le_refl _

theorem keeps_throw (e : SyntaxError) : (throw e : Rule α).Keeps := by
  intro ts b rest h
  cases h

theorem Keeps.bind {r : Rule α} {f : α → Rule β} (hr : r.Keeps) (hf : ∀ a, (f a).Keeps) :
    (r >>= f).Keeps := by
  intro ts b rest h
  obtain ⟨a, mid, h1, h2⟩ := bind_eq_ok h
  exact Nat.le_trans (hf a h2) (hr h1)

theorem Shrinks.bind {r : Rule α} {f : α → Rule β} (hr : r.Shrinks) (hf : ∀ a, (f a).Keeps) :
    (r >>= f).Shrinks := by
  intro ts b rest h
  obtain ⟨a, mid, h1, h2⟩ := bind_eq_ok h
  exact Nat.lt_of_le_of_lt (hf a h2) (hr h1)

theorem Keeps.bind_shrinks {r : Rule α} {f : α → Rule β} (hr : r.Keeps)
    (hf : ∀ a, (f a).Shrinks) : (r >>= f).Shrinks := by
  intro ts b rest h
  obtain ⟨a, mid, h1, h2⟩ := bind_eq_ok h
  exact Nat.lt_of_lt_of_le (hf a h2) (hr h1)

theorem Keeps.ite {c : Bool} {r s : Rule α} (hr : r.Keeps) (hs : s.Keeps) :
    (if c = true then r else s).Keeps := by
  split
  · exact hr
  · exact hs

theorem Keeps.map {r : Rule α} {f : α → β} (h : r.Keeps) : (f <$> r).Keeps := by
  intro ts b rest hr
  rw [map_eq_pure_bind] at hr
  exact (h.bind fun _ => keeps_pure _) hr

theorem Shrinks.map {r : Rule α} {f : α → β} (h : r.Shrinks) : (f <$> r).Shrinks := by
  intro ts b rest hr
  rw [map_eq_pure_bind] at hr
  exact (h.bind fun _ => keeps_pure _) hr

/-- Steps until one says that it was the last. -/
def iterate (step : σ → Rule (σ ⊕ α))
    (shrinks : ∀ {s ts s' rest}, step s ts = .ok (.inl s') rest → rest.length < ts.length)
    (s : σ) (ts : List Token) : EStateM.Result SyntaxError (List Token) α :=
  match _h : step s ts with
  | .ok (.inl s') rest => iterate step shrinks s' rest
  | .ok (.inr a) rest => .ok a rest
  | .error e rest => .error e rest
termination_by ts.length
decreasing_by exact shrinks _h

section

variable {step : σ → Rule (σ ⊕ α)} {s : σ} {ts rest : List Token}
  (shrinks : ∀ {s ts s' rest}, step s ts = .ok (.inl s') rest → rest.length < ts.length)

theorem iterate_of_inl {s' : σ} (h : step s ts = .ok (.inl s') rest) :
    iterate step shrinks s ts = iterate step shrinks s' rest := by
  rw [iterate]
  split <;> simp_all

theorem iterate_of_inr {a : α} (h : step s ts = .ok (.inr a) rest) :
    iterate step shrinks s ts = .ok a rest := by
  rw [iterate]
  split <;> simp_all

theorem iterate_of_error {e : SyntaxError} (h : step s ts = .error e rest) :
    iterate step shrinks s ts = .error e rest := by
  rw [iterate]
  split <;> simp_all

end

theorem shrinks_iterate {step : σ → Rule (σ ⊕ α)} (h : ∀ s, (step s).Shrinks) (s : σ) :
    Rule.Shrinks (iterate step (fun hs => h _ hs) s) := by
  intro ts a rest hr
  fun_induction iterate step (fun hs => h _ hs) s ts with
  | case1 s ts s' mid hs ih => exact Nat.lt_trans (ih hr) (h _ hs)
  | case2 s ts b mid hs => cases hr; exact h _ hs
  | case3 => cases hr

end Rule

end InterfaceSchema
