import InterfaceSchema.Template.Registry

/-!
# Scopes

While a template is expanded for an instance, a `Frame` stands on the `Scopes`,
the innermost on top. `chain` tells how a template came to be expanded.
`remaining` counts the templates of a registry that are not being expanded; it
falls with each frame, which is why expansion ends.
-/

namespace InterfaceSchema

structure Frame where
  template : String
  inst : String
  deriving DecidableEq, Repr, Inhabited

/-- The expansions in progress, innermost first. -/
abbrev Scopes := List Frame

namespace Scopes

def push (s : Scopes) (f : Frame) : Scopes := f :: s

/-- The innermost frame and the scopes without it. -/
def pop : Scopes → Option Frame × Scopes
  | [] => (none, [])
  | f :: s => (some f, s)

def isExpanding (s : Scopes) (template : String) : Bool := s.any (·.template == template)

/-- The frames from the outermost on, and then the template to be expanded. -/
def chain (s : Scopes) (next : String) : String :=
  String.intercalate " -> " (s.reverse.map (fun f => f.template ++ "(" ++ f.inst ++ ")") ++ [next])

/-- The templates of a registry that are not being expanded. -/
def remaining (s : Scopes) (r : Registry) : Nat :=
  r.templates.countP (fun t => !s.isExpanding t.name)

theorem remaining_push_lt {s : Scopes} {r : Registry} {t : Template} (ht : t ∈ r.templates)
    (hs : s.isExpanding t.name = false) (inst : String) :
    (s.push ⟨t.name, inst⟩).remaining r < s.remaining r := by
  unfold remaining
  generalize r.templates = ts at ht ⊢
  induction ts with
  | nil => cases ht
  | cons u us ih =>
    have hle : us.countP (fun t' => !(s.push ⟨t.name, inst⟩).isExpanding t'.name) ≤
        us.countP (fun t' => !s.isExpanding t'.name) := by
      apply List.countP_mono_left
      intro v _ hv
      simp only [isExpanding, push, List.any_cons, Bool.not_or, Bool.and_eq_true] at hv
      exact hv.2
    simp only [List.countP_cons]
    rcases List.mem_cons.1 ht with rfl | ht
    · have h1 : (s.push ⟨t.name, inst⟩).isExpanding t.name = true := by simp [isExpanding, push]
      simp only [h1, hs]
      simp only [Bool.not_true, Bool.false_eq_true, ↓reduceIte, Bool.not_false]
      omega
    · have := ih ht
      by_cases hu : s.isExpanding u.name = true
      · have : (s.push ⟨t.name, inst⟩).isExpanding u.name = true := by
          simp only [isExpanding, push, List.any_cons, Bool.or_eq_true] at hu ⊢
          exact .inr hu
        simp_all
      · simp only [hu]
        split <;> simp <;> omega

end Scopes

end InterfaceSchema
