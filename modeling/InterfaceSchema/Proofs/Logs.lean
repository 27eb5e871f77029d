import InterfaceSchema.Compile
import InterfaceSchema.Proofs.Expansion.Run

/-!
# Erasing the log

A compilation that tells of itself gives what it gives without (`run_compileLogged`),
whatever has been told before. For an expansion that is a simulation: its collector does
what the collector of emissions does, and tells.
-/

namespace InterfaceSchema

variable {ε ε' α : Type}

/-- What computations give when their log is dropped. -/
def Lifting.erasure (ε : Type) : Lifting (Logged ε) (Except ε) where
  Rel T x y := ∀ log, Agree T (x.run.run log).1 y
  pure h _ := .ok h
  bind {_ _ _ _ _ _ x x' f f'} hx hf log := by
    have hgiven := hx log
    rw [ExceptT.run_bind, StateT.run_bind]
    rcases hrun : x.run.run log with ⟨_ | a, told⟩
    · rw [hrun] at hgiven
      cases hgiven
      exact .error _
    · rw [hrun] at hgiven
      cases hgiven with
      | ok h => exact hf _ _ h told

namespace Logged

theorem erasure_lift {β : Type} {T : α → β → Prop} {x : Except ε α} {y : Except ε β}
    (h : Agree T x y) : (Lifting.erasure ε).Rel T (lift x) y := fun _ => h

theorem erasure_tell (events : List LogEvent) :
    (Lifting.erasure ε).Rel Eq (tell events) (.ok ()) := fun _ => .ok rfl

theorem erasure_adapt {x : Logged ε α} {y : Except ε α} (f : ε → ε')
    (h : (Lifting.erasure ε).Rel Eq x y) : (Lifting.erasure ε').Rel Eq (x.adapt f) (y.mapError f) := by
  intro log
  have hgiven := h log
  show Agree Eq ((x.run.run log).1.mapError f) _
  rw [hgiven.eq]
  exact .refl _

end Logged

open Logged

theorem Collector.logging_simulates :
    Collector.logging.Simulates (.erasure SemanticError) Eq Emission.collector :=
  Collector.simulates_emitting (fun _ => erasure_lift (.refl _)) erasure_tell

theorem erasure_ofTextLogged (source : String) :
    (Lifting.erasure SyntaxError).Rel Eq (Program.ofTextLogged source) (Program.ofText source) := by
  have h : (Lifting.erasure SyntaxError).Rel Eq (Program.ofTextLogged source)
      (Except.ok () >>= fun _ => Program.ofText source >>= fun p => .ok () >>= fun _ => .ok p) :=
    (Lifting.erasure _).bind (erasure_tell _) fun _ _ _ =>
      (Lifting.erasure _).bind (erasure_lift (.refl _)) fun _ _ hp =>
        (Lifting.erasure _).bind (erasure_tell _) fun _ _ _ => (Lifting.erasure _).pure hp
  cases hp : Program.ofText source <;> rwa [hp] at h

theorem erasure_factsLogged (options : Options) (p : Program) :
    (Lifting.erasure SemanticError).Rel Eq (p.factsLogged options) (p.facts options) := by
  have h : (Lifting.erasure SemanticError).Rel Eq (p.factsLogged options)
      (p.emissions options >>= fun es => .ok () >>= fun _ => .ok (Emission.facts es)) :=
    (Lifting.erasure _).bind (Collector.logging_simulates.program erasure_lift options p)
      fun _ _ hes => by
        subst hes
        exact (Lifting.erasure _).bind (erasure_tell _) fun _ _ _ => (Lifting.erasure _).pure rfl
  rw [Program.facts]
  cases hes : p.emissions options <;> rwa [hes] at h

theorem run_compileLogged (options : Options) (source : String) (log : Log) :
    ((compileLogged options source).run.run log).1 = compile options source :=
  ((Lifting.erasure CompileError).bind (erasure_adapt _ (erasure_ofTextLogged source))
    fun p _ hp => hp ▸ erasure_adapt _ (erasure_factsLogged options p)) log |>.eq

end InterfaceSchema
