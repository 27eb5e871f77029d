import InterfaceSchema.Proofs.Reading.Tracking

/-!
# Sessions

A session asks for statements and programs in any order, always of the same tokens and
from wherever the cursor was left, be it in the midst of a broken statement. Every
call in it returns, with what the rule of the grammar makes of the tokens from there
on; the cursor does not move back, and stays on the tokens (`session_isSound`).
-/

namespace InterfaceSchema

/-- What is asked for. -/
inductive Call where
  | statement
  | program
  deriving DecidableEq

namespace Call

def rule : Call → Rule (Statement ⊕ Program)
  | statement => .inl <$> Reader.statement
  | program => .inr <$> Reader.program

def run (ts : List Token) : Call → CursorM (Statement ⊕ Program)
  | statement => .inl <$> Cursor.statement ts
  | program => .inr <$> Cursor.program ts

end Call

/-- A call with its result, and where the cursor stood before and after it. -/
structure Turn where
  call : Call
  before : Nat
  result : Except Stop (Statement ⊕ Program)
  after : Nat

def Call.turn (ts : List Token) (c : Call) (i : Nat) : Turn :=
  match c.run ts i with
  | .ok a j => ⟨c, i, .ok a, j⟩
  | .error stop j => ⟨c, i, .error stop, j⟩

/-- The calls one after the other, each from where the last one has stopped. -/
def session (ts : List Token) : List Call → Nat → List Turn
  | [], _ => []
  | c :: cs, i => c.turn ts i :: session ts cs (c.turn ts i).after

/-- The call ends as the rule does on the tokens that were left, with a value or an
error of the text. -/
structure Turn.IsSound (ts : List Token) (t : Turn) : Prop where
  forward : t.before ≤ t.after
  within : t.after < ts.length
  returns : (∃ a, t.result = .ok a ∧
      t.call.rule (ts.drop t.before) = .ok a (ts.drop t.after)) ∨
    ∃ e, t.result = .error (.failed e) ∧
      t.call.rule (ts.drop t.before) = .error e (ts.drop t.after)
  reads : t.call = .statement → t.result.isOk = true → t.before < t.after
  ends : t.call = .program → t.result.isOk = true →
    t.after + 1 = ts.length ∧ ts[t.after]?.map Token.lexeme = some .endOfText

section

variable {ts : List Token} {i : Nat}

/-- Only the end of the text ends a program. -/
theorem Reader.next_of_program {us rest : List Token} {p : Program}
    (h : program us = .ok p rest) : (next rest).lexeme = .endOfText := by
  unfold program at h
  generalize ([] : List Statement) = ss at h
  fun_induction Rule.iterate programStep programStep_shrinks ss us with
  | case1 ss us ss' mid hs ih => exact ih h
  | case2 ss us p' mid hs =>
    cases h
    obtain ⟨_, mid', _, hs⟩ := Rule.bind_eq_ok hs
    obtain ⟨ended, mid'', hended, hs⟩ := Rule.bind_eq_ok hs
    obtain ⟨rfl, rfl⟩ := EStateM.Result.ok.inj hended
    split at hs
    · rename_i hend
      cases hs
      exact beq_iff_eq.1 hend
    · obtain ⟨here, _, hhere, hs⟩ := Rule.bind_eq_ok hs
      cases hhere
      split at hs
      · cases hs
      · obtain ⟨_, _, _, hs⟩ := Rule.bind_eq_ok hs
        obtain ⟨_, _, _, hs⟩ := Rule.bind_eq_ok hs
        cases hs
  | case3 => cases h

theorem Call.tracks_run (hts : Token.Ended ts) (c : Call) : Cursor.Tracks ts c.rule (c.run ts) := by
  cases c with
  | statement => exact (Cursor.tracks_statement hts).map _
  | program => exact (Cursor.tracks_program hts).map _

theorem Call.isSound_turn (hts : Token.Ended ts) (hi : i < ts.length) (c : Call) :
    (c.turn ts i).IsSound ts ∧ (c.turn ts i).call = c ∧ (c.turn ts i).before = i := by
  have htracks := c.tracks_run hts i hi
  unfold Cursor.TracksAt at htracks
  unfold Call.turn
  generalize hx : c.rule (ts.drop i) = x at htracks
  generalize c.run ts i = y at htracks
  cases htracks with
  | error he hle hlt => exact ⟨⟨hle, hlt, .inr ⟨_, rfl, hx⟩, nofun, nofun⟩, rfl, rfl⟩
  | @ok a j hle hlt =>
    refine ⟨⟨hle, hlt, .inl ⟨a, rfl, hx⟩, ?_, ?_⟩, rfl, rfl⟩
    · rintro rfl -
      have hless := Reader.shrinks_statement.map hx
      rw [List.length_drop, List.length_drop] at hless
      show i < j
      omega
    · rintro rfl -
      rw [rule, map_eq_pure_bind] at hx
      obtain ⟨p, rest, hp, hrest⟩ := Rule.bind_eq_ok hx
      obtain ⟨-, rfl⟩ := EStateM.Result.ok.inj hrest
      obtain ⟨t, hnext, ht, _, _, hend⟩ := Cursor.exists_next_eq hts hlt
      have hlexeme : t.lexeme = .endOfText := by rw [← hnext, Reader.next_of_program hp]
      have hlast : j + 1 = ts.length := by
        have := mt hend.2 (not_not.2 hlexeme)
        omega
      exact ⟨hlast, by rw [ht, Option.map_some, hlexeme]⟩

theorem isSound_of_mem_session (hts : Token.Ended ts) (hi : i < ts.length) (calls : List Call) :
    (session ts calls i).map Turn.call = calls ∧
      (session ts calls i).Pairwise (fun t u => t.after ≤ u.before) ∧
      ∀ t ∈ session ts calls i, t.IsSound ts ∧ i ≤ t.before := by
  induction calls generalizing i with
  | nil => exact ⟨rfl, .nil, nofun⟩
  | cons c cs ih =>
    obtain ⟨hsound, hcall, hbefore⟩ := c.isSound_turn hts hi
    have hforward := hsound.forward
    rw [hbefore] at hforward
    obtain ⟨hcalls, hpairwise, hall⟩ := ih hsound.within
    refine ⟨by rw [session, List.map_cons, hcall, hcalls], ?_, ?_⟩
    · exact .cons (fun t ht => (hall t ht).2) hpairwise
    · refine List.forall_mem_cons.2 ⟨⟨hsound, Nat.le_of_eq hbefore.symm⟩, fun t ht => ?_⟩
      obtain ⟨ht, hle⟩ := hall t ht
      exact ⟨ht, Nat.le_trans hforward hle⟩

end

/-- In every session on the tokens of a text each call returns soundly, and begins
where those before it have stopped or behind. -/
theorem session_isSound {text : String} {ts : List Token} (h : Token.ofText text = .ok ts)
    (calls : List Call) : (session ts calls 0).map Turn.call = calls ∧
      (session ts calls 0).Pairwise (fun t u => t.after ≤ u.before) ∧
      ∀ t ∈ session ts calls 0, t.IsSound ts := by
  have hts := Token.ended_of_ofText h
  obtain ⟨hcalls, hpairwise, hall⟩ := isSound_of_mem_session hts hts.length_pos calls
  exact ⟨hcalls, hpairwise, fun t ht => (hall t ht).1⟩

/-- A text whose second line is broken. -/
def brokenText : String := "a: b\n(c mapto\nd: e\n"

theorem session_isSound_brokenText : ∃ ts, Token.ofText brokenText = .ok ts ∧
    (session ts [.statement, .program, .statement, .program] 0).map Turn.call =
      [.statement, .program, .statement, .program] ∧
    (session ts [.statement, .program, .statement, .program] 0).Pairwise
      (fun t u => t.after ≤ u.before) ∧
    ∀ t ∈ session ts [.statement, .program, .statement, .program] 0, t.IsSound ts := by
  obtain ⟨ts, hts⟩ := isOk_iff_exists.1 (show (Token.ofText brokenText).isOk = true by decide +kernel)
  exact ⟨ts, hts, session_isSound hts _⟩

example : (Token.ofText brokenText).toOption.map (fun ts =>
    (session ts [.statement, .program, .statement, .program] 0).map Turn.after) =
      some [3, 4, 4, 4] := by
  decide +kernel

end InterfaceSchema
