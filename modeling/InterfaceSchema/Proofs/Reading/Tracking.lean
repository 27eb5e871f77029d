import InterfaceSchema.Proofs.Reading.Cursor
import InterfaceSchema.Proofs.Reading.Taking

/-!
# Rules and the cursor

A rule tracks a run of the cursor if both end alike from wherever the cursor points: with
the same value or error, where the rule leaves the tokens from the cursor on, and the
cursor points at a token that is not before the first one (`Cursor.Tracks`). This goes
through sequences and loops (`Tracks.bind`, `tracks_loop`), so every rule of the grammar
tracks the run of the same name. No run stops then but with an error of the text, and
each error is at a token (`SyntaxError.IsAt`).
-/

namespace InterfaceSchema

variable {ts : List Token} {i j : Nat}

/-- Behind all other tokens stands that of the end, and it stands there only. -/
def Token.Ended (ts : List Token) : Prop :=
  ∃ us t, ts = us ++ [t] ∧ t.lexeme = .endOfText ∧ .endOfText ∉ us.map Token.lexeme

theorem Token.ended_of_ofText {text : String} (h : ofText text = .ok ts) : Ended ts := by
  obtain ⟨us, rfl, hus, _⟩ := exists_eq_concat_of_scan h
  exact ⟨us, _, rfl, rfl, hus⟩

theorem Token.Ended.length_pos (h : Ended ts) : 0 < ts.length := by
  obtain ⟨us, t, rfl, _⟩ := h
  simp

theorem Token.Ended.exists_drop_eq (h : Ended ts) (hi : i < ts.length) :
    ∃ t, ts[i]? = some t ∧ ts.drop i = t :: ts.drop (i + 1) ∧
      (t.lexeme ≠ .endOfText ↔ i + 1 < ts.length) := by
  refine ⟨ts[i], List.getElem?_eq_getElem hi, List.drop_eq_getElem_cons hi, ?_⟩
  obtain ⟨us, t, rfl, ht, hus⟩ := h
  rw [List.length_append, List.length_singleton] at hi ⊢
  constructor
  · intro hend
    by_contra hlast
    obtain rfl : i = us.length := by omega
    exact hend (by rw [List.getElem_concat_length rfl, ht])
  · intro hlt hend
    have hi : i < us.length := by omega
    rw [List.getElem_append_left hi] at hend
    exact hus (hend ▸ List.mem_map_of_mem (List.getElem_mem hi))

/-- The error is at one of the tokens: it has its span and tells it. That of an empty
list of arguments is at the opening parenthesis and tells the closing one. -/
def SyntaxError.IsAt (e : SyntaxError) (ts : List Token) : Prop :=
  ∃ k t, ts[k]? = some t ∧ e.span = t.span ∧
    ∀ f, e.found = some f → f = t.lexeme.describe ∨
      e = .emptyArguments t.span ∧ t.lexeme = .openParen ∧
        ∃ u, ts[k + 1]? = some u ∧ u.lexeme = .closeParen

theorem SyntaxError.isAt_at {t : Token} (h : ts[i]? = some t) (expected : String) :
    IsAt (.at t expected) ts := by
  refine ⟨i, t, h, ?_⟩
  unfold SyntaxError.at
  split
  · rename_i ht
    refine ⟨rfl, fun f hf => .inl ?_⟩
    rw [ht]
    exact (Option.some.inj hf).symm
  · exact ⟨rfl, fun f hf => .inl (Option.some.inj hf).symm⟩

/-! ## Loops of the grammar -/

namespace Reader

/-- A line end among others, or what stands behind them. -/
def skipLineEndsStep (_ : Unit) : Rule (Unit ⊕ Unit) := do
  if ← accept .lineEnd then return .inl () else return .inr ()

/-- An operator with its right operand, or what stands behind the expression. -/
def exprStep (left : Expr) : Rule (Expr ⊕ Expr) := do
  if ← accept .dot then
    let id ← identifier
    return .inl (.binary .member left (.name id))
  else if ← accept .arrow then
    let id ← identifier
    return .inl (.binary .derivesFrom left (.name id))
  else return .inr left

/-- A further argument, or the closing parenthesis. -/
def argumentsStep (args : List Identifier) : Rule (List Identifier ⊕ List Identifier) := do
  if ← accept .comma then
    let id ← identifier
    return .inl (args ++ [id])
  else
    exactly .closeParen
    return .inr args

theorem skipLineEnds_eq : skipLineEnds = skipLineEndsStep () >>= Sum.elim (fun _ => skipLineEnds) pure := by
  funext us
  rcases us with _ | ⟨⟨l, s⟩, us⟩
  · rfl
  · cases l <;> rfl

theorem exprTail_eq (left : Expr) : exprTail left = exprStep left >>= Sum.elim exprTail pure := by
  funext us
  rcases us with _ | ⟨⟨l, s⟩, us⟩
  · rfl
  · cases l with
    | dot | arrow =>
      rcases us with _ | ⟨⟨m, s'⟩, us⟩
      · rfl
      · cases m <;> rfl
    | _ => rfl

theorem argumentsTail_eq (args : List Identifier) :
    argumentsTail args = argumentsStep args >>= Sum.elim argumentsTail pure := by
  funext us
  rcases us with _ | ⟨⟨l, s⟩, us⟩
  · rfl
  · cases l with
    | comma =>
      rcases us with _ | ⟨⟨m, s'⟩, us⟩
      · rfl
      · cases m <;> rfl
    | _ => rfl

section

variable {us rest : List Token}

theorem length_of_accept {l : Lexeme} (h : accept l us = .ok true rest) :
    rest.length < us.length := by
  cases us with
  | nil => cases h
  | cons t us =>
    rw [accept] at h
    split at h <;> cases h
    exact Nat.lt_succ_self _

/-- What is read behind a lexeme that is there leaves fewer tokens. -/
theorem shrinks_accept_bind {α : Type} {l : Lexeme} {f : Bool → Rule α} {a : α}
    (htrue : (f true).Keeps) (hfalse : ∀ mid, f false mid = .ok a rest → rest.length < mid.length)
    (h : (accept l >>= f) us = .ok a rest) : rest.length < us.length := by
  obtain ⟨b, mid, hb, h⟩ := Rule.bind_eq_ok h
  cases b with
  | true => exact Nat.lt_of_le_of_lt (htrue h) (length_of_accept hb)
  | false => exact Nat.lt_of_lt_of_le (hfalse mid h) (keeps_accept l hb)

theorem skipLineEndsStep_shrinks {s s' : Unit} (h : skipLineEndsStep s us = .ok (.inl s') rest) :
    rest.length < us.length := by
  refine shrinks_accept_bind ?_ (fun _ h => ?_) h
  · exact Rule.keeps_pure _
  · cases h

theorem exprStep_shrinks {left left' : Expr} (h : exprStep left us = .ok (.inl left') rest) :
    rest.length < us.length := by
  have hkeeps (op : Operator) : Rule.Keeps (do
      let id ← identifier
      return .inl (.binary op left (.name id)) : Rule (Expr ⊕ Expr)) :=
    shrinks_identifier.keeps.bind fun _ => Rule.keeps_pure _
  exact shrinks_accept_bind (hkeeps .member)
    (fun _ h => shrinks_accept_bind (hkeeps .derivesFrom) (fun _ h => by cases h) h) h

theorem argumentsStep_shrinks {args args' : List Identifier}
    (h : argumentsStep args us = .ok (.inl args') rest) : rest.length < us.length := by
  refine shrinks_accept_bind (shrinks_identifier.keeps.bind fun _ => Rule.keeps_pure _)
    (fun _ h => ?_) h
  exact (shrinks_exactly _).bind (fun _ => Rule.keeps_pure _) h

end

/-! ## Looking ahead -/

/-- What stands so far ahead in the tokens; behind the last one it is the end. -/
def ahead (us : List Token) (k : Nat) : Lexeme := (us[k]?.map Token.lexeme).getD .endOfText

theorem opensDefinition_eq_ahead (us : List Token) : opensDefinition us =
    ((ahead us 0).isWord && (ahead us 1 == .colon || ahead us 1 == .openParen)) := by
  rcases us with _ | ⟨⟨l, s⟩, _ | ⟨u, us⟩⟩
  · rfl
  · cases l <;> rfl
  · cases l <;> rfl

theorem relationKeyword_cons (t : Token) (us : List Token) : relationKeyword (t :: us) =
    if t.lexeme = .word "mapto" then
      if ahead us 0 = .word "many" ∧ (ahead us 1).isWord = true then .ok (some .mapToMany) us.tail
      else .ok (some .mapTo) us
    else if t.lexeme = .word "structures" then .ok (some .structures) us
    else if t.lexeme = .word "constrains" then .ok (some .constrains) us
    else .ok none (t :: us) := by
  rcases us with _ | ⟨u, _ | ⟨v, us⟩⟩
  · rfl
  · simp [relationKeyword, ahead, Lexeme.isWord]
  · rfl

theorem opensTemplate_eq_ahead (us : List Token) : opensTemplate us =
    (isTemplateWord (ahead us 0) && (ahead us 1).isWord &&
      (ahead us 2 == .openParen || ahead us 2 == .colon ||
        ahead us 2 == .word "extends" && (ahead us 3).isWord && ahead us 4 == .colon)) := by
  rcases us with _ | ⟨t, _ | ⟨⟨l, s⟩, _ | ⟨u, us⟩⟩⟩
  · rfl
  · simp [opensTemplate, ahead, Lexeme.isWord]
  · cases l <;> simp [opensTemplate, ahead, Lexeme.isWord]
  · cases l with
    | word name =>
      rcases us with _ | ⟨⟨m, s'⟩, _ | ⟨v, us⟩⟩
      · simp [opensTemplate, ahead, Lexeme.isWord]
      · have hend : (Lexeme.endOfText == .colon) = false := rfl
        cases m <;> simp [opensTemplate, ahead, Lexeme.isWord, hend]
      · cases m <;> simp [opensTemplate, ahead, Lexeme.isWord]
    | _ => simp [opensTemplate, ahead, Lexeme.isWord]

theorem atEnd_eq_ahead (us : List Token) :
    atEnd us = (ahead us 0 == .word "end" && (ahead us 1).endsLine) := by
  rcases us with _ | ⟨t, _ | ⟨u, us⟩⟩ <;> rfl

end Reader

namespace Cursor

/-- The rule and the run of the cursor from `i` on end alike: the rule leaves the tokens
from the cursor on, which has not moved back and points at a token. -/
inductive Agrees {α : Type} (ts : List Token) (i : Nat) :
    EStateM.Result SyntaxError (List Token) α → EStateM.Result Stop Nat α → Prop
  | ok {a j} (hle : i ≤ j) (hlt : j < ts.length) : Agrees ts i (.ok a (ts.drop j)) (.ok a j)
  | error {e : SyntaxError} {j} (he : e.IsAt ts) (hle : i ≤ j) (hlt : j < ts.length) :
    Agrees ts i (.error e (ts.drop j)) (.error (.failed e) j)

def TracksAt {α : Type} (ts : List Token) (i : Nat) (r : Rule α) (m : CursorM α) : Prop :=
  Agrees ts i (r (ts.drop i)) (m i)

/-- From wherever the cursor points. -/
def Tracks {α : Type} (ts : List Token) (r : Rule α) (m : CursorM α) : Prop :=
  ∀ i < ts.length, TracksAt ts i r m

section

variable {α β σ : Type} {r q : Rule α} {m m' : CursorM α}

theorem Agrees.mono {x y} (hij : i ≤ j) (h : Agrees (α := α) ts j x y) : Agrees ts i x y := by
  cases h with
  | ok hle hlt => exact .ok (Nat.le_trans hij hle) hlt
  | error he hle hlt => exact .error he (Nat.le_trans hij hle) hlt

theorem TracksAt.bind {f : α → Rule β} {g : α → CursorM β} (h : TracksAt ts i r m)
    (hf : ∀ a j, i ≤ j → j < ts.length → r (ts.drop i) = .ok a (ts.drop j) →
      TracksAt ts j (f a) (g a)) : TracksAt ts i (r >>= f) (m >>= g) := by
  unfold TracksAt at *
  simp only [Bind.bind, EStateM.bind]
  generalize hx : r (ts.drop i) = x at h
  generalize hy : m i = y at h
  cases h with
  | ok hle hlt => exact (hf _ _ hle hlt hx).mono hle
  | error he hle hlt => exact .error he hle hlt

theorem Tracks.bind {f : α → Rule β} {g : α → CursorM β} (h : Tracks ts r m)
    (hf : ∀ a, Tracks ts (f a) (g a)) : Tracks ts (r >>= f) (m >>= g) :=
  fun i hi => (h i hi).bind fun a j _ hj _ => hf a j hj

theorem tracks_pure (a : α) : Tracks ts (pure a) (pure a) := fun _ hi => .ok (Nat.le_refl _) hi

theorem TracksAt.map (h : TracksAt ts i r m) (f : α → β) : TracksAt ts i (f <$> r) (f <$> m) := by
  rw [map_eq_pure_bind, map_eq_pure_bind]
  exact h.bind fun _ j _ hj _ => tracks_pure _ j hj

theorem Tracks.map (h : Tracks ts r m) (f : α → β) : Tracks ts (f <$> r) (f <$> m) :=
  fun i hi => (h i hi).map f

theorem TracksAt.ite {c : Bool} (hr : c = true → TracksAt ts i r m)
    (hq : c = false → TracksAt ts i q m') :
    TracksAt ts i (if c = true then r else q) (if c = true then m else m') := by
  cases c with
  | true => exact hr rfl
  | false => exact hq rfl

theorem Tracks.ite {c : Bool} (hr : Tracks ts r m) (hq : Tracks ts q m') :
    Tracks ts (if c = true then r else q) (if c = true then m else m') :=
  fun i hi => .ite (fun _ => hr i hi) (fun _ => hq i hi)

theorem TracksAt.congr (hr : r (ts.drop i) = q (ts.drop i)) (h : TracksAt ts i q m) :
    TracksAt ts i r m := by
  rw [TracksAt, hr]
  exact h

theorem TracksAt.get {f : List Token → Rule α} (h : TracksAt ts i (f (ts.drop i)) m) :
    TracksAt ts i (MonadState.get >>= f) m := .congr rfl h

theorem TracksAt.look {b : β} {m : CursorM β} {g : β → CursorM α} (hm : m i = .ok b i)
    (h : TracksAt ts i r (g b)) : TracksAt ts i r (m >>= g) := by
  unfold TracksAt at *
  simp only [Bind.bind, EStateM.bind, hm]
  exact h

theorem TracksAt.advance {t : Token} {g : Token → CursorM α}
    (hdrop : ts.drop i = t :: ts.drop (i + 1)) (hlt : i + 1 < ts.length)
    (hr : r (t :: ts.drop (i + 1)) = q (ts.drop (i + 1))) (h : TracksAt ts (i + 1) q (g t)) :
    TracksAt ts i r (Cursor.advance ts >>= g) := by
  have hi : i < ts.length := Nat.lt_of_succ_lt hlt
  have hget : ts[i]? = some t := by
    rw [← List.head?_drop, hdrop, List.head?_cons]
  have hadvance : Cursor.advance ts i = .ok t (i + 1) := by
    simp only [Cursor.advance, Bind.bind, EStateM.bind, peek, Nat.add_zero, hget, Option.some_or]
    exact congrArg (EStateM.Result.ok t) (if_pos hi)
  have hm : (Cursor.advance ts >>= g) i = g t (i + 1) := by
    simp only [Bind.bind, EStateM.bind, hadvance]
  rw [TracksAt, hm, hdrop, hr]
  exact h.mono (Nat.le_succ i)

/-- A rule that goes on with its steps, and a loop of such steps, which may take one more
than there are tokens in front of the last one. -/
theorem tracks_loop {r : σ → Rule α} {step : σ → Rule (σ ⊕ α)} {step' : σ → CursorM (σ ⊕ α)}
    {I : σ → Nat → Prop} (hr : ∀ s, r s = step s >>= Sum.elim r pure)
    (hshrinks : ∀ {s us s' rest}, step s us = .ok (.inl s') rest → rest.length < us.length)
    (hstep : ∀ s i, i < ts.length → I s i → TracksAt ts i (step s) (step' s))
    (hnext : ∀ s i s' j, I s i → step s (ts.drop i) = .ok (.inl s') (ts.drop j) → I s' j) :
    ∀ n s i, i < ts.length → ts.length ≤ i + n → I s i → TracksAt ts i (r s) (loop step' n s) := by
  intro n
  induction n with
  | zero =>
    intro s i hi hn
    omega
  | succ n ih =>
    intro s i hi hn hI
    rw [hr]
    refine (hstep s i hi hI).bind fun x j hij hj hx => ?_
    cases x with
    | inl s' =>
      have hlt := hshrinks hx
      rw [List.length_drop, List.length_drop] at hlt
      exact ih s' j hj (by omega) (hnext s i s' j hI hx)
    | inr a => exact tracks_pure a j hj

theorem Tracks.loop {r : σ → Rule α} {step : σ → Rule (σ ⊕ α)} {step' : σ → CursorM (σ ⊕ α)}
    (hr : ∀ s, r s = step s >>= Sum.elim r pure)
    (hshrinks : ∀ {s us s' rest}, step s us = .ok (.inl s') rest → rest.length < us.length)
    (hstep : ∀ s, Tracks ts (step s) (step' s)) (s : σ) :
    Tracks ts (r s) (loop step' ts.length s) := fun i hi =>
  tracks_loop (I := fun _ _ => True) hr hshrinks (fun s i hi _ => hstep s i hi)
    (fun _ _ _ _ _ _ => trivial) _ s i hi (by omega) trivial

theorem tracksAt_iterate {step : σ → Rule (σ ⊕ α)} {step' : σ → CursorM (σ ⊕ α)}
    (hshrinks : ∀ {s us s' rest}, step s us = .ok (.inl s') rest → rest.length < us.length)
    {I : σ → Nat → Prop}
    (hstep : ∀ s i, i < ts.length → I s i → TracksAt ts i (step s) (step' s))
    (hnext : ∀ s i s' j, I s i → step s (ts.drop i) = .ok (.inl s') (ts.drop j) → I s' j)
    {s : σ} (hi : i < ts.length) (hI : I s i) :
    TracksAt ts i (Rule.iterate step hshrinks s) (loop step' ts.length s) := by
  refine tracks_loop (fun s => ?_) hshrinks hstep hnext _ s i hi (by omega) hI
  funext us
  simp only [Bind.bind, EStateM.bind]
  split
  · rename_i x rest hx
    cases x with
    | inl s' => exact Rule.iterate_of_inl hshrinks hx
    | inr a => exact Rule.iterate_of_inr hshrinks hx
  · rename_i e rest he
    exact Rule.iterate_of_error hshrinks he

theorem Tracks.iterate {step : σ → Rule (σ ⊕ α)} {step' : σ → CursorM (σ ⊕ α)}
    (hshrinks : ∀ {s us s' rest}, step s us = .ok (.inl s') rest → rest.length < us.length)
    (hstep : ∀ s, Tracks ts (step s) (step' s)) (s : σ) :
    Tracks ts (Rule.iterate step hshrinks s) (Cursor.loop step' ts.length s) := fun _ hi =>
  tracksAt_iterate (I := fun _ _ => True) hshrinks (fun s i hi _ => hstep s i hi)
    (fun _ _ _ _ _ _ => trivial) hi trivial

end

/-! ## Rules of one line -/

section

variable (hts : Token.Ended ts)

include hts

theorem exists_peek_eq (hi : i < ts.length) (k : Nat) :
    ∃ t, peek ts k i = .ok t i ∧ t.lexeme = Reader.ahead (ts.drop i) k := by
  rw [Reader.ahead, List.getElem?_drop, peek]
  by_cases hk : i + k < ts.length
  · rw [List.getElem?_eq_getElem hk]
    exact ⟨_, rfl, rfl⟩
  · obtain ⟨us, t, rfl, ht, _⟩ := hts
    rw [List.getElem?_eq_none (by omega), List.getLast?_concat]
    exact ⟨t, rfl, ht⟩

theorem exists_next_eq (hi : i < ts.length) : ∃ t, Reader.next (ts.drop i) = t ∧
    ts[i]? = some t ∧ peek ts 0 i = .ok t i ∧ ts.drop i = t :: ts.drop (i + 1) ∧
      (t.lexeme ≠ .endOfText ↔ i + 1 < ts.length) := by
  obtain ⟨t, ht, hdrop, hend⟩ := hts.exists_drop_eq hi
  refine ⟨t, by rw [hdrop, Reader.next, List.headD_cons], ht, ?_, hdrop, hend⟩
  rw [peek, Nat.add_zero, ht]
  rfl

theorem tracks_fail {α : Type} (expected : String) :
    Tracks ts (Reader.fail expected : Rule α) (fail ts expected) := by
  intro i hi
  obtain ⟨t, hnext, ht, hpeek, _⟩ := exists_next_eq hts hi
  refine .look hpeek ?_
  rw [TracksAt, Reader.fail, hnext]
  exact .error (SyntaxError.isAt_at ht expected) (Nat.le_refl i) hi

theorem tracks_nextIs (l : Lexeme) : Tracks ts (Reader.nextIs l) (nextIs ts l) := by
  intro i hi
  obtain ⟨t, hnext, _, hpeek, _⟩ := exists_next_eq hts hi
  refine .look hpeek ?_
  rw [TracksAt, Reader.nextIs, hnext]
  exact .ok (Nat.le_refl i) hi

theorem nextIs_eq (hi : i < ts.length) (l : Lexeme) :
    nextIs ts l i = .ok ((Reader.next (ts.drop i)).lexeme == l) i := by
  obtain ⟨t, hnext, _, hpeek, _⟩ := exists_next_eq hts hi
  rw [hnext]
  simp only [nextIs, Bind.bind, EStateM.bind, hpeek]
  rfl

theorem TracksAt.nextIs {α : Type} {l : Lexeme} {f : Bool → Rule α} {g : Bool → CursorM α}
    (hi : i < ts.length) (h : TracksAt ts i (f ((Reader.next (ts.drop i)).lexeme == l))
      (g ((Reader.next (ts.drop i)).lexeme == l))) :
    TracksAt ts i (Reader.nextIs l >>= f) (Cursor.nextIs ts l >>= g) :=
  .look (nextIs_eq hts hi l) (.congr rfl h)

theorem tracks_accept {l : Lexeme} (hl : l ≠ .endOfText) :
    Tracks ts (Reader.accept l) (accept ts l) := by
  intro i hi
  obtain ⟨t, hnext, _, _, hdrop, hend⟩ := exists_next_eq hts hi
  refine .look (nextIs_eq hts hi l) ?_
  rw [hnext]
  by_cases ht : t.lexeme = l
  · rw [if_pos (by rwa [beq_iff_eq])]
    have hlt := hend.1 (ht ▸ hl)
    exact .advance hdrop hlt (if_pos ht) (tracks_pure true _ hlt)
  · rw [if_neg (by rwa [beq_iff_eq])]
    exact .congr (by rw [hdrop]; exact if_neg ht) (tracks_pure false i hi)

theorem tracks_exactly {l : Lexeme} (hl : l ≠ .endOfText) :
    Tracks ts (Reader.exactly l) (exactly ts l) := by
  intro i hi
  obtain ⟨t, _, _, _, hdrop, _⟩ := exists_next_eq hts hi
  have heq : Reader.exactly l (ts.drop i) = (do
      if ← Reader.accept l then return () else Reader.fail l.describe : Rule Unit) (ts.drop i) := by
    rw [hdrop, Reader.exactly]
    simp only [Bind.bind, EStateM.bind, Reader.accept]
    by_cases ht : t.lexeme = l
    · simp only [if_pos ht, if_true]
      rfl
    · simp only [if_neg ht, Bool.false_eq_true, if_false]
  exact .congr heq
    ((tracks_accept hts hl).bind (fun _ => .ite (tracks_pure _) (tracks_fail hts _)) i hi)

theorem tracks_identifier : Tracks ts Reader.identifier (identifier ts) := by
  intro i hi
  obtain ⟨⟨l, s⟩, _, _, hpeek, hdrop, hend⟩ := exists_next_eq hts hi
  refine .look hpeek ?_
  cases l with
  | word name =>
    have hlt := hend.1 (by simp)
    exact .advance hdrop hlt rfl (tracks_pure _ _ hlt)
  | _ => exact .congr (by rw [hdrop]; rfl) (tracks_fail hts _ i hi)

theorem tracks_acceptIndent : Tracks ts Reader.acceptIndent (acceptIndent ts) := by
  intro i hi
  obtain ⟨⟨l, s⟩, _, _, hpeek, hdrop, hend⟩ := exists_next_eq hts hi
  refine .look hpeek ?_
  cases l with
  | indent depth =>
    have hlt := hend.1 (by simp)
    exact .advance hdrop hlt rfl (tracks_pure _ _ hlt)
  | _ => exact .congr (by rw [hdrop]; rfl) (tracks_pure false i hi)

theorem tracks_lineEnd : Tracks ts Reader.lineEnd (lineEnd ts) := by
  intro i hi
  obtain ⟨⟨l, s⟩, _, _, _, hdrop, _⟩ := exists_next_eq hts hi
  have heq : Reader.lineEnd (ts.drop i) = (do
      if ← Reader.accept .lineEnd then return ()
      else if ← Reader.nextIs .endOfText then return ()
      else Reader.fail "end of line" : Rule Unit) (ts.drop i) := by
    rw [hdrop]
    cases l <;> rfl
  exact .congr heq ((tracks_accept hts (by decide)).bind (fun _ => .ite (tracks_pure _)
    ((tracks_nextIs hts _).bind fun _ => .ite (tracks_pure _) (tracks_fail hts _))) i hi)

theorem tracks_skipLineEnds : Tracks ts Reader.skipLineEnds (skipLineEnds ts) :=
  Tracks.loop (fun _ => Reader.skipLineEnds_eq) Reader.skipLineEndsStep_shrinks
    (fun _ => (tracks_accept hts (by decide)).bind fun _ => .ite (tracks_pure _) (tracks_pure _)) ()

theorem tracks_exprStep (left : Expr) : Tracks ts (Reader.exprStep left) (exprStep ts left) :=
  (tracks_accept hts (by decide)).bind fun _ => .ite
    ((tracks_identifier hts).bind fun _ => tracks_pure _)
    ((tracks_accept hts (by decide)).bind fun _ => .ite
      ((tracks_identifier hts).bind fun _ => tracks_pure _) (tracks_pure _))

theorem tracks_expr : Tracks ts Reader.expr (expr ts) :=
  (tracks_identifier hts).bind fun _ =>
    Tracks.loop Reader.exprTail_eq Reader.exprStep_shrinks (tracks_exprStep hts) _

theorem tracks_argumentsStep (args : List Identifier) :
    Tracks ts (Reader.argumentsStep args) (argumentsStep ts args) :=
  (tracks_accept hts (by decide)).bind fun _ => .ite
    ((tracks_identifier hts).bind fun _ => tracks_pure _)
    ((tracks_exactly hts (by decide)).bind fun _ => tracks_pure _)

/-- The error of an empty list is at the token that opens it. -/
theorem tracks_arguments : Tracks ts Reader.arguments (arguments ts) := by
  intro i hi
  obtain ⟨t, hnext, ht, hpeek, hdrop, _⟩ := exists_next_eq hts hi
  refine .look hpeek (.get ?_)
  rw [hnext]
  refine (tracks_exactly hts (by decide) i hi).bind fun _ j _ hj hopen => ?_
  rw [hdrop, Reader.exactly] at hopen
  split at hopen
  · rename_i hparen
    obtain ⟨-, hrest⟩ := EStateM.Result.ok.inj hopen
    obtain rfl : j = i + 1 := by
      have hlength := congrArg List.length hrest
      rw [List.length_drop, List.length_drop] at hlength
      omega
    obtain ⟨u, hnext, hu, _⟩ := exists_next_eq hts hj
    refine .nextIs hts hj (.ite (fun hclosed => ?_) fun _ => ?_)
    · rw [hnext, beq_iff_eq] at hclosed
      refine .error ⟨i, t, ht, rfl, fun f hf => .inr ⟨rfl, hparen, u, hu, hclosed⟩⟩ (Nat.le_refl _) hj
    · exact (tracks_identifier hts).bind (fun _ =>
        Tracks.loop Reader.argumentsTail_eq Reader.argumentsStep_shrinks (tracks_argumentsStep hts) _)
        _ hj
  · cases hopen

theorem tracks_definitionPart : Tracks ts Reader.definitionPart (definitionPart ts) :=
  (tracks_identifier hts).bind fun _ => (tracks_nextIs hts _).bind fun _ => .ite
    ((tracks_arguments hts).bind fun _ => (tracks_exactly hts (by decide)).bind fun _ => tracks_pure _)
    ((tracks_accept hts (by decide)).bind fun _ => .ite (tracks_pure _) (tracks_pure _))

/-- The cursor stands behind a decorator, or before the first. -/
def Decorated (ts : List Token) (ds : List Decorator) (i : Nat) : Prop :=
  ds = [] → Reader.opensDefinition (ts.drop i) = true

theorem tracksAt_definitionStep (hi : i < ts.length) {ds : List Decorator} (h : Decorated ts ds i) :
    TracksAt ts i (Reader.definitionStep ds) (definitionStep ts ds) := by
  refine (tracks_definitionPart hts i hi).bind fun x j _ hj hpart => ?_
  cases x with
  | inl d => exact tracks_pure _ j hj
  | inr id =>
    cases ds with
    | cons d ds => exact tracks_pure _ j hj
    | nil =>
      obtain ⟨d, hd⟩ := Reader.definitionPart_of_opensDefinition (h rfl) hpart
      cases hd

theorem tracksAt_definition (hi : i < ts.length) (h : Reader.opensDefinition (ts.drop i) = true) :
    TracksAt ts i Reader.definition (definition ts) := by
  refine tracksAt_iterate (I := Decorated ts)
    (fun h => Reader.shrinks_definitionStep _ h) (fun ds i hi => tracksAt_definitionStep hts hi)
    (fun ds i ds' j _ hstep => ?_) hi fun _ => h
  obtain ⟨x, mid, _, hx⟩ := Rule.bind_eq_ok hstep
  cases x <;> cases hx
  exact fun hnil => by simp at hnil

theorem opensDefinition_run (hi : i < ts.length) :
    opensDefinition ts i = .ok (Reader.opensDefinition (ts.drop i)) i := by
  obtain ⟨t, hpeek, ht⟩ := exists_peek_eq hts hi 0
  obtain ⟨u, hpeek', hu⟩ := exists_peek_eq hts hi 1
  rw [Reader.opensDefinition_eq_ahead, ← ht, ← hu]
  simp only [opensDefinition, Bind.bind, EStateM.bind, hpeek, hpeek']
  rfl

theorem tracks_operand : Tracks ts Reader.operand (operand ts) := by
  intro i hi
  refine .look (opensDefinition_run hts hi) ?_
  by_cases h : Reader.opensDefinition (ts.drop i) = true
  · rw [if_pos h]
    exact .congr (if_pos h) ((tracksAt_definition hts hi h).map _)
  · rw [if_neg h]
    exact .congr (if_neg h) ((tracks_expr hts).map _ i hi)

theorem tracks_relationKeyword : Tracks ts Reader.relationKeyword (relationKeyword ts) := by
  intro i hi
  obtain ⟨t, _, _, hpeek, hdrop, hend⟩ := exists_next_eq hts hi
  refine .look hpeek ?_
  by_cases hmapto : t.lexeme = .word "mapto"
  · have hlt := hend.1 (by simp [hmapto])
    obtain ⟨u, hpeek, hu⟩ := exists_peek_eq hts hi 1
    obtain ⟨v, hpeek', hv⟩ := exists_peek_eq hts hi 2
    rw [if_pos hmapto]
    refine .look hpeek (.look hpeek' ?_)
    obtain ⟨u', _, _, _, hdrop', hend'⟩ := exists_next_eq hts hlt
    have hu : u.lexeme = Reader.ahead (ts.drop (i + 1)) 0 := by rw [hu, hdrop]; rfl
    have hv : v.lexeme = Reader.ahead (ts.drop (i + 1)) 1 := by rw [hv, hdrop]; rfl
    have heq := Reader.relationKeyword_cons t (ts.drop (i + 1))
    rw [if_pos hmapto, ← hu, ← hv] at heq
    by_cases hmany : u.lexeme = .word "many" ∧ v.lexeme.isWord = true
    · rw [if_pos hmany] at heq ⊢
      have hu' : u'.lexeme = .word "many" := by rw [← hmany.1, hu, hdrop']; rfl
      have hlt' := hend'.1 (by simp [hu'])
      refine .advance (q := fun us => .ok (some .mapToMany) us.tail) hdrop hlt heq ?_
      refine .advance (q := pure (some .mapToMany)) hdrop' hlt' rfl (tracks_pure _ _ hlt')
    · rw [if_neg hmany] at heq ⊢
      exact .advance (q := pure (some RelationKind.mapTo)) hdrop hlt heq (tracks_pure _ _ hlt)
  · rw [if_neg hmapto]
    by_cases hstructures : t.lexeme = .word "structures"
    · rw [if_pos hstructures]
      have hlt := hend.1 (by simp [hstructures])
      refine .advance (q := pure (some .structures)) hdrop hlt ?_ (tracks_pure _ _ hlt)
      rw [Reader.relationKeyword_cons, if_neg hmapto, if_pos hstructures]
      rfl
    · rw [if_neg hstructures]
      by_cases hconstrains : t.lexeme = .word "constrains"
      · rw [if_pos hconstrains]
        have hlt := hend.1 (by simp [hconstrains])
        refine .advance (q := pure (some .constrains)) hdrop hlt ?_ (tracks_pure _ _ hlt)
        rw [Reader.relationKeyword_cons, if_neg hmapto, if_neg hstructures, if_pos hconstrains]
        rfl
      · rw [if_neg hconstrains]
        refine .congr ?_ (tracks_pure none i hi)
        rw [hdrop, Reader.relationKeyword_cons, if_neg hmapto, if_neg hstructures,
          if_neg hconstrains]
        rfl

theorem tracks_withExpr : Tracks ts Reader.withExpr (withExpr ts) :=
  (tracks_expr hts).bind fun _ => (tracks_accept hts (by decide)).bind fun _ =>
    .ite ((tracks_expr hts).bind fun _ => tracks_pure _) (tracks_pure _)

theorem tracks_simpleStatement : Tracks ts Reader.simpleStatement (simpleStatement ts) :=
  (tracks_operand hts).bind fun _ => (tracks_relationKeyword hts).bind fun
    | some _ => (tracks_expr hts).bind fun _ => tracks_pure _
    | none => (tracks_accept hts (by decide)).bind fun _ => .ite
      ((tracks_expr hts).bind fun _ => (tracks_exactly hts (by decide)).bind fun _ =>
        (tracks_expr hts).bind fun _ => tracks_pure _)
      ((tracks_accept hts (by decide)).bind fun _ => .ite
        ((tracks_withExpr hts).bind fun _ => (tracks_accept hts (by decide)).bind fun _ => .ite
          ((tracks_withExpr hts).bind fun _ => tracks_pure _) (tracks_pure _))
        (tracks_pure _))

/-! ## Templates and programs -/

theorem opensTemplate_run (hi : i < ts.length) :
    opensTemplate ts i = .ok (Reader.opensTemplate (ts.drop i)) i := by
  obtain ⟨t, hpeek, ht⟩ := exists_peek_eq hts hi 0
  obtain ⟨name, hpeek1, hname⟩ := exists_peek_eq hts hi 1
  obtain ⟨u, hpeek2, hu⟩ := exists_peek_eq hts hi 2
  obtain ⟨base, hpeek3, hbase⟩ := exists_peek_eq hts hi 3
  obtain ⟨v, hpeek4, hv⟩ := exists_peek_eq hts hi 4
  rw [Reader.opensTemplate_eq_ahead, ← ht, ← hname, ← hu, ← hbase, ← hv]
  simp only [opensTemplate, Bind.bind, EStateM.bind, hpeek, hpeek1, hpeek2, hpeek3, hpeek4]
  rfl

theorem atEnd_run (hi : i < ts.length) : atEnd ts i = .ok (Reader.atEnd (ts.drop i)) i := by
  obtain ⟨t, hpeek, ht⟩ := exists_peek_eq hts hi 0
  obtain ⟨u, hpeek', hu⟩ := exists_peek_eq hts hi 1
  rw [Reader.atEnd_eq_ahead, ← ht, ← hu]
  simp only [atEnd, Bind.bind, EStateM.bind, hpeek, hpeek']
  rfl

theorem tracks_parameters : Tracks ts Reader.parameters (parameters ts) :=
  (tracks_nextIs hts _).bind fun _ => .ite ((tracks_arguments hts).map _) (tracks_pure _)

theorem tracks_baseTemplate : Tracks ts Reader.baseTemplate (baseTemplate ts) :=
  (tracks_accept hts (by decide)).bind fun _ => .ite ((tracks_identifier hts).map _) (tracks_pure _)

theorem tracksAt_header (hi : i < ts.length) (h : Reader.opensTemplate (ts.drop i) = true) :
    TracksAt ts i Reader.header (header ts) := by
  obtain ⟨t, _, _, _, hdrop, hend⟩ := exists_next_eq hts hi
  have hlt := hend.1 fun ht => by
    rw [Reader.opensTemplate_eq_ahead, hdrop] at h
    simp [Reader.ahead, ht, Reader.isTemplateWord] at h
  exact .advance hdrop hlt rfl ((tracks_identifier hts).bind (fun _ =>
    (tracks_parameters hts).bind fun _ => (tracks_baseTemplate hts).bind fun _ =>
      (tracks_exactly hts (by decide)).bind fun _ => (tracks_accept hts (by decide)).bind fun _ =>
        .ite (tracks_pure _) (tracks_fail hts _)) _ hlt)

theorem tracks_bodyLineEnd (t : Reader.OpenTemplate) :
    Tracks ts (Reader.bodyLineEnd t) (bodyLineEnd ts t) := by
  intro i hi
  obtain ⟨⟨l, s⟩, _, _, _, hdrop, _⟩ := exists_next_eq hts hi
  have heq : Reader.bodyLineEnd t (ts.drop i) = (do
      if ← Reader.accept .lineEnd then return ()
      else if ← Reader.nextIs .endOfText then Reader.fail t.closing
      else Reader.fail "end of line" : Rule Unit) (ts.drop i) := by
    rw [hdrop]
    cases l <;> rfl
  exact .congr heq ((tracks_accept hts (by decide)).bind (fun _ => .ite (tracks_pure _)
    ((tracks_nextIs hts _).bind fun _ => .ite (tracks_fail hts _) (tracks_fail hts _))) i hi)

theorem tracks_closeTemplate (n : Reader.Nesting) :
    Tracks ts (Reader.closeTemplate n) (closeTemplate ts n) := by
  obtain ⟨inner, outer⟩ := n
  intro i hi
  obtain ⟨t, hnext, ht, hpeek, _⟩ := exists_next_eq hts hi
  refine .get (.ite (fun _ => .look hpeek ?_) fun _ => (tracks_exactly hts (by decide) i hi).bind ?_)
  · rw [hnext]
    exact .error ⟨i, t, ht, rfl, fun f hf => by cases hf⟩ (Nat.le_refl i) hi
  · intro _ j _ hj _
    cases outer with
    | nil => exact tracks_pure _ j hj
    | cons up outer => exact (tracks_bodyLineEnd hts up).bind (fun _ => tracks_pure _) j hj

theorem tracks_bodyLine (n : Reader.Nesting) : Tracks ts (Reader.bodyLine n) (bodyLine ts n) := by
  obtain ⟨inner, outer⟩ := n
  intro i hi
  refine .look (opensTemplate_run hts hi) (.congr rfl (.ite (fun h => ?_) fun _ => ?_))
  · exact (tracksAt_header hts hi h).bind fun _ j _ hj _ => tracks_pure _ j hj
  · exact (tracks_simpleStatement hts).bind (fun _ => (tracks_bodyLineEnd hts inner).bind fun _ =>
      tracks_pure _) i hi

theorem tracks_bodyStep (n : Reader.Nesting) : Tracks ts (Reader.bodyStep n) (bodyStep ts n) :=
  (tracks_acceptIndent hts).bind fun _ i hi =>
    .look (atEnd_run hts hi) (.congr rfl (.ite (fun _ => tracks_closeTemplate hts n i hi) fun _ =>
      (tracks_nextIs hts _).bind (fun _ => .ite (tracks_fail hts _)
        (.ite (tracks_bodyLine hts n) (tracks_fail hts _))) i hi))

theorem tracksAt_template (hi : i < ts.length) (h : Reader.opensTemplate (ts.drop i) = true) :
    TracksAt ts i Reader.template (template ts) :=
  (tracksAt_header hts hi h).bind fun _ j _ hj _ =>
    Tracks.iterate (fun hs => Reader.shrinks_bodyStep _ hs) (tracks_bodyStep hts) _ j hj

theorem tracks_statement : Tracks ts Reader.statement (statement ts) := by
  intro i hi
  refine .look (opensTemplate_run hts hi) ?_
  by_cases h : Reader.opensTemplate (ts.drop i) = true
  · rw [if_pos h]
    exact .congr (if_pos h) (tracksAt_template hts hi h)
  · rw [if_neg h]
    exact .congr (if_neg h) (tracks_simpleStatement hts i hi)

theorem tracks_programStep (ss : List Statement) :
    Tracks ts (Reader.programStep ss) (programStep ts ss) :=
  (tracks_skipLineEnds hts).bind fun _ => (tracks_nextIs hts _).bind fun _ =>
    .ite (tracks_pure _) fun i hi => by
      obtain ⟨t, hnext, ht, hpeek, _⟩ := exists_next_eq hts hi
      refine .look hpeek (.get ?_)
      rw [hnext]
      refine .ite (fun hindent => ?_) fun _ => ?_
      · refine .error ⟨i, t, ht, rfl, fun f hf => .inl ?_⟩ (Nat.le_refl i) hi
        obtain ⟨l, s⟩ := t
        cases l with
        | indent depth => exact (Option.some.inj hf).symm
        | _ => cases hindent
      · exact (tracks_statement hts).bind (fun _ => (tracks_lineEnd hts).bind fun _ =>
          tracks_pure _) i hi

theorem tracks_program : Tracks ts Reader.program (program ts) :=
  Tracks.iterate Reader.programStep_shrinks (tracks_programStep hts) []

end

end Cursor

end InterfaceSchema
