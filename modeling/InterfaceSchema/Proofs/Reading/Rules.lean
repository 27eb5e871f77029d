import InterfaceSchema.Proofs.Equality
import InterfaceSchema.Schema.Printer
import InterfaceSchema.Schema.Reader
import InterfaceSchema.Schema.WellFormed

/-!
# Rules on printed lexemes

`Rule.Reads` says what a rule makes of lexemes, wherever their tokens stand: it
reads a value with some property from the front and leaves the rest. Each rule
reads the lexemes of what it is for, if a lexeme follows that cannot go on with
it (`Lexeme.follows`), and gives it back up to places.
-/

namespace InterfaceSchema

/-- What can follow an expression or a definition: a keyword, or the end of the
line. -/
def Lexeme.follows : Lexeme → Bool
  | word _ | lineEnd => true
  | _ => false

theorem Token.exists_of_map_lexeme {ts : List Token} {l : Lexeme} {ls : List Lexeme}
    (h : ts.map Token.lexeme = l :: ls) :
    ∃ span rest, ts = ⟨l, span⟩ :: rest ∧ rest.map Token.lexeme = ls := by
  obtain ⟨⟨_, span⟩, rest, rfl, rfl, hrest⟩ := List.map_eq_cons_iff.1 h
  exact ⟨span, rest, rfl, hrest⟩

/-- From the lexemes `ls` the rule reads a value with `P`, and leaves `ks`. -/
def Rule.Reads {α : Type} (r : Rule α) (ls ks : List Lexeme) (P : α → Prop) : Prop :=
  ∀ ts, ts.map Token.lexeme = ls →
    ∃ a rest, r ts = .ok a rest ∧ P a ∧ rest.map Token.lexeme = ks

namespace Rule

variable {α β σ : Type} {ls ms ks : List Lexeme} {P : α → Prop} {Q : β → Prop}

namespace Reads

theorem bind {r : Rule α} {f : α → Rule β} (hr : r.Reads ls ms P)
    (hf : ∀ a, P a → (f a).Reads ms ks Q) : (r >>= f).Reads ls ks Q := by
  intro ts hts
  obtain ⟨a, mid, ha, hP, hmid⟩ := hr ts hts
  obtain ⟨b, rest, hb, hQ, hrest⟩ := hf a hP mid hmid
  refine ⟨b, rest, ?_, hQ, hrest⟩
  simp only [Bind.bind, EStateM.bind, ha, hb]

theorem pure {a : α} (h : P a) : (pure a : Rule α).Reads ls ls P :=
  fun ts hts => ⟨a, ts, rfl, h, hts⟩

theorem map {r : Rule α} {f : α → β} (h : r.Reads ls ks fun a => Q (f a)) :
    (f <$> r).Reads ls ks Q := by
  rw [map_eq_pure_bind]
  exact h.bind fun _ ha => pure ha

theorem imp {P' : α → Prop} {r : Rule α} (h : r.Reads ls ks P) (hP : ∀ a, P a → P' a) :
    r.Reads ls ks P' := by
  intro ts hts
  obtain ⟨a, rest, ha, hPa, hrest⟩ := h ts hts
  exact ⟨a, rest, ha, hP a hPa, hrest⟩

theorem get : (get : Rule (List Token)).Reads ls ls fun ts => ts.map Token.lexeme = ls :=
  fun ts hts => ⟨ts, ts, rfl, hts, hts⟩

variable {step : σ → Rule (σ ⊕ α)} (shrinks : ∀ {s ts s' rest},
  step s ts = .ok (.inl s') rest → rest.length < ts.length) {s : σ}

theorem iterate_inl {I : σ → Prop}
    (hstep : (step s).Reads ls ms fun x => ∃ s', x = .inl s' ∧ I s')
    (hrest : ∀ s', I s' → Rule.Reads (iterate step shrinks s') ms ks P) :
    Rule.Reads (iterate step shrinks s) ls ks P := by
  intro ts hts
  obtain ⟨_, mid, hs, ⟨s', rfl, hs'⟩, hmid⟩ := hstep ts hts
  obtain ⟨a, rest, ha, hP, hks⟩ := hrest s' hs' mid hmid
  exact ⟨a, rest, (iterate_of_inl _ hs).trans ha, hP, hks⟩

theorem iterate_inr (hstep : (step s).Reads ls ks fun x => ∃ a, x = .inr a ∧ P a) :
    Rule.Reads (iterate step shrinks s) ls ks P := by
  intro ts hts
  obtain ⟨_, rest, hs, ⟨a, rfl, ha⟩, hrest⟩ := hstep ts hts
  exact ⟨a, rest, iterate_of_inr _ hs, ha, hrest⟩

end Reads

end Rule

namespace Reader

open Rule

variable {l k : Lexeme} {ks : List Lexeme}

/-! ## The grammar -/

theorem reads_nextIs : (nextIs l).Reads (k :: ks) (k :: ks) (· = (k == l)) := by
  intro ts hts
  obtain ⟨t, rest, rfl, rfl, rfl⟩ := List.map_eq_cons_iff.1 hts
  exact ⟨_, _, rfl, rfl, rfl⟩

theorem reads_accept : (accept l).Reads (l :: ks) ks (· = true) := by
  intro ts hts
  obtain ⟨t, rest, rfl, rfl, rfl⟩ := List.map_eq_cons_iff.1 hts
  exact ⟨true, rest, by simp [accept], rfl, rfl⟩

theorem reads_accept_of_ne (h : k ≠ l) : (accept l).Reads (k :: ks) (k :: ks) (· = false) := by
  intro ts hts
  obtain ⟨t, rest, rfl, rfl, rfl⟩ := List.map_eq_cons_iff.1 hts
  exact ⟨false, t :: rest, by simp [accept, h], rfl, rfl⟩

theorem reads_exactly : (exactly l).Reads (l :: ks) ks fun _ => True := by
  intro ts hts
  obtain ⟨t, rest, rfl, rfl, rfl⟩ := List.map_eq_cons_iff.1 hts
  exact ⟨(), rest, by simp [exactly], trivial, rfl⟩

theorem reads_skip : skip.Reads (k :: ks) ks fun _ => True := by
  intro ts hts
  obtain ⟨t, rest, rfl, rfl, rfl⟩ := List.map_eq_cons_iff.1 hts
  exact ⟨(), rest, rfl, trivial, rfl⟩

theorem reads_identifier (id : Identifier) :
    identifier.Reads (id.lexeme :: ks) ks (·.unplaced = id.unplaced) := by
  intro ts hts
  obtain ⟨span, rest, rfl, rfl⟩ := Token.exists_of_map_lexeme hts
  exact ⟨⟨id.name, span⟩, rest, rfl, rfl, rfl⟩

theorem reads_acceptIndent {depth : Nat} :
    acceptIndent.Reads (.indent depth :: ks) ks (· = true) := by
  intro ts hts
  obtain ⟨span, rest, rfl, rfl⟩ := Token.exists_of_map_lexeme hts
  exact ⟨true, rest, rfl, rfl, rfl⟩

theorem reads_acceptIndent_of_word {name : String} :
    acceptIndent.Reads (.word name :: ks) (.word name :: ks) (· = false) := by
  intro ts hts
  obtain ⟨span, rest, rfl, rfl⟩ := Token.exists_of_map_lexeme hts
  exact ⟨false, _, rfl, rfl, rfl⟩

theorem reads_lineEnd : lineEnd.Reads (.lineEnd :: ks) ks fun _ => True := by
  intro ts hts
  obtain ⟨span, rest, rfl, rfl⟩ := Token.exists_of_map_lexeme hts
  exact ⟨(), rest, rfl, trivial, rfl⟩

theorem reads_skipLineEnds (count : Nat) (h : k ≠ .lineEnd) :
    skipLineEnds.Reads (List.replicate count .lineEnd ++ k :: ks) (k :: ks) fun _ => True := by
  intro ts hts
  refine ⟨(), ts.dropWhile (·.lexeme == .lineEnd), rfl, trivial, ?_⟩
  induction count generalizing ts with
  | zero =>
    obtain ⟨t, rest, rfl, rfl, rfl⟩ := List.map_eq_cons_iff.1 hts
    rw [List.dropWhile_cons_of_neg (by simpa using h)]
    rfl
  | succ count ih =>
    obtain ⟨t, rest, rfl, ht, hrest⟩ := List.map_eq_cons_iff.1 hts
    rw [List.dropWhile_cons_of_pos (by rw [ht]; rfl)]
    exact ih rest hrest

theorem reads_bodyLineEnd {t : OpenTemplate} :
    (bodyLineEnd t).Reads (.lineEnd :: ks) ks fun _ => True := by
  intro ts hts
  obtain ⟨span, rest, rfl, rfl⟩ := Token.exists_of_map_lexeme hts
  exact ⟨(), rest, rfl, trivial, rfl⟩

/-- An expression reads its left operand and then whatever `exprTail` reads. -/
theorem reads_expr_bind {e : Expr} (he : e.isWellFormed = true) {ms : List Lexeme}
    {P : Expr → Prop}
    (h : ∀ e', e'.unplaced = e.unplaced → Rule.Reads (exprTail e') ms ks P) :
    expr.Reads (e.lexemes ++ ms) ks P := by
  induction e generalizing ms with
  | name id =>
    refine (reads_identifier id).bind fun id' hid => h (.name id') ?_
    rw [Expr.unplaced, Expr.unplaced, hid]
  | binary op left right ihl _ =>
    cases right with
    | binary _ _ _ => cases he
    | name id =>
      simp only [Expr.isWellFormed, Bool.and_eq_true] at he
      rw [Expr.lexemes, Expr.lexemes, List.append_assoc]
      refine ihl he.1 fun e' he' => ?_
      intro ts hts
      obtain ⟨t, _, rfl, ht, hts⟩ := List.map_eq_cons_iff.1 hts
      obtain ⟨span, rest, rfl, hrest⟩ := Token.exists_of_map_lexeme hts
      have hop : operator? t.lexeme = some op := by
        rw [ht]
        cases op <;> rfl
      obtain ⟨a, mid, ha, hP, hmid⟩ := h (.binary op e' (.name ⟨id.name, span⟩))
        (by rw [Expr.unplaced, Expr.unplaced, he']; rfl) rest hrest
      refine ⟨a, mid, ?_, hP, hmid⟩
      rw [exprTail, hop]
      exact ha

theorem reads_expr {e : Expr} (he : e.isWellFormed = true) (hk : k.follows = true) :
    expr.Reads (e.lexemes ++ k :: ks) (k :: ks) (·.unplaced = e.unplaced) := by
  refine reads_expr_bind he fun e' he' ts hts => ?_
  obtain ⟨t, rest, rfl, rfl, rfl⟩ := List.map_eq_cons_iff.1 hts
  have hop : operator? t.lexeme = none := by
    cases hl : t.lexeme <;> first | rfl | (rw [hl] at hk; cases hk)
  exact ⟨e', t :: rest, by rw [exprTail, hop], he', rfl⟩

theorem intersperse_comma (id : Identifier) (ids : List Identifier) :
    ((id :: ids).map Identifier.lexeme).intersperse .comma =
      id.lexeme :: ids.flatMap fun id => [.comma, id.lexeme] := by
  induction ids generalizing id with
  | nil => rfl
  | cons id' ids ih =>
    rw [List.map_cons, List.map_cons, List.intersperse_cons_cons, ← List.map_cons, ih id',
      List.flatMap_cons]
    rfl

theorem reads_argumentsTail (ids args : List Identifier) :
    Rule.Reads (argumentsTail args)
      ((ids.flatMap fun id => [.comma, id.lexeme]) ++ .closeParen :: ks) ks
      (·.map Identifier.unplaced = (args ++ ids).map Identifier.unplaced) := by
  intro ts hts
  induction ids generalizing args ts with
  | nil =>
    obtain ⟨span, rest, rfl, rfl⟩ := Token.exists_of_map_lexeme hts
    exact ⟨args, rest, rfl, by rw [List.append_nil], rfl⟩
  | cons id ids ih =>
    obtain ⟨span, us, rfl, hus⟩ := Token.exists_of_map_lexeme hts
    obtain ⟨span', rest, rfl, hrest⟩ := Token.exists_of_map_lexeme hus
    obtain ⟨as, rest', ha, has, hrest'⟩ := ih (args ++ [⟨id.name, span'⟩]) rest hrest
    refine ⟨as, rest', ha, ?_, hrest'⟩
    show as.map Identifier.unplaced = _
    rw [has]
    simp [Identifier.unplaced]

theorem reads_arguments {ids : List Identifier} (h : Identifier.areWellFormed ids = true) :
    arguments.Reads (Identifier.listLexemes ids ++ ks) ks
      (·.map Identifier.unplaced = ids.map Identifier.unplaced) := by
  cases ids with
  | nil => cases h
  | cons id ids =>
    rw [Identifier.listLexemes, intersperse_comma, List.cons_append, List.cons_append,
      List.append_assoc, List.cons_append, List.singleton_append]
    refine Reads.get.bind fun _ _ => reads_exactly.bind fun _ _ => reads_nextIs.bind ?_
    rintro _ rfl
    rw [if_neg (by simp [Identifier.lexeme])]
    refine (reads_identifier id).bind fun first hfirst => ?_
    refine (reads_argumentsTail ids [first]).imp fun as has => ?_
    rw [has]
    simp [hfirst]

theorem reads_definitionPart {d : Decorator} (h : d.isWellFormed = true) :
    definitionPart.Reads (d.lexemes ++ ks) ks
      fun x => ∃ d', x = .inl d' ∧ d'.unplaced = d.unplaced := by
  cases d with
  | tag id =>
    refine (reads_identifier id).bind fun id' hid => reads_nextIs.bind ?_
    rintro _ rfl
    rw [if_neg (by decide)]
    refine reads_accept.bind ?_
    rintro _ rfl
    exact Reads.pure ⟨.tag id', rfl, by rw [Decorator.unplaced, hid]; rfl⟩
  | call template args =>
    simp only [Decorator.isWellFormed, Bool.and_eq_true] at h
    rw [Decorator.lexemes, List.cons_append, List.cons_append, List.append_assoc]
    refine (reads_identifier template).bind fun id' hid => reads_nextIs.bind ?_
    rintro _ rfl
    rw [if_pos (by rfl)]
    refine (reads_arguments h.2).bind fun as has => reads_exactly.bind fun _ _ => ?_
    exact Reads.pure ⟨.call id' as, rfl, by rw [Decorator.unplaced, hid, has]; rfl⟩

theorem reads_definitionPart_name (id : Identifier) (hk : k.follows = true) :
    definitionPart.Reads (id.lexeme :: k :: ks) (k :: ks)
      fun x => ∃ id', x = .inr id' ∧ id'.unplaced = id.unplaced := by
  refine (reads_identifier id).bind fun id' hid => reads_nextIs.bind ?_
  rintro _ rfl
  rw [if_neg (by cases k <;> simp_all [Lexeme.follows])]
  refine (reads_accept_of_ne (by rintro rfl; cases hk)).bind ?_
  rintro _ rfl
  exact Reads.pure ⟨id', rfl, hid⟩

theorem reads_definition {d : Definition} (h : d.isWellFormed = true) (hk : k.follows = true) :
    definition.Reads (d.lexemes ++ k :: ks) (k :: ks) (·.unplaced = d.unplaced) := by
  have loop (before rest : List Decorator) (hrest : rest.all Decorator.isWellFormed = true) :
      Rule.Reads (Rule.iterate definitionStep (fun h => shrinks_definitionStep _ h) before)
        (rest.flatMap Decorator.lexemes ++ d.id.lexeme :: k :: ks) (k :: ks)
        (·.unplaced = (⟨before ++ rest, d.id⟩ : Definition).unplaced) := by
    induction rest generalizing before with
    | nil =>
      refine Reads.iterate_inr _ ((reads_definitionPart_name d.id hk).bind ?_)
      rintro _ ⟨id, rfl, hid⟩
      exact Reads.pure ⟨_, rfl, by simp [Definition.unplaced, hid]⟩
    | cons e rest ih =>
      simp only [List.all_cons, Bool.and_eq_true] at hrest
      rw [List.flatMap_cons, List.append_assoc]
      have hstep : (definitionStep before).Reads
          (e.lexemes ++ (rest.flatMap Decorator.lexemes ++ d.id.lexeme :: k :: ks))
          (rest.flatMap Decorator.lexemes ++ d.id.lexeme :: k :: ks)
          fun x => ∃ ds, x = .inl ds ∧
            ds.map Decorator.unplaced = (before ++ [e]).map Decorator.unplaced := by
        refine (reads_definitionPart hrest.1).bind ?_
        rintro _ ⟨e', rfl, he⟩
        exact Reads.pure ⟨_, rfl, by simp [he]⟩
      refine Reads.iterate_inl _ hstep fun ds hds => (ih ds hrest.2).imp fun d' hd' => ?_
      rw [hd', Definition.unplaced, Definition.unplaced, List.map_append, hds]
      simp
  simp only [Definition.isWellFormed, Bool.and_eq_true] at h
  rw [Definition.lexemes, List.append_assoc, List.singleton_append]
  exact loop [] d.decorators h.1.2

end Reader

end InterfaceSchema
