/-!
# Success

When a computation that can fail gives a result, and which: for a sequence of two,
and for one step for each element of a list.
-/

namespace InterfaceSchema

variable {ε α β : Type}

theorem isOk_iff_exists {x : Except ε α} : x.isOk = true ↔ ∃ a, x = .ok a := by
  cases x <;> simp [Except.isOk, Except.toBool]

theorem isOk_map (f : α → β) (x : Except ε α) : (f <$> x).isOk = x.isOk := by
  cases x <;> rfl

theorem bind_eq_ok_iff {x : Except ε α} {f : α → Except ε β} {b : β} :
    (x >>= f) = .ok b ↔ ∃ a, x = .ok a ∧ f a = .ok b := by
  cases x <;> simp [bind, Except.bind]

theorem map_eq_ok_iff {x : Except ε α} {f : α → β} {b : β} :
    f <$> x = .ok b ↔ ∃ a, x = .ok a ∧ f a = b := by
  cases x <;> simp [Functor.map, Except.map]

theorem bind_eq_error_iff {x : Except ε α} {f : α → Except ε β} {e : ε} :
    (x >>= f) = .error e ↔ x = .error e ∨ ∃ a, x = .ok a ∧ f a = .error e := by
  cases x <;> simp [bind, Except.bind]

theorem map_eq_error_iff {x : Except ε α} {f : α → β} {e : ε} :
    f <$> x = .error e ↔ x = .error e := by
  cases x <;> simp [Functor.map, Except.map]

theorem isOk_bind_iff {x : Except ε α} {f : α → Except ε β} :
    (x >>= f).isOk = true ↔ ∃ a, x = .ok a ∧ (f a).isOk = true := by
  cases x <;> simp [bind, Except.bind, Except.isOk, Except.toBool]

theorem mapM_cons_eq_ok_iff {f : α → Except ε β} {x : α} {xs : List α} {ys : List β} :
    (x :: xs).mapM f = .ok ys ↔ ∃ y ys', f x = .ok y ∧ xs.mapM f = .ok ys' ∧ ys = y :: ys' := by
  rw [List.mapM_cons, bind_eq_ok_iff]
  constructor
  · rintro ⟨y, hy, h⟩
    obtain ⟨ys', hys, h⟩ := bind_eq_ok_iff.1 h
    cases h
    exact ⟨y, ys', hy, hys, rfl⟩
  · rintro ⟨y, ys', hy, hys, rfl⟩
    exact ⟨y, hy, bind_eq_ok_iff.2 ⟨ys', hys, rfl⟩⟩

theorem isOk_mapM_iff {f : α → Except ε β} {xs : List α} :
    (xs.mapM f).isOk = true ↔ ∀ x ∈ xs, (f x).isOk = true := by
  induction xs with
  | nil => simp [pure, Except.pure, Except.isOk, Except.toBool]
  | cons x xs ih =>
    rw [List.forall_mem_cons, ← ih]
    simp only [isOk_iff_exists, mapM_cons_eq_ok_iff]
    constructor
    · rintro ⟨_, y, ys, hy, hys, rfl⟩
      exact ⟨⟨y, hy⟩, ys, hys⟩
    · rintro ⟨⟨y, hy⟩, ys, hys⟩
      exact ⟨_, y, ys, hy, hys, rfl⟩

/-- The error of a list is that of its first element that fails. -/
theorem mapM_eq_error_iff {f : α → Except ε β} {xs : List α} {e : ε} :
    xs.mapM f = .error e ↔ ∃ before x behind, xs = before ++ x :: behind ∧
      (∀ y ∈ before, (f y).isOk = true) ∧ f x = .error e := by
  induction xs with
  | nil => simp [pure, Except.pure]
  | cons x xs ih =>
    rw [List.mapM_cons, bind_eq_error_iff]
    constructor
    · rintro (hx | ⟨y, hy, h⟩)
      · exact ⟨[], x, xs, rfl, List.forall_mem_nil _, hx⟩
      · obtain hxs | ⟨_, _, h⟩ := bind_eq_error_iff.1 h
        · obtain ⟨before, z, behind, rfl, hbefore, hz⟩ := ih.1 hxs
          have hx : (f x).isOk = true := isOk_iff_exists.2 ⟨y, hy⟩
          exact ⟨x :: before, z, behind, rfl, List.forall_mem_cons.2 ⟨hx, hbefore⟩, hz⟩
        · cases h
    · rintro ⟨before, z, behind, hxs, hbefore, hz⟩
      cases before with
      | nil =>
        cases hxs
        exact .inl hz
      | cons w before =>
        cases hxs
        obtain ⟨hx, hbefore⟩ := List.forall_mem_cons.1 hbefore
        obtain ⟨y, hy⟩ := isOk_iff_exists.1 hx
        exact .inr ⟨y, hy, bind_eq_error_iff.2 (.inl (ih.2 ⟨before, z, behind, rfl, hbefore, hz⟩))⟩

theorem exists_of_mapM_eq_error {f : α → Except ε β} {xs : List α} {e : ε}
    (h : xs.mapM f = .error e) : ∃ x ∈ xs, f x = .error e := by
  obtain ⟨before, x, behind, rfl, _, hx⟩ := mapM_eq_error_iff.1 h
  exact ⟨x, List.mem_append_right _ List.mem_cons_self, hx⟩

theorem bind_congr_ok {x : Except ε α} {f g : α → Except ε β} (h : ∀ a, x = .ok a → f a = g a) :
    x >>= f = x >>= g := by
  cases x with
  | error e => rfl
  | ok a => exact h a rfl

theorem mapM_congr {f g : α → Except ε β} {xs : List α} (h : ∀ x ∈ xs, f x = g x) :
    xs.mapM f = xs.mapM g := by
  induction xs with
  | nil => rfl
  | cons x xs ih =>
    rw [List.mapM_cons, List.mapM_cons, h x List.mem_cons_self,
      ih fun y hy => h y (List.mem_cons_of_mem _ hy)]

theorem flatten_mapM_cons (f : α → Except ε (List β)) (x : α) (xs : List α) :
    List.flatten <$> (x :: xs).mapM f = do
      let ys ← f x
      let zs ← List.flatten <$> xs.mapM f
      return ys ++ zs := by
  rw [List.mapM_cons]
  cases f x with
  | error e => rfl
  | ok ys => cases xs.mapM f <;> rfl

theorem flatten_mapM_filter {f : α → Except ε (List β)} {keep : α → Bool}
    (h : ∀ x, keep x = false → f x = .ok []) (xs : List α) :
    List.flatten <$> (xs.filter keep).mapM f = List.flatten <$> xs.mapM f := by
  induction xs with
  | nil => rfl
  | cons x xs ih =>
    rw [flatten_mapM_cons, ← ih]
    cases hx : keep x with
    | false =>
      rw [List.filter_cons_of_neg (by simp [hx]), h x hx]
      cases List.flatten <$> (xs.filter keep).mapM f <;> rfl
    | true => rw [List.filter_cons_of_pos hx, flatten_mapM_cons]

section

variable {ε' : Type} (m : ε → ε')

theorem mapError_bind (x : Except ε α) (f : α → Except ε β) :
    (x >>= f).mapError m = x.mapError m >>= fun a => (f a).mapError m := by
  cases x <;> rfl

theorem mapError_map (f : α → β) (x : Except ε α) : (f <$> x).mapError m = f <$> x.mapError m := by
  cases x <;> rfl

/-- Elements that fail otherwise make the list fail otherwise. -/
theorem mapM_map_mapError {γ : Type} {f : α → Except ε β} {g : γ → Except ε' β} {h : α → γ}
    {xs : List α} (hg : ∀ x ∈ xs, g (h x) = (f x).mapError m) :
    (xs.map h).mapM g = (xs.mapM f).mapError m := by
  induction xs with
  | nil => rfl
  | cons x xs ih =>
    rw [List.map_cons, List.mapM_cons, List.mapM_cons, hg x List.mem_cons_self,
      ih fun y hy => hg y (List.mem_cons_of_mem _ hy), mapError_bind]
    refine congrArg _ (funext fun y => ?_)
    rw [mapError_bind]
    rfl

end

theorem exists_of_mapM_eq_ok {f : α → Except ε β} {xs : List α} {ys : List β}
    (h : xs.mapM f = .ok ys) {x : α} (hx : x ∈ xs) : ∃ y ∈ ys, f x = .ok y := by
  induction xs generalizing ys with
  | nil => cases hx
  | cons x' xs ih =>
    obtain ⟨y, ys', hy, hys, rfl⟩ := mapM_cons_eq_ok_iff.1 h
    rcases List.mem_cons.1 hx with rfl | hx
    · exact ⟨y, List.mem_cons_self, hy⟩
    · obtain ⟨z, hz, hfz⟩ := ih hys hx
      exact ⟨z, List.mem_cons_of_mem _ hz, hfz⟩

theorem exists_of_mem_mapM {f : α → Except ε β} {xs : List α} {ys : List β}
    (h : xs.mapM f = .ok ys) {y : β} (hy : y ∈ ys) : ∃ x ∈ xs, f x = .ok y := by
  induction xs generalizing ys with
  | nil => cases h; cases hy
  | cons x' xs ih =>
    obtain ⟨y', ys', hy', hys, rfl⟩ := mapM_cons_eq_ok_iff.1 h
    rcases List.mem_cons.1 hy with rfl | hy
    · exact ⟨x', List.mem_cons_self, hy'⟩
    · obtain ⟨z, hz, hfz⟩ := ih hys hy
      exact ⟨z, List.mem_cons_of_mem _ hz, hfz⟩

theorem map_of_mapM_eq_ok {γ : Type} {f : α → Except ε β} {g : β → γ} {k : α → γ}
    {xs : List α} {ys : List β} (hg : ∀ x ∈ xs, ∀ y, f x = .ok y → g y = k x)
    (h : xs.mapM f = .ok ys) : ys.map g = xs.map k := by
  induction xs generalizing ys with
  | nil => cases h; rfl
  | cons x xs ih =>
    obtain ⟨y, ys, hy, hys, rfl⟩ := mapM_cons_eq_ok_iff.1 h
    obtain ⟨hx, hxs⟩ := List.forall_mem_cons.1 hg
    rw [List.map_cons, List.map_cons, hx y hy, ih hxs hys]

end InterfaceSchema
