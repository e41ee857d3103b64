import Mathlib

/-!
# Lists in computations that may fail

How a computation in `Except` succeeds or fails, and what that says of a list that is mapped or
folded in it. Main statements: `mapM_eq_ok_iff` (a list maps to another one element by element),
`split_of_mapM_eq_error` (the first element that fails decides the error) and `foldlM_map_eq`
(folding in results is mapping first and folding afterwards).
-/

namespace TypedGraph.Traversal

universe u v

variable {α γ : Type u} {ε : Type v} {β σ : Type u}

/-! ### One computation after another -/

@[simp] lemma ok_bind (a : β) (f : β → Except ε σ) : (Except.ok a >>= f) = f a := rfl

@[simp] lemma error_bind (e : ε) (f : β → Except ε σ) :
    ((Except.error e : Except ε β) >>= f) = .error e := rfl

@[simp] lemma map_ok (f : β → σ) (a : β) : (f <$> (Except.ok a : Except ε β)) = .ok (f a) := rfl

@[simp] lemma pure_eq_ok (a : β) : (pure a : Except ε β) = .ok a := rfl

@[simp] lemma throw_eq_error (e : ε) : (throw e : Except ε β) = .error e := rfl

@[simp] lemma mapError_ok {δ : Type*} (f : ε → δ) (a : β) :
    (Except.ok a : Except ε β).mapError f = .ok a := rfl

@[simp] lemma mapError_error {δ : Type*} (f : ε → δ) (e : ε) :
    (Except.error e : Except ε β).mapError f = .error (f e) := rfl

lemma bind_eq_ok_iff {x : Except ε β} {f : β → Except ε σ} {b : σ} :
    (x >>= f) = .ok b ↔ ∃ a, x = .ok a ∧ f a = .ok b := by
  cases x <;> simp

lemma map_eq_ok_iff {x : Except ε β} {f : β → σ} {b : σ} :
    (f <$> x) = .ok b ↔ ∃ a, x = .ok a ∧ f a = b := by
  cases x <;> simp

lemma bind_eq_error_iff {x : Except ε β} {f : β → Except ε σ} {e : ε} :
    (x >>= f) = .error e ↔ x = .error e ∨ ∃ a, x = .ok a ∧ f a = .error e := by
  cases x <;> simp

lemma map_eq_error_iff {x : Except ε β} {f : β → σ} {e : ε} :
    (f <$> x) = .error e ↔ x = .error e := by
  cases x <;> simp

lemma mapError_eq_ok_iff {δ : Type*} {x : Except ε β} {f : ε → δ} {b : β} :
    x.mapError f = .ok b ↔ x = .ok b := by
  cases x <;> simp

lemma eq_ok_get {x : Except ε β} (h : x.toOption.isSome) : x = .ok (x.toOption.get h) := by
  cases x with
  | ok a => rfl
  | error e => simp [Except.toOption] at h

/-! ### Mapping a list -/

/-- Lists that are related element by element are related at each place. -/
lemma exists_of_forall₂ {R : α → β → Prop} {xs : List α} {ys : List β} (h : List.Forall₂ R xs ys)
    {k : Nat} {x : α} (hx : xs[k]? = some x) : ∃ y, ys[k]? = some y ∧ R x y := by
  obtain ⟨hk, rfl⟩ := List.getElem?_eq_some_iff.mp hx
  have hk' : k < ys.length := h.length_eq ▸ hk
  exact ⟨ys[k], List.getElem?_eq_getElem hk', h.get hk hk'⟩

lemma mapM_eq_ok_iff {f : α → Except ε β} {xs : List α} {ys : List β} :
    xs.mapM f = .ok ys ↔ List.Forall₂ (fun x y => f x = .ok y) xs ys := by
  induction xs generalizing ys with
  | nil => cases ys <;> simp
  | cons x xs ih =>
    rw [List.mapM_cons]
    cases hx : f x with
    | error e => cases ys <;> simp [hx]
    | ok y =>
      cases hxs : xs.mapM f with
      | error e => cases ys <;> simp [hx, hxs, ← ih]
      | ok zs => cases ys <;> simp [hx, hxs, ← ih]

lemma toOption_eq_some_iff {x : Except ε β} {y : β} : x.toOption = some y ↔ x = .ok y := by
  cases x <;> simp [Except.toOption]

/-- A list maps to its results, read one by one. -/
lemma mapM_eq_ok_iff_map {f : α → Except ε β} {xs : List α} {ys : List β} :
    xs.mapM f = .ok ys ↔ xs.map (fun x => (f x).toOption) = ys.map some := by
  rw [mapM_eq_ok_iff, ← List.forall₂_eq_eq_eq, List.forall₂_map_left_iff,
    List.forall₂_map_right_iff]
  simp only [toOption_eq_some_iff]

/-- A list fails to map with the error of its first element that fails. -/
lemma split_of_mapM_eq_error {f : α → Except ε β} {xs : List α} {e : ε}
    (h : xs.mapM f = .error e) : ∃ before x after, xs = before ++ x :: after ∧
      (∀ b ∈ before, ∃ y, f b = .ok y) ∧ f x = .error e := by
  induction xs with
  | nil => simp at h
  | cons x xs ih =>
    rw [List.mapM_cons] at h
    cases hx : f x with
    | error e' =>
      rw [hx, error_bind] at h
      obtain rfl := Except.error.inj h
      exact ⟨[], x, xs, rfl, by simp, hx⟩
    | ok y =>
      -- the head does not fail, so that the error is that of the rest
      have hrest : xs.mapM f = .error e := by
        rw [hx, ok_bind] at h
        cases hys : xs.mapM f with
        | error e' => rwa [hys, error_bind] at h
        | ok ys => simp [hys] at h
      obtain ⟨before, z, after, rfl, hbefore, hz⟩ := ih hrest
      refine ⟨x :: before, z, after, rfl, ?_, hz⟩
      intro b hb
      rcases List.mem_cons.mp hb with rfl | hb
      · exact ⟨y, hx⟩
      · exact hbefore b hb

lemma mapM_ok_of_forall {f : α → Except ε β} {xs : List α} (h : ∀ x ∈ xs, ∃ y, f x = .ok y) :
    ∃ ys, xs.mapM f = .ok ys := by
  cases hxs : xs.mapM f with
  | ok ys => exact ⟨ys, rfl⟩
  | error e =>
    obtain ⟨before, x, after, rfl, -, hx⟩ := split_of_mapM_eq_error hxs
    obtain ⟨y, hy⟩ := h x (by simp)
    simp [hx] at hy

lemma mapM_eq_error_iff {f : α → Except ε β} {xs : List α} {e : ε} :
    xs.mapM f = .error e ↔ ∃ before x after, xs = before ++ x :: after ∧
      (∀ b ∈ before, ∃ y, f b = .ok y) ∧ f x = .error e := by
  refine ⟨split_of_mapM_eq_error, ?_⟩
  rintro ⟨before, x, after, rfl, hbefore, hx⟩
  obtain ⟨ys, hys⟩ := mapM_ok_of_forall hbefore
  rw [List.mapM_append, hys, ok_bind, List.mapM_cons, hx]
  rfl

/-- A list that maps does so by a function that never fails on it. -/
lemma mapM_eq_ok_map {f : α → Except ε β} {g : α → β} {xs : List α}
    (h : ∀ x ∈ xs, f x = .ok (g x)) : xs.mapM f = .ok (xs.map g) := by
  rw [mapM_eq_ok_iff, List.forall₂_map_right_iff, List.forall₂_same]
  exact h

lemma ok_of_mapM_eq_ok {f : α → Except ε β} {xs : List α} {ys : List β} (h : xs.mapM f = .ok ys)
    {x : α} (hx : x ∈ xs) : ∃ y, f x = .ok y := by
  rw [mapM_eq_ok_iff] at h
  induction h with
  | nil => simp at hx
  | @cons z w zs ws hz _ ih =>
    rcases List.mem_cons.mp hx with rfl | hx
    · exact ⟨w, hz⟩
    · exact ih hx

/-- What a list maps to holds exactly the results of its elements. -/
lemma mem_iff_of_mapM_eq_ok {f : α → Except ε β} {xs : List α} {ys : List β}
    (h : xs.mapM f = .ok ys) {y : β} : y ∈ ys ↔ ∃ x ∈ xs, f x = .ok y := by
  rw [mapM_eq_ok_iff] at h
  induction h with
  | nil => simp
  | @cons x z xs zs hx _ ih =>
    have hz : f x = .ok y ↔ y = z := by
      rw [hx]
      constructor
      · intro hy
        exact (Except.ok.inj hy).symm
      · rintro rfl
        rfl
    simp [ih, hz]

/-- Looking an element up beside what a list maps to finds the result of the element. -/
lemma lookup_zip_eq_some_iff [BEq α] [LawfulBEq α] {f : α → Except ε β} {xs : List α} {ys : List β}
    (h : xs.mapM f = .ok ys) {x : α} {y : β} :
    (xs.zip ys).lookup x = some y ↔ x ∈ xs ∧ f x = .ok y := by
  rw [mapM_eq_ok_iff] at h
  induction h with
  | nil => simp
  | @cons z w zs ws hz _ ih =>
    rw [List.zip_cons_cons, List.lookup_cons]
    by_cases hx : x = z
    · subst hx
      simp [hz]
    · have hbeq : (x == z) = false := by simpa using hx
      simp [hbeq, hx, ih]

/-- A relation between the elements of a list passes to their results. -/
lemma pairwise_of_mapM_eq_ok {f : α → Except ε β} {R : α → α → Prop} {S : β → β → Prop}
    {xs : List α} {ys : List β} (h : xs.mapM f = .ok ys) (hxs : xs.Pairwise R)
    (hRS : ∀ x x' y y', R x x' → f x = .ok y → f x' = .ok y' → S y y') : ys.Pairwise S := by
  induction xs generalizing ys with
  | nil =>
    obtain rfl : ys = [] := by simpa [eq_comm] using h
    exact .nil
  | cons x xs ih =>
    obtain ⟨hx, hxs⟩ := List.pairwise_cons.mp hxs
    rw [List.mapM_cons, bind_eq_ok_iff] at h
    obtain ⟨y, hy, h⟩ := h
    obtain ⟨zs, hzs, h⟩ := bind_eq_ok_iff.mp h
    obtain rfl : y :: zs = ys := Except.ok.inj h
    refine List.pairwise_cons.mpr ⟨?_, ih hzs hxs⟩
    intro z hz
    obtain ⟨x', hx', hz⟩ := (mem_iff_of_mapM_eq_ok hzs).mp hz
    exact hRS x x' y z (hx x' hx') hy hz

/-- Changing every result is changing the results of the whole list. -/
lemma mapM_map_eq {f : α → Except ε β} (h : β → σ) (xs : List α) :
    xs.mapM (fun x => h <$> f x) = List.map h <$> xs.mapM f := by
  induction xs with
  | nil => rfl
  | cons x xs ih =>
    rw [List.mapM_cons, List.mapM_cons, ih]
    cases f x with
    | error e => rfl
    | ok y => cases xs.mapM f <;> rfl

/-! ### Folding a list -/

/-- Folding in the results of a list is mapping the list and folding its results. -/
lemma foldlM_map_eq {f : α → Except ε β} {step : σ → β → σ} (acc : σ) (xs : List α) :
    xs.foldlM (fun acc x => step acc <$> f x) acc = (·.foldl step acc) <$> xs.mapM f := by
  induction xs generalizing acc with
  | nil => simp
  | cons x xs ih =>
    rw [List.foldlM_cons, List.mapM_cons]
    cases hx : f x with
    | error e => simp
    | ok y =>
      rw [map_ok, ok_bind, ih, ok_bind]
      cases xs.mapM f <;> simp

end TypedGraph.Traversal
