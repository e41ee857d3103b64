/-!
# Stable sorting

A list is put in the order of a Boolean relation, and elements that the relation does not tell apart
keep their places. Main statements: `sort_perm` (no element is lost, invented or repeated) and
`pairwise_sort` (every element comes before those after it, for a total and transitive relation).
-/

namespace TypedGraph.Sorting

universe u

variable {α : Type u} (le : α → α → Bool)

/-- Puts an element before the first one that it may precede. -/
def place (a : α) : List α → List α
  | [] => [a]
  | b :: bs => if le a b then a :: b :: bs else b :: place a bs

/-- The elements of a list, in the order of a relation. -/
def sort (as : List α) : List α :=
  as.foldr (place le) []

@[simp] theorem sort_nil : sort le [] = [] := rfl

@[simp] theorem sort_cons (a : α) (as : List α) : sort le (a :: as) = place le a (sort le as) := rfl

/-! ### The elements -/

theorem place_perm (a : α) (bs : List α) : (place le a bs).Perm (a :: bs) := by
  induction bs with
  | nil => exact .refl [a]
  | cons b bs ih =>
    unfold place
    split
    · exact .refl (a :: b :: bs)
    · exact (ih.cons b).trans (.swap a b bs)

theorem sort_perm (as : List α) : (sort le as).Perm as := by
  induction as with
  | nil => exact .refl []
  | cons a as ih => exact (place_perm le a (sort le as)).trans (ih.cons a)

@[simp] theorem mem_sort {x : α} {as : List α} : x ∈ sort le as ↔ x ∈ as :=
  (sort_perm le as).mem_iff

@[simp] theorem length_sort (as : List α) : (sort le as).length = as.length :=
  (sort_perm le as).length_eq

/-! ### The order -/

variable {le}

theorem pairwise_place (total : ∀ a b, le a b || le b a)
    (trans : ∀ a b c, le a b → le b c → le a c) {a : α} {bs : List α}
    (h : bs.Pairwise (le · ·)) : (place le a bs).Pairwise (le · ·) := by
  induction bs with
  | nil => exact List.pairwise_singleton _ a
  | cons b bs ih =>
    obtain ⟨hb, hbs⟩ := List.pairwise_cons.mp h
    unfold place
    split
    · rename_i hab
      refine List.pairwise_cons.mpr ⟨fun x hx => ?_, h⟩
      rcases List.mem_cons.mp hx with rfl | hx
      · exact hab
      · exact trans a b x hab (hb x hx)
    · rename_i hab
      have hba : le b a := by
        rcases Bool.or_eq_true_iff.mp (total a b) with h' | h'
        · exact absurd h' hab
        · exact h'
      refine List.pairwise_cons.mpr ⟨fun x hx => ?_, ih hbs⟩
      rcases List.mem_cons.mp ((place_perm le a bs).mem_iff.mp hx) with rfl | hx
      · exact hba
      · exact hb x hx

theorem pairwise_sort (total : ∀ a b, le a b || le b a)
    (trans : ∀ a b c, le a b → le b c → le a c) (as : List α) :
    (sort le as).Pairwise (le · ·) := by
  induction as with
  | nil => exact .nil
  | cons a as ih => exact pairwise_place total trans ih

/-- A list that is in order stays as it is. -/
theorem sort_eq_self {as : List α} (h : as.Pairwise (le · ·)) : sort le as = as := by
  induction as with
  | nil => rfl
  | cons a as ih =>
    obtain ⟨ha, has⟩ := List.pairwise_cons.mp h
    rw [sort_cons, ih has]
    cases as with
    | nil => rfl
    | cons b bs => simp [place, ha b (by simp)]

end TypedGraph.Sorting
