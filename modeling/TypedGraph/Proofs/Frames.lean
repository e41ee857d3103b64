import TypedGraph.Frame
import TypedGraph.Proofs.Traversal

/-!
# Picking rows

The rows of a column or a frame at some positions, as a function that never fails: it is what taking
rows gives where all positions are in range (`Frame.take_eq_pick`). Picking goes through every way
of choosing columns, and picking twice is picking once (`Frame.pick_pick`).
-/

namespace TypedGraph

universe u

/-! ### Cells -/

/-- The elements of a list at some positions; positions after the end are passed over. -/
def pick {α : Type u} (xs : List α) (rows : List Nat) : List α := rows.filterMap (xs[·]?)

section Cells

variable {α β : Type u} {xs : List α} {rows order : List Nat}

@[simp] lemma pick_nil (xs : List α) : pick xs [] = [] := rfl

lemma pick_cons {row : Nat} (h : row < xs.length) (rows : List Nat) :
    pick xs (row :: rows) = xs[row] :: pick xs rows := by
  simp [pick, List.getElem?_eq_getElem h]

lemma length_pick (h : ∀ row ∈ rows, row < xs.length) : (pick xs rows).length = rows.length := by
  induction rows with
  | nil => rfl
  | cons row rows ih =>
    obtain ⟨hrow, hrows⟩ := List.forall_mem_cons.mp h
    rw [pick_cons hrow, List.length_cons, ih hrows, List.length_cons]

lemma pick_map (f : α → β) (xs : List α) (rows : List Nat) :
    pick (xs.map f) rows = (pick xs rows).map f := by
  simp [pick, List.map_filterMap, List.getElem?_map]

lemma getElem?_pick (h : ∀ row ∈ rows, row < xs.length) (i : Nat) :
    (pick xs rows)[i]? = (rows[i]?).bind (xs[·]?) := by
  induction rows generalizing i with
  | nil => simp
  | cons row rows ih =>
    obtain ⟨hrow, hrows⟩ := List.forall_mem_cons.mp h
    rw [pick_cons hrow]
    cases i with
    | zero => simp [List.getElem?_eq_getElem hrow]
    | succ i => simpa using ih hrows i

/-- Picking from what was picked is picking once. -/
lemma pick_pick (h : ∀ row ∈ order, row < xs.length) (rows : List Nat) :
    pick (pick xs order) rows = pick xs (pick order rows) := by
  have hat : ∀ i, (pick xs order)[i]? = (order[i]?).bind (xs[·]?) := getElem?_pick h
  simp [pick, List.filterMap_filterMap] at hat ⊢
  simp [hat]

lemma mem_of_mem_pick {x : α} (h : x ∈ pick xs rows) : x ∈ xs := by
  obtain ⟨row, -, hrow⟩ := List.mem_filterMap.mp h
  exact List.mem_of_getElem? hrow

/-- Picking the positions beside some elements gives the elements. -/
lemma pick_map_snd {ps : List (α × Nat)} (h : ∀ p ∈ ps, xs[p.2]? = some p.1) :
    pick xs (ps.map (·.2)) = ps.map (·.1) := by
  rw [pick, List.filterMap_map, ← List.filterMap_eq_map]
  exact List.filterMap_congr h

lemma pick_range (xs : List α) : pick xs (List.range xs.length) = xs := by
  have hat : ∀ p ∈ xs.zipIdx, xs[p.2]? = some p.1 := by
    intro p hp
    exact List.mem_zipIdx_iff_getElem?.mp hp
  have hpick := pick_map_snd hat
  rwa [List.zipIdx_map_snd, List.zipIdx_map_fst, ← List.range_eq_range'] at hpick

lemma forall₂_pick {R : α → β → Prop} {ys : List β} (h : List.Forall₂ R xs ys)
    (hlt : ∀ row ∈ rows, row < xs.length) : List.Forall₂ R (pick xs rows) (pick ys rows) := by
  induction rows with
  | nil => exact .nil
  | cons row rows ih =>
    obtain ⟨hrow, hrows⟩ := List.forall_mem_cons.mp hlt
    have hrow' : row < ys.length := h.length_eq ▸ hrow
    rw [pick_cons hrow, pick_cons hrow']
    exact .cons (h.get hrow hrow') (ih hrows)

lemma pick_perm (h : order.Perm (List.range xs.length)) : (pick xs order).Perm xs := by
  have hperm := h.filterMap (xs[·]?)
  rw [← pick, ← pick, pick_range] at hperm
  exact hperm

end Cells

/-! ### Columns -/

namespace Column

variable {c : Column} {rows order : List Nat}

/-- The cells of a column at some positions. -/
def pick (rows : List Nat) : Column → Column
  | int64 cs => int64 (TypedGraph.pick cs rows)
  | float64 cs => float64 (TypedGraph.pick cs rows)
  | utf8 cs => utf8 (TypedGraph.pick cs rows)

lemma length_pick (h : ∀ row ∈ rows, row < c.length) : (c.pick rows).length = rows.length := by
  cases c <;> exact TypedGraph.length_pick h

lemma pick_pick (h : ∀ row ∈ order, row < c.length) (rows : List Nat) :
    (c.pick order).pick rows = c.pick (TypedGraph.pick order rows) := by
  cases c <;> simp only [pick] <;> rw [TypedGraph.pick_pick h]

lemma pick_range (c : Column) : c.pick (List.range c.length) = c := by
  cases c <;> simp only [pick, length] <;> rw [TypedGraph.pick_range]

lemma gather_eq_pick {α : Type} {cells : List α} (h : ∀ row ∈ rows, row < cells.length) :
    gather cells rows = .ok (TypedGraph.pick cells rows) := by
  induction rows with
  | nil => rfl
  | cons row rows ih =>
    obtain ⟨hrow, hrows⟩ := List.forall_mem_cons.mp h
    rw [gather] at ih ⊢
    rw [List.mapM_cons, ih hrows, pick_cons hrow, List.getElem?_eq_getElem hrow]
    rfl

lemma take_eq_pick (h : ∀ row ∈ rows, row < c.length) : c.take rows = .ok (c.pick rows) := by
  cases c <;> simp only [take, gather_eq_pick h, pick] <;> rfl

end Column

/-! ### Frames -/

namespace Frame

variable {f : Frame} {n : Nat} {rows order : List Nat}

/-- The rows of a frame at some positions. -/
def pick (f : Frame) (rows : List Nat) : Frame := ⟨f.columns.map fun c => (c.1, c.2.pick rows)⟩

/-- All columns of a frame have some length. -/
def Even (f : Frame) (n : Nat) : Prop := ∀ c ∈ f.columns, c.2.length = n

lemma rows_of_even (heven : f.Even n) (hne : f.columns ≠ []) : f.rows = n := by
  obtain ⟨c, cs, hcs⟩ := List.exists_cons_of_ne_nil hne
  have hc : c.2.length = n := heven c (by simp [hcs])
  simp [rows, hcs, hc]

lemma pick_pick (heven : f.Even n) (h : ∀ row ∈ order, row < n) (rows : List Nat) :
    (f.pick order).pick rows = f.pick (TypedGraph.pick order rows) := by
  simp only [pick, List.map_map]
  congr 1
  apply List.map_congr_left
  intro c hc
  have hlt : ∀ row ∈ order, row < c.2.length := by rwa [heven c hc]
  simp [Column.pick_pick hlt]

lemma pick_range (heven : f.Even n) : f.pick (List.range n) = f := by
  have hcolumns : f.columns.map (fun c => (c.1, c.2.pick (List.range n))) = f.columns := by
    refine (List.map_congr_left fun c hc => ?_).trans (List.map_id _)
    rw [← heven c hc, Column.pick_range]
    rfl
  rw [pick, hcolumns]

lemma even_pick (heven : f.Even n) (h : ∀ row ∈ rows, row < n) :
    (f.pick rows).Even rows.length := by
  intro c hc
  obtain ⟨d, hd, rfl⟩ := List.mem_map.mp hc
  exact Column.length_pick (by rwa [heven d hd])

lemma take_eq_pick (heven : f.Even n) (h : ∀ row ∈ rows, row < n) :
    f.take rows = .ok (f.pick rows) := by
  have hcolumns : f.columns.mapM (fun c => (fun d => (c.1, d)) <$> c.2.take rows)
      = .ok (f.columns.map fun c => (c.1, c.2.pick rows)) := by
    apply Traversal.mapM_eq_ok_map
    intro c hc
    rw [Column.take_eq_pick (by rwa [heven c hc])]
    rfl
  rw [take, hcolumns]
  rfl

lemma column_eq_ok_iff {name : String} {c : Column} :
    f.column name = .ok c ↔ (f.columns.find? (·.1 = name)).map (·.2) = some c := by
  rw [column]
  cases f.columns.find? (·.1 = name) <;> simp

lemma mem_of_column {name : String} {c : Column} (h : f.column name = .ok c) :
    ∃ other, (other, c) ∈ f.columns := by
  rw [column_eq_ok_iff, Option.map_eq_some_iff] at h
  obtain ⟨⟨other, d⟩, hfind, rfl⟩ := h
  exact ⟨other, List.mem_of_find?_eq_some hfind⟩

lemma column_pick (f : Frame) (rows : List Nat) (name : String) :
    (f.pick rows).column name = (·.pick rows) <$> f.column name := by
  have hfind : (f.pick rows).columns.find? (·.1 = name)
      = (f.columns.find? (·.1 = name)).map fun c => (c.1, c.2.pick rows) := by
    rw [pick, List.find?_map]
    rfl
  rw [column, column, hfind]
  cases f.columns.find? (·.1 = name) <;> rfl

lemma select_pick (f : Frame) (rows : List Nat) (names : List String) :
    (f.pick rows).select names = (·.pick rows) <$> f.select names := by
  have hcolumns : (names.mapM fun name => (fun c => (name, c)) <$> (f.pick rows).column name)
      = List.map (fun c : String × Column => (c.1, c.2.pick rows))
        <$> names.mapM fun name => (fun c => (name, c)) <$> f.column name := by
    rw [← Traversal.mapM_map_eq]
    congr 1
    funext name
    rw [column_pick]
    cases f.column name <;> rfl
  rw [select, select, hcolumns]
  cases names.mapM fun name => (fun c => (name, c)) <$> f.column name <;> rfl

lemma even_select {names : List String} {f' : Frame} (heven : f.Even n)
    (h : f.select names = .ok f') : f'.Even n := by
  obtain ⟨columns, hcolumns, rfl⟩ := Traversal.map_eq_ok_iff.mp h
  intro c hc
  obtain ⟨name, -, hname⟩ := (Traversal.mem_iff_of_mapM_eq_ok hcolumns).mp hc
  obtain ⟨d, hd, rfl⟩ := Traversal.map_eq_ok_iff.mp hname
  obtain ⟨other, hmem⟩ := mem_of_column hd
  exact heven (other, d) hmem

end Frame

end TypedGraph
