import TypedGraph.Ascending

/-!
# Sorted maps

A finite map kept as the list of its entries in ascending key order. The list is canonical: two
maps with the same look-ups are equal (`SortedMap.ext_get?`), so a table of rows is compared as a
whole. `SortedMap.get?_insert` says what a write does to every look-up.
-/

namespace TypedGraph

universe u v w

/-- Entries in strictly ascending key order. -/
structure SortedMap (κ : Type u) (α : Type v) [LT κ] where
  entries : List (κ × α) := []
  ascending : entries.Pairwise (fun a b => a.1 < b.1) := by simp
  deriving DecidableEq

namespace SortedMap

variable {κ : Type u} {α : Type v} {β : Type w} [LT κ]

/-! ### Reading -/

def empty : SortedMap κ α := {}

instance : Inhabited (SortedMap κ α) := ⟨empty⟩

/-- The keys, ascending. -/
def keys (m : SortedMap κ α) : List κ := m.entries.map (·.1)

def values (m : SortedMap κ α) : List α := m.entries.map (·.2)

def size (m : SortedMap κ α) : Nat := m.entries.length

def isEmpty (m : SortedMap κ α) : Bool := m.entries.isEmpty

def get? [DecidableEq κ] (m : SortedMap κ α) (k : κ) : Option α :=
  (m.entries.find? (·.1 = k)).map (·.2)

def contains [DecidableEq κ] (m : SortedMap κ α) (k : κ) : Bool := (m.get? k).isSome

theorem pairwise_keys (m : SortedMap κ α) : m.keys.Pairwise (· < ·) :=
  List.pairwise_map.mpr m.ascending

@[simp] theorem entries_empty : (empty : SortedMap κ α).entries = [] := rfl

@[simp] theorem get?_empty [DecidableEq κ] (k : κ) : (empty : SortedMap κ α).get? k = none := rfl

/-! ### Changing values -/

/-- Every value replaced by a function of its key and itself. -/
def mapValues (f : κ → α → β) (m : SortedMap κ α) : SortedMap κ β where
  entries := m.entries.map fun e => (e.1, f e.1 e.2)
  ascending := List.pairwise_map.mpr m.ascending

@[simp] theorem entries_mapValues (f : κ → α → β) (m : SortedMap κ α) :
    (m.mapValues f).entries = m.entries.map fun e => (e.1, f e.1 e.2) := rfl

@[simp] theorem keys_mapValues (f : κ → α → β) (m : SortedMap κ α) :
    (m.mapValues f).keys = m.keys := by
  simp [keys]

/-! ### Writing -/

variable [DecidableLT κ]

/-- Writes an entry into an ascending list of entries, over an entry of the same key. -/
def insertEntry (k : κ) (a : α) : List (κ × α) → List (κ × α)
  | [] => [(k, a)]
  | e :: es =>
    if k < e.1 then (k, a) :: e :: es
    else if e.1 < k then e :: insertEntry k a es
    else (k, a) :: es

variable [LE κ] [Std.IsLinearOrder κ] [Std.LawfulOrderLT κ]

omit [LE κ] [Std.IsLinearOrder κ] [Std.LawfulOrderLT κ] in
theorem mem_insertEntry {k : κ} {a : α} {es : List (κ × α)} {e : κ × α}
    (h : e ∈ insertEntry k a es) : e = (k, a) ∨ e ∈ es := by
  induction es with
  | nil => simpa [insertEntry] using h
  | cons d ds ih =>
    unfold insertEntry at h
    split at h
    · simpa using h
    · split at h
      · rcases List.mem_cons.mp h with rfl | h
        · simp
        · rcases ih h with h | h <;> simp [h]
      · rcases List.mem_cons.mp h with h | h <;> simp [h]

theorem pairwise_insertEntry {k : κ} {a : α} {es : List (κ × α)}
    (h : es.Pairwise (fun a b => a.1 < b.1)) :
    (insertEntry k a es).Pairwise (fun a b => a.1 < b.1) := by
  induction es with
  | nil => simp [insertEntry]
  | cons d ds ih =>
    obtain ⟨hd, hds⟩ := List.pairwise_cons.mp h
    unfold insertEntry
    split
    · rename_i hk
      refine List.pairwise_cons.mpr ⟨fun e he => ?_, h⟩
      rcases List.mem_cons.mp he with rfl | he
      · exact hk
      · exact Std.lt_trans hk (hd e he)
    · rename_i hk
      split
      · rename_i hk'
        refine List.pairwise_cons.mpr ⟨fun e he => ?_, ih hds⟩
        rcases mem_insertEntry he with rfl | he
        · exact hk'
        · exact hd e he
      · rename_i hk'
        refine List.pairwise_cons.mpr ⟨fun e he => ?_, hds⟩
        exact Ascending.eq_of_not_lt hk hk' ▸ hd e he

/-- Writes a value under a key, over the value that was there. -/
def insert (m : SortedMap κ α) (k : κ) (a : α) : SortedMap κ α where
  entries := insertEntry k a m.entries
  ascending := pairwise_insertEntry m.ascending

/-- Writes every pair of a list in turn, so that the last value of a key stays. -/
def insertMany (m : SortedMap κ α) (ps : List (κ × α)) : SortedMap κ α :=
  ps.foldl (fun m p => m.insert p.1 p.2) m

/-- The map of a list of pairs, the last value of a key standing. -/
def ofList (ps : List (κ × α)) : SortedMap κ α := empty.insertMany ps

/-- Writes the value that a function makes of the one under the key, if any. -/
def alter [DecidableEq κ] (m : SortedMap κ α) (k : κ) (f : Option α → α) : SortedMap κ α :=
  m.insert k (f (m.get? k))

@[simp] theorem insertMany_nil (m : SortedMap κ α) : m.insertMany [] = m := rfl

@[simp] theorem insertMany_cons (m : SortedMap κ α) (p : κ × α) (ps : List (κ × α)) :
    m.insertMany (p :: ps) = (m.insert p.1 p.2).insertMany ps := rfl

/-! ### What a write does to the look-ups -/

variable [DecidableEq κ]

omit [LE κ] [Std.IsLinearOrder κ] [Std.LawfulOrderLT κ] in
theorem find?_insertEntry_self {k : κ} {a : α} {es : List (κ × α)} (irrefl : ¬ k < k) :
    (insertEntry k a es).find? (·.1 = k) = some (k, a) := by
  induction es with
  | nil => simp [insertEntry]
  | cons d ds ih =>
    unfold insertEntry
    split
    · simp
    · split
      · rename_i h
        have hne : d.1 ≠ k := fun h' => irrefl (h' ▸ h)
        simp [hne, ih]
      · simp

theorem find?_insertEntry_ne {k k' : κ} {a : α} {es : List (κ × α)} (hne : k' ≠ k) :
    (insertEntry k a es).find? (·.1 = k') = es.find? (·.1 = k') := by
  induction es with
  | nil => simp [insertEntry, Ne.symm hne]
  | cons d ds ih =>
    unfold insertEntry
    split
    · simp [Ne.symm hne]
    · split
      · simp [List.find?_cons, ih]
      · rename_i h h'
        have hd : d.1 = k := (Ascending.eq_of_not_lt h h').symm
        simp [hd, Ne.symm hne]

theorem get?_insert (m : SortedMap κ α) (k k' : κ) (a : α) :
    (m.insert k a).get? k' = if k' = k then some a else m.get? k' := by
  unfold get? insert
  split
  · rename_i h
    subst h
    simp [find?_insertEntry_self Std.lt_irrefl]
  · rename_i h
    simp [find?_insertEntry_ne h]

/-! ### Canonicity -/

omit [DecidableLT κ] [Std.IsLinearOrder κ] in
theorem find?_eq_none_of_lt {k : κ} {es : List (κ × α)} (h : ∀ e ∈ es, k < e.1) :
    es.find? (·.1 = k) = none := by
  rw [List.find?_eq_none]
  intro e he hk
  have hk : e.1 = k := by simpa using hk
  exact Std.lt_irrefl (hk ▸ h e he)

omit [DecidableLT κ] in
theorem entries_ext {es ds : List (κ × α)} (hes : es.Pairwise (fun a b => a.1 < b.1))
    (hds : ds.Pairwise (fun a b => a.1 < b.1))
    (h : ∀ k, (es.find? (·.1 = k)).map (·.2) = (ds.find? (·.1 = k)).map (·.2)) : es = ds := by
  induction es generalizing ds with
  | nil =>
    cases ds with
    | nil => rfl
    | cons d ds => simpa using h d.1
  | cons e es ih =>
    cases ds with
    | nil => simpa using h e.1
    | cons d ds =>
      obtain ⟨he, hes'⟩ := List.pairwise_cons.mp hes
      obtain ⟨hd, hds'⟩ := List.pairwise_cons.mp hds
      have not_lt {a b : κ × α} {as bs : List (κ × α)} (hb : ∀ c ∈ bs, b.1 < c.1)
          (h : ((a :: as).find? (·.1 = a.1)).map (·.2) = ((b :: bs).find? (·.1 = a.1)).map (·.2)) :
          ¬ a.1 < b.1 := by
        intro hab
        have hne : b.1 ≠ a.1 := fun heq => Std.lt_irrefl (heq ▸ hab)
        have hnone := find?_eq_none_of_lt fun c hc => Std.lt_trans hab (hb c hc)
        simp [hne, hnone] at h
      have hkey : e.1 = d.1 :=
        Ascending.eq_of_not_lt (not_lt hd (h e.1)) (not_lt he (h d.1).symm)
      have hval : e.2 = d.2 := by simpa [hkey] using h e.1
      have hhead : e = d := Prod.ext hkey hval
      subst hhead
      congr 1
      refine ih hes' hds' fun k => ?_
      by_cases hk : e.1 = k
      · subst hk
        rw [find?_eq_none_of_lt he, find?_eq_none_of_lt hd]
      · simpa [List.find?_cons, hk] using h k

omit [DecidableLT κ] in
theorem ext_get? {m n : SortedMap κ α} (h : ∀ k, m.get? k = n.get? k) : m = n := by
  cases m with
  | mk es hes =>
    cases n with
    | mk ds hds => simpa [mk.injEq] using entries_ext hes hds h

/-! ### Entries and keys -/

omit [DecidableLT κ] [LE κ] [Std.IsLinearOrder κ] [Std.LawfulOrderLT κ] in
theorem get?_isSome_iff_mem_keys {m : SortedMap κ α} {k : κ} :
    (m.get? k).isSome ↔ k ∈ m.keys := by
  simp [get?, keys]

omit [DecidableLT κ] [Std.IsLinearOrder κ] in
/-- A map holds exactly the entries that its look-ups find. -/
theorem mem_entries_iff {m : SortedMap κ α} {k : κ} {a : α} :
    (k, a) ∈ m.entries ↔ m.get? k = some a := by
  obtain ⟨es, hes⟩ := m
  unfold get?
  induction es with
  | nil => simp
  | cons e es ih =>
    obtain ⟨he, hes'⟩ := List.pairwise_cons.mp hes
    by_cases hk : e.1 = k
    · subst hk
      have hnot : (e.1, a) ∉ es := fun h => Std.lt_irrefl (he (e.1, a) h)
      constructor
      · intro h
        rcases List.mem_cons.mp h with h | h
        · have ha : a = e.2 := congrArg Prod.snd h
          simp [ha]
        · exact absurd h hnot
      · intro h
        have ha : e.2 = a := by simpa using h
        subst ha
        exact List.mem_cons_self
    · have hne : (k, a) ≠ e := fun h => hk (by rw [← h])
      simpa [List.find?_cons, hk, hne] using ih hes'

theorem mem_keys_insert {m : SortedMap κ α} {k k' : κ} {a : α} :
    k' ∈ (m.insert k a).keys ↔ k' = k ∨ k' ∈ m.keys := by
  rw [← get?_isSome_iff_mem_keys, ← get?_isSome_iff_mem_keys, get?_insert]
  by_cases h : k' = k <;> simp [h]

theorem get?_alter (m : SortedMap κ α) (k k' : κ) (f : Option α → α) :
    (m.alter k f).get? k' = if k' = k then some (f (m.get? k)) else m.get? k' :=
  get?_insert m k k' _

/-- What a map shows after some writes is one of these or was there. -/
theorem mem_of_get?_insertMany {ps : List (κ × α)} {m : SortedMap κ α} {k : κ} {a : α}
    (h : (m.insertMany ps).get? k = some a) : (k, a) ∈ ps ∨ m.get? k = some a := by
  induction ps generalizing m with
  | nil => exact .inr h
  | cons p ps ih =>
    rcases ih h with hps | hm
    · exact .inl (List.mem_cons_of_mem p hps)
    · rw [get?_insert] at hm
      split at hm
      · rename_i hk
        have ha : p.2 = a := by simpa using hm
        exact .inl (List.mem_cons.mpr (.inl (by rw [hk, ← ha])))
      · exact .inr hm

/-- Writing pairs of distinct keys shows every one of them, over what was there. -/
theorem get?_insertMany {ps : List (κ × α)} (hps : ps.Pairwise (·.1 ≠ ·.1)) (m : SortedMap κ α)
    (k : κ) (a : α) :
    (m.insertMany ps).get? k = some a ↔
      (k, a) ∈ ps ∨ (∀ p ∈ ps, p.1 ≠ k) ∧ m.get? k = some a := by
  induction ps generalizing m with
  | nil => simp
  | cons p ps ih =>
    obtain ⟨hp, hps⟩ := List.pairwise_cons.mp hps
    rw [insertMany_cons, ih hps, get?_insert]
    by_cases hk : k = p.1
    · subst hk
      have hfresh : ∀ q ∈ ps, q.1 ≠ p.1 := fun q hq => (hp q hq).symm
      have hnot : (p.1, a) ∉ ps := fun h => hfresh (p.1, a) h rfl
      rw [if_pos rfl]
      constructor
      · rintro (h | ⟨-, h⟩)
        · exact absurd h hnot
        · have ha : p.2 = a := by simpa using h
          exact .inl (List.mem_cons.mpr (.inl (by rw [← ha])))
      · rintro (h | ⟨h, -⟩)
        · rcases List.mem_cons.mp h with h | h
          · have ha : a = p.2 := congrArg Prod.snd h
            exact .inr ⟨hfresh, by rw [ha]⟩
          · exact absurd h hnot
        · exact absurd rfl (h p List.mem_cons_self)
    · have hne : (k, a) ≠ p := fun h => hk (by rw [← h])
      simp [hk, hne, Ne.symm hk]

theorem get?_ofList {ps : List (κ × α)} (hps : ps.Pairwise (·.1 ≠ ·.1)) (k : κ) (a : α) :
    (ofList ps).get? k = some a ↔ (k, a) ∈ ps := by
  simp [ofList, get?_insertMany hps]

/-- A map of pairs of distinct keys holds exactly these pairs. -/
theorem entries_ofList_perm {ps : List (κ × α)} (hps : ps.Pairwise (·.1 ≠ ·.1)) :
    (ofList ps).entries.Perm ps := by
  have hne {p q : κ × α} (h : p.1 ≠ q.1) : p ≠ q := fun heq => h (congrArg Prod.fst heq)
  have hlt {p q : κ × α} (h : p.1 < q.1) : p ≠ q := fun heq => Std.lt_irrefl (heq ▸ h)
  refine (List.perm_ext_iff_of_nodup ((ofList ps).ascending.imp hlt) (hps.imp hne)).mpr ?_
  rintro ⟨k, a⟩
  rw [mem_entries_iff, get?_ofList hps]

theorem mem_keys_ofList {ps : List (κ × α)} (hps : ps.Pairwise (·.1 ≠ ·.1)) {k : κ} :
    k ∈ (ofList ps).keys ↔ k ∈ ps.map (·.1) := by
  rw [keys, ((entries_ofList_perm hps).map (·.1)).mem_iff]

omit [DecidableLT κ] in
/-- Maps with the same keys list them alike. -/
theorem keys_ext {m : SortedMap κ α} {n : SortedMap κ β} (h : ∀ k, k ∈ m.keys ↔ k ∈ n.keys) :
    m.keys = n.keys := by
  have hunit : m.mapValues (fun _ _ => ()) = n.mapValues fun _ _ => () := by
    refine ext_get? fun k => ?_
    have hk := h k
    rw [← keys_mapValues (fun _ _ => ()) m, ← keys_mapValues (fun _ _ => ()) n,
      ← get?_isSome_iff_mem_keys, ← get?_isSome_iff_mem_keys] at hk
    cases hm : (m.mapValues fun _ _ => ()).get? k <;>
      cases hn : (n.mapValues fun _ _ => ()).get? k <;> simp [hm, hn] at hk ⊢
  rw [← keys_mapValues (fun _ _ => ()) m, hunit, keys_mapValues]

end SortedMap

end TypedGraph
