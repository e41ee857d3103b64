import Mathlib
import TypedGraph.Ascending
import TypedGraph.Sorting

/-!
# Ascending sets, stable sorting and runs

An ascending list is the only one of its elements (`Ascending.ofList_congr`). Sorting by a key lines
up the elements of each key in the order of the keys and keeps their order (`Sorting.sort_by_key`).
Where a key never goes down along a list, its runs of equal keys are the elements of each key
(`mem_run_iff`), and no two runs have one key (`pairwise_key_lt_runs`).
-/

namespace TypedGraph

universe u v

/-! ### Ascending sets -/

namespace Ascending

variable {α : Type u} [LinearOrder α]

/-- Lists of the same elements, in any order and with any repeats, have the same set. -/
lemma ofList_congr {as bs : List α} (h : ∀ x, x ∈ as ↔ x ∈ bs) : ofList as = ofList bs := by
  refine (pairwise_ofList as).eq_of_mem_iff (pairwise_ofList bs) ?_
  intro x
  rw [mem_ofList, mem_ofList, h x]

/-- Lists of the same elements in the ascending order of distinct keys are equal. -/
lemma eq_of_pairwise_key_lt {β : Type v} {key : β → α} {as bs : List β}
    (has : as.Pairwise (key · < key ·)) (hbs : bs.Pairwise (key · < key ·))
    (h : ∀ x, x ∈ as ↔ x ∈ bs) : as = bs := by
  have hantisymm : Std.Antisymm fun a b => key a < key b :=
    ⟨fun _ _ hab hba => absurd hba hab.asymm⟩
  have hirrefl : Std.Irrefl fun a b => key a < key b := ⟨fun _ => lt_irrefl _⟩
  exact has.eq_of_mem_iff hbs h

lemma nodup_ofList (as : List α) : (ofList as).Nodup := (pairwise_ofList as).imp ne_of_lt

lemma ofList_eq_nil_iff {as : List α} : ofList as = [] ↔ as = [] := by
  simp only [List.eq_nil_iff_forall_not_mem, mem_ofList]

lemma head_le {as : List α} (h : as.Pairwise (· < ·)) (hne : as ≠ []) {x : α} (hx : x ∈ as) :
    as.head hne ≤ x := by
  cases as with
  | nil => exact absurd rfl hne
  | cons a as =>
    rcases List.mem_cons.mp hx with rfl | hx
    · exact le_refl x
    · exact ((List.pairwise_cons.mp h).1 x hx).le

lemma le_getLast {as : List α} (h : as.Pairwise (· < ·)) (hne : as ≠ []) {x : α} (hx : x ∈ as) :
    x ≤ as.getLast hne := by
  rw [← List.dropLast_append_getLast hne] at h hx
  rcases List.mem_append.mp hx with hx | hx
  · exact ((List.pairwise_append.mp h).2.2 x hx _ (by simp)).le
  · exact (List.mem_singleton.mp hx).le

end Ascending

/-- In a list without repeats an element is found at its place. -/
lemma idxOf?_eq_some_iff_getElem? {α : Type u} [BEq α] [LawfulBEq α] {as : List α} (h : as.Nodup)
    {a : α} {n : Nat} : as.idxOf? a = some n ↔ as[n]? = some a := by
  rw [List.idxOf?_eq_some_iff, List.getElem?_eq_some_iff]
  refine exists_congr fun hn => ⟨And.left, fun ha => ⟨ha, fun m hm hma => ?_⟩⟩
  exact hm.ne (h.getElem_inj_iff.mp (hma.trans ha.symm))

/-! ### Sorting by a key -/

namespace Sorting

variable {α : Type u} {κ : Type v} [LinearOrder κ] {key : α → κ}

lemma place_of_forall_le {le : α → α → Bool} {a : α} {bs : List α} (h : ∀ b ∈ bs, le a b) :
    place le a bs = a :: bs := by
  cases bs with
  | nil => rfl
  | cons b bs => simp [place, h b (by simp)]

lemma place_append {le : α → α → Bool} {a : α} {bs cs : List α} (h : ∀ b ∈ bs, ¬ le a b) :
    place le a (bs ++ cs) = bs ++ place le a cs := by
  induction bs with
  | nil => rfl
  | cons b bs ih =>
    rw [List.cons_append, place, if_neg (h b (by simp)), ih fun c hc => h c (by simp [hc])]
    rfl

/-- The elements of a list key by key, for keys in ascending order. -/
def groups (key : α → κ) (keys : List κ) (as : List α) : List α :=
  keys.flatMap fun k => as.filter (key · = k)

lemma groups_cons_keys (k : κ) (ks : List κ) (as : List α) :
    groups key (k :: ks) as = as.filter (key · = k) ++ groups key ks as := rfl

lemma key_mem_of_mem_groups {keys : List κ} {as : List α} {a : α} (h : a ∈ groups key keys as) :
    key a ∈ keys := by
  obtain ⟨k, hk, ha⟩ := List.mem_flatMap.mp h
  have hka : key a = k := by simpa using (List.mem_filter.mp ha).2
  exact hka ▸ hk

lemma groups_cons_of_notMem {keys : List κ} {a : α} {as : List α} (h : key a ∉ keys) :
    groups key keys (a :: as) = groups key keys as := by
  apply List.flatMap_congr
  intro k hk
  have hne : key a ≠ k := fun heq => h (heq ▸ hk)
  simp [hne]

/-- An element is placed at the head of the group of its key. -/
lemma place_groups {keys : List κ} (hkeys : keys.Pairwise (· < ·)) {a : α} {as : List α}
    (hnew : key a ∉ keys → ∀ b ∈ as, key b ≠ key a) :
    place (fun a b => decide (key a ≤ key b)) a (groups key keys as)
      = groups key (Ascending.insert (key a) keys) (a :: as) := by
  induction keys with
  | nil =>
    have hnone : as.filter (key · = key a) = [] := by simpa using hnew (by simp)
    simp [groups, Ascending.insert, place, hnone]
  | cons k ks ih =>
    obtain ⟨hk, hks⟩ := List.pairwise_cons.mp hkeys
    have hfirst : ∀ b ∈ groups key (k :: ks) as, k ≤ key b := by
      intro b hb
      rcases List.mem_cons.mp (key_mem_of_mem_groups hb) with hbk | hbk
      · exact hbk.ge
      · exact (hk _ hbk).le
    rw [Ascending.insert]
    split_ifs with hlt hgt
    · -- a new least key, whose group stands before all the others
      have hout : key a ∉ k :: ks := by
        intro hmem
        rcases List.mem_cons.mp hmem with heq | hmem
        · exact hlt.ne heq
        · exact (hlt.trans (hk _ hmem)).false
      have hnone : as.filter (key · = key a) = [] := by simpa using hnew hout
      rw [groups_cons_keys (key a), groups_cons_of_notMem hout, List.filter_cons_of_pos (by simp),
        hnone, place_of_forall_le fun b hb => by simpa using hlt.le.trans (hfirst b hb)]
      rfl
    · -- a greater key, which goes past the whole first group
      have hne : key a ≠ k := hgt.ne'
      rw [groups_cons_keys, groups_cons_keys, place_append, ih hks fun hout =>
        hnew (by simp [hne, hout]), List.filter_cons_of_neg (by simpa using hne)]
      intro b hb
      have hbk : key b = k := by simpa using (List.mem_filter.mp hb).2
      simpa [hbk] using hgt
    · -- the first key itself, where the element is put before its group
      have heq : key a = k := le_antisymm (not_lt.mp hgt) (not_lt.mp hlt)
      have hout : key a ∉ ks := fun hmem => (heq ▸ hk _ hmem).false
      rw [place_of_forall_le fun b hb => by simpa [heq] using hfirst b hb, groups_cons_keys,
        groups_cons_keys, groups_cons_of_notMem hout, List.filter_cons_of_pos (by simpa using heq)]
      rfl

/-- Sorting by a key lines up the elements of every key, in the order in which they came. -/
theorem sort_by_key (key : α → κ) (as : List α) :
    sort (fun a b => decide (key a ≤ key b)) as
      = groups key (Ascending.ofList (as.map key)) as := by
  induction as with
  | nil => rfl
  | cons a as ih =>
    rw [sort_cons, ih, List.map_cons, Ascending.ofList_cons]
    refine place_groups (Ascending.pairwise_ofList _) fun hnew b hb heq => hnew ?_
    rw [Ascending.mem_ofList, ← heq]
    exact List.mem_map_of_mem hb

lemma place_map {β : Type u} (le : β → β → Bool) (f : α → β) (a : α) (as : List α) :
    place le (f a) (as.map f) = (place (fun a b => le (f a) (f b)) a as).map f := by
  induction as with
  | nil => rfl
  | cons b bs ih =>
    rw [List.map_cons, place, place]
    split_ifs
    · rfl
    · rw [ih, List.map_cons]

/-- Sorting images is sorting by what the images are compared by. -/
lemma sort_map {β : Type u} (le : β → β → Bool) (f : α → β) (as : List α) :
    sort le (as.map f) = (sort (fun a b => le (f a) (f b)) as).map f := by
  induction as with
  | nil => rfl
  | cons a as ih => rw [List.map_cons, sort_cons, ih, place_map, sort_cons]

end Sorting

/-! ### Runs -/

section Runs

variable {α : Type u} {key : α → Nat} {as : List α}

/-- The runs of neighbours with one key. -/
abbrev runs (key : α → Nat) (as : List α) : List (List α) := as.splitBy fun a b => key a == key b

lemma key_eq_of_mem_run {run : List α} (hrun : run ∈ runs key as) {a b : α} (ha : a ∈ run)
    (hb : b ∈ run) : key a = key b := by
  have htrans : Trans (fun a b => key a = key b) (fun a b => key a = key b)
      (fun a b => key a = key b) := ⟨Eq.trans⟩
  have hsymm : Std.Symm fun a b : α => key a = key b := ⟨fun a b h => h.symm⟩
  have hchain : run.IsChain fun a b => key a = key b := by
    simpa using List.isChain_of_mem_splitBy hrun
  have hpair : run.Pairwise fun a b => key a = key b := List.isChain_iff_pairwise.mp hchain
  exact List.Pairwise.forall_of_forall (R := fun a b => key a = key b) (fun x _ => rfl) hpair ha hb

lemma mem_of_mem_run {run : List α} (hrun : run ∈ runs key as) {a : α} (ha : a ∈ run) : a ∈ as := by
  rw [← List.flatten_splitBy (fun a b => key a == key b) as]
  exact List.mem_flatten.mpr ⟨run, hrun, ha⟩

lemma sublist_of_mem_runs {run : List α} (hrun : run ∈ runs key as) : run.Sublist as := by
  have hsub := List.sublist_flatten_of_mem hrun
  rwa [List.flatten_splitBy] at hsub

lemma exists_run (key : α → Nat) {a : α} (ha : a ∈ as) : ∃ run ∈ runs key as, a ∈ run := by
  rw [← List.flatten_splitBy (fun a b => key a == key b) as] at ha
  exact List.mem_flatten.mp ha

/-- Lists of one key each, whose keys never go down and differ between neighbours, have keys that go
up all along. -/
lemma pairwise_key_lt {rs : List (List α)}
    (hone : ∀ r ∈ rs, ∀ a ∈ r, ∀ b ∈ r, key a = key b)
    (hle : rs.Pairwise fun r s => ∀ a ∈ r, ∀ b ∈ s, key a ≤ key b)
    (hstep : rs.IsChain fun r s => ∃ hr hs, (key (r.getLast hr) == key (s.head hs)) = false) :
    rs.Pairwise fun r s => ∀ a ∈ r, ∀ b ∈ s, key a < key b := by
  induction rs with
  | nil => exact .nil
  | cons r rs ih =>
    obtain ⟨hr, hrs⟩ := List.pairwise_cons.mp hle
    refine List.pairwise_cons.mpr ⟨fun s hs a ha b hb => ?_,
      ih (fun t ht => hone t (by simp [ht])) hrs hstep.tail⟩
    cases rs with
    | nil => simp at hs
    | cons t ts =>
      -- the step up is the one from `r` to its neighbour `t`
      obtain ⟨⟨hrne, htne, hne⟩, -⟩ := List.isChain_cons_cons.mp hstep
      have hup : key a < key (t.head htne) := by
        rw [hone r (by simp) a ha (r.getLast hrne) (by simp)]
        exact lt_of_le_of_ne (hr t (by simp) _ (by simp) _ (by simp)) (by simpa using hne)
      rcases List.mem_cons.mp hs with rfl | hs
      · rwa [hone s (by simp) b hb (s.head htne) (by simp)]
      · exact hup.trans_le ((List.pairwise_cons.mp hrs).1 s hs _ (by simp) b hb)

/-- Where keys never go down, they go up from each run to the runs after it. -/
lemma pairwise_key_lt_runs (hmono : as.Pairwise fun a b => key a ≤ key b) :
    (runs key as).Pairwise fun r s => ∀ a ∈ r, ∀ b ∈ s, key a < key b := by
  refine pairwise_key_lt (fun r hr a ha b hb => key_eq_of_mem_run hr ha hb) ?_
    (List.isChain_getLast_head_splitBy (fun a b => key a == key b) as)
  rw [← List.flatten_splitBy (fun a b => key a == key b) as, List.pairwise_flatten] at hmono
  exact hmono.2

/-- A run holds all elements of its key. -/
lemma mem_run_iff (hmono : as.Pairwise fun a b => key a ≤ key b) {run : List α}
    (hrun : run ∈ runs key as) {a b : α} (ha : a ∈ run) :
    b ∈ run ↔ b ∈ as ∧ key b = key a := by
  constructor
  · intro hb
    exact ⟨mem_of_mem_run hrun hb, key_eq_of_mem_run hrun hb ha⟩
  · rintro ⟨hb, hkey⟩
    obtain ⟨other, hother, hb⟩ := exists_run key hb
    by_contra hnot
    have hne : other ≠ run := fun heq => hnot (heq ▸ hb)
    have hdiffer : (runs key as).Pairwise fun r s => ∀ a ∈ r, ∀ b ∈ s, key a ≠ key b :=
      (pairwise_key_lt_runs hmono).imp fun h a ha b hb => (h a ha b hb).ne
    have hsymm : Std.Symm fun r s : List α => ∀ a ∈ r, ∀ b ∈ s, key a ≠ key b :=
      ⟨fun r s h a ha b hb => (h b hb a ha).symm⟩
    exact hdiffer.forall hother hrun hne b hb a ha hkey

end Runs

end TypedGraph
