import TypedGraph.Proofs.Order
import TypedGraph.Store.SubgraphMemo

/-!
# Memoized extractions

A memo is told by its past: the calls so far with their outcomes. What it holds for a set of names
is the value of the first call for that set that succeeded (`remembers_after`), so an extraction
runs only where no call for the set has succeeded yet, and then on the sorted names
(`after_answers`).
-/

namespace TypedGraph

/-! ### Sets of names -/

namespace NameSet

variable {names names' : List String}

/-- Lists of one set of names make one key, and only those. -/
lemma ofList_eq_iff : ofList names = ofList names' ↔ names.toFinset = names'.toFinset := by
  rw [ofList, ofList, mk.injEq, Finset.ext_iff]
  simp only [List.mem_toFinset]
  constructor
  · intro h name
    rw [← Ascending.mem_ofList, h, Ascending.mem_ofList]
  · exact Ascending.ofList_congr

end NameSet

namespace SubgraphMemo

variable {α ε : Type} {m : SubgraphMemo α} {key : NameSet} {names : List String} {a : α}

/-! ### One call -/

lemma getOrExtract_of_some (h : m.get? key = some a) (extract : List String → Except ε α) :
    m.getOrExtract key extract = (.ok a, m) := by
  rw [getOrExtract, h]

lemma getOrExtract_of_ok {extract : List String → Except ε α} (h : m.get? key = none)
    (ha : extract key.names = .ok a) :
    m.getOrExtract key extract = (.ok a, ⟨m.entries ++ [(key, a)]⟩) := by
  simp only [getOrExtract, h, ha]

lemma getOrExtract_of_error {extract : List String → Except ε α} {e : ε} (h : m.get? key = none)
    (he : extract key.names = .error e) : m.getOrExtract key extract = (.error e, m) := by
  simp only [getOrExtract, h, he]

/-- The names that an extraction is run on, if one is run: an extraction that fails with what it is
run on tells them. -/
def extracts? (m : SubgraphMemo α) (key : NameSet) : Option (List String) :=
  match (m.getOrExtract key fun names => (.error names : Except (List String) α)).1 with
  | .ok _ => none
  | .error names => some names

lemma extracts?_of_some (h : m.get? key = some a) : m.extracts? key = none := by
  rw [extracts?, getOrExtract_of_some h]

lemma extracts?_of_none (h : m.get? key = none) : m.extracts? key = some key.names := by
  rw [extracts?, getOrExtract_of_error h rfl]

/-- A value that is added under a new key is found under that key. -/
lemma get?_append (h : m.get? key = none) (a : α) (other : NameSet) :
    get? ⟨m.entries ++ [(key, a)]⟩ other = if other = key then some a else m.get? other := by
  rw [get?, List.lookup_append]
  split_ifs with hother
  · rw [hother, ← get?, h]
    simp
  · have hne : (other == key) = false := by simpa using hother
    simp [get?, List.lookup_cons, hne]

/-! ### Sequences of calls -/

/-- A call: names in any order and with any repeats, and an extraction of the call's own. -/
structure Call (ε α : Type) where
  names : List String
  extract : List String → Except ε α

/-- The outcome of a call, and the memo after it. -/
def call (m : SubgraphMemo α) (c : Call ε α) : Except ε α × SubgraphMemo α :=
  m.getOrExtract (.ofList c.names) c.extract

/-- The memo after some calls. -/
def after (m : SubgraphMemo α) : List (Call ε α) → SubgraphMemo α
  | [] => m
  | c :: cs => after (m.call c).2 cs

/-- The names of some calls with the outcomes of the calls. -/
def log (m : SubgraphMemo α) : List (Call ε α) → List (List String × Except ε α)
  | [] => []
  | c :: cs => (c.names, (m.call c).1) :: log (m.call c).2 cs

lemma after_append (m : SubgraphMemo α) (cs more : List (Call ε α)) :
    m.after (cs ++ more) = (m.after cs).after more := by
  induction cs generalizing m with
  | nil => rfl
  | cons c cs ih => exact ih (m.call c).2

/-! ### What a past tells -/

section Past

variable {past : List (List String × Except ε α)} {outcome : Except ε α}

/-- The outcome of the first call for a set of names that succeeded. -/
def firstValue? (past : List (List String × Except ε α)) (names : List String) : Option α :=
  past.findSome? fun r => if r.1.toFinset = names.toFinset then r.2.toOption else none

/-- The sets of names for which some call succeeded. -/
def served (past : List (List String × Except ε α)) : Finset (Finset String) :=
  (past.filterMap fun r => r.2.toOption.map fun _ => r.1.toFinset).toFinset

lemma mem_served_iff {set : Finset String} :
    set ∈ served past ↔ ∃ r ∈ past, r.1.toFinset = set ∧ ∃ a, r.2 = .ok a := by
  rw [served, List.mem_toFinset, List.mem_filterMap]
  refine exists_congr fun r => and_congr_right fun _ => ?_
  cases r.2 <;> simp [Except.toOption]

/-- A set has a first value exactly if some call for it succeeded. -/
lemma firstValue?_isSome_iff : (firstValue? past names).isSome ↔ names.toFinset ∈ served past := by
  rw [firstValue?, List.findSome?_isSome_iff, mem_served_iff]
  refine exists_congr fun r => and_congr_right fun _ => ?_
  split_ifs with hset
  · cases r.2 <;> simp [hset, Except.toOption]
  · simp [hset]

/-- A later call gives a set its first value only if none succeeded before. -/
lemma firstValue?_append (past : List (List String × Except ε α)) (called : List String)
    (outcome : Except ε α) (names : List String) :
    firstValue? (past ++ [(called, outcome)]) names = (firstValue? past names).or
      (if called.toFinset = names.toFinset then outcome.toOption else none) := by
  rw [firstValue?, List.findSome?_append, List.findSome?_singleton]
  rfl

lemma served_append_ok (past : List (List String × Except ε α)) (called : List String) (a : α) :
    served (past ++ [(called, .ok a)]) = insert called.toFinset (served past) := by
  ext set
  simp only [mem_served_iff, List.mem_append, List.mem_singleton, Finset.mem_insert]
  constructor
  · rintro ⟨r, hr | rfl, hset, hok⟩
    · exact .inr ⟨r, hr, hset, hok⟩
    · exact .inl hset.symm
  · rintro (rfl | ⟨r, hr, hset, hok⟩)
    · exact ⟨_, .inr rfl, rfl, a, rfl⟩
    · exact ⟨r, .inl hr, hset, hok⟩

lemma served_append_error (past : List (List String × Except ε α)) (called : List String) (e : ε) :
    served (past ++ [(called, .error e)]) = served past := by
  ext set
  simp only [mem_served_iff, List.mem_append, List.mem_singleton]
  constructor
  · rintro ⟨r, hr | rfl, hset, a, hok⟩
    · exact ⟨r, hr, hset, a, hok⟩
    · cases hok
  · rintro ⟨r, hr, hset, hok⟩
    exact ⟨r, .inl hr, hset, hok⟩

end Past

/-! ### Memos and their pasts -/

/-- A memo holds the first value of every set of names, and nothing else. -/
structure Remembers (m : SubgraphMemo α) (past : List (List String × Except ε α)) : Prop where
  get? : ∀ names, m.get? (.ofList names) = firstValue? past names
  length : m.length = (served past).card

namespace Remembers

variable {past : List (List String × Except ε α)}

lemma empty : Remembers ({} : SubgraphMemo α) ([] : List (List String × Except ε α)) :=
  ⟨fun _ => rfl, rfl⟩

/-- A memo holds something for a set exactly if some call for the set succeeded. -/
lemma get?_isSome_iff (h : m.Remembers past) (names : List String) :
    (m.get? (.ofList names)).isSome ↔ names.toFinset ∈ served past := by
  rw [h.get?, firstValue?_isSome_iff]

lemma get?_eq_none_iff (h : m.Remembers past) (names : List String) :
    m.get? (.ofList names) = none ↔ names.toFinset ∉ served past := by
  rw [← h.get?_isSome_iff, Option.not_isSome_iff_eq_none]

/-- A value that is extracted for a set without one becomes its first value. -/
lemma add (h : m.Remembers past) (hnone : m.get? (.ofList names) = none) (a : α) :
    Remembers ⟨m.entries ++ [(.ofList names, a)]⟩ (past ++ [(names, (.ok a : Except ε α))]) where
  get? other := by
    rw [get?_append hnone, firstValue?_append, h.get?]
    -- the new value is the first one of its set, as nothing was held for it
    by_cases hset : names.toFinset = other.toFinset
    · have hfirst : firstValue? past other = none := by
        rw [← h.get?, ← NameSet.ofList_eq_iff.mpr hset, hnone]
      rw [if_pos (NameSet.ofList_eq_iff.mpr hset.symm), if_pos hset, hfirst]
      rfl
    · have hkey : NameSet.ofList other ≠ NameSet.ofList names := fun heq =>
        hset (NameSet.ofList_eq_iff.mp heq).symm
      rw [if_neg hkey, if_neg hset, Option.or_none]
  length := by
    have hnew : names.toFinset ∉ served past := (h.get?_eq_none_iff names).mp hnone
    rw [served_append_ok, Finset.card_insert_of_notMem hnew, ← h.length]
    simp [SubgraphMemo.length]

/-- A value that is handed out again changes no first value. -/
lemma again (h : m.Remembers past) (hsome : m.get? (.ofList names) = some a) :
    m.Remembers (past ++ [(names, (.ok a : Except ε α))]) where
  get? other := by
    rw [firstValue?_append, h.get?]
    split_ifs with hset
    · have hfirst : firstValue? past other = some a := by
        rw [← h.get?, ← NameSet.ofList_eq_iff.mpr hset, hsome]
      rw [hfirst]
      rfl
    · rw [Option.or_none]
  length := by
    have hmem : names.toFinset ∈ served past := by
      rw [← h.get?_isSome_iff, hsome]
      rfl
    rw [served_append_ok, Finset.insert_eq_of_mem hmem, h.length]

/-- A failure leaves no trace. -/
lemma failed (h : m.Remembers past) (names : List String) (e : ε) :
    m.Remembers (past ++ [(names, (.error e : Except ε α))]) where
  get? other := by
    rw [firstValue?_append, h.get?]
    split_ifs
    · exact Option.or_none.symm
    · exact Option.or_none.symm
  length := by rw [served_append_error, h.length]

/-- One call keeps a memo in step with its past. -/
lemma call (h : m.Remembers past) (c : Call ε α) :
    (m.call c).2.Remembers (past ++ [(c.names, (m.call c).1)]) := by
  rw [SubgraphMemo.call]
  cases hget : m.get? (.ofList c.names) with
  | some a =>
    rw [getOrExtract_of_some hget]
    exact h.again hget
  | none =>
    cases hextract : c.extract (NameSet.ofList c.names).names with
    | ok a =>
      rw [getOrExtract_of_ok hget hextract]
      exact h.add hget a
    | error e =>
      rw [getOrExtract_of_error hget hextract]
      exact h.failed c.names e

lemma after (h : m.Remembers past) (cs : List (Call ε α)) :
    (m.after cs).Remembers (past ++ m.log cs) := by
  induction cs generalizing m past with
  | nil => simpa [SubgraphMemo.after, log] using h
  | cons c cs ih =>
    have hrest := ih (h.call c)
    rwa [List.append_assoc] at hrest

end Remembers

/-- After any calls a new memo holds the first values of these calls. -/
lemma remembers_after (cs : List (Call ε α)) :
    (({} : SubgraphMemo α).after cs).Remembers (({} : SubgraphMemo α).log cs) := by
  simpa using Remembers.empty.after cs

/-! ### Calls after a past -/

/-- How a memo with a past answers a call. -/
structure Answers (m : SubgraphMemo α) (past : List (List String × Except ε α)) (c : Call ε α) :
    Prop where
  /-- An extraction is run exactly if no call for the set of names has succeeded. -/
  extracts_iff : (m.extracts? (.ofList c.names)).isSome ↔ c.names.toFinset ∉ served past
  /-- It is run on the distinct names in ascending order, and its outcome is that of the call. -/
  extracted : ∀ names, m.extracts? (.ofList c.names) = some names →
    names.Pairwise (· < ·) ∧ names.toFinset = c.names.toFinset ∧ (m.call c).1 = c.extract names
  /-- Otherwise the value of the first call that succeeded is handed out, whatever the extraction of
  this call would give. -/
  first : ∀ a, firstValue? past c.names = some a → m.call c = (.ok a, m)
  failed : ∀ e, (m.call c).1 = .error e → (m.call c).2 = m

lemma Remembers.answers {past : List (List String × Except ε α)} (h : m.Remembers past)
    (c : Call ε α) : m.Answers past c := by
  -- a call either finds its set or extracts it, and only a success is held
  cases hget : m.get? (.ofList c.names) with
  | some a =>
    have hserved : c.names.toFinset ∈ served past := by
      rw [← h.get?_isSome_iff, hget]
      rfl
    have hcall : m.call c = (.ok a, m) := getOrExtract_of_some hget c.extract
    have hnone := extracts?_of_some hget
    refine ⟨?_, ?_, ?_, ?_⟩
    · simp [hnone, hserved]
    · simp [hnone]
    · intro b hb
      rw [← h.get?, hget] at hb
      rw [hcall, Option.some.inj hb]
    · simp [hcall]
  | none =>
    have hserved := (h.get?_eq_none_iff c.names).mp hget
    have hsome := extracts?_of_none hget
    refine ⟨?_, ?_, ?_, ?_⟩
    · simp [hsome, hserved]
    · intro names hnames
      obtain rfl := Option.some.inj (hsome.symm.trans hnames)
      refine ⟨Ascending.pairwise_ofList c.names, ?_, ?_⟩
      · ext name
        simp [NameSet.ofList]
      · rw [SubgraphMemo.call]
        cases hextract : c.extract (NameSet.ofList c.names).names with
        | ok a => rw [getOrExtract_of_ok hget hextract]
        | error e => rw [getOrExtract_of_error hget hextract]
    · intro a ha
      rw [← h.get?, hget] at ha
      cases ha
    · intro e he
      rw [SubgraphMemo.call] at he ⊢
      cases hextract : c.extract (NameSet.ofList c.names).names with
      | ok a =>
        rw [getOrExtract_of_ok hget hextract] at he
        cases he
      | error e => rw [getOrExtract_of_error hget hextract]

/-- What is held is held after any further calls. -/
lemma get?_after (h : m.get? key = some a) (cs : List (Call ε α)) :
    (m.after cs).get? key = some a := by
  induction cs generalizing m with
  | nil => exact h
  | cons c cs ih =>
    apply ih
    rw [call]
    cases hget : m.get? (.ofList c.names) with
    | some b => rwa [getOrExtract_of_some hget]
    | none =>
      cases hextract : c.extract (NameSet.ofList c.names).names with
      | error e => rwa [getOrExtract_of_error hget hextract]
      | ok b =>
        have hne : key ≠ .ofList c.names := by
          rintro rfl
          rw [hget] at h
          cases h
        rw [getOrExtract_of_ok hget hextract, get?_append hget, if_neg hne, h]

/-- After any calls on a new memo, with names in any order and extractions that give values or fail,
the next call is answered by the first success for its set of names, and extracts only if there is
none. The memo holds something for exactly the sets for which some call succeeded, one entry for
each, and loses none of them. -/
theorem after_answers (cs : List (Call ε α)) :
    (∀ c : Call ε α, (after {} cs).Answers (log {} cs) c) ∧
      (∀ names, (after {} cs).contains (.ofList names) ↔ names.toFinset ∈ served (log {} cs)) ∧
      (after {} cs).length = (served (log {} cs)).card ∧
      ∀ (more : List (Call ε α)) key a, (after {} cs).get? key = some a →
        (after {} (cs ++ more)).get? key = some a := by
  have hcs := remembers_after cs
  refine ⟨hcs.answers, hcs.get?_isSome_iff, hcs.length, fun more key a h => ?_⟩
  rw [after_append]
  exact get?_after h more

/-- Names that differ as lists name one set, and what failed is tried again. -/
example :
    let fails : Call String Nat := ⟨["b", "a"], fun _ => .error "later"⟩
    let gives : Call String Nat := ⟨["a", "b", "a"], fun names => .ok names.length⟩
    let late : Call String Nat := ⟨["b", "b", "a"], fun _ => .ok 7⟩
    ((log {} [fails, gives, late]).map fun r => r.2.toOption) = [none, some 2, some 2] := by
  decide +kernel

end SubgraphMemo

end TypedGraph
