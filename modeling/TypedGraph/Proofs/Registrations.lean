import TypedGraph.Proofs.Order
import TypedGraph.Store.TensorCatalog

/-!
# Registered tensors

A catalog is told by the calls that registered its tensors. Every group has the registrations that
were made for it, in order (`get?_ofCalls`), so a name stands for its last registration, and that is
what a request is completed from where it leaves something open (`ofCalls_follows`).
-/

namespace TypedGraph

/-! ### Settings -/

namespace Setting

variable {α : Type}

lemma flat_eq_some_iff {s : Setting (Option α)} {a : α} :
    s.flat = some a ↔ s = .value (some a) := by
  cases s <;> simp [flat, value?]

lemma orElse_of_not_isSet {s : Setting α} (h : ¬ s.isSet) (t : Setting α) : s.orElse t = t := by
  cases s with
  | unset => rfl
  | value a => exact absurd rfl h

end Setting

namespace TensorCatalog

variable {c : TensorCatalog} {calls : List (String × Registration)} {group name : String}
variable {r : Registration} {d d' : TensorDescriptor}

/-! ### Calls -/

lemma get?_register (c : TensorCatalog) (group other : String) (r : Registration) :
    (c.register group r).groups.get? other
      = if other = group then some ((c.groups.get? group).getD [] ++ [r])
        else c.groups.get? other :=
  SortedMap.get?_alter _ _ _ _

/-- The catalog after some calls, each of which registers a tensor for a group. -/
def ofCalls (calls : List (String × Registration)) : TensorCatalog :=
  calls.foldl (fun c call => c.register call.1 call.2) {}

/-- What some calls register for a group, in their order. -/
def madeFor (group : String) (calls : List (String × Registration)) : List Registration :=
  (calls.filter (·.1 = group)).map (·.2)

lemma ofCalls_concat (calls : List (String × Registration)) (call : String × Registration) :
    ofCalls (calls ++ [call]) = (ofCalls calls).register call.1 call.2 := by
  simp [ofCalls]

lemma madeFor_concat (group : String) (calls : List (String × Registration))
    (call : String × Registration) :
    madeFor group (calls ++ [call])
      = madeFor group calls ++ if group = call.1 then [call.2] else [] := by
  by_cases h : call.1 = group
  · simp [madeFor, h]
  · simp [madeFor, h, Ne.symm h]

/-- A group has what was registered for it, if anything was. -/
lemma get?_ofCalls (calls : List (String × Registration)) (group : String) :
    (ofCalls calls).groups.get? group
      = if madeFor group calls = [] then none else some (madeFor group calls) := by
  induction calls using List.reverseRecOn with
  | nil => rfl
  | append_singleton calls call ih =>
    rw [ofCalls_concat, get?_register, madeFor_concat]
    -- the last call adds to its own group, which had what was registered before
    by_cases h : group = call.1
    · subst h
      have hbefore : ((ofCalls calls).groups.get? call.1).getD [] = madeFor call.1 calls := by
        rw [ih]
        split_ifs with hnil
        · exact hnil.symm
        · rfl
      simp [hbefore]
    · simp [h, ih]

lemma mem_keys_ofCalls :
    group ∈ (ofCalls calls).groups.keys ↔ group ∈ calls.map (·.1) := by
  have hnil : madeFor group calls = [] ↔ group ∉ calls.map (·.1) := by
    simp only [madeFor, List.map_eq_nil_iff, List.filter_eq_nil_iff, List.mem_map,
      decide_eq_true_eq]
    exact ⟨fun h ⟨call, hcall, heq⟩ => h call hcall heq,
      fun h call hcall heq => h ⟨call, hcall, heq⟩⟩
  rw [← SortedMap.get?_isSome_iff_mem_keys, get?_ofCalls, ← not_iff_not, ← hnil]
  by_cases h : madeFor group calls = [] <;> simp [h]

/-- The groups of a catalog ascend by name, each with what was registered for it. -/
lemma entries_ofCalls (calls : List (String × Registration)) :
    (ofCalls calls).groups.entries
      = (Ascending.ofList (calls.map (·.1))).map fun group => (group, madeFor group calls) := by
  have hkeys : (ofCalls calls).groups.keys = Ascending.ofList (calls.map (·.1)) := by
    apply (SortedMap.pairwise_keys _).eq_of_mem_iff (Ascending.pairwise_ofList _)
    intro group
    rw [mem_keys_ofCalls, Ascending.mem_ofList]
  rw [← hkeys, SortedMap.keys, List.map_map]
  symm
  refine (List.map_congr_left fun e he => ?_).trans (List.map_id _)
  have hget := SortedMap.mem_entries_iff.mp he
  rw [get?_ofCalls] at hget
  split_ifs at hget with hnil
  exact Prod.ext rfl (Option.some.inj hget)

/-! ### The last registration -/

/-- A call registers something under the name, and no later one does for the group. -/
def IsLatest (calls : List (String × Registration)) (group name : String) (r : Registration) :
    Prop :=
  r.name = name ∧ ∃ before after, calls = before ++ (group, r) :: after ∧
    ∀ call ∈ after, call.1 = group → call.2.name ≠ name

/-- Whether a call registers a name for a group. -/
def names (group name : String) (call : String × Registration) : Bool :=
  call.1 = group && call.2.name = name

lemma names_iff {call : String × Registration} :
    names group name call ↔ call.1 = group ∧ call.2.name = name := by
  simp [names]

lemma registration?_ofCalls (calls : List (String × Registration)) (group name : String) :
    (ofCalls calls).registration? group name
      = (calls.reverse.find? (names group name)).map (·.2) := by
  have hfind : (madeFor group calls).reverse.find? (·.name = name)
      = (calls.reverse.find? (names group name)).map (·.2) := by
    rw [madeFor, ← List.map_reverse, ← List.filter_reverse, List.find?_map, List.find?_filter]
    simp [names]
    rfl
  rw [registration?, get?_ofCalls, ← hfind]
  split_ifs with hnil
  · rw [hnil]
    rfl
  · rfl

/-- A name stands for its last registration. -/
lemma registration?_eq_some_iff :
    (ofCalls calls).registration? group name = some r ↔ IsLatest calls group name r := by
  rw [registration?_ofCalls, Option.map_eq_some_iff]
  -- the first find among the reversed calls is the last call that names it
  constructor
  · rintro ⟨⟨other, r⟩, hfind, rfl⟩
    obtain ⟨hnamed, later, earlier, hsplit, hlater⟩ := List.find?_eq_some_iff_append.mp hfind
    obtain ⟨rfl, hname⟩ := names_iff.mp hnamed
    refine ⟨hname, earlier.reverse, later.reverse, ?_, ?_⟩
    · simpa using congrArg List.reverse hsplit
    · intro call hcall hgroup hsame
      have hnot := hlater call (List.mem_reverse.mp hcall)
      simp [names_iff.mpr ⟨hgroup, hsame⟩] at hnot
  · rintro ⟨hname, before, after, rfl, hafter⟩
    refine ⟨(group, r), List.find?_eq_some_iff_append.mpr ⟨names_iff.mpr ⟨rfl, hname⟩,
      after.reverse, before.reverse, by simp, ?_⟩, rfl⟩
    intro call hcall
    have hnot : ¬ names group name call := by
      intro hnames
      obtain ⟨hgroup, hsame⟩ := names_iff.mp hnames
      exact hafter call (List.mem_reverse.mp hcall) hgroup hsame
    simpa using hnot

lemma registration?_eq_none_iff :
    (ofCalls calls).registration? group name = none ↔
      ∀ call ∈ calls, call.1 = group → call.2.name ≠ name := by
  rw [registration?_ofCalls, Option.map_eq_none_iff, List.find?_eq_none]
  simp [names]

/-! ### Inferring -/

/-- A request goes by a registration of the group and the name that it gives. -/
lemma matching_eq_ok_iff {m : TensorDescriptor} :
    c.matching d = .ok m ↔ ∃ group name r, d.group = .value (some group) ∧
      d.name = .value (some name) ∧ c.registration? group name = some r ∧
      r.descriptor group = m := by
  constructor
  · intro h
    rw [matching] at h
    cases hgroup : d.group.flat with
    | none => simp [hgroup] at h
    | some group =>
      cases hname : d.name.flat with
      | none =>
        simp only [hgroup, hname] at h
        split at h <;> simp at h
      | some name =>
        simp only [hgroup, hname] at h
        split_ifs at h
        cases hfind : c.find? group name with
        | none => simp [hfind] at h
        | some found =>
          obtain ⟨r, hr, rfl⟩ := Option.map_eq_some_iff.mp hfind
          refine ⟨group, name, r, Setting.flat_eq_some_iff.mp hgroup,
            Setting.flat_eq_some_iff.mp hname, hr, ?_⟩
          simpa [hfind] using h
  · -- such a group is known, since something is registered for it
    rintro ⟨group, name, r, hgroup, hname, hr, rfl⟩
    have hcontains : c.groups.contains group = true := by
      obtain ⟨rs, hrs, -⟩ := Option.bind_eq_some_iff.mp hr
      simp [SortedMap.contains, hrs]
    have hfind : c.find? group name = some (r.descriptor group) := by simp [find?, hr]
    simp [matching, Setting.flat_eq_some_iff.mpr hgroup, Setting.flat_eq_some_iff.mpr hname,
      hcontains, hfind]

/-- What inferring makes of a request after some calls. -/
structure IsSettled (calls : List (String × Registration)) (d d' : TensorDescriptor) : Prop where
  properties_set : d'.properties.isSet
  dtype_set : d'.dtype.isSet
  group : d'.group = d.group
  name : d'.name = d.name
  index : d'.index = d.index
  properties_kept : d.properties.isSet → d'.properties = d.properties
  dtype_kept : d.dtype.isSet → d'.dtype = d.dtype
  filled : ¬ (d.properties.isSet ∧ d.dtype.isSet) → ∃ group name r,
    d.group = .value (some group) ∧ d.name = .value (some name) ∧ IsLatest calls group name r ∧
      (¬ d.properties.isSet → d'.properties = .value (some r.properties)) ∧
      (¬ d.dtype.isSet → d'.dtype = .value (some r.dtype))

lemma infer_of_isSet (h : d.properties.isSet ∧ d.dtype.isSet) : c.infer d = .ok d := by
  simp [infer, h.1, h.2]

lemma infer_of_not_isSet (h : ¬ (d.properties.isSet ∧ d.dtype.isSet)) :
    c.infer d = match c.matching d with
      | .error e => .error (.lookup e)
      | .ok m => .ok { d with
          properties := d.properties.orElse m.properties, dtype := d.dtype.orElse m.dtype } := by
  cases hmatching : c.matching d <;> simp [infer, h, hmatching]

lemma infer_eq_error {e : StoreError} (h : c.infer d = .error e) : ∃ cause, e = .lookup cause := by
  by_cases hset : d.properties.isSet ∧ d.dtype.isSet
  · simp [infer_of_isSet hset] at h
  · rw [infer_of_not_isSet hset] at h
    cases hmatching : c.matching d with
    | ok m => simp [hmatching] at h
    | error cause => exact ⟨cause, by simpa [hmatching, eq_comm] using h⟩

/-- A request is refused if it leaves something open and no registration fits it. -/
lemma infer_refuses_iff :
    (∃ e, c.infer d = .error (.lookup e)) ↔ ¬ (d.properties.isSet ∧ d.dtype.isSet) ∧
      ¬ ∃ group name r, d.group = .value (some group) ∧ d.name = .value (some name) ∧
        c.registration? group name = some r := by
  by_cases hset : d.properties.isSet ∧ d.dtype.isSet
  · simp [infer_of_isSet hset, hset]
  · rw [infer_of_not_isSet hset]
    simp only [hset, not_false_eq_true, true_and]
    cases hmatching : c.matching d with
    | ok m =>
      obtain ⟨group, name, r, hgroup, hname, hr, -⟩ := matching_eq_ok_iff.mp hmatching
      simpa using ⟨group, hgroup, name, hname, r, hr⟩
    | error e =>
      simp only [Except.error.injEq, StoreError.lookup.injEq, exists_eq', true_iff]
      rintro ⟨group, name, r, hgroup, hname, hr⟩
      have hok := matching_eq_ok_iff.mpr ⟨group, name, r, hgroup, hname, hr, rfl⟩
      simp [hmatching] at hok

lemma infer_isSettled (h : (ofCalls calls).infer d = .ok d') : IsSettled calls d d' := by
  -- a request that sets both is left alone; otherwise the registration fills what is open
  by_cases hset : d.properties.isSet ∧ d.dtype.isSet
  · obtain rfl := Except.ok.inj ((infer_of_isSet hset).symm.trans h)
    exact ⟨hset.1, hset.2, rfl, rfl, rfl, fun _ => rfl, fun _ => rfl, fun hnot => absurd hset hnot⟩
  · rw [infer_of_not_isSet hset] at h
    cases hmatching : (ofCalls calls).matching d with
    | error e => simp [hmatching] at h
    | ok m =>
      obtain ⟨group, name, r, hgroup, hname, hr, rfl⟩ := matching_eq_ok_iff.mp hmatching
      simp only [hmatching, Except.ok.injEq] at h
      subst h
      refine ⟨Setting.isSet_orElse_value _ _, Setting.isSet_orElse_value _ _, rfl, rfl, rfl,
        fun hp => Setting.orElse_of_isSet hp _, fun ht => Setting.orElse_of_isSet ht _, ?_⟩
      intro _
      exact ⟨group, name, r, hgroup, hname, registration?_eq_some_iff.mp hr,
        fun hp => Setting.orElse_of_not_isSet hp _, fun ht => Setting.orElse_of_not_isSet ht _⟩

/-! ### All registrations -/

/-- The descriptors of a catalog are those of the calls, by group. -/
lemma all_ofCalls (calls : List (String × Registration)) :
    (ofCalls calls).all
      = (Sorting.groups (·.1) (Ascending.ofList (calls.map (·.1))) calls).map
        fun call => call.2.descriptor call.1 := by
  rw [all, entries_ofCalls, List.flatMap_map, Sorting.groups, List.map_flatMap]
  apply List.flatMap_congr
  intro group _
  rw [madeFor, List.map_map]
  apply List.map_congr_left
  intro call hcall
  have hgroup : call.1 = group := by simpa using (List.mem_filter.mp hcall).2
  simp [hgroup]

/-- What a catalog says after some calls. -/
structure FollowsCalls (c : TensorCatalog) (calls : List (String × Registration)) : Prop where
  find?_iff : ∀ group name m, c.find? group name = some m ↔
    ∃ r, IsLatest calls group name r ∧ r.descriptor group = m
  find?_none : ∀ group name, c.find? group name = none ↔
    ∀ call ∈ calls, call.1 = group → call.2.name ≠ name
  fails : ∀ d e, c.infer d = .error e → ∃ cause, e = .lookup cause
  refuses_iff : ∀ d, (∃ e, c.infer d = .error (.lookup e)) ↔
    ¬ (d.properties.isSet ∧ d.dtype.isSet) ∧ ¬ ∃ group name r, d.group = .value (some group) ∧
      d.name = .value (some name) ∧ IsLatest calls group name r
  settles : ∀ d d', c.infer d = .ok d' → IsSettled calls d d' ∧ c.infer d' = .ok d'
  all_eq : c.all = (Ascending.ofList (calls.map (·.1))).flatMap fun group =>
    (madeFor group calls).map (·.descriptor group)
  all_perm : c.all.Perm (calls.map fun call => call.2.descriptor call.1)

/-- A catalog goes by the last registration of every name, and never overrides a request. -/
theorem ofCalls_follows (calls : List (String × Registration)) :
    (ofCalls calls).FollowsCalls calls := by
  constructor
  · intro group name m
    simp only [find?, Option.map_eq_some_iff, registration?_eq_some_iff]
  · intro group name
    rw [find?, Option.map_eq_none_iff, registration?_eq_none_iff]
  · intro d e h
    exact infer_eq_error h
  · intro d
    simp only [infer_refuses_iff, registration?_eq_some_iff]
  · intro d d' h
    have hsettled := infer_isSettled h
    exact ⟨hsettled, infer_of_isSet ⟨hsettled.properties_set, hsettled.dtype_set⟩⟩
  · rw [all, entries_ofCalls, List.flatMap_map]
  · rw [all_ofCalls, ← Sorting.sort_by_key]
    exact (Sorting.sort_perm _ calls).map _

end TensorCatalog

end TypedGraph
