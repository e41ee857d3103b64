import TypedGraph.Proofs.Elements
import TypedGraph.Proofs.FetchedColumns
import TypedGraph.Proofs.FrameAppends

/-!
# Typed columns

Which column the values of some rows make. The rules for its element type (`Suits`) and for the cell
of a row (`Writes`) are stated apart from the passes that build the column. Every list of values
either suits one element type or mixes values that no column holds (`suits_or_mixes`), and the
column is built exactly by these rules (`ofValues_eq_ok_iff`, `ofValues_eq_error_iff`).
-/

namespace TypedGraph

open Json Traversal

/-! ### Values -/

namespace Json.Value

/-- A number or a truth value. -/
def IsNumeric : Value → Prop
  | .bool _ | .number _ => True
  | _ => False

def IsText : Value → Prop
  | .string _ => True
  | _ => False

lemma isNumeric_iff {v : Value} : v.IsNumeric ↔ v.cellBinary?.isSome := by
  cases v <;> simp [IsNumeric, cellBinary?]

lemma isText_iff {v : Value} : v.IsText ↔ v.string?.isSome := by
  cases v <;> simp [IsText, string?]

lemma not_isText_of_isNumeric {v : Value} (h : v.IsNumeric) : ¬ v.IsText := by
  cases v <;> simp [IsNumeric, IsText] at h ⊢

end Json.Value

namespace Column

variable {name : String} {values values' : List (Option Value)} {v : Option Value} {c d : Column}
variable {t t' : Option DType} {order : List Nat}

/-- A value that some row has, and that is not `null`. -/
def Present (values : List (Option Value)) (v : Value) : Prop := some v ∈ values ∧ v ≠ .null

/-- A row without a value, or with `null`. -/
def IsMissing (v : Option Value) : Prop := v = none ∨ v = some .null

/-- The integer of a row that has one of 64 bits; a truth value counts as one or zero. -/
inductive HoldsInteger : Option Value → Int → Prop
  | truth (b : Bool) : HoldsInteger (some (.bool b)) b.toInt
  | number {n : Int} (low : -2 ^ 63 ≤ n) (high : n < 2 ^ 63) : HoldsInteger (some (.int n)) n

/-- The binary value nearest to the number of a row; a truth value counts as one or zero. -/
inductive HoldsBinary : Option Value → Binary64 → Prop
  | truth (b : Bool) : HoldsBinary (some (.bool b)) (.ofInt b.toInt)
  | integer (n : Int) : HoldsBinary (some (.int n)) (.ofInt n)
  | binary (x : Binary64) : HoldsBinary (some (.number (.float x))) x

lemma holdsInteger_iff {n : Int} : HoldsInteger v n ↔ v.bind Value.cellInt? = some n := by
  constructor
  · rintro (b | ⟨hlow, hhigh⟩)
    · cases b <;> rfl
    · have hsigned : isSigned64 n := by
        rw [isSigned64, Bool.and_eq_true, decide_eq_true_eq, decide_eq_true_eq]
        exact ⟨hlow, hhigh⟩
      simp [Value.int, Value.cellInt?, Number.toInt?, hsigned]
  · intro h
    -- only a truth value or an integer literal of 64 bits can be such a cell
    obtain ⟨w, rfl, hw⟩ := Option.bind_eq_some_iff.mp h
    cases w with
    | bool b =>
      obtain rfl := Option.some.inj hw
      cases b
      · exact .truth false
      · exact .truth true
    | number x =>
      cases x with
      | int m =>
        simp only [Value.cellInt?, Number.toInt?, Option.ite_none_right_eq_some] at hw
        obtain ⟨hsigned, hm⟩ := hw
        obtain rfl := Option.some.inj hm
        rw [isSigned64, Bool.and_eq_true, decide_eq_true_eq, decide_eq_true_eq] at hsigned
        exact .number hsigned.1 hsigned.2
      | float x => simp [Value.cellInt?, Number.toInt?] at hw
    | _ => simp [Value.cellInt?] at hw

lemma holdsBinary_iff {x : Binary64} : HoldsBinary v x ↔ v.bind Value.cellBinary? = some x := by
  constructor
  · rintro (b | n | x)
    · cases b <;> rfl
    · rfl
    · rfl
  · intro h
    -- an integer literal of any size is rounded here, where no integer cell is made of it
    obtain ⟨w, rfl, hw⟩ := Option.bind_eq_some_iff.mp h
    cases w with
    | bool b =>
      obtain rfl := Option.some.inj hw
      cases b
      · exact .truth false
      · exact .truth true
    | number y =>
      cases y with
      | int m =>
        obtain rfl := Option.some.inj hw
        exact .integer m
      | float y =>
        obtain rfl := Option.some.inj hw
        exact .binary y
    | _ => simp [Value.cellBinary?] at hw

lemma isIntegral_iff_holdsInteger :
    IsIntegral values ↔ values ≠ [] ∧ ∀ v ∈ values, ∃ n, HoldsInteger v n := by
  simp only [IsIntegral, holdsInteger_iff, Option.isSome_iff_exists]

/-! ### The rules -/

/-- The element type of the column of some values; a column of strings has none. -/
inductive Suits (values : List (Option Value)) : Option DType → Prop
  /-- There is a value, and all are strings. -/
  | texts (hsome : ∃ v, Present values v) (hall : ∀ v, Present values v → v.IsText) :
    Suits values none
  /-- There are rows, and each has an integer. -/
  | integers (hne : values ≠ []) (hall : ∀ v ∈ values, ∃ n, HoldsInteger v n) :
    Suits values (some .int64)
  /-- All values are numbers, but there are no rows or one of them has no integer. -/
  | binaries (hall : ∀ v, Present values v → v.IsNumeric)
    (hother : values = [] ∨ ∃ v ∈ values, ¬ ∃ n, HoldsInteger v n) :
    Suits values (some .float64)

/-- The cell of a row in a column of an element type. -/
inductive Writes : Option DType → Option Value → Cell → Prop
  | text (s : String) : Writes none (some (.string s)) (.text s)
  | noText {v : Option Value} (h : IsMissing v) : Writes none v (.text "")
  | integer {v : Option Value} {n : Int} (h : HoldsInteger v n) : Writes (some .int64) v (.int n)
  | binary {v : Option Value} {x : Binary64} (h : HoldsBinary v x) :
    Writes (some .float64) v (.binary x)
  | noNumber {v : Option Value} (h : IsMissing v) : Writes (some .float64) v (.binary .nan)

/-- A column of some values: it has the element type that suits them, and a cell for each row. -/
structure Holds (c : Column) (values : List (Option Value)) : Prop where
  suits : Suits values c.dtype?
  cells : List.Forall₂ (Writes c.dtype?) values c.cells

/-- The value that no column holds among the others: not all values are strings, and it is the first
that is no number. -/
def Mixes (values : List (Option Value)) (v : Value) : Prop :=
  (∃ w, Present values w ∧ ¬ w.IsText) ∧ v ≠ .null ∧ ¬ v.IsNumeric ∧
    ∃ before after, values = before ++ some v :: after ∧ ∀ w, Present before w → w.IsNumeric

/-! ### One column at most -/

lemma isNumeric_of_holdsInteger {w : Value} {n : Int} (h : HoldsInteger (some w) n) :
    w.IsNumeric := by
  cases h <;> trivial

lemma Suits.isNumeric {a : DType} (h : Suits values (some a)) {w : Value} (hw : Present values w) :
    w.IsNumeric := by
  cases h with
  | integers _ hints =>
    obtain ⟨n, hn⟩ := hints _ hw.1
    exact isNumeric_of_holdsInteger hn
  | binaries hall _ => exact hall w hw

lemma not_suits_of_texts {a : DType} (h : Suits values none) : ¬ Suits values (some a) := by
  intro h'
  obtain ⟨⟨w, hw⟩, hall⟩ := h
  exact Value.not_isText_of_isNumeric (h'.isNumeric hw) (hall w hw)

lemma Suits.unique (h : Suits values t) (h' : Suits values t') : t = t' := by
  cases t with
  | none =>
    cases t' with
    | none => rfl
    | some b => exact absurd h' (not_suits_of_texts h)
  | some a =>
    cases h' with
    | texts hsome hall => exact absurd h (not_suits_of_texts (.texts hsome hall))
    -- integers are numbers too, so what sets the two types apart is a value that is no integer cell
    | integers hne hints =>
      cases h with
      | integers => rfl
      | binaries _ hother =>
        rcases hother with rfl | ⟨v, hv, hnone⟩
        · exact absurd rfl hne
        · exact absurd (hints v hv) hnone
    | binaries _ hother =>
      cases h with
      | integers hne hints =>
        rcases hother with rfl | ⟨v, hv, hnone⟩
        · exact absurd rfl hne
        · exact absurd (hints v hv) hnone
      | binaries => rfl

lemma Writes.unique {a b : Cell} (h : Writes t v a) (h' : Writes t v b) : a = b := by
  cases h with
  | text s =>
    cases h' with
    | text => rfl
    | noText hmissing => rcases hmissing with h | h <;> simp at h
  | noText hmissing =>
    cases h' with
    | text => rcases hmissing with h | h <;> simp at h
    | noText => rfl
  | integer hn =>
    cases h' with
    | integer hm =>
      rw [holdsInteger_iff] at hn hm
      rw [Option.some.inj (hn.symm.trans hm)]
  | binary hx =>
    cases h' with
    | binary hy =>
      rw [holdsBinary_iff] at hx hy
      rw [Option.some.inj (hx.symm.trans hy)]
    | noNumber hmissing => rcases hmissing with rfl | rfl <;> cases hx
  | noNumber hmissing =>
    cases h' with
    | binary hx => rcases hmissing with rfl | rfl <;> cases hx
    | noNumber => rfl

lemma Holds.unique (h : c.Holds values) (h' : d.Holds values) : c = d := by
  have htype : c.dtype? = d.dtype? := h.suits.unique h'.suits
  refine ext_cells htype ?_
  have hcells : List.Forall₂ (Writes d.dtype?) values c.cells := htype ▸ h.cells
  have hunique : Relator.RightUnique (Writes d.dtype?) := fun _ _ _ => Writes.unique
  exact List.right_unique_forall₂' hunique hcells h'.cells

/-! ### The passes -/

lemma present_eq_some_iff {w : Value} : present v = some w ↔ v = some w ∧ w ≠ .null := by
  rcases v with _ | (_ | _) <;> simp [present, eq_comm] <;> rintro rfl <;> simp

lemma present_eq_none_iff : present v = none ↔ IsMissing v := by
  rcases v with _ | (_ | _) <;> simp [present, IsMissing]

lemma filterMap_present (values : List (Option Value)) :
    (values.map present).filterMap id = values.filterMap present := by
  simp [List.filterMap_map]

lemma mem_filterMap_present {w : Value} : w ∈ values.filterMap present ↔ Present values w := by
  simp [List.mem_filterMap, present_eq_some_iff, Present]

lemma allTexts_iff : (!(values.filterMap present).isEmpty &&
    (values.filterMap present).all fun w => w.string?.isSome) = true ↔
      (∃ w, Present values w) ∧ ∀ w, Present values w → w.IsText := by
  rw [Bool.and_eq_true, Bool.not_eq_true', List.isEmpty_eq_false_iff_exists_mem, List.all_eq_true]
  simp only [mem_filterMap_present, Value.isText_iff]

lemma find?_mixed_eq_none_iff :
    ((values.filterMap present).find? fun w => w.cellBinary?.isNone) = none ↔
      ∀ w, Present values w → w.IsNumeric := by
  rw [List.find?_eq_none]
  refine forall_congr' fun w => ?_
  rw [mem_filterMap_present, Value.isNumeric_iff]
  cases w.cellBinary? <;> simp

lemma ofValues_of_texts (name : String) (hsome : ∃ w, Present values w)
    (hall : ∀ w, Present values w → w.IsText) : ofValues name values
      = .ok (.utf8 (values.map fun v => ((present v).bind Value.string?).getD "")) := by
  simp only [ofValues, filterMap_present]
  rw [if_pos (allTexts_iff.mpr ⟨hsome, hall⟩), List.map_map]
  rfl

lemma ofValues_of_numbers (name : String) (hall : ∀ w, Present values w → w.IsNumeric)
    (hother : ¬ IsIntegral values) : ofValues name values
      = .ok (.float64 (values.map fun v => (v.bind Value.cellBinary?).getD .nan)) := by
  have hnottexts : ¬ ((∃ w, Present values w) ∧ ∀ w, Present values w → w.IsText) := by
    rintro ⟨⟨w, hw⟩, htexts⟩
    exact Value.not_isText_of_isNumeric (hall w hw) (htexts w hw)
  have hints := hother
  rw [isIntegral_iff, ← filterMap_given, filterMap_present] at hints
  simp only [ofValues, filterMap_present]
  rw [if_neg (mt allTexts_iff.mp hnottexts), find?_mixed_eq_none_iff.mpr hall]
  simp only [if_neg hints, List.map_map, Function.comp_def, present_bind_cellBinary?]

lemma ofValues_of_mixes (name : String) {w : Value} (h : Mixes values w) :
    ofValues name values = .error (.mixedColumn name w) := by
  obtain ⟨⟨u, hu, htext⟩, hnull, hnumeric, before, after, hsplit, hbefore⟩ := h
  have hfind : ((values.filterMap present).find? fun w => w.cellBinary?.isNone) = some w := by
    have hw : present (some w) = some w := present_eq_some_iff.mpr ⟨rfl, hnull⟩
    rw [hsplit, List.filterMap_append, List.find?_append, find?_mixed_eq_none_iff.mpr hbefore,
      List.filterMap_cons_some hw, Option.none_or, List.find?_cons_of_pos]
    simpa [Value.isNumeric_iff] using hnumeric
  have hnottexts : ¬ ((∃ w, Present values w) ∧ ∀ w, Present values w → w.IsText) :=
    fun htexts => htext (htexts.2 u hu)
  simp only [ofValues, filterMap_present]
  rw [if_neg (mt allTexts_iff.mp hnottexts), hfind]

/-! ### One column exactly -/

lemma writes_text (hall : ∀ w, Present values w → w.IsText) (hv : v ∈ values) :
    Writes none v (.text (((present v).bind Value.string?).getD "")) := by
  cases hpresent : present v with
  | none => exact .noText (present_eq_none_iff.mp hpresent)
  | some w =>
    obtain ⟨rfl, hnull⟩ := present_eq_some_iff.mp hpresent
    have htext := hall w ⟨hv, hnull⟩
    cases w with
    | string s => exact .text s
    | _ => exact htext.elim

lemma writes_binary (hall : ∀ w, Present values w → w.IsNumeric) (hv : v ∈ values) :
    Writes (some .float64) v (.binary ((v.bind Value.cellBinary?).getD .nan)) := by
  cases hx : v.bind Value.cellBinary? with
  | some x => exact .binary (holdsBinary_iff.mpr hx)
  | none =>
    rw [← present_bind_cellBinary?] at hx
    refine .noNumber (present_eq_none_iff.mp ?_)
    by_contra hpresent
    obtain ⟨w, hw⟩ := Option.ne_none_iff_exists'.mp hpresent
    obtain ⟨rfl, hnull⟩ := present_eq_some_iff.mp hw
    have hsome := Value.isNumeric_iff.mp (hall w ⟨hv, hnull⟩)
    rw [hw, Option.bind_some] at hx
    simp [hx] at hsome

lemma writes_integers (hall : ∀ v ∈ values, ∃ n, HoldsInteger v n) :
    List.Forall₂ (Writes (some .int64)) values
      ((values.filterMap (·.bind Value.cellInt?)).map .int) := by
  induction values with
  | nil => exact .nil
  | cons v vs ih =>
    obtain ⟨⟨n, hn⟩, hvs⟩ := List.forall_mem_cons.mp hall
    simp only [List.filterMap_cons, holdsInteger_iff.mp hn, List.map_cons]
    exact .cons (.integer hn) (ih hvs)

/-- Values that suit an element type make a column of it. -/
lemma exists_holds (name : String) (h : Suits values t) :
    ∃ c, ofValues name values = .ok c ∧ c.dtype? = t ∧ c.Holds values := by
  cases h with
  | texts hsome hall =>
    refine ⟨_, ofValues_of_texts name hsome hall, rfl, .texts hsome hall, ?_⟩
    rw [cells, List.map_map, List.forall₂_map_right_iff, List.forall₂_same]
    exact fun v => writes_text hall
  | integers hne hall =>
    have hints := isIntegral_iff_holdsInteger.mpr ⟨hne, hall⟩
    exact ⟨_, ofValues_of_isIntegral name hints, rfl, .integers hne hall, writes_integers hall⟩
  | binaries hall hother =>
    have hnot : ¬ IsIntegral values := by
      rw [isIntegral_iff_holdsInteger]
      rintro ⟨hne, hints⟩
      rcases hother with hnil | ⟨v, hv, hnone⟩
      · exact hne hnil
      · exact hnone (hints v hv)
    refine ⟨_, ofValues_of_numbers name hall hnot, rfl, .binaries hall hother, ?_⟩
    rw [cells, List.map_map, List.forall₂_map_right_iff, List.forall₂_same]
    exact fun v => writes_binary hall

/-- Values that are not all numbers and not all strings have a first one that is no number. -/
lemma exists_mixes (hnumeric : ∃ w, Present values w ∧ ¬ w.IsNumeric)
    (htext : ∃ w, Present values w ∧ ¬ w.IsText) : ∃ w, Mixes values w := by
  obtain ⟨w, hw, hnot⟩ := hnumeric
  let bad (v : Option Value) : Bool := (present v).any fun w => w.cellBinary?.isNone
  have hbad {v : Option Value} : bad v ↔ ∃ w, v = some w ∧ w ≠ .null ∧ ¬ w.IsNumeric := by
    simp [bad, Option.any_eq_true, present_eq_some_iff, Value.isNumeric_iff, and_assoc]
  have hfound : (values.find? bad).isSome := by
    rw [List.find?_isSome]
    exact ⟨some w, hw.1, hbad.mpr ⟨w, rfl, hw.2, hnot⟩⟩
  obtain ⟨v, hv⟩ := Option.isSome_iff_exists.mp hfound
  obtain ⟨hfirst, before, after, hsplit, hbefore⟩ := List.find?_eq_some_iff_append.mp hv
  obtain ⟨u, rfl, hnull, hu⟩ := hbad.mp hfirst
  refine ⟨u, htext, hnull, hu, before, after, hsplit, ?_⟩
  rintro w ⟨hw, hnull⟩
  by_contra hnot
  have := hbefore _ hw
  simp [hbad.mpr ⟨w, rfl, hnull, hnot⟩] at this

/-- Values suit an element type, or mix something that no column holds. -/
lemma suits_or_mixes (values : List (Option Value)) :
    (∃ t, Suits values t) ∨ ∃ w, Mixes values w := by
  by_cases hnumeric : ∀ w, Present values w → w.IsNumeric
  · by_cases hints : values ≠ [] ∧ ∀ v ∈ values, ∃ n, HoldsInteger v n
    · exact .inl ⟨_, .integers hints.1 hints.2⟩
    · refine .inl ⟨_, .binaries hnumeric (or_iff_not_imp_left.mpr fun hne => ?_)⟩
      by_contra hall
      push Not at hall
      exact hints ⟨hne, hall⟩
  · push Not at hnumeric
    obtain ⟨w, hw, hnot⟩ := hnumeric
    by_cases htext : ∀ w, Present values w → w.IsText
    · exact .inl ⟨_, .texts ⟨w, hw⟩ htext⟩
    · push Not at htext
      exact .inr (exists_mixes ⟨w, hw, hnot⟩ htext)

lemma ofValues_eq_ok_iff : ofValues name values = .ok c ↔ c.Holds values := by
  constructor
  · intro h
    rcases suits_or_mixes values with ⟨t, ht⟩ | ⟨w, hw⟩
    · obtain ⟨d, hd, -, hholds⟩ := exists_holds name ht
      obtain rfl := Except.ok.inj (h.symm.trans hd)
      exact hholds
    · simp [ofValues_of_mixes name hw] at h
  · intro h
    obtain ⟨d, hd, -, hholds⟩ := exists_holds name h.suits
    rw [hd, hholds.unique h]

lemma ofValues_eq_error_iff {e : GraphError} :
    ofValues name values = .error e ↔ ∃ w, Mixes values w ∧ e = .mixedColumn name w := by
  constructor
  · intro h
    rcases suits_or_mixes values with ⟨t, ht⟩ | ⟨w, hw⟩
    · obtain ⟨d, hd, -⟩ := exists_holds name ht
      simp [hd] at h
    · rw [ofValues_of_mixes name hw] at h
      exact ⟨w, hw, (Except.error.inj h).symm⟩
  · rintro ⟨w, hw, rfl⟩
    exact ofValues_of_mixes name hw

lemma exists_ofValues_iff :
    (∃ c, ofValues name values = .ok c ∧ c.dtype? = t) ↔ Suits values t := by
  constructor
  · rintro ⟨c, hc, rfl⟩
    exact (ofValues_eq_ok_iff.mp hc).suits
  · intro h
    obtain ⟨c, hc, htype, -⟩ := exists_holds name h
    exact ⟨c, hc, htype⟩

/-- Making a column fails exactly if some value is no number and some value is no string. -/
lemma exists_error_iff : (∃ e, ofValues name values = .error e) ↔
    (∃ w, Present values w ∧ ¬ w.IsNumeric) ∧ ∃ w, Present values w ∧ ¬ w.IsText := by
  simp only [ofValues_eq_error_iff]
  constructor
  · rintro ⟨-, w, ⟨htext, hnull, hnumeric, before, after, rfl, -⟩, -⟩
    exact ⟨⟨w, ⟨by simp, hnull⟩, hnumeric⟩, htext⟩
  · rintro ⟨hnumeric, htext⟩
    obtain ⟨w, hw⟩ := exists_mixes hnumeric htext
    exact ⟨_, w, hw, rfl⟩

/-! ### Missing cells -/

/-- All binary values are finite, as those of a JSON text are. -/
def AllFinite (values : List (Option Value)) : Prop :=
  ∀ x : Binary64, some (.number (.float x)) ∈ values → x.isFinite

/-- In a column of binary values "not a number" marks the rows without a value. -/
lemma writes_nan_iff (hfinite : AllFinite values) (hv : v ∈ values) {x : Binary64}
    (h : Writes (some .float64) v (.binary x)) : x = .nan ↔ IsMissing v := by
  cases h with
  | noNumber hmissing => exact iff_of_true rfl hmissing
  | binary hx =>
    cases hx with
    | truth b => simp [IsMissing, Binary.Value.ofInt_ne_nan]
    | integer n => simp [IsMissing, Value.int, Binary.Value.ofInt_ne_nan]
    | binary x =>
      have hnan : x ≠ .nan := by
        rintro rfl
        exact absurd (hfinite _ hv) (by simp [Binary.Value.isFinite])
      simp [IsMissing, hnan]

lemma Holds.getElem?_eq_nan_iff {cells : List Binary64} (h : (float64 cells).Holds values)
    (hfinite : AllFinite values) {row : Nat} (hv : values[row]? = some v) :
    cells[row]? = some .nan ↔ IsMissing v := by
  obtain ⟨cell, hcell, hwrites⟩ := exists_of_forall₂ h.cells hv
  rw [Column.cells, List.getElem?_map] at hcell
  obtain ⟨x, hx, rfl⟩ := Option.map_eq_some_iff.mp hcell
  rw [hx, Option.some.injEq]
  exact writes_nan_iff hfinite (List.mem_of_getElem? hv) hwrites

/-! ### Rows in another order -/

/-- The element type is told by which values there are. -/
lemma Suits.of_perm (hperm : values.Perm values') (h : Suits values t) : Suits values' t := by
  -- every rule speaks of all values or of some value, never of their order
  have hpresent {w : Value} : Present values w ↔ Present values' w :=
    and_congr_left' hperm.mem_iff
  cases h with
  | texts hsome hall =>
    obtain ⟨w, hw⟩ := hsome
    exact .texts ⟨w, hpresent.mp hw⟩ fun w hw => hall w (hpresent.mpr hw)
  | integers hne hall =>
    refine .integers ?_ fun v hv => hall v (hperm.mem_iff.mpr hv)
    rintro rfl
    exact hne hperm.eq_nil
  | binaries hall hother =>
    refine .binaries (fun w hw => hall w (hpresent.mpr hw)) ?_
    rcases hother with rfl | ⟨v, hv, hnone⟩
    · exact .inl hperm.nil_eq.symm
    · exact .inr ⟨v, hperm.mem_iff.mp hv, hnone⟩

lemma Holds.reorder (h : c.Holds values) (hperm : order.Perm (List.range values.length)) :
    (c.pick order).Holds (TypedGraph.pick values order) := by
  have hlt : ∀ row ∈ order, row < values.length := fun row hrow =>
    List.mem_range.mp (hperm.mem_iff.mp hrow)
  refine ⟨?_, ?_⟩
  · rw [dtype?_pick]
    exact h.suits.of_perm (pick_perm hperm).symm
  · rw [dtype?_pick, cells_pick]
    exact forall₂_pick h.cells hlt

/-- What becomes of the values of some rows. -/
structure TypesRows (name : String) (values : List (Option Value)) : Prop where
  /-- A column has one cell for each row in their order. -/
  holds : ∀ c, ofValues name values = .ok c ↔ c.Holds values
  suits : ∀ t, (∃ c, ofValues name values = .ok c ∧ c.dtype? = t) ↔ Suits values t
  fails : (∃ e, ofValues name values = .error e) ↔
    (∃ w, Present values w ∧ ¬ w.IsNumeric) ∧ ∃ w, Present values w ∧ ¬ w.IsText
  blames : ∀ e, ofValues name values = .error e ↔ ∃ w, Mixes values w ∧ e = .mixedColumn name w
  missing : ∀ cells : List Binary64, AllFinite values →
    ofValues name values = .ok (.float64 cells) → ∀ (row : Nat) (v : Option Value),
      values[row]? = some v → (cells[row]? = some .nan ↔ IsMissing v)
  unordered : ∀ values', values.Perm values' → ∀ t,
    (∃ c, ofValues name values = .ok c ∧ c.dtype? = t) ↔
      ∃ c, ofValues name values' = .ok c ∧ c.dtype? = t
  reorders : ∀ order, order.Perm (List.range values.length) →
    ∀ c, ofValues name values = .ok c →
      ofValues name (TypedGraph.pick values order) = .ok (c.pick order)

/-- Every list of values makes the one column that suits it, or none does. -/
theorem ofValues_typesRows (name : String) (values : List (Option Value)) :
    TypesRows name values where
  holds _ := ofValues_eq_ok_iff
  suits _ := exists_ofValues_iff
  fails := exists_error_iff
  blames _ := ofValues_eq_error_iff
  missing _ hfinite h _ _ hv := (ofValues_eq_ok_iff.mp h).getElem?_eq_nan_iff hfinite hv
  unordered values' hperm t := by
    rw [exists_ofValues_iff, exists_ofValues_iff]
    exact ⟨.of_perm hperm, .of_perm hperm.symm⟩
  reorders order hperm c h := by
    rw [ofValues_eq_ok_iff] at h ⊢
    exact h.reorder hperm

example : ofValues "w" [some (.bool true), none, some (.int 3)]
    = .ok (.float64 [.ofInt 1, .nan, .ofInt 3]) := by
  decide +kernel

end Column

end TypedGraph
