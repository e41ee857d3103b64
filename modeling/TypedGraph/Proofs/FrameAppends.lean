import TypedGraph.Proofs.Partition

/-!
# Appended frames

What appending a frame does to the columns. It is all or nothing where it succeeds and where the
names or the first columns do not go together. Where a later column does not fit, the columns before
it are already extended, and the frame is left with columns of two lengths. Over any sequence of
operations the columns of a frame stay equally long if and only if no append stops in this way
(`level_iff_not_tears`).
-/

namespace TypedGraph

open Traversal

/-! ### Cells -/

/-- A cell of a column. -/
inductive Cell where
  | int (n : Int)
  | binary (x : Binary64)
  | text (s : String)
  deriving DecidableEq

/-- The cell as a binary value, if it holds an integer. -/
def Cell.promote : Cell → Cell
  | int n => binary (.ofInt n)
  | binary x => binary x
  | text s => text s

namespace Column

variable {a b c d : Column} {rows : List Nat}

def cells : Column → List Cell
  | int64 cs => cs.map .int
  | float64 cs => cs.map .binary
  | utf8 cs => cs.map .text

@[simp] lemma length_cells (c : Column) : c.cells.length = c.length := by
  cases c <;> simp [cells]

lemma cells_pick (c : Column) (rows : List Nat) :
    (c.pick rows).cells = TypedGraph.pick c.cells rows := by
  cases c <;> simp [pick, cells, pick_map]

/-- A column is told by its element type and its cells. -/
lemma ext_cells (htype : a.dtype? = b.dtype?) (hcells : a.cells = b.cells) : a = b := by
  have hint : Function.Injective Cell.int := fun _ _ h => Cell.int.inj h
  have hbinary : Function.Injective Cell.binary := fun _ _ h => Cell.binary.inj h
  have htext : Function.Injective Cell.text := fun _ _ h => Cell.text.inj h
  cases a <;> cases b <;> simp [dtype?] at htype
  · rw [List.map_injective_iff.mpr hint hcells]
  · rw [List.map_injective_iff.mpr hbinary hcells]
  · rw [List.map_injective_iff.mpr htext hcells]

/-- Two columns of numbers go together, and two columns of strings. -/
def Fits (a b : Column) : Prop := a.dtype?.isSome = b.dtype?.isSome

instance : Decidable (a.Fits b) := inferInstanceAs (Decidable (_ = _))

/-- A column has the cells of one and then those of another, all of them as binary values where the
two hold numbers of different types. -/
structure Joins (a b c : Column) : Prop where
  dtype : c.dtype? = if a.dtype? = b.dtype? then a.dtype? else some .float64
  cells : c.cells
    = if a.dtype? = b.dtype? then a.cells ++ b.cells else (a.cells ++ b.cells).map Cell.promote

lemma Joins.length (h : a.Joins b c) : c.length = a.length + b.length := by
  rw [← length_cells c, h.cells]
  split_ifs <;> simp

lemma append_of_fits (h : a.Fits b) : ∃ c, a.append b = .ok c ∧ a.Joins b c := by
  cases a <;> cases b <;> first
    | exact ⟨_, rfl, by simp [dtype?], by simp [cells, dtype?, Cell.promote, Function.comp_def]⟩
    | exact absurd h (by simp [Fits, dtype?])

lemma append_of_not_fits (h : ¬ a.Fits b) :
    a.append b = .error (.incompatibleColumns b.dtype? a.dtype?) := by
  cases a <;> cases b <;> first
    | rfl
    | simp [Fits, dtype?] at h

lemma length_take (h : c.take rows = .ok d) : d.length = rows.length := by
  cases c <;> obtain ⟨cs, hcs, rfl⟩ := map_eq_ok_iff.mp h <;>
    exact (mapM_eq_ok_iff.mp hcs).length_eq.symm

/-- A row after the last cannot be taken. -/
lemma take_out_of_range {row : Nat} (h : c.length ≤ row) :
    c.take [row] = .error (.rowOutOfRange row) := by
  cases c <;> simp [length] at h <;> simp [take, gather, h]

end Column

namespace Frame

variable {f f' g : Frame} {n : Nat} {names : List String} {rows : List Nat}

/-! ### Level frames -/

/-- All columns are as long as the first. -/
def Level (f : Frame) : Prop := f.Even f.rows

instance : Decidable f.Level := inferInstanceAs (Decidable (∀ c ∈ f.columns, _))

lemma Even.level (h : f.Even n) : f.Level := by
  by_cases hne : f.columns = []
  · intro c hc
    simp [hne] at hc
  · rw [Level, rows_of_even h hne]
    exact h

lemma level_push {name : String} {c : Column} (h : f.Level) (hpush : f.push name c = .ok f') :
    f'.Level := by
  obtain ⟨hlength, -, rfl⟩ := push_eq_ok_iff.mp hpush
  have heven : Even ⟨f.columns ++ [(name, c)]⟩ c.length := by
    intro d hd
    rcases List.mem_append.mp hd with hd | hd
    · rw [h d hd, hlength (List.ne_nil_of_mem hd)]
    · rw [List.mem_singleton.mp hd]
  exact heven.level

lemma level_takeColumn {name : String} {c : Column} (h : f.Level)
    (htake : f.takeColumn name = .ok (c, f')) : f'.Level := by
  obtain ⟨d, -, hpair⟩ := map_eq_ok_iff.mp htake
  obtain ⟨-, rfl⟩ := Prod.mk.inj hpair
  have heven : Even ⟨f.columns.eraseP (·.1 = name)⟩ f.rows := by
    intro e he
    exact h e (List.mem_of_mem_eraseP he)
  exact heven.level

lemma level_select (h : f.Level) (hselect : f.select names = .ok f') : f'.Level :=
  (even_select h hselect).level

lemma level_take (htake : f.take rows = .ok f') : f'.Level := by
  obtain ⟨cs, hcs, rfl⟩ := map_eq_ok_iff.mp htake
  have heven : Even ⟨cs⟩ rows.length := by
    intro c hc
    obtain ⟨d, -, hd⟩ := (mem_iff_of_mapM_eq_ok hcs).mp hc
    obtain ⟨e, he, rfl⟩ := map_eq_ok_iff.mp hd
    exact Column.length_take he
  exact heven.level

/-! ### Appending -/

/-- A column has the name of the first of two columns and the cells of both. -/
def JoinsPair (p : (String × Column) × (String × Column)) (c : String × Column) : Prop :=
  c.1 = p.1.1 ∧ p.1.2.Fits p.2.2 ∧ p.1.2.Joins p.2.2 c.2

/-- What appending a frame comes to: the outcome and the frame that is left. -/
inductive Appended (f g : Frame) : Except GraphError Unit → Frame → Prop where
  | taken (hf : f.columns = []) : Appended f g (.ok ()) g
  | kept (hf : f.columns ≠ []) (hg : g.columns = []) : Appended f g (.ok ()) f
  | refused (hf : f.columns ≠ []) (hg : g.columns ≠ []) (hnames : f.names ≠ g.names) :
    Appended f g (.error .differentColumns) f
  | joined {cs : List (String × Column)} (hf : f.columns ≠ []) (hg : g.columns ≠ [])
    (hnames : f.names = g.names)
    (hcs : List.Forall₂ JoinsPair (f.columns.zip g.columns) cs) : Appended f g (.ok ()) ⟨cs⟩
  | stopped {before after : List ((String × Column) × (String × Column))} {a b : String × Column}
    {cs : List (String × Column)} (hf : f.columns ≠ []) (hg : g.columns ≠ [])
    (hnames : f.names = g.names) (hsplit : f.columns.zip g.columns = before ++ (a, b) :: after)
    (hcs : List.Forall₂ JoinsPair before cs) (hmisfit : ¬ a.2.Fits b.2) :
    Appended f g (.error (.incompatibleColumns b.2.dtype? a.2.dtype?))
      ⟨cs ++ a :: after.map (·.1)⟩

/-- Columns are joined pair by pair up to the first pair that does not fit. -/
lemma appendColumns_cases {as bs : List (String × Column)} (hlength : as.length = bs.length) :
    (∃ cs, appendColumns as bs = (.ok (), cs) ∧ List.Forall₂ JoinsPair (as.zip bs) cs) ∨
    ∃ before after a b cs, as.zip bs = before ++ (a, b) :: after ∧
      List.Forall₂ JoinsPair before cs ∧ ¬ a.2.Fits b.2 ∧
      appendColumns as bs = (.error (.incompatibleColumns b.2.dtype? a.2.dtype?),
        cs ++ a :: after.map (·.1)) := by
  induction as generalizing bs with
  | nil => exact .inl ⟨[], by cases bs <;> rfl, .nil⟩
  | cons a as ih =>
    cases bs with
    | nil => simp at hlength
    | cons b bs =>
      -- the first pair decides: either it joins and the rest goes on, or nothing of the rest is
      -- touched
      by_cases hfits : a.2.Fits b.2
      · obtain ⟨c, hc, hjoins⟩ := Column.append_of_fits hfits
        have hpair : JoinsPair (a, b) (a.1, c) := ⟨rfl, hfits, hjoins⟩
        rcases ih (by simpa using hlength) with ⟨cs, hok, hcs⟩ |
          ⟨before, after, a', b', cs, hsplit, hcs, hmisfit, herror⟩
        · exact .inl ⟨(a.1, c) :: cs, by simp [appendColumns, hc, hok], .cons hpair hcs⟩
        · exact .inr ⟨(a, b) :: before, after, a', b', (a.1, c) :: cs, by simp [hsplit],
            .cons hpair hcs, hmisfit, by simp [appendColumns, hc, herror]⟩
      · have hrest : (as.zip bs).map (·.1) = as := List.map_fst_zip (by simpa using hlength.le)
        refine .inr ⟨[], as.zip bs, a, b, [], rfl, .nil, hfits, ?_⟩
        simp [appendColumns, Column.append_of_not_fits hfits, hrest]

lemma append_appended (f g : Frame) : Appended f g (f.append g).1 (f.append g).2 := by
  rw [append]
  -- the four ways are tested in this order, and only the last one reads the columns
  split_ifs with hf hg hnames
  · exact .taken (List.isEmpty_iff.mp hf)
  · exact .kept (by simpa using hf) (List.isEmpty_iff.mp hg)
  · exact .refused (by simpa using hf) (by simpa using hg) hnames
  · rw [List.isEmpty_iff] at hf hg
    have hsame : f.names = g.names := not_not.mp hnames
    have hlength : f.columns.length = g.columns.length := by
      simpa [Frame.names] using congrArg List.length hsame
    rcases appendColumns_cases hlength with ⟨cs, hok, hcs⟩ |
      ⟨before, after, a, b, cs, hsplit, hcs, hmisfit, herror⟩
    · rw [hok]
      exact .joined hf hg hsame hcs
    · rw [herror]
      exact .stopped hf hg hsame hsplit hcs hmisfit

/-- All columns of two frames go together, pair by pair. -/
def AllFit (f g : Frame) : Prop :=
  f.names = g.names ∧ ∀ p ∈ f.columns.zip g.columns, p.1.2.Fits p.2.2

/-- The first columns of two frames go together. -/
def HeadsFit (f g : Frame) : Prop :=
  f.names = g.names ∧ ∃ p, (f.columns.zip g.columns).head? = some p ∧ p.1.2.Fits p.2.2

/-- Appending stops after it has added rows to some columns. -/
def Tears (f g : Frame) : Prop := f.HeadsFit g ∧ ¬ f.AllFit g ∧ g.rows ≠ 0

section Outcomes

variable {o : Except GraphError Unit} {ps : List ((String × Column) × (String × Column))}
variable {cs : List (String × Column)} {a b : String × Column}

lemma map_fst_zip (hnames : f.names = g.names) :
    (f.columns.zip g.columns).map (·.1) = f.columns := by
  have hlength : f.columns.length = g.columns.length := by
    simpa [Frame.names] using congrArg List.length hnames
  exact List.map_fst_zip hlength.le

lemma fits_of_joinsPair (h : List.Forall₂ JoinsPair ps cs) : ∀ p ∈ ps, p.1.2.Fits p.2.2 := by
  induction h with
  | nil => simp
  | cons hpair _ ih => exact List.forall_mem_cons.mpr ⟨hpair.2.1, ih⟩

/-- Joined columns of level frames have the rows of both. -/
lemma even_of_joinsPair (hf : f.Level) (hg : g.Level) (hps : ps ⊆ f.columns.zip g.columns)
    (h : List.Forall₂ JoinsPair ps cs) : Even ⟨cs⟩ (f.rows + g.rows) := by
  intro c hc
  obtain ⟨k, hk⟩ := List.mem_iff_getElem?.mp hc
  obtain ⟨p, hp, -, -, hjoins⟩ := exists_of_forall₂ h.flip hk
  obtain ⟨hleft, hright⟩ := List.of_mem_zip (hps (List.mem_of_getElem? hp))
  rw [hjoins.length, hf _ hleft, hg _ hright]

lemma not_allFit_of_mem (hmem : (a, b) ∈ f.columns.zip g.columns) (h : ¬ a.2.Fits b.2) :
    ¬ f.AllFit g := by
  intro hall
  exact h (hall.2 _ hmem)

/-- An append succeeds if a frame has no columns, or if all columns go together. -/
lemma Appended.ok_iff (h : Appended f g o f') :
    o = .ok () ↔ f.columns = [] ∨ g.columns = [] ∨ f.AllFit g := by
  cases h with
  | taken hf => simp [hf]
  | kept hf hg => simp [hg]
  | refused hf hg hnames => simp [hf, hg, AllFit, hnames]
  | joined hf hg hnames hcs =>
    have hall : f.AllFit g := ⟨hnames, fits_of_joinsPair hcs⟩
    simp [hall]
  | stopped hf hg hnames hsplit hcs hmisfit =>
    have hnot : ¬ f.AllFit g := not_allFit_of_mem (by simp [hsplit]) hmisfit
    simp [hf, hg, hnot]

/-- A failed append leaves the frame as it was if the names or the first columns do not fit. -/
lemma Appended.unchanged (h : Appended f g o f') (ho : o ≠ .ok ()) (hheads : ¬ f.HeadsFit g) :
    f' = f := by
  cases h with
  | taken hf => exact absurd rfl ho
  | kept hf hg => rfl
  | refused hf hg hnames => rfl
  | joined hf hg hnames hcs => exact absurd rfl ho
  | @stopped before after a b cs hf hg hnames hsplit hcs hmisfit =>
    cases hcs with
    | nil =>
      have hcolumns := map_fst_zip hnames
      rw [hsplit] at hcolumns
      exact congrArg Frame.mk hcolumns
    | cons hpair _ => exact absurd ⟨hnames, _, by rw [hsplit]; rfl, hpair.2.1⟩ hheads

/-- The columns of a frame after an append that tears it: some have the rows of both frames, and
then there are those of before. -/
lemma Appended.split_of_tears (hf : f.Level) (hg : g.Level) (h : Appended f g o f')
    (htears : f.Tears g) : ∃ c cs d ds, f'.columns = c :: cs ++ d :: ds ∧
      c.2.length = f.rows + g.rows ∧ d.2.length = f.rows := by
  obtain ⟨⟨hnames, p, hp, hfits⟩, hall, hrows⟩ := htears
  cases h with
  | taken hf => simp [hf] at hp
  | kept hf hg => simp [hg] at hp
  | refused _ _ hdiffer => exact absurd hnames hdiffer
  | joined _ _ _ hcs => exact absurd ⟨hnames, fits_of_joinsPair hcs⟩ hall
  | @stopped before after a b cs _ _ _ hsplit hcs hmisfit =>
    have hmem : (a, b) ∈ f.columns.zip g.columns := by simp [hsplit]
    have hsub : before ⊆ f.columns.zip g.columns := by simp [hsplit]
    have heven := even_of_joinsPair hf hg hsub hcs
    -- the heads fit, so the append has joined at least the first pair before it stopped
    cases hcs with
    | nil =>
      rw [hsplit] at hp
      obtain rfl := Option.some.inj hp
      exact absurd hfits hmisfit
    | cons => exact ⟨_, _, a, _, rfl, heven _ List.mem_cons_self, hf a (List.of_mem_zip hmem).1⟩

/-- Level frames are level after an append, unless it tears. -/
lemma Appended.level (hf : f.Level) (hg : g.Level) (h : Appended f g o f')
    (htears : ¬ f.Tears g) : f'.Level := by
  cases h with
  | taken => exact hg
  | kept => exact hf
  | refused => exact hf
  | joined _ _ _ hcs => exact (even_of_joinsPair hf hg (List.Subset.refl _) hcs).level
  | @stopped before after a b cs hne hgne hnames hsplit hcs hmisfit =>
    have hmem : (a, b) ∈ f.columns.zip g.columns := by simp [hsplit]
    have hsub : before ⊆ f.columns.zip g.columns := by simp [hsplit]
    by_cases hheads : f.HeadsFit g
    · have hrows : g.rows = 0 := by
        by_contra hrows
        exact htears ⟨hheads, not_allFit_of_mem hmem hmisfit, hrows⟩
      have hafter : ∀ c ∈ a :: after.map (·.1), c ∈ f.columns := by
        rw [← map_fst_zip hnames, hsplit, List.map_append]
        intro c hc
        exact List.mem_append_right _ hc
      have heven : Even ⟨cs ++ a :: after.map (·.1)⟩ f.rows := by
        intro c hc
        rcases List.mem_append.mp hc with hc | hc
        · simpa [hrows] using even_of_joinsPair hf hg hsub hcs c hc
        · exact hf c (hafter c hc)
      exact heven.level
    · have hstopped := Appended.stopped hne hgne hnames hsplit hcs hmisfit
      have hsame := Appended.unchanged hstopped (by simp) hheads
      rwa [hsame]

end Outcomes

/-- A row that some column does not have cannot be taken. -/
lemma take_out_of_range {c : String × Column} {row : Nat} (hc : c ∈ f.columns)
    (h : c.2.length ≤ row) : f.take [row] = .error (.rowOutOfRange row) := by
  have hcolumns : (f.columns.mapM fun c => (fun d => (c.1, d)) <$> c.2.take [row])
      = .error (.rowOutOfRange row) := by
    -- the row is out of range for the column itself, so the traversal cannot go past it
    cases hmap : f.columns.mapM fun c => (fun d => (c.1, d)) <$> c.2.take [row] with
    | ok cs =>
      obtain ⟨k, hk⟩ := List.mem_iff_getElem?.mp hc
      obtain ⟨d, -, hd⟩ := exists_of_forall₂ (mapM_eq_ok_iff.mp hmap) hk
      simp [Column.take_out_of_range h] at hd
    | error e =>
      obtain ⟨before, d, after, -, -, hd⟩ := split_of_mapM_eq_error hmap
      rw [map_eq_error_iff] at hd
      by_cases hlt : row < d.2.length
      · rw [Column.take_eq_pick (by simpa using hlt)] at hd
        simp at hd
      · rw [Column.take_out_of_range (not_lt.mp hlt)] at hd
        exact congrArg Except.error (Except.error.inj hd).symm
  rw [take, hcolumns]
  rfl

/-- What appending one level frame to another comes to. -/
structure AppendLaw (f g : Frame) : Prop where
  appended : Appended f g (f.append g).1 (f.append g).2
  ok_iff : (f.append g).1 = .ok () ↔ f.columns = [] ∨ g.columns = [] ∨ f.AllFit g
  unchanged : (f.append g).1 ≠ .ok () → ¬ f.HeadsFit g → (f.append g).2 = f
  level_iff : (f.append g).2.Level ↔ ¬ f.Tears g
  torn : f.Tears g → f.rows < (f.append g).2.rows ∧
    (f.append g).2.take [f.rows] = .error (.rowOutOfRange f.rows)

lemma appendLaw (hf : f.Level) (hg : g.Level) : f.AppendLaw g := by
  have happended := append_appended f g
  have htorn : f.Tears g → f.rows < (f.append g).2.rows ∧
      ∃ d ∈ (f.append g).2.columns, d.2.length = f.rows := by
    intro htears
    obtain ⟨c, cs, d, ds, hcolumns, hc, hd⟩ := happended.split_of_tears hf hg htears
    have hrows : (f.append g).2.rows = f.rows + g.rows := by simp [rows, hcolumns, hc]
    exact ⟨by have := htears.2.2; omega, d, by simp [hcolumns], hd⟩
  refine ⟨happended, happended.ok_iff, happended.unchanged, ⟨?_, happended.level hf hg⟩, ?_⟩
  · intro hlevel htears
    obtain ⟨hlt, d, hd, hlength⟩ := htorn htears
    exact hlt.ne (hlength.symm.trans (hlevel d hd))
  · intro htears
    obtain ⟨hlt, d, hd, hlength⟩ := htorn htears
    exact ⟨hlt, take_out_of_range hd hlength.le⟩

/-! ### Sequences of operations -/

/-- An operation on a frame. -/
inductive Call where
  | push (name : String) (column : Column)
  | takeColumn (name : String)
  | select (names : List String)
  | take (rows : List Nat)
  | append (g : Frame)

/-- The frame after an operation. One that fails leaves it, up to what an append has done by then.
-/
def after (f : Frame) : Call → Frame
  | .push name column => (f.push name column).toOption.getD f
  | .takeColumn name => ((·.2) <$> f.takeColumn name).toOption.getD f
  | .select names => (f.select names).toOption.getD f
  | .take rows => (f.take rows).toOption.getD f
  | .append g => (f.append g).2

def afterAll (f : Frame) (calls : List Call) : Frame := calls.foldl after f

variable {call : Call} {calls : List Call}

lemma level_getD {x : Except GraphError Frame} (hf : f.Level) (h : ∀ f', x = .ok f' → f'.Level) :
    (x.toOption.getD f).Level := by
  cases x with
  | ok f' => exact h f' rfl
  | error e => exact hf

/-- One operation keeps a frame level, unless it is an append that tears. -/
lemma level_after (hf : f.Level) (hg : ∀ g, call = .append g → g.Level) :
    (f.after call).Level ↔ ∀ g, call = .append g → ¬ f.Tears g := by
  cases call with
  | push name column => simpa [after] using level_getD hf fun f' h => level_push hf h
  | takeColumn name =>
    have hlevel : ∀ f', (·.2) <$> f.takeColumn name = .ok f' → f'.Level := by
      intro f' h
      obtain ⟨⟨c, rest⟩, htake, rfl⟩ := map_eq_ok_iff.mp h
      exact level_takeColumn hf htake
    simpa [after] using level_getD hf hlevel
  | select names => simpa [after] using level_getD hf fun f' h => level_select hf h
  | take rows => simpa [after] using level_getD hf fun f' h => level_take h
  | append g => simpa [after] using (appendLaw hf (hg g rfl)).level_iff

/-- No append of some operations tears the frame that it finds. -/
def NeverTears (f : Frame) (calls : List Call) : Prop :=
  ∀ before g, before ++ [.append g] <+: calls → ¬ (f.afterAll before).Tears g

/-- What some operations make of a frame. -/
structure CallsLaw (f : Frame) (calls : List Call) : Prop where
  level_iff : (∀ before, before <+: calls → (f.afterAll before).Level) ↔ f.NeverTears calls
  take_ok : f.NeverTears calls → ∀ before, before <+: calls →
    ∀ rows, (∀ row ∈ rows, row < (f.afterAll before).rows) →
      ∃ f', (f.afterAll before).take rows = .ok f'

lemma callsLaw (hf : f.Level) (hcalls : ∀ g, .append g ∈ calls → g.Level) : f.CallsLaw calls := by
  have hstep : ∀ before call, before ++ [call] <+: calls → (f.afterAll before).Level →
      ((f.afterAll (before ++ [call])).Level ↔
        ∀ g, call = .append g → ¬ (f.afterAll before).Tears g) := by
    intro before call hbegin hbefore
    have hlast : f.afterAll (before ++ [call]) = (f.afterAll before).after call := by
      simp [afterAll]
    rw [hlast]
    apply level_after hbefore
    rintro g rfl
    exact hcalls g (hbegin.subset (by simp))
  -- a first append that tears is the first point at which the frame is not level
  have hlevel : f.NeverTears calls → ∀ before, before <+: calls → (f.afterAll before).Level := by
    intro hnever before hbegin
    -- over a longer list only the last call is new, which does not tear the level frame before it
    induction before using List.reverseRecOn with
    | nil => exact hf
    | append_singleton before call ih =>
      rw [hstep before call hbegin (ih ((List.prefix_append _ _).trans hbegin))]
      rintro g rfl
      exact hnever before g hbegin
  refine ⟨⟨?_, hlevel⟩, ?_⟩
  · intro hall before g hbegin
    have hbefore := hall before ((List.prefix_append _ _).trans hbegin)
    exact (hstep before _ hbegin hbefore).mp (hall _ hbegin) g rfl
  · intro hnever before hbegin rows hrows
    exact ⟨_, take_eq_pick (hlevel hnever before hbegin) hrows⟩

/-- The columns of a frame stay equally long, and its rows can be taken, as long as no append stops
after its first column. -/
theorem level_iff_not_tears (hf : f.Level) : (∀ g, g.Level → f.AppendLaw g) ∧
    ∀ calls, (∀ g, .append g ∈ calls → g.Level) → f.CallsLaw calls := by
  constructor
  · intro g hg
    exact appendLaw hf hg
  · intro calls hcalls
    exact callsLaw hf hcalls

/-- A person with a label. -/
def people : Frame := ⟨[("id", .int64 [1]), ("label", .utf8 ["a"])]⟩

/-- A person whose label is a number. -/
def numbered : Frame := ⟨[("id", .int64 [2]), ("label", .int64 [7])]⟩

theorem level_iff_not_tears_people :
    people.Level ∧ numbered.Level ∧ ¬ (people.append numbered).2.Level := by
  have hpeople : people.Level := by decide
  have hnumbered : numbered.Level := by decide
  have hlaw := (level_iff_not_tears hpeople).1 numbered hnumbered
  have hmisfit : ¬ people.AllFit numbered :=
    not_allFit_of_mem (a := ("label", .utf8 ["a"])) (b := ("label", .int64 [7]))
      (by simp [people, numbered]) (by decide)
  refine ⟨hpeople, hnumbered, ?_⟩
  rw [hlaw.level_iff, not_not]
  exact ⟨⟨rfl, _, rfl, rfl⟩, hmisfit, by decide⟩

/-- An append that fails may leave a frame with columns of two lengths. -/
theorem append_not_atomic : people.Level ∧ numbered.Level ∧ (people.append numbered).1 ≠ .ok () ∧
    (people.append numbered).2 ≠ people ∧
    (people.append numbered).2.columns.map (·.2.length) = [2, 1] ∧
    1 < (people.append numbered).2.rows ∧
    (people.append numbered).2.take [1] = .error (.rowOutOfRange 1) := by
  decide +kernel

end Frame

end TypedGraph
