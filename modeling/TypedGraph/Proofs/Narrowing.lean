import TypedGraph.Proofs.Localization
import TypedGraph.Proofs.TensorShapes

/-!
# Narrow tensors

What becomes of integers that are told in 32 bits and not in 64. An outcome in 32 bits follows from
the one in 64 bits (`Narrows`): it is the same where every integer fits, and an error that names an
integer that does not fit otherwise. The relation goes through sequences of computations, lists and
maps, and holds of casts (`Tensor.cast_narrows`) and of joins (`Tensor.join_narrows`).
-/

namespace TypedGraph

open Traversal

/-! ### Outcomes -/

/-- An integer of 32 bits. -/
def FitsInt32 (n : Int) : Prop := -2 ^ 31 ≤ n ∧ n < 2 ^ 31

section Outcomes

variable {ε ε' α β α₂ β₂ γ δ σ : Type}

/-- How an outcome in 32 bits follows from one in 64 bits that tells some integers. Either both are
given and related, and every integer fits; or one does not fit, and the error in 32 bits blames it;
or both fail. -/
inductive Narrows (blames : Int → ε → Prop) (ids : α → List Int) (R : α → β → Prop) :
    Except ε α → Except ε β → Prop where
  | told {a : α} {b : β} (hfits : ∀ id ∈ ids a, FitsInt32 id) (h : R a b) :
    Narrows blames ids R (.ok a) (.ok b)
  | misfit {a : α} {e : ε} {id : Int} (hid : id ∈ ids a) (hmisfit : ¬ FitsInt32 id)
    (hblames : blames id e) : Narrows blames ids R (.ok a) (.error e)
  | refused {e e' : ε} : Narrows blames ids R (.error e) (.error e')

namespace Narrows

variable {blames : Int → ε → Prop} {ids : α → List Int} {R : α → β → Prop}
variable {ids' : γ → List Int} {R' : γ → δ → Prop} {x : Except ε α} {y : Except ε β}

lemma bind_same {z : Except ε σ} {f : σ → Except ε α} {g : σ → Except ε β}
    (h : ∀ c, z = .ok c → Narrows blames ids R (f c) (g c)) :
    Narrows blames ids R (z >>= f) (z >>= g) := by
  cases z with
  | error e => exact .refused
  | ok c => exact h c rfl

/-- What is computed from an outcome tells its integers still. -/
lemma bind {f : α → Except ε γ} {g : β → Except ε δ} (h : Narrows blames ids R x y)
    (hids : ∀ a c, f a = .ok c → ∀ id ∈ ids a, id ∈ ids' c)
    (hf : ∀ a b, (∀ id ∈ ids a, FitsInt32 id) → R a b → Narrows blames ids' R' (f a) (g b)) :
    Narrows blames ids' R' (x >>= f) (y >>= g) := by
  cases h with
  | told hfits hR => exact hf _ _ hfits hR
  | @misfit a e id hid hmisfit hblames =>
    rw [ok_bind, error_bind]
    cases hfa : f a with
    | ok c => exact .misfit (hids a c hfa id hid) hmisfit hblames
    | error e => exact .refused
  | refused => exact .refused

lemma map {f : α → γ} {g : β → δ} (h : Narrows blames ids R x y)
    (hids : ∀ a, x = .ok a → ∀ id, id ∈ ids' (f a) ↔ id ∈ ids a)
    (hR : ∀ a b, x = .ok a → R a b → R' (f a) (g b)) :
    Narrows blames ids' R' (f <$> x) (g <$> y) := by
  cases h with
  | told hfits h =>
    exact .told (fun id hid => hfits id ((hids _ rfl id).mp hid)) (hR _ _ rfl h)
  | misfit hid hmisfit hblames => exact .misfit ((hids _ rfl _).mpr hid) hmisfit hblames
  | refused => exact .refused

lemma mapError {blames' : Int → ε' → Prop} {wrap : ε → ε'} (h : Narrows blames ids R x y)
    (hwrap : ∀ id e, blames id e → blames' id (wrap e)) :
    Narrows blames' ids R (x.mapError wrap) (y.mapError wrap) := by
  cases h with
  | told hfits h => exact .told hfits h
  | misfit hid hmisfit hblames => exact .misfit hid hmisfit (hwrap _ _ hblames)
  | refused => exact .refused

/-- What is computed from two outcomes tells the integers of both. -/
lemma bind₂ {x₂ : Except ε α₂} {y₂ : Except ε β₂} {ids₂ : α₂ → List Int} {R₂ : α₂ → β₂ → Prop}
    {f : α → α₂ → Except ε γ} {g : β → β₂ → Except ε δ}
    (h : Narrows blames ids R x y) (h₂ : Narrows blames ids₂ R₂ x₂ y₂)
    (hids : ∀ a a₂ c, f a a₂ = .ok c → ∀ id, id ∈ ids' c ↔ id ∈ ids a ∨ id ∈ ids₂ a₂)
    (hf : ∀ a b a₂ b₂, (∀ id, id ∈ ids a ∨ id ∈ ids₂ a₂ → FitsInt32 id) → R a b → R₂ a₂ b₂ →
      Narrows blames ids' R' (f a a₂) (g b b₂)) :
    Narrows blames ids' R' (x >>= fun a => x₂ >>= f a) (y >>= fun b => y₂ >>= g b) := by
  refine h.bind ?_ ?_
  · -- an integer that does not fit can come from either part
    intro a c hc id hid
    obtain ⟨a₂, -, hc⟩ := bind_eq_ok_iff.mp hc
    exact (hids a a₂ c hc id).mpr (.inl hid)
  · intro a b hfits hR
    refine h₂.bind ?_ ?_
    · intro a₂ c hc id hid
      exact (hids a a₂ c hc id).mpr (.inr hid)
    · intro a₂ b₂ hfits₂ hR₂
      refine hf a b a₂ b₂ ?_ hR hR₂
      rintro id (hid | hid)
      · exact hfits id hid
      · exact hfits₂ id hid

/-- A list tells what its elements tell. -/
lemma mapM {f : σ → Except ε α} {g : σ → Except ε β}
    (h : ∀ c, Narrows blames ids R (f c) (g c)) (cs : List σ) :
    Narrows blames (·.flatMap ids) (List.Forall₂ R) (cs.mapM f) (cs.mapM g) := by
  induction cs with
  | nil => exact .told (by simp) .nil
  | cons c cs ih =>
    rw [List.mapM_cons, List.mapM_cons]
    refine (h c).bind₂ ih ?_ ?_
    · intro a as out hout id
      obtain rfl := Except.ok.inj hout
      rw [List.flatMap_cons, List.mem_append]
    · intro a b as bs hfits hab has
      refine .told ?_ (.cons hab has)
      intro id hid
      rw [List.flatMap_cons, List.mem_append] at hid
      exact hfits id hid

end Narrows

end Outcomes

/-! ### Casts -/

/-- The error of an integer that 32 bits do not hold, told as such or cut off from a fraction. -/
def TensorError.Blames (id : Int) (e : TensorError) : Prop :=
  e = .intOutOfRange id .int32 ∨
    ∃ x : Binary64, x.truncate? = some id ∧ e = .floatOutOfRange x .int32

namespace DType

lemma holds_iff {t : DType} {n : Int} : t.holds n ↔ t.intBounds.1 ≤ n ∧ n ≤ t.intBounds.2 := by
  simp [holds]

lemma holds_int32_iff {n : Int} : int32.holds n ↔ FitsInt32 n := by
  simp only [holds_iff, intBounds, FitsInt32]
  omega

lemma holds_int64_of_fitsInt32 {n : Int} (h : FitsInt32 n) : int64.holds n := by
  obtain ⟨hlow, hhigh⟩ := h
  simp only [holds_iff, intBounds]
  omega

lemma fitInt_narrows (n : Int) :
    Narrows TensorError.Blames (fun m => [m]) Eq (.ok n) (int32.fitInt n) := by
  rw [fitInt]
  split_ifs with hholds
  · exact .told (by simpa using holds_int32_iff.mp hholds) rfl
  · exact .misfit (List.mem_singleton_self n) (mt holds_int32_iff.mpr hholds) (.inl rfl)

lemma fitBinary_narrows (x : Binary64) :
    Narrows TensorError.Blames (fun m => [m]) Eq (int64.fitBinary x) (int32.fitBinary x) := by
  rw [fitBinary, fitBinary]
  cases hx : x.truncate? with
  | none => exact .refused
  | some n =>
    dsimp only
    split_ifs with hwide hnarrow hnarrow
    · exact .told (by simpa using holds_int32_iff.mp hnarrow) rfl
    · exact .misfit (List.mem_singleton_self n) (mt holds_int32_iff.mpr hnarrow) (.inr ⟨x, hx, rfl⟩)
    · exact absurd (holds_int64_of_fitsInt32 (holds_int32_iff.mp hnarrow)) hwide
    · exact .refused

end DType

namespace Tensor

variable {a b t : Tensor} {as bs : List Tensor}

/-- The integers of a tensor. -/
def ids (t : Tensor) : List Int := t.data.toInts

/-- A tensor of 64 bits, and one of 32 bits with the same integers. -/
structure Narrowed (a b : Tensor) : Prop where
  wide : a.dtype = .int64
  narrow : b.dtype = .int32
  ids : b.ids = a.ids
  shape : b.shape = a.shape
  device : b.device = a.device

lemma Narrowed.on (h : a.Narrowed b) (d : Device) : (a.on d).Narrowed (b.on d) :=
  ⟨h.wide, h.narrow, h.ids, h.shape, rfl⟩

lemma Narrowed.rows (h : a.Narrowed b) : b.rows = a.rows := by
  rw [Tensor.rows, Tensor.rows, h.shape]

lemma mapM_narrows {σ : Type} {f g : σ → Except TensorError Int}
    (h : ∀ c, Narrows TensorError.Blames (fun m => [m]) Eq (f c) (g c)) (cs : List σ)
    (shape : List Nat) (device : Device) :
    Narrows TensorError.Blames ids Narrowed
      ((fun xs => ⟨.int64 xs, shape, device⟩) <$> cs.mapM f)
      ((fun xs => ⟨.int32 xs, shape, device⟩) <$> cs.mapM g) := by
  refine (Narrows.mapM h cs).map ?_ ?_
  · intro xs _ id
    simp [ids, TensorData.toInts]
  · intro xs ys _ hxs
    obtain rfl := List.forall₂_eq_eq_eq ▸ hxs
    exact ⟨rfl, rfl, rfl, rfl, rfl⟩

/-- Casting to 32 bits goes as casting to 64 bits does, where the integers fit. -/
lemma cast_narrows (h : t.dtype = .int64 ∨ t.dtype = .float64) :
    Narrows TensorError.Blames ids Narrowed (t.cast .int64) (t.cast .int32) := by
  obtain ⟨data, shape, device⟩ := t
  -- the two narrow types have no wide twin, so only the wide types are left
  cases data with
  | int32 xs => simp [dtype, TensorData.dtype] at h
  | float32 xs => simp [dtype, TensorData.dtype] at h
  | int64 xs =>
    have hwide : xs.mapM (fun n => (Except.ok n : Except TensorError Int)) = .ok xs := by
      rw [mapM_eq_ok_iff, List.forall₂_same]
      exact fun _ _ => rfl
    have hnarrows := mapM_narrows DType.fitInt_narrows xs shape device
    rw [hwide, map_ok] at hnarrows
    have hcast : Tensor.cast ⟨.int64 xs, shape, device⟩ .int32
        = (fun xs => ⟨.int32 xs, shape, device⟩) <$> xs.mapM DType.int32.fitInt := by
      rw [cast, if_neg (by simp [dtype, TensorData.dtype])]
      exact Functor.map_map _ _ _
    rwa [hcast]
  | float64 xs =>
    have hcast : Tensor.cast ⟨.float64 xs, shape, device⟩ .int64
        = (fun xs => ⟨.int64 xs, shape, device⟩) <$> xs.mapM DType.int64.fitBinary := by
      rw [cast, if_neg (by simp [dtype, TensorData.dtype])]
      exact Functor.map_map _ _ _
    have hcast' : Tensor.cast ⟨.float64 xs, shape, device⟩ .int32
        = (fun xs => ⟨.int32 xs, shape, device⟩) <$> xs.mapM DType.int32.fitBinary := by
      rw [cast, if_neg (by simp [dtype, TensorData.dtype])]
      exact Functor.map_map _ _ _
    rw [hcast, hcast']
    exact mapM_narrows DType.fitBinary_narrows xs shape device

example : (ofInts [-2147483648, 2147483647]).cast .int32
    = .ok ⟨.int32 [-2147483648, 2147483647], [2], .cpu⟩ := by rfl

example : (ofInts [7, 2147483648]).cast .int32 = .error (.intOutOfRange 2147483648 .int32) := by rfl

lemma dtype_of_ofColumn {c : Column} (h : ofColumn c = .ok t) :
    t.dtype = .int64 ∨ t.dtype = .float64 := by
  cases c <;> simp only [ofColumn, Except.ok.injEq, reduceCtorEq] at h <;> subst h
  · exact .inl rfl
  · exact .inr rfl

lemma arange_narrows (start stop : Int) :
    Narrows TensorError.Blames ids Narrowed (arange start stop .int64) (arange start stop .int32) :=
  cast_narrows (t := ofInts (intRange start stop)) (.inl rfl)

/-! ### Joins -/

lemma unlike?_eq_none_iff {first : Tensor} :
    unlike? first t = none ↔ t.dtype = first.dtype ∧ t.rowShape = first.rowShape := by
  rw [unlike?]
  split_ifs with hdtype hshape <;> simp_all

/-- Tensors that can follow one: they have its element type and the shape of its rows. -/
def Alike (first : Tensor) (as : List Tensor) : Prop :=
  ∀ a ∈ as, a.dtype = first.dtype ∧ a.rowShape = first.rowShape

lemma alike_of_countRows {first : Tensor} {n m : Nat} (h : countRows first n as = .ok m) :
    Alike first as := by
  induction as generalizing n with
  | nil => simp [Alike]
  | cons a as ih =>
    rw [countRows] at h
    cases hunlike : unlike? first a with
    | some e => simp [hunlike] at h
    | none =>
      simp only [hunlike] at h
      obtain ⟨rows, -, hrest⟩ := bind_eq_ok_iff.mp h
      exact List.forall_mem_cons.mpr ⟨unlike?_eq_none_iff.mp hunlike, ih hrest⟩

/-- Checking each sum of rows is checking the last one. -/
lemma countRows_of_alike {first : Tensor} {n : Nat} (hn : n < sizeLimit) (h : Alike first as) :
    countRows first n as = checkSize (n + (as.map rows).sum) := by
  induction as generalizing n with
  | nil => exact (checkSize_of_lt hn).symm
  | cons a as ih =>
    obtain ⟨ha, has⟩ := List.forall_mem_cons.mp h
    rw [countRows, unlike?_eq_none_iff.mpr ha, List.map_cons, List.sum_cons, ← Nat.add_assoc]
    dsimp only
    by_cases hlt : n + a.rows < sizeLimit
    · rw [checkSize_of_lt hlt, ok_bind, ih hlt has]
    · rw [checkSize_of_le (Nat.not_lt.mp hlt), error_bind, checkSize_of_le (by omega)]

/-- The tensor that some tensors are joined to. -/
def joined (first : Tensor) (as : List Tensor) : Tensor :=
  ⟨joinData first (first :: as), ((first :: as).map Tensor.rows).sum :: first.rowShape,
    first.device⟩

lemma overflows_of_rows {n : Nat} {shape : List Nat} (h : sizeLimit ≤ n) : Overflows (n :: shape) :=
  ⟨1, by simpa using h⟩

lemma join_of_counted {first : Tensor} (h : Alike first (first :: as))
    (hrows : ((first :: as).map rows).sum < sizeLimit) : join (first :: as)
      = make? (joined first as).data (joined first as).shape first.device >>= fun
        | some t => .ok t
        | none => .error (.shape .joinedCount) := by
  rw [join, countRows_of_alike (by decide) h, Nat.zero_add, checkSize_of_lt hrows]
  rfl

lemma join_of_overflows {first : Tensor} (h : Alike first (first :: as))
    (hover : Overflows (joined first as).shape) : join (first :: as) = .error .sizeOverflow := by
  by_cases hrows : ((first :: as).map rows).sum < sizeLimit
  · rw [join_of_counted h hrows, make?_of_overflows hover, error_bind]
  · rw [join, countRows_of_alike (by decide) h, Nat.zero_add,
      checkSize_of_le (Nat.not_lt.mp hrows), error_bind]

lemma join_of_fits {first : Tensor} (h : Alike first (first :: as))
    (hfits : ¬ Overflows (joined first as).shape) : join (first :: as)
      = if (joined first as).shape.prod = (joined first as).data.length
        then .ok (joined first as) else .error (.shape .joinedCount) := by
  have hrows : ((first :: as).map rows).sum < sizeLimit := by
    by_contra hge
    exact hfits (overflows_of_rows (Nat.not_lt.mp hge))
  rw [join_of_counted h hrows, make?_of_fits hfits, ok_bind]
  split_ifs <;> rfl

lemma join_eq_ok_iff {first : Tensor} :
    join (first :: as) = .ok t ↔ Alike first (first :: as) ∧ ¬ Overflows (joined first as).shape ∧
      (joined first as).shape.prod = (joined first as).data.length ∧ joined first as = t := by
  by_cases halike : Alike first (first :: as)
  · rw [and_iff_right halike]
    by_cases hover : Overflows (joined first as).shape
    · simp [join_of_overflows halike hover, hover]
    · rw [join_of_fits halike hover, and_iff_right hover]
      split_ifs with hcount <;> simp [hcount]
  · refine iff_of_false (fun h => ?_) fun h => halike h.1
    obtain ⟨rows, hrows, -⟩ := bind_eq_ok_iff.mp h
    exact halike (alike_of_countRows hrows)

lemma elements_joinData {first : Tensor} (h : Alike first as) :
    (joinData first as).elements = as.flatMap (·.data.elements) := by
  have hdtype : ∀ a ∈ as, a.data.dtype = first.data.dtype := fun a ha => (h a ha).1
  rw [joinData]
  cases hfirst : first.data <;> simp only [TensorData.elements, List.map_flatMap] <;>
    apply List.flatMap_congr <;> intro a ha <;> have hd := hfirst ▸ hdtype a ha <;>
    cases hdata : a.data <;> simp [hdata, TensorData.dtype] at hd <;> rfl

lemma ids_joined {first : Tensor} (h : Alike first (first :: as)) :
    (joined first as).ids = (first :: as).flatMap ids := by
  have hids : ids = fun t : Tensor => t.data.elements.map Element.toInt :=
    funext fun t => TensorData.toInts_eq t.data
  have helements : (joined first as).data.elements = (first :: as).flatMap (·.data.elements) :=
    elements_joinData h
  simp only [hids, helements, List.map_flatMap]

lemma length_ids (t : Tensor) : t.ids.length = t.data.length := by
  rw [ids, TensorData.toInts_eq, List.length_map, TensorData.length_elements]

/-- Joined tensors have the integers of all. -/
lemma ids_join (h : join as = .ok t) : t.ids = as.flatMap ids := by
  cases as with
  | nil => simp [join] at h
  | cons first as =>
    obtain ⟨halike, -, -, rfl⟩ := join_eq_ok_iff.mp h
    exact ids_joined halike

lemma dtype_joined (first : Tensor) (as : List Tensor) : (joined first as).dtype = first.dtype := by
  change (joinData first (first :: as)).dtype = first.data.dtype
  rw [joinData]
  cases first.data <;> rfl

lemma flatMap_ids_of_narrowed (h : List.Forall₂ Narrowed as bs) :
    bs.flatMap ids = as.flatMap ids := by
  induction h with
  | nil => rfl
  | cons hab _ ih => rw [List.flatMap_cons, List.flatMap_cons, hab.ids, ih]

lemma map_rows_of_narrowed (h : List.Forall₂ Narrowed as bs) : bs.map rows = as.map rows := by
  induction h with
  | nil => rfl
  | cons hab _ ih => rw [List.map_cons, List.map_cons, hab.rows, ih]

lemma alike_iff_of_narrowed (hab : a.Narrowed b) (h : List.Forall₂ Narrowed as bs) :
    Alike b bs ↔ Alike a as := by
  induction h with
  | nil => simp [Alike]
  | cons hnarrowed _ ih =>
    rw [Alike, Alike] at ih ⊢
    rw [List.forall_mem_cons, List.forall_mem_cons, ih, hab.wide, hab.narrow, hnarrowed.wide,
      hnarrowed.narrow, rowShape, rowShape, rowShape, rowShape, hab.shape, hnarrowed.shape]
    simp

/-- Narrow tensors are joined as wide ones are. -/
lemma join_narrows (h : List.Forall₂ Narrowed as bs) (hfits : ∀ id ∈ as.flatMap ids, FitsInt32 id) :
    Narrows TensorError.Blames ids Narrowed (join as) (join bs) := by
  have hsame := h
  cases h with
  | nil => exact .refused
  | @cons a b as bs hab has =>
    have halike := alike_iff_of_narrowed hab hsame
    -- narrow rows are counted as wide ones are, so the shapes agree and overflow together
    have hjoined : Alike a (a :: as) → (joined a as).Narrowed (joined b bs) := by
      intro hwide
      refine ⟨?_, ?_, ?_, ?_, hab.device⟩
      · rw [dtype_joined, hab.wide]
      · rw [dtype_joined, hab.narrow]
      · rw [ids_joined hwide, ids_joined (halike.mpr hwide), flatMap_ids_of_narrowed hsame]
      · simp only [joined, map_rows_of_narrowed hsame, rowShape, hab.shape]
    have hok : (∃ u, join (b :: bs) = .ok u) ↔ ∃ t, join (a :: as) = .ok t := by
      simp only [join_eq_ok_iff, exists_and_left, exists_eq', and_true, halike]
      apply and_congr_right
      intro hwide
      have hnarrowed := hjoined hwide
      rw [hnarrowed.shape, ← length_ids, ← length_ids, hnarrowed.ids]
    cases hwide : join (a :: as) with
    | error e =>
      cases hnarrow : join (b :: bs) with
      | error e' => exact .refused
      | ok u =>
        obtain ⟨t, ht⟩ := hok.mp ⟨u, hnarrow⟩
        simp [ht] at hwide
    | ok t =>
      obtain ⟨u, hu⟩ := hok.mpr ⟨t, hwide⟩
      rw [hu]
      refine .told (by rwa [ids_join hwide]) ?_
      obtain ⟨halike, -, -, rfl⟩ := join_eq_ok_iff.mp hwide
      obtain ⟨-, -, -, rfl⟩ := join_eq_ok_iff.mp hu
      exact hjoined halike

end Tensor

end TypedGraph
