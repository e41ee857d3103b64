import TypedGraph.Proofs.GatheredTensors

/-!
# Batches of feature tensors

A batch of requests is answered as the requests are one by one, or not at all
(`tensorBatch_pointwise`). What requests leave open is settled for the whole batch before anything
is fetched, so a request that cannot be completed fails the batch whatever the source is. Else the
batch is a run of single requests (`runOn_tensorBatch_of_completes`).

A request may be complete and yet say that it names no properties, which is only seen in its turn.
So over parts a batch may fail by a value error after frames were forced, one for each request
before (`tensorBatch_value_iff`).
-/

namespace TypedGraph

open Traversal TypedGraph.Action

/-! ### Sources that read the tables -/

/-- What is fetched of the vertices is decided by the tables, which stay as they are; so it is at
once (`readsTables_plain`) and part by part (`readsTables_partitioned`). -/
def Source.ReadsTables (source : Source) : Prop :=
  ∀ q, (Action.ofFetch source.fetchVertices q).ReadsTables

/-- The host after some more delayed frames were forced on it. -/
def Host.force (host : Host) (frames : Nat) : Host := { host with forced := host.forced + frames }

lemma Host.force_force (host : Host) (m n : Nat) : (host.force m).force n = host.force (m + n) := by
  rw [force, force, force, Nat.add_assoc]

lemma Source.readsTables_plain : Source.plain.ReadsTables := fun q =>
  .of_runOn (fun g => (g.fetchVertices q).mapError .graph) id (fun _ => rfl)
    (runOn_ofFetch_ready Graph.fetchVertices q)

/-- Over parts, every fetch of vertices forces one frame. -/
lemma Source.runOn_fetchVertices_partitioned (parts : Nat) (q : Query) (host : Host) :
    (Action.ofFetch (Source.partitioned parts).fetchVertices q).runOn host
      = (((host.graph.fetchVertices q).bind
          (arrange Graph.vertexColumn (max parts 1))).mapError .graph, host.force 1) :=
  runOn_ofFetch_delay Graph.vertexColumn (max parts 1) Graph.fetchVertices q host

lemma Source.readsTables_partitioned (parts : Nat) : (Source.partitioned parts).ReadsTables :=
  fun q => .of_runOn
    (fun g => ((g.fetchVertices q).bind (arrange Graph.vertexColumn (max parts 1))).mapError .graph)
    (·.force 1) (fun _ => rfl) (runOn_fetchVertices_partitioned parts q)

/-! ### Requests that can be completed -/

/-- A request leaves open only what a catalog settles, which completes it to another one. -/
def TensorCatalog.Completes (c : TensorCatalog) (d d' : TensorDescriptor) : Prop :=
  c.infer d = .ok d' ∧ d'.isComplete

namespace TensorCatalog

variable {c : TensorCatalog} {ds ds' : List TensorDescriptor}

/-- A batch can be completed exactly if each of its requests can be. -/
lemma forall_completes_iff : (∀ d ∈ ds, ∃ d', c.Completes d d') ↔
    ∃ ds', ds.mapM c.infer = .ok ds' ∧ ∀ d' ∈ ds', d'.isComplete := by
  constructor
  · intro h
    obtain ⟨ds', hinfer⟩ := mapM_ok_of_forall fun d hd => (h d hd).imp fun d' => And.left
    refine ⟨ds', hinfer, fun d' hd' => ?_⟩
    obtain ⟨d, hd, hinferred⟩ := (mem_iff_of_mapM_eq_ok hinfer).mp hd'
    obtain ⟨other, hother, hcomplete⟩ := h d hd
    obtain rfl := Except.ok.inj (hinferred.symm.trans hother)
    exact hcomplete
  · rintro ⟨ds', hinfer, hcomplete⟩ d hd
    obtain ⟨d', hd'⟩ := ok_of_mapM_eq_ok hinfer hd
    exact ⟨d', hd', hcomplete d' ((mem_iff_of_mapM_eq_ok hinfer).mpr ⟨d, hd, hd'⟩)⟩

lemma forall₂_completes (hinfer : ds.mapM c.infer = .ok ds') (h : ∀ d' ∈ ds', d'.isComplete) :
    List.Forall₂ c.Completes ds ds' := by
  rw [mapM_eq_ok_iff] at hinfer
  induction hinfer with
  | nil => exact .nil
  | cons hd _ ih =>
    obtain ⟨hd', hrest⟩ := List.forall_mem_cons.mp h
    exact .cons ⟨hd, hd'⟩ (ih hrest)

end TensorCatalog

namespace Store

variable {source : Source} {s : Store} {d d' : TensorDescriptor} {ds ds' : List TensorDescriptor}
variable {host host' : Host} {t : Tensor} {ts : List Tensor} {e : StoreError}

/-! ### One request -/

lemma FetchesRows.readsTables (h : FetchesRows source) : source.ReadsTables := by
  rcases h with rfl | ⟨parts, rfl⟩
  · exact Source.readsTables_plain
  · exact Source.readsTables_partitioned parts

lemma runOn_tensor_of_completes (hd : s.tensors.Completes d d') (host : Host) :
    (s.tensor d).runOn host = (s.fetchTensor d').runOn host := by
  rw [runOn_tensor_of_infer hd.1, if_pos hd.2, runOn_tensor_of_complete hd.2]

/-- Only a request that can be completed has a tensor. -/
lemma completes_of_tensor (h : ((s.tensor d).runOn host).1 = .ok t) :
    ∃ d', s.tensors.Completes d d' := by
  obtain ⟨d', hinfer⟩ := infer_of_tensor h
  rw [runOn_tensor_of_infer hinfer] at h
  split_ifs at h with hcomplete
  exact ⟨d', hinfer, hcomplete⟩

lemma touchesNoHost_readFeatures (s : Store) (d : TensorDescriptor) (ids : List Int)
    (names : List String) (f : Frame) : (s.readFeatures d ids names f).TouchesNoHost := by
  refine .bind (.ofExcept _) fun c => ?_
  cases c.ints? with
  | none => exact ⟨_, fun _ => rfl⟩
  | some stored =>
    refine .bind (.ofExcept (.ok stored)) fun stored => .bind (.ofExcept _) fun rows =>
      .bind (.ofExcept _) fun fs => .bind (.ofExcept _) fun taken => .bind (.ofExcept _) fun t => ?_
    cases d.dtype.flat with
    | none => exact .ofExcept (.ok _)
    | some dtype => exact .bind (.ofExcept _) fun t => .ofExcept (.ok _)

/-- A request is answered by a fetch, unless it names no properties or comes to no vertices. -/
lemma fetchTensor_cases (s : Store) (d : TensorDescriptor) :
    (∃ e, s.fetchTensor d = .ofExcept (.error e)) ∨ ∃ ids names,
      s.fetchTensor d = s.fetchFeatures d ids names >>= s.readFeatures d ids names := by
  rw [fetchTensor]
  cases d.properties.flat with
  | none => exact .inl ⟨_, rfl⟩
  | some names =>
    cases s.requestedIds d with
    | error e => exact .inl ⟨e, rfl⟩
    | ok ids => exact .inr ⟨ids, names, rfl⟩

lemma readsTables_fetchTensor (hsource : s.source.ReadsTables) (d : TensorDescriptor) :
    (s.fetchTensor d).ReadsTables := by
  rcases s.fetchTensor_cases d with ⟨e, h⟩ | ⟨ids, names, h⟩ <;> rw [h]
  · exact .of_touchesNoHost (.ofExcept _)
  · exact .bind (hsource _) fun f => .of_touchesNoHost (touchesNoHost_readFeatures s d ids names f)

lemma readsTables_tensor (hsource : s.source.ReadsTables) (d : TensorDescriptor) :
    (s.tensor d).ReadsTables := by
  refine .bind (.of_touchesNoHost (.ofExcept _)) fun d' => ?_
  split
  · exact .of_touchesNoHost (.ofExcept (.error _))
  · exact readsTables_fetchTensor hsource d'

/-! ### Batches -/

/-- A batch in which some request cannot be inferred fails at once. -/
lemma runOn_tensorBatch_of_uninferred (h : ds.mapM s.tensors.infer = .error e) (host : Host) :
    (s.tensorBatch ds).runOn host = (.error e, host) := by
  rw [tensorBatch, h]
  exact runOn_bind_error (runOn_ofExcept _ host)

/-- A batch that is inferred fails at once or is fetched. -/
lemma runOn_tensorBatch_of_infer (h : ds.mapM s.tensors.infer = .ok ds') (host : Host) :
    (s.tensorBatch ds).runOn host =
      if ∀ d ∈ ds', d.isComplete then (ds'.mapM s.fetchTensor).runOn host
      else (.error (.value (.someIncomplete (ds'.filter fun d => !d.isComplete))), host) := by
  rw [tensorBatch, h]
  refine (runOn_bind_ok (runOn_ofExcept _ host)).trans ?_
  have hmissing : (ds'.filter fun d => !d.isComplete).isEmpty ↔ ∀ d ∈ ds', d.isComplete := by
    simp [List.isEmpty_iff]
  show (ite _ _ _ : Action (List Tensor)).runOn host = _
  by_cases hcomplete : ∀ d ∈ ds', d.isComplete
  · rw [if_pos hcomplete, if_neg (by simpa using hmissing.mpr hcomplete)]
  · rw [if_neg hcomplete, if_pos (by simpa using hmissing.not.mpr hcomplete)]
    rfl

/-- A batch of requests that can all be completed is a run of single requests. -/
lemma runOn_tensorBatch_of_completes (h : ∀ d ∈ ds, ∃ d', s.tensors.Completes d d') (host : Host) :
    (s.tensorBatch ds).runOn host = (ds.mapM s.tensor).runOn host := by
  obtain ⟨ds', hinfer, hcomplete⟩ := TensorCatalog.forall_completes_iff.mp h
  rw [runOn_tensorBatch_of_infer hinfer, if_pos hcomplete]
  refine (runOn_mapM_congr ?_ host).symm
  exact (TensorCatalog.forall₂_completes hinfer hcomplete).imp fun _ _ => runOn_tensor_of_completes

/-- A batch with a request that cannot be completed fails before anything is fetched. -/
lemma runOn_tensorBatch_of_not_completes (h : ¬ ∀ d ∈ ds, ∃ d', s.tensors.Completes d d') :
    ∃ e, ∀ source host, ((s.onSource source).tensorBatch ds).runOn host = (.error e, host) := by
  rcases hinfer : ds.mapM s.tensors.infer with e | ds'
  · exact ⟨e, fun source => runOn_tensorBatch_of_uninferred (s := s.onSource source) hinfer⟩
  · have hincomplete : ¬ ∀ d ∈ ds', d.isComplete :=
      fun hcomplete => h (TensorCatalog.forall_completes_iff.mpr ⟨ds', hinfer, hcomplete⟩)
    refine ⟨.value (.someIncomplete (ds'.filter fun d => !d.isComplete)), fun source host => ?_⟩
    rw [runOn_tensorBatch_of_infer (s := s.onSource source) hinfer, if_neg hincomplete]

/-- A batch of requests is answered as the requests are one by one, or not at all. -/
structure AnswersPointwise (s : Store) (ds : List TensorDescriptor) (host : Host) : Prop where
  /-- A batch gives tensors exactly if each request has one, and gives these in order. -/
  answered : ∀ ts, ((s.tensorBatch ds).runOn host).1 = .ok ts ↔
    List.Forall₂ (fun d t => ((s.tensor d).runOn host).1 = .ok t) ds ts
  /-- A request that cannot be completed, wherever it stands, fails the batch in a way that no
  source has a part in, and leaves every host as it is. -/
  refused : (∃ d ∈ ds, ∀ d', ¬ s.tensors.Completes d d') →
    ∃ e, ∀ source host, ((s.onSource source).tensorBatch ds).runOn host = (.error e, host)
  /-- If all requests can be completed, the batch fails as the first one that fails. -/
  failed : (∀ d ∈ ds, ∃ d', s.tensors.Completes d d') → ∀ e,
    ((s.tensorBatch ds).runOn host).1 = .error e ↔ ∃ before d after, ds = before ++ d :: after ∧
      (∀ b ∈ before, ∃ t, ((s.tensor b).runOn host).1 = .ok t) ∧
      ((s.tensor d).runOn host).1 = .error e

/-- A batch that can be completed has the outcomes of its requests. -/
lemma outcome_tensorBatch (hsource : s.source.ReadsTables)
    (h : ∀ d ∈ ds, ∃ d', s.tensors.Completes d d') (host : Host) :
    ((s.tensorBatch ds).runOn host).1 = ds.mapM fun d => ((s.tensor d).runOn host).1 := by
  rw [runOn_tensorBatch_of_completes h]
  exact ReadsTables.outcome_mapM (readsTables_tensor hsource) ds host

/-- Over a source that reads the tables, a batch is answered as its requests are one by one, and
fails without a fetch if one of them cannot be completed. -/
theorem tensorBatch_pointwise (hsource : s.source.ReadsTables) (ds : List TensorDescriptor)
    (host : Host) : s.AnswersPointwise ds host where
  answered ts := by
    by_cases h : ∀ d ∈ ds, ∃ d', s.tensors.Completes d d'
    · rw [outcome_tensorBatch hsource h, mapM_eq_ok_iff]
    · -- a batch that cannot be completed has a request that is not answered alone, either
      obtain ⟨e, he⟩ := runOn_tensorBatch_of_not_completes h
      have hrun : (s.tensorBatch ds).runOn host = (.error e, host) := he s.source host
      rw [hrun]
      refine iff_of_false (by simp) fun hts => h fun d hd => ?_
      obtain ⟨t, ht⟩ := ok_of_mapM_eq_ok (mapM_eq_ok_iff.mpr hts) hd
      exact completes_of_tensor ht
  refused := by
    rintro ⟨d, hd, hnone⟩
    exact runOn_tensorBatch_of_not_completes fun h => (h d hd).elim hnone
  failed h e := by
    rw [outcome_tensorBatch hsource h, mapM_eq_error_iff]

theorem tensorBatch_pointwise_library :
    libraryStore.source.ReadsTables ∧
      libraryStore.AnswersPointwise [libraryRequest, libraryRequest.withIndex [2]] libraryRun.2 ∧
      ((libraryStore.tensorBatch [libraryRequest, libraryRequest.withIndex [2]]).runOn
          libraryRun.2).1.toOption
        = some [⟨.float32 ([3, 3, 2, 1, 3, 3].map .ofInt), [3, 2], .cpu⟩,
          ⟨.float32 ([2, 1].map .ofInt), [1, 2], .cpu⟩] := by
  have hsource : libraryStore.source.ReadsTables :=
    reachable_libraryStore.source_eq ▸ Source.readsTables_plain
  exact ⟨hsource, tensorBatch_pointwise hsource _ _, by decide +kernel⟩

/-! ### Value errors -/

/-- An outcome that is not a value error. -/
def NoValueError {α : Type} (r : Except StoreError α) : Prop := ∀ v, r ≠ .error (.value v)

namespace NoValueError

variable {α β : Type} {r : Except StoreError α} {f : α → Except StoreError β}

lemma ok (a : α) : NoValueError (.ok a) := by
  intro v h
  simp at h

lemma bind (hr : NoValueError r) (hf : ∀ a, NoValueError (f a)) : NoValueError (r >>= f) := by
  intro v h
  rcases bind_eq_error_iff.mp h with hr' | ⟨a, -, ha⟩
  · exact hr v hr'
  · exact hf a v ha

lemma mapM {as : List α} (hf : ∀ a, NoValueError (f a)) : NoValueError (as.mapM f) := by
  intro v h
  obtain ⟨-, a, -, -, -, ha⟩ := split_of_mapM_eq_error h
  exact hf a v ha

lemma graph (x : Except GraphError α) : NoValueError (x.mapError .graph) := by
  cases x <;> intro v h <;> simp at h

lemma tensor (x : Except TensorError α) : NoValueError (x.mapError .tensor) := by
  cases x <;> intro v h <;> simp at h

lemma lookup (e : LookupError) : NoValueError (.error (.lookup e) : Except StoreError α) := by
  intro v h
  simp at h

end NoValueError

lemma noValueError_infer (c : TensorCatalog) (d : TensorDescriptor) : NoValueError (c.infer d) := by
  rw [TensorCatalog.infer]
  split
  · exact .ok d
  · split
    · exact .lookup _
    · exact .ok _

lemma noValueError_requestedIds (s : Store) (d : TensorDescriptor) :
    NoValueError (s.requestedIds d) := by
  rw [requestedIds]
  split
  · exact .ok _
  · intro v h
    rw [Offsets.idsOf, map_eq_error_iff, Offsets.rangeOf] at h
    split at h <;> simp at h
  · exact .ok _

lemma noValueError_gather (s : Store) (d : TensorDescriptor) (stored ids : List Int)
    (names : List String) (f : Frame) : NoValueError (s.gather d stored ids names f) := by
  refine .bind (.mapM fun id => ?_) fun rows => .bind (.graph _) fun fs =>
    .bind (.graph _) fun taken => .bind (.tensor _) fun t => .bind (.tensor _) fun t => .ok _
  rw [rowOf]
  split
  · exact .ok _
  · exact .lookup _

/-- A request in which nothing is open fails by a value error exactly if it names no properties. -/
lemma tensorOver_eq_value_iff {g : Graph} {types : Option (List String)} {v : ValueError} :
    s.tensorOver g types d = .error (.value v) ↔
      d.properties.flat = none ∧ v = .noProperties d := by
  rw [tensorOver]
  cases d.properties.flat with
  | none => simp [eq_comm]
  | some names =>
    refine iff_of_false ?_ (by simp)
    refine NoValueError.bind (.ok names) (fun names => ?_) v
    exact .bind (noValueError_requestedIds s d) fun ids => .bind (.graph _) fun f =>
      noValueError_gather s d _ ids names f

lemma outcome_fetchTensor_eq_value_iff (hsource : FetchesRows s.source) {v : ValueError} :
    ((s.fetchTensor d).runOn host).1 = .error (.value v) ↔
      d.properties.flat = none ∧ v = .noProperties d := by
  rw [← tensorOver_eq_value_iff, ← outcome_fetchTensorBy hsource]
  rfl

/-! ### Forced frames -/

section Parts

variable {parts : Nat}

/-- Over parts, one frame is forced for a request that is answered. -/
lemma left_of_fetchTensor (hsource : s.source = .partitioned parts)
    (h : (s.fetchTensor d).runOn host = (.ok t, host')) : host' = host.force 1 := by
  rcases s.fetchTensor_cases d with ⟨e, hd⟩ | ⟨ids, names, hd⟩ <;> rw [hd] at h
  · simp at h
  · obtain ⟨f, between, hfetch, hread⟩ := runOn_bind_eq_ok_iff.mp h
    obtain ⟨r, hr⟩ := touchesNoHost_readFeatures s d ids names f
    obtain ⟨-, rfl⟩ := Prod.mk.inj ((hr between).symm.trans hread)
    rw [fetchFeatures, hsource, Source.runOn_fetchVertices_partitioned] at hfetch
    exact (Prod.mk.inj hfetch).2.symm

/-- A run of requests that are answered forces one frame for each. -/
lemma left_of_mapM_tensor (hsource : s.source = .partitioned parts)
    (h : (ds.mapM s.tensor).runOn host = (.ok ts, host')) : host' = host.force ds.length := by
  induction ds generalizing host ts with
  | nil =>
    obtain ⟨-, rfl⟩ := Prod.mk.inj h
    rfl
  | cons d ds ih =>
    rw [List.mapM_cons] at h
    obtain ⟨t, between, hd, h⟩ := runOn_bind_eq_ok_iff.mp h
    obtain ⟨rest, left, hds, h⟩ := runOn_bind_eq_ok_iff.mp h
    obtain ⟨-, rfl⟩ := Prod.mk.inj h
    obtain ⟨d', hcompletes⟩ := completes_of_tensor (congrArg Prod.fst hd)
    rw [runOn_tensor_of_completes hcompletes] at hd
    rw [ih hds, left_of_fetchTensor hsource hd, Host.force_force, List.length_cons, Nat.add_comm]

/-- How a batch of requests fails by a value error, and how many frames it forces before. -/
inductive FailsByValue (s : Store) (ds : List TensorDescriptor) (host : Host) :
    ValueError → Nat → Prop
  /-- Some requests are left incomplete, and nothing is fetched. -/
  | incomplete {ds' : List TensorDescriptor} (hinfer : ds.mapM s.tensors.infer = .ok ds')
      (hmissing : ∃ d' ∈ ds', ¬ d'.isComplete) :
      FailsByValue s ds host (.someIncomplete (ds'.filter fun d' => !d'.isComplete)) 0
  /-- All requests are complete, but one says that it names no properties, and those before it are
  answered first. -/
  | noProperties {before after : List TensorDescriptor} {d d' : TensorDescriptor}
      (hds : ds = before ++ d :: after) (hcompletes : ∀ b ∈ ds, ∃ b', s.tensors.Completes b b')
      (hbefore : ∀ b ∈ before, ∃ t, ((s.tensor b).runOn host).1 = .ok t)
      (hd : s.tensors.Completes d d') (hnone : d'.properties.flat = none) :
      FailsByValue s ds host (.noProperties d') before.length

lemma runOn_tensorBatch_of_failsByValue {v : ValueError} {frames : Nat}
    (hsource : s.source = .partitioned parts) (h : s.FailsByValue ds host v frames) :
    (s.tensorBatch ds).runOn host = (.error (.value v), host.force frames) := by
  cases h with
  | incomplete hinfer hmissing =>
    obtain ⟨d', hd', hincomplete⟩ := hmissing
    rw [runOn_tensorBatch_of_infer hinfer, if_neg fun hcomplete => hincomplete (hcomplete d' hd')]
    rfl
  -- the requests before it were fetched one by one, and each fetch was counted
  | @noProperties before after d d' hds hcompletes hbefore hd hnone =>
    have hreads : s.source.ReadsTables := hsource ▸ Source.readsTables_partitioned parts
    obtain ⟨ts, hts⟩ := mapM_ok_of_forall hbefore
    rw [← ReadsTables.outcome_mapM (readsTables_tensor hreads)] at hts
    have hrun : (before.mapM s.tensor).runOn host = (.ok ts, host.force before.length) :=
      Prod.ext hts (left_of_mapM_tensor hsource (Prod.ext hts rfl))
    have hlast : (s.tensor d).runOn (host.force before.length)
        = (.error (.value (.noProperties d')), host.force before.length) := by
      rw [runOn_tensor_of_completes hd, fetchTensor, hnone]
      rfl
    rw [runOn_tensorBatch_of_completes hcompletes, hds]
    exact runOn_mapM_error hrun hlast

/-- A batch fails by a value error only in these ways. -/
lemma exists_failsByValue (hsource : FetchesRows s.source) {v : ValueError}
    (h : ((s.tensorBatch ds).runOn host).1 = .error (.value v)) :
    ∃ frames, s.FailsByValue ds host v frames := by
  -- completing never fails by a value; then the batch is refused as a whole or some request fails
  rcases hinfer : ds.mapM s.tensors.infer with e | ds'
  · rw [runOn_tensorBatch_of_uninferred hinfer] at h
    obtain rfl : e = .value v := Except.error.inj h
    exact absurd hinfer (NoValueError.mapM (noValueError_infer s.tensors) v)
  by_cases hcomplete : ∀ d' ∈ ds', d'.isComplete
  · have hcompletes := TensorCatalog.forall_completes_iff.mpr ⟨ds', hinfer, hcomplete⟩
    rw [outcome_tensorBatch hsource.readsTables hcompletes, mapM_eq_error_iff] at h
    obtain ⟨before, d, after, rfl, hbefore, hd⟩ := h
    obtain ⟨d', hd'⟩ := hcompletes d (by simp)
    rw [runOn_tensor_of_completes hd', outcome_fetchTensor_eq_value_iff hsource] at hd
    obtain ⟨hnone, rfl⟩ := hd
    exact ⟨_, .noProperties rfl hcompletes hbefore hd' hnone⟩
  · rw [runOn_tensorBatch_of_infer hinfer, if_neg hcomplete] at h
    obtain rfl : ValueError.someIncomplete _ = v := by simpa using h
    exact ⟨0, .incomplete hinfer (by simpa using hcomplete)⟩

/-- Over parts, a batch that fails by a value error has forced nothing if a request is incomplete,
but a frame for every request before the first that names no properties. -/
theorem tensorBatch_value_iff (hsource : s.source = .partitioned parts) (v : ValueError) :
    (s.tensorBatch ds).runOn host = (.error (.value v), host') ↔
      ∃ frames, s.FailsByValue ds host v frames ∧ host' = host.force frames := by
  constructor
  · intro h
    obtain ⟨frames, hfails⟩ := exists_failsByValue (.inr ⟨parts, hsource⟩) (congrArg Prod.fst h)
    have hrun := runOn_tensorBatch_of_failsByValue hsource hfails
    exact ⟨frames, hfails, (Prod.mk.inj (h.symm.trans hrun)).2⟩
  · rintro ⟨frames, hfails, rfl⟩
    exact runOn_tensorBatch_of_failsByValue hsource hfails

end Parts

/-! ### A batch over parts of the site -/

/-- The outcome of building a store over two parts of the site. -/
def sitePartedRun : Except StoreError Store × Host :=
  (build (.partitioned 2) .cpu {}).runOn { graph := site }

/-- The store over two parts of the site. -/
def sitePartedStore : Store := sitePartedRun.1.toOption.get (by decide +kernel)

lemma reachable_sitePartedStore :
    Reachable (.partitioned 2) sitePartedRun.2.graph sitePartedStore := by
  have hbuild : (build (.partitioned 2) .cpu {}).runOn { graph := site }
      = (.ok sitePartedStore, sitePartedRun.2) :=
    Prod.ext (eq_ok_get _) rfl
  exact .built hbuild

/-- A request in which nothing is open, but that says that it names no properties. -/
def namelessRequest : TensorDescriptor := { wordsRequest "page" "f" with properties := .value none }

theorem tensorBatch_value_iff_site :
    sitePartedStore.source = .partitioned 2 ∧
      (sitePartedStore.tensorBatch [wordsRequest "page" "f", namelessRequest]).runOn sitePartedRun.2
        = (.error (.value (.noProperties namelessRequest)), sitePartedRun.2.force 1) ∧
      ∃ frames, sitePartedStore.FailsByValue [wordsRequest "page" "f", namelessRequest]
        sitePartedRun.2 (.noProperties namelessRequest) frames ∧
          sitePartedRun.2.force 1 = sitePartedRun.2.force frames := by
  have hsource : sitePartedStore.source = .partitioned 2 := reachable_sitePartedStore.source_eq
  have hrun : (sitePartedStore.tensorBatch [wordsRequest "page" "f", namelessRequest]).runOn
      sitePartedRun.2
        = (.error (.value (.noProperties namelessRequest)), sitePartedRun.2.force 1) := by
    decide +kernel
  exact ⟨hsource, hrun, (tensorBatch_value_iff hsource _).mp hrun⟩

/-- Nothing is open in two requests, of which the second names no properties; the batch of both
fails by a value error, but after the frame of the first was forced. -/
theorem value_error_after_forcing :
    Reachable (.partitioned 2) sitePartedRun.2.graph sitePartedStore ∧
      (∀ d ∈ [wordsRequest "page" "f", namelessRequest], d.isComplete) ∧
      ((sitePartedStore.tensorBatch [wordsRequest "page" "f", namelessRequest]).runOn
          sitePartedRun.2).1 = .error (.value (.noProperties namelessRequest)) ∧
      ((sitePartedStore.tensorBatch [wordsRequest "page" "f", namelessRequest]).runOn
          sitePartedRun.2).2.forced = sitePartedRun.2.forced + 1 := by
  refine ⟨reachable_sitePartedStore, ?_, ?_, ?_⟩ <;> decide +kernel

end Store

end TypedGraph
