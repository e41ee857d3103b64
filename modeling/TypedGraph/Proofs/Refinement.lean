import TypedGraph.Proofs.EdgeRefinement
import TypedGraph.Proofs.FeatureRefinement

/-!
# Serving a partitioned graph

A store over a partitioned source answers like the store over the plain source of the same tables.
Both are built alike (`build_agree`), and every sequence of requests gets the same answers, except
that the edges of an edge index come part by part (`serveAll_agree`). If an end of these edges does
not fit the element type of ids, both stores refuse the request, each for the first misfit in its
order.
-/

namespace TypedGraph

open TypedGraph.Action

/-! ### Requests -/

/-- What a store is asked for. -/
inductive Request where
  | offsets
  | edgeDescriptors
  | tensorDescriptors
  | vertexIndex (types : List String)
  | tensor (d : TensorDescriptor)
  | tensorBatch (ds : List TensorDescriptor)
  | tensorShape (d : TensorDescriptor)
  | groupNodes (ids : List Int)
  | renumberSample (sample : Sample) (batch : BatchIndex)
  | subgraph (types : List String)
  | edgeIndex (d : EdgeDescriptor)
  | registerTensor (group : String) (r : Registration)

/-- What a store answers. -/
inductive Answer where
  | offsets (t : Offsets)
  | edgeDescriptors (ds : List EdgeDescriptor)
  | tensorDescriptors (ds : List TensorDescriptor)
  | tensor (outcome : Except StoreError Tensor)
  | tensors (outcome : Except StoreError (List Tensor))
  | shape (outcome : Except StoreError (List Nat))
  | batch (outcome : Except StoreError BatchIndex)
  | localEdges (outcome : Except StoreError LocalEdges)
  | subgraph (outcome : Except StoreError Subgraph)
  | edgeIndex (d : EdgeDescriptor) (outcome : Except StoreError EdgeIndex)
  | registered

namespace Store

variable {s : Store} {g : Graph} {parts : Nat} {host host' : Host}

/-- Answers a request on a host; the store and the host may change. -/
def serve (s : Store) (host : Host) : Request → Answer × Store × Host
  | .offsets => (.offsets s.offsets, s, host)
  | .edgeDescriptors => (.edgeDescriptors s.edges.descriptors, s, host)
  | .tensorDescriptors => (.tensorDescriptors s.tensors.all, s, host)
  | .vertexIndex types => (.tensor (s.vertexIndex types), s, host)
  | .tensor d => (.tensor ((s.tensor d).runOn host).1, s, ((s.tensor d).runOn host).2)
  | .tensorBatch ds =>
    (.tensors ((s.tensorBatch ds).runOn host).1, s, ((s.tensorBatch ds).runOn host).2)
  | .tensorShape d => (.shape ((s.tensorShape d).runOn host).1, s, ((s.tensorShape d).runOn host).2)
  | .groupNodes ids => (.batch (s.groupNodes ids), s, host)
  | .renumberSample sample batch =>
    (.localEdges (s.renumberSample host.graph sample batch), s, host)
  | .subgraph types =>
    (.subgraph (s.subgraph host.graph types).1, (s.subgraph host.graph types).2, host)
  | .edgeIndex d =>
    (.edgeIndex d ((s.edgeIndex d).runOn host).1, s, ((s.edgeIndex d).runOn host).2)
  | .registerTensor group r => (.registered, s.registerTensor group r, host)

/-- Answers requests one after the other. -/
def serveAll (s : Store) (host : Host) : List Request → List Answer
  | [] => []
  | r :: rs => (s.serve host r).1 :: serveAll (s.serve host r).2.1 (s.serve host r).2.2 rs

/-! ### Agreement of answers -/

/-- Answers of a store over a plain source and of one over a partitioned source, on some tables. -/
def AnswersAgree (t : DType) (device : Device) (parts : Nat) (g : Graph) : Answer → Answer → Prop
  | .edgeIndex d plain, .edgeIndex d' parted =>
    d' = d ∧ IndicesAgree t device parts d (g.edgesOf d.key.edge) plain parted
  | a, b => a = b

lemma eq_of_outcomesAgree {α : Type} {x y : Except StoreError α} (h : OutcomesAgree Eq x y) :
    x = y := by
  cases x <;> cases y
  · exact congrArg Except.error h
  · exact h.elim
  · exact h.elim
  · exact congrArg Except.ok h

lemma renumberSample_onSource (hs : s.source = .plain) (sample : Sample) (batch : BatchIndex) :
    (s.onSource (.partitioned parts)).renumberSample g sample batch
      = s.renumberSample g sample batch := by
  obtain ⟨source, device, config, offsets, edges, tensors, subgraphs, oldVertex, oldEdge⟩ := s
  obtain rfl : source = .plain := hs
  rfl

lemma subgraph_onSource (hs : s.source = .plain) (parts : Nat) (g : Graph)
    (types : List String) :
    (s.onSource (.partitioned parts)).subgraph g types
      = ((s.subgraph g types).1, (s.subgraph g types).2.onSource (.partitioned parts)) := by
  have hcheck : (s.onSource (.partitioned parts)).checkEdgeTypes types = s.checkEdgeTypes types :=
    rfl
  rw [subgraph, subgraph, hcheck]
  cases s.checkEdgeTypes types with
  | error e => rfl
  | ok _ =>
    simp only [onSource, subgraphOptions, hs]
    rfl

/-- One request is answered alike, and leaves stores that again differ in their sources only. -/
lemma serve_agree (hparts : parts < 2 ^ 63) (hs : Reachable .plain g s)
    (hhosts : BothOn g host host') (r : Request) :
    AnswersAgree s.config.vertexDType s.device parts g (s.serve host r).1
        ((s.onSource (.partitioned parts)).serve host' r).1 ∧
      Reachable .plain g (s.serve host r).2.1 ∧
      (s.serve host r).2.1.config = s.config ∧ (s.serve host r).2.1.device = s.device ∧
      ((s.onSource (.partitioned parts)).serve host' r).2.1
        = (s.serve host r).2.1.onSource (.partitioned parts) ∧
      BothOn g (s.serve host r).2.2 ((s.onSource (.partitioned parts)).serve host' r).2.2 := by
  cases r with
  | offsets => exact ⟨rfl, hs, rfl, rfl, rfl, hhosts⟩
  | edgeDescriptors => exact ⟨rfl, hs, rfl, rfl, rfl, hhosts⟩
  | tensorDescriptors => exact ⟨rfl, hs, rfl, rfl, rfl, hhosts⟩
  | vertexIndex types => exact ⟨rfl, hs, rfl, rfl, rfl, hhosts⟩
  | tensor d =>
    obtain ⟨hout, hleft⟩ := tensor_agree hparts hs.source_eq d host host' hhosts
    exact ⟨congrArg Answer.tensor (eq_of_outcomesAgree hout), hs, rfl, rfl, rfl, hleft⟩
  | tensorBatch ds =>
    obtain ⟨hout, hleft⟩ := tensorBatch_agree hparts hs.source_eq ds host host' hhosts
    exact ⟨congrArg Answer.tensors (eq_of_outcomesAgree hout), hs, rfl, rfl, rfl, hleft⟩
  | tensorShape d =>
    obtain ⟨hout, hleft⟩ := tensorShape_agree hparts hs.source_eq d host host' hhosts
    exact ⟨congrArg Answer.shape (eq_of_outcomesAgree hout), hs, rfl, rfl, rfl, hleft⟩
  | groupNodes ids => exact ⟨rfl, hs, rfl, rfl, rfl, hhosts⟩
  | renumberSample sample batch =>
    -- a sample is read against the graph alone, and fetches nothing
    obtain ⟨rfl, hg⟩ := hhosts
    refine ⟨?_, hs, rfl, rfl, rfl, rfl, hg⟩
    rw [serve, serve, hg, renumberSample_onSource hs.source_eq]
    rfl
  | subgraph types =>
    obtain ⟨rfl, hg⟩ := hhosts
    -- only the remembered subgraphs change
    obtain ⟨subgraphs, heq⟩ := s.subgraph_snd host.graph types
    have hparted := subgraph_onSource hs.source_eq parts host.graph types
    rw [serve, serve, hg, hparted]
    refine ⟨rfl, hs.extracted host.graph types, ?_, ?_, rfl, rfl, hg⟩
    · rw [heq]
    · rw [heq]
  | edgeIndex d =>
    obtain ⟨hout, hleft⟩ := edgeIndex_agree hparts hs d hhosts
    exact ⟨⟨rfl, hout⟩, hs, rfl, rfl, rfl, hleft⟩
  | registerTensor group r => exact ⟨rfl, hs.registered group r, rfl, rfl, rfl, hhosts⟩

/-- Every sequence of requests is answered alike. -/
lemma serveAll_agree (hparts : parts < 2 ^ 63) (hs : Reachable .plain g s)
    (hhosts : BothOn g host host') (rs : List Request) :
    List.Forall₂ (AnswersAgree s.config.vertexDType s.device parts g) (s.serveAll host rs)
      ((s.onSource (.partitioned parts)).serveAll host' rs) := by
  induction rs generalizing s host host' with
  | nil => exact .nil
  | cons r rs ih =>
    obtain ⟨hanswer, hs', hconfig, hdevice, hstore, hhosts'⟩ := serve_agree hparts hs hhosts r
    rw [serveAll, serveAll, hstore]
    refine .cons hanswer ?_
    have hrest := ih hs' hhosts'
    rwa [hconfig, hdevice] at hrest

/-- Over the same tables a store is built over both sources or fails alike over both, and where it
is built every sequence of requests gets answers that agree. -/
theorem partitioned_serves_like_plain (hparts : parts < 2 ^ 63) (served : Device) (config : Config)
    (hosts : SameTables host host') :
    (∃ e, ((build .plain served config).runOn host).1 = .error e ∧
        ((build (.partitioned parts) served config).runOn host').1 = .error e) ∨
      ∃ s s' left left', (build .plain served config).runOn host = (.ok s, left) ∧
        (build (.partitioned parts) served config).runOn host' = (.ok s', left') ∧
        left.graph = left'.graph ∧
        ∀ rs, List.Forall₂ (AnswersAgree config.vertexDType served parts left.graph)
          (s.serveAll left rs) (s'.serveAll left' rs) := by
  obtain ⟨hout, hleft⟩ := build_agree hparts served config host host' hosts
  rcases hx : (build .plain served config).runOn host with ⟨e | s, left⟩ <;>
    rcases hy : (build (.partitioned parts) served config).runOn host' with ⟨e' | s', left'⟩ <;>
    rw [hx, hy] at hout hleft
  · exact .inl ⟨e, rfl, congrArg Except.error hout.symm⟩
  -- a source cannot fail where the other one succeeds
  · exact hout.elim
  · exact hout.elim
  · refine .inr ⟨s, s', left, left', rfl, rfl, hleft, ?_⟩
    intro rs
    obtain ⟨-, hdevice, hconfig, -⟩ := build_eq_ok hx
    have hanswers := serveAll_agree hparts (.built hx) ⟨rfl, hleft.symm⟩ rs
    rwa [hdevice, hconfig, ← show s' = s.onSource (.partitioned parts) from hout] at hanswers

/-- The library is served alike from two parts. -/
theorem partitioned_serves_like_plain_library :
    (2 < 2 ^ 63 ∧ SameTables { graph := library } { graph := library }) ∧
      ((∃ e, libraryRun.1 = .error e ∧
          ((build (.partitioned 2) .cpu {}).runOn { graph := library }).1 = .error e) ∨
        ∃ s s' left left', libraryRun = (.ok s, left) ∧
          (build (.partitioned 2) .cpu {}).runOn { graph := library } = (.ok s', left') ∧
          left.graph = left'.graph ∧
          ∀ rs, List.Forall₂ (AnswersAgree .int64 .cpu 2 left.graph)
            (s.serveAll left rs) (s'.serveAll left' rs)) :=
  ⟨⟨by decide, rfl⟩, partitioned_serves_like_plain (by decide) .cpu {} rfl⟩

/-! ### Ids that do not fit -/

/-- Three vertices, two of them with ids above 32 bits, and an edge from each to the first. -/
def farGraph : Graph where
  vertices := .ofList [(0, { type := "node" }), (3000000000, { type := "node" }),
    (4000000000, { type := "node" })]
  edges := .ofList [(0, ⟨0, 0, some "to", .empty⟩), (1, ⟨3000000000, 0, some "to", .empty⟩),
    (2, ⟨4000000000, 0, some "to", .empty⟩)]
  nextEdgeId := 3

/-- The outcome of building a store that keeps these ids and tells them in 32 bits. -/
def farRun (source : Source) : Except StoreError Store × Host :=
  (build source .cpu { policy := .keep, vertexDType := .int32 }).runOn { graph := farGraph }

lemma farRun_plain_isSome : (farRun .plain).1.toOption.isSome := by decide +kernel

lemma farRun_parted_isSome : (farRun (.partitioned 2)).1.toOption.isSome := by decide +kernel

/-- The store over the plain source. -/
def farPlain : Store := (farRun .plain).1.toOption.get farRun_plain_isSome

/-- The store over two parts. -/
def farParted : Store := (farRun (.partitioned 2)).1.toOption.get farRun_parted_isSome

/-- Both stores refuse to tell the edges, but for two different ids. -/
theorem misfit_depends_on_order :
    farRun .plain = (.ok farPlain, (farRun .plain).2) ∧
      farRun (.partitioned 2) = (.ok farParted, (farRun (.partitioned 2)).2) ∧
      ((farPlain.edgeIndex { key := .name "to" }).runOn (farRun .plain).2).1
        = .error (.tensor (.intOutOfRange 3000000000 .int32)) ∧
      ((farParted.edgeIndex { key := .name "to" }).runOn (farRun (.partitioned 2)).2).1
        = .error (.tensor (.intOutOfRange 4000000000 .int32)) := by
  refine ⟨?_, ?_, ?_, ?_⟩
  · exact Prod.ext (Traversal.eq_ok_get farRun_plain_isSome) rfl
  · exact Prod.ext (Traversal.eq_ok_get farRun_parted_isSome) rfl
  · decide +kernel
  · decide +kernel

end Store

end TypedGraph
