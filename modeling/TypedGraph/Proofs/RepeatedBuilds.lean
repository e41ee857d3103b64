import TypedGraph.Proofs.FailedBuilds
import TypedGraph.Proofs.LaterLoads
import TypedGraph.Proofs.OldIds

/-!
# Repeated constructions

Stores that are built one after another over one graph. A construction reads the names of the
properties before it saves previous ids among them, but finds what earlier ones saved. So the
default feature is made of the properties that were loaded, and of the saved ids if any earlier
construction saved them (`build_default_feature`).
-/

namespace TypedGraph

open Traversal TypedGraph.Action

/-! ### Names of properties -/

namespace Graph

variable {g g' : Graph} {f : Int → Int} {previous : Option String} {name : String}

lemma mem_vertexPropertyNames : name ∈ g.vertexPropertyNames ↔
    ∃ id v, g.vertices.get? id = some v ∧ ∃ w, v.properties.get? name = some w := by
  simp only [vertexPropertyNames, Ascending.mem_ofList, List.mem_flatMap, SortedMap.values,
    List.mem_map, Prod.exists, SortedMap.mem_entries_iff, SortedMap.mem_keys_iff]
  constructor
  · rintro ⟨_, ⟨id, v, hv, rfl⟩, hw⟩
    exact ⟨id, v, hv, hw⟩
  · rintro ⟨id, v, hv, hw⟩
    exact ⟨v, ⟨id, v, hv, rfl⟩, hw⟩

/-- New vertex ids leave the vertex types as they are. -/
lemma IsRelabeling.vertexTypes_eq (h : IsRelabeling f previous g g') :
    g'.vertexTypes = g.vertexTypes := by
  refine vertexTypes_congr fun type => ?_
  simp only [mem_vertexTypes, h.vertexIdsOf_eq, List.mem_map]
  exact ⟨fun ⟨_, id, hid, _⟩ => ⟨id, hid⟩, fun ⟨id, hid⟩ => ⟨f id, id, hid, rfl⟩⟩

/-- New vertex ids add no name of a property but that of the previous ids. -/
lemma IsRelabeling.mem_vertexPropertyNames_iff (h : IsRelabeling f previous g g')
    (hne : g.vertexTypes ≠ []) : name ∈ g'.vertexPropertyNames ↔
      name ∈ g.vertexPropertyNames ∨ previous = some name := by
  simp only [mem_vertexPropertyNames]
  constructor
  · -- a property of a new row is one of the row that it comes from, or the previous id
    rintro ⟨id', v', hv', w, hw⟩
    obtain ⟨id, v, hv, rfl, -⟩ := h.exists_vertex hv'
    obtain ⟨u, hu, -, hproperties⟩ := h.vertices id v hv
    obtain rfl := Option.some.inj (hu.symm.trans hv')
    rw [hproperties] at hw
    split_ifs at hw with hprevious
    · exact .inr hprevious
    · exact .inl ⟨id, v, hv, w, hw⟩
  · rintro (⟨id, v, hv, w, hw⟩ | hprevious)
    · obtain ⟨v', hv', -, hproperties⟩ := h.vertices id v hv
      by_cases hprevious : previous = some name
      · exact ⟨_, v', hv', _, by rw [hproperties, if_pos hprevious]⟩
      · exact ⟨_, v', hv', w, by rw [hproperties, if_neg hprevious, hw]⟩
    · -- there is a vertex, which has its previous id as a property
      obtain ⟨type, htype⟩ := List.exists_mem_of_ne_nil _ hne
      obtain ⟨id, hid⟩ := mem_vertexTypes.mp htype
      obtain ⟨v, hv, -⟩ := mem_vertexIdsOf.mp hid
      obtain ⟨v', hv', -, hproperties⟩ := h.vertices id v hv
      exact ⟨_, v', hv', _, by rw [hproperties, if_pos hprevious]⟩

end Graph

/-! ### Attempts -/

/-- A construction that is asked for, which may fail. -/
structure Attempt where
  served : Device
  config : Config

namespace Store

variable {host host' : Host} {g : Graph} {a : Attempt} {as : List Attempt} {s : Store}
variable {served : Device} {config : Config} {policy : IdPolicy} {group name : String}

/-- The property under which vertices keep their previous ids. -/
def savedColumn : String := oldColumn Graph.vertexColumn

/-- What an attempt leaves of a host. -/
def attempt (host : Host) (a : Attempt) : Host :=
  ((build .plain a.served a.config).runOn host).2

/-- What attempts leave of a host, one after the other. -/
def attemptAll (host : Host) (as : List Attempt) : Host := as.foldl attempt host

/-- Whether an attempt over a graph saves previous ids. -/
def saves (g : Graph) (a : Attempt) : Bool :=
  a.config.policy = .auto ∧ precheck .plain a.served a.config g = .ok ()

/-- What attempts keep of a graph, and which names of properties they add. -/
structure Attempted (g g' : Graph) (saved : Bool) : Prop where
  reachable : g'.Reachable
  kinds : g'.kinds.Perm g.kinds
  types : g'.vertexTypes = g.vertexTypes
  names : g.vertexTypes ≠ [] → ∀ name, name ∈ g'.vertexPropertyNames ↔
    name ∈ g.vertexPropertyNames ∨ saved = true ∧ name = savedColumn

lemma attempted_self (hg : g.Reachable) : Attempted g g false where
  reachable := hg
  kinds := .refl _
  types := rfl
  names _ _ := by simp

lemma Attempted.trans {g' g'' : Graph} {saved saved' : Bool} (h : Attempted g g' saved)
    (h' : Attempted g' g'' saved') : Attempted g g'' (saved || saved') where
  reachable := h'.reachable
  kinds := h'.kinds.trans h.kinds
  types := h'.types.trans h.types
  names hne name := by
    rw [h'.names (by rwa [h.types]), h.names hne, Bool.or_eq_true]
    tauto

lemma attempted_leftBy (hg : g.Reachable) (policy : IdPolicy) :
    Attempted g (leftBy policy g) (policy = .auto) := by
  rw [leftBy]
  split_ifs with hkeep
  · rw [hkeep]
    exact attempted_self hg
  · have hclosed : g.Closed := by
      obtain ⟨order, hloaded⟩ := hg
      exact hloaded.isLoaded.closed
    have hrelabeling := Graph.isRelabeling_withNewVertexIds hclosed (oldColumns .plain policy).1
    refine ⟨hg.renumbered _, Graph.kinds_renumbered hclosed _, hrelabeling.vertexTypes_eq,
      fun hne name => (hrelabeling.mem_vertexPropertyNames_iff hne).trans ?_⟩
    cases policy with
    | auto => simp [oldColumns, savedColumn, eq_comm, Source.plain]
    | renumber => simp [oldColumns]
    | keep => exact absurd rfl hkeep

/-- Whether a configuration is refused is a matter of the kinds of edges. -/
lemma precheck_congr {g' : Graph} (h : g'.kinds.Perm g.kinds) :
    precheck .plain served config g' = .ok () ↔ precheck .plain served config g = .ok () := by
  rw [precheck_eq_ok_iff, precheck_eq_ok_iff, Graph.typed_congr h]

lemma saves_congr {g' : Graph} (h : g'.kinds.Perm g.kinds) (a : Attempt) :
    saves g' a = saves g a := by
  simp only [saves, precheck_congr h]

/-- An attempt that is not refused at once saves previous ids if that is its policy. -/
lemma attempted_attempt (hg : host.graph.Reachable) (a : Attempt) :
    Attempted host.graph (attempt host a).graph (saves host.graph a) := by
  rw [attempt, graph_of_build hg]
  cases hcheck : precheck .plain a.served a.config host.graph with
  | error c => simpa [saves, hcheck] using attempted_self hg
  | ok _ => simpa [saves, hcheck] using attempted_leftBy hg a.config.policy

/-- Attempts save previous ids as soon as one of them does. -/
lemma attempted_attemptAll (hg : host.graph.Reachable) (as : List Attempt) :
    Attempted host.graph (attemptAll host as).graph (as.any (saves host.graph)) := by
  induction as generalizing host with
  | nil => exact attempted_self hg
  | cons a as ih =>
    have hfirst := attempted_attempt hg a
    have hrest := ih hfirst.reachable
    have hsaves : saves (attempt host a).graph = saves host.graph :=
      funext (saves_congr hfirst.kinds)
    rw [hsaves] at hrest
    exact hfirst.trans hrest

/-! ### Default features -/

/-- The names of the properties of a graph and of what attempts save. -/
def namesAfter (g : Graph) (as : List Attempt) : List String :=
  if as.any (saves g) then Ascending.insert savedColumn g.vertexPropertyNames
  else g.vertexPropertyNames

lemma pairwise_namesAfter (g : Graph) (as : List Attempt) :
    (namesAfter g as).Pairwise (· < ·) := by
  have hnames : g.vertexPropertyNames.Pairwise (· < ·) := Ascending.pairwise_ofList _
  rw [namesAfter]
  split_ifs
  · exact Ascending.pairwise_insert hnames
  · exact hnames

lemma mem_namesAfter : name ∈ namesAfter g as ↔
    name ∈ g.vertexPropertyNames ∨ as.any (saves g) = true ∧ name = savedColumn := by
  rw [namesAfter]
  split_ifs with hsaved
  · rw [Ascending.mem_insert]
    tauto
  · simp [hsaved]

lemma vertexPropertyNames_attemptAll (hg : host.graph.Reachable)
    (hne : host.graph.vertexTypes ≠ []) (as : List Attempt) :
    (attemptAll host as).graph.vertexPropertyNames = namesAfter host.graph as :=
  List.Pairwise.eq_of_mem_iff (Ascending.pairwise_ofList _) (pairwise_namesAfter _ _) fun name =>
    ((attempted_attemptAll hg as).names hne name).trans mem_namesAfter.symm

/-- Saved ids are among the names of a feature exactly if some attempt saved them, they were not
loaded, and they are not the label. -/
lemma filter_namesAfter_eq_iff {label : String} :
    (namesAfter g as).filter (· ≠ label) = g.vertexPropertyNames.filter (· ≠ label) ↔
      as.any (saves g) = false ∨ savedColumn ∈ g.vertexPropertyNames ∨ savedColumn = label := by
  -- both lists ascend, so that the same names make them equal
  have hnames : g.vertexPropertyNames.Pairwise (· < ·) := Ascending.pairwise_ofList _
  constructor
  · intro heq
    by_contra hnot
    push Not at hnot
    obtain ⟨hsaved, hfresh, hlabel⟩ := hnot
    have hmem : savedColumn ∈ (namesAfter g as).filter (· ≠ label) := by
      rw [List.mem_filter, mem_namesAfter]
      exact ⟨.inr ⟨Bool.eq_true_of_not_eq_false hsaved, rfl⟩, decide_eq_true hlabel⟩
    rw [heq, List.mem_filter] at hmem
    exact hfresh hmem.1
  · intro h
    refine ((pairwise_namesAfter g as).filter _).eq_of_mem_iff (hnames.filter _) fun name => ?_
    rw [List.mem_filter, List.mem_filter, mem_namesAfter, decide_eq_true_iff]
    constructor
    · rintro ⟨hname | ⟨hsaved, rfl⟩, hlabel⟩
      · exact ⟨hname, hlabel⟩
      · rcases h with hnone | hloaded | heq
        · rw [hnone] at hsaved
          cases hsaved
        · exact ⟨hloaded, hlabel⟩
        · exact absurd heq hlabel
    · rintro ⟨hname, hlabel⟩
      exact ⟨.inl hname, hlabel⟩

/-- After any attempts over a graph that comes to be, a store is built with a default feature for
every vertex type that is made of the properties that were loaded, and of the saved ids if one of
the attempts saved them, but for the label. So it is made of the loaded properties alone exactly if
none of the attempts saved ids, or their property was loaded, or is the label. -/
theorem build_default_feature (hg : Graph.Reachable host.graph)
    (h : (build .plain served config).runOn (attemptAll host as) = (.ok s, host')) :
    ∀ group ∈ (attemptAll host as).graph.vertexTypes, ∃ r,
      s.tensors.registration? group config.featureName = some r ∧
      r.properties = (namesAfter host.graph as).filter (· ≠ config.labelName) ∧
      (r.properties = host.graph.vertexPropertyNames.filter (· ≠ config.labelName) ↔
        as.any (saves host.graph) = false ∨ savedColumn ∈ host.graph.vertexPropertyNames ∨
          savedColumn = config.labelName) := by
  intro group hgroup
  have hne : host.graph.vertexTypes ≠ [] := by
    rw [← (attempted_attemptAll hg as).types]
    exact List.ne_nil_of_mem hgroup
  have hnames := vertexPropertyNames_attemptAll hg hne as
  refine ⟨⟨config.featureName, (namesAfter host.graph as).filter (· ≠ config.labelName),
    config.propertyDType⟩, ?_, rfl, filter_namesAfter_eq_iff⟩
  rw [(build_settings h).1, ← hnames]
  exact TensorCatalog.registration?_defaults hgroup

/-- The outcome of building a second store over the site. -/
def secondSiteRun : Except StoreError Store × Host := (build .plain .cpu {}).runOn siteRun.2

/-- The second store over the site. -/
def secondSiteStore : Store := secondSiteRun.1.toOption.get (by decide +kernel)

lemma runOn_build_secondSite : (build .plain .cpu {}).runOn siteRun.2
    = (.ok secondSiteStore, secondSiteRun.2) :=
  Prod.ext (eq_ok_get _) rfl

/-- The feature of a page is made of its tag, its words and the id that it had before. -/
theorem build_default_feature_site :
    Graph.Reachable site ∧
      (build .plain .cpu {}).runOn (attemptAll { graph := site } [⟨.cpu, {}⟩])
        = (.ok secondSiteStore, secondSiteRun.2) ∧
      ∃ r, secondSiteStore.tensors.registration? "page" "x" = some r ∧
        r.properties = ["_VERTEX__old", "tag", "words"] := by
  have hfirst : attemptAll { graph := site } [⟨.cpu, {}⟩] = siteRun.2 := rfl
  have hrun := runOn_build_secondSite
  rw [← hfirst] at hrun
  obtain ⟨r, hr, hproperties, -⟩ := build_default_feature (by exact reachable_site) hrun "page"
    (by rw [hfirst]; decide +kernel)
  exact ⟨reachable_site, hrun, r, hr, hproperties.trans (by decide +kernel)⟩

/-- The ids that a first construction saved become a feature of the second store, though no page was
loaded with them. -/
theorem default_feature_takes_saved_ids :
    site.Reachable ∧ site.vertexPropertyNames = ["tag", "words"] ∧
      (build .plain .cpu {}).runOn { graph := site } = (.ok siteStore, siteRun.2) ∧
      (build .plain .cpu {}).runOn siteRun.2 = (.ok secondSiteStore, secondSiteRun.2) ∧
      (secondSiteStore.tensors.registration? "page" "x").map (·.properties)
        = some ["_VERTEX__old", "tag", "words"] := by
  refine ⟨reachable_site, ?_, runOn_build_site, runOn_build_secondSite, ?_⟩ <;> decide +kernel

end Store

end TypedGraph
