import TypedGraph.Proofs.Traversal
import TypedGraph.Store.Action

/-!
# Running actions

What an action gives on a host and what it leaves there, step by step. Two actions agree when hosts
with the same tables make them fail with the same error or give related results, and leave the same
tables behind; agreement is closed under every step of an action (`Agree.bind`). An action that
agrees with itself on the same tables reads them: a list of such actions has the outcomes that they
have one by one (`ReadsTables.outcome_mapM`).
-/

namespace TypedGraph

open Traversal

/-- Outcomes that are the same error or related results. -/
def OutcomesAgree {ε α β : Type} (P : α → β → Prop) : Except ε α → Except ε β → Prop
  | .ok a, .ok b => P a b
  | .error e, .error e' => e = e'
  | _, _ => False

lemma OutcomesAgree.mono {ε α β : Type} {P P' : α → β → Prop} {r : Except ε α} {r' : Except ε β}
    (h : OutcomesAgree P r r') (hP : ∀ a b, P a b → P' a b) : OutcomesAgree P' r r' := by
  cases r <;> cases r'
  · exact h
  · exact h.elim
  · exact h.elim
  · exact hP _ _ h

lemma OutcomesAgree.of_eq {ε α : Type} {P : α → α → Prop} (hP : ∀ a, P a a) (r : Except ε α) :
    OutcomesAgree P r r := by
  cases r with
  | error e => rfl
  | ok a => exact hP a

lemma OutcomesAgree.eq {ε α : Type} {r r' : Except ε α} (h : OutcomesAgree Eq r r') : r = r' := by
  cases r <;> cases r'
  · exact congrArg Except.error h
  · exact h.elim
  · exact h.elim
  · exact congrArg Except.ok h

lemma OutcomesAgree.bind {ε α β γ δ : Type} {P : α → β → Prop} {Q : γ → δ → Prop}
    {r : Except ε α} {r' : Except ε β} {f : α → Except ε γ} {f' : β → Except ε δ}
    (h : OutcomesAgree P r r') (hf : ∀ a b, P a b → OutcomesAgree Q (f a) (f' b)) :
    OutcomesAgree Q (r >>= f) (r' >>= f') := by
  cases r <;> cases r'
  · exact h
  · exact h.elim
  · exact h.elim
  · exact hf _ _ h

/-- Lists map to related lists, or fail alike, if their elements do. -/
lemma OutcomesAgree.mapM {ε α β γ : Type} {P : α → β → Prop} {f : γ → Except ε α}
    {f' : γ → Except ε β} (h : ∀ c, OutcomesAgree P (f c) (f' c)) (cs : List γ) :
    OutcomesAgree (List.Forall₂ P) (cs.mapM f) (cs.mapM f') := by
  induction cs with
  | nil => exact .nil
  | cons c cs ih =>
    have hc := h c
    rw [List.mapM_cons, List.mapM_cons]
    cases hf : f c <;> cases hf' : f' c <;> rw [hf, hf'] at hc
    · exact hc
    · exact hc.elim
    · exact hc.elim
    · cases hcs : cs.mapM f <;> cases hcs' : cs.mapM f' <;> rw [hcs, hcs'] at ih
      · exact ih
      · exact ih.elim
      · exact ih.elim
      · exact .cons hc ih

namespace Action

variable {α β γ δ : Type}

/-! ### Running -/

/-- The outcome of an action on a host, and the host that it leaves. -/
def runOn (x : Action α) (host : Host) : Except StoreError α × Host := x.run.run host

variable {host host' : Host} {a : α} {b : β} {e : StoreError}

@[simp] lemma runOn_pure (a : α) (host : Host) : (pure a : Action α).runOn host = (.ok a, host) :=
  rfl

@[simp] lemma runOn_throw (e : StoreError) (host : Host) :
    (throw e : Action α).runOn host = (.error e, host) := rfl

@[simp] lemma runOn_get (host : Host) : (get : Action Host).runOn host = (.ok host, host) := rfl

@[simp] lemma runOn_ofExcept (x : Except StoreError α) (host : Host) :
    (ofExcept x).runOn host = (x, host) := rfl

lemma runOn_bind (x : Action α) (f : α → Action β) (host : Host) :
    (x >>= f).runOn host =
      match x.runOn host with
      | (.ok a, host) => (f a).runOn host
      | (.error e, host) => (.error e, host) := by
  change (ExceptT.bindCont f (x.runOn host).1 : StateM Host _).run (x.runOn host).2 = _
  rcases x.runOn host with ⟨_ | _, _⟩ <;> rfl

lemma runOn_bind_ok {x : Action α} {f : α → Action β} (hx : x.runOn host = (.ok a, host')) :
    (x >>= f).runOn host = (f a).runOn host' := by
  rw [runOn_bind, hx]

lemma runOn_bind_error {x : Action α} {f : α → Action β}
    (hx : x.runOn host = (.error e, host')) : (x >>= f).runOn host = (.error e, host') := by
  rw [runOn_bind, hx]

/-- Steps that leave the host as it is run as their outcomes do. -/
lemma runOn_bind_kept {x : Action α} {f : α → Action β} {r : Except StoreError α}
    {g : α → Except StoreError β} (hx : x.runOn host = (r, host))
    (hf : ∀ a, (f a).runOn host = (g a, host)) : (x >>= f).runOn host = (r >>= g, host) := by
  cases r with
  | error e => exact runOn_bind_error hx
  | ok a => exact (runOn_bind_ok hx).trans (hf a)

lemma runOn_ofExcept_bind {x : Except StoreError α} {f : α → Action β}
    {g : α → Except StoreError β} (h : ∀ a, (f a).runOn host = (g a, host)) :
    (ofExcept x >>= f).runOn host = (x >>= g, host) :=
  runOn_bind_kept (runOn_ofExcept x host) h

/-- An action of two steps succeeds exactly if both do, one after the other. -/
lemma runOn_bind_eq_ok_iff {x : Action α} {f : α → Action β} :
    (x >>= f).runOn host = (.ok b, host') ↔
      ∃ a between, x.runOn host = (.ok a, between) ∧ (f a).runOn between = (.ok b, host') := by
  rw [runOn_bind]
  rcases x.runOn host with ⟨_ | a, between⟩
  · simp
  · simp

lemma runOn_ofExcept_eq_ok_iff {x : Except StoreError α} :
    (ofExcept x).runOn host = (.ok a, host') ↔ x = .ok a ∧ host' = host := by
  rw [runOn_ofExcept, Prod.mk.injEq, eq_comm (a := host)]

/-- A change of the tables leaves those of its operation. -/
lemma runOn_change_eq_ok_iff {operation : Graph → Except GraphError (α × Graph)} :
    (change operation).runOn host = (.ok a, host') ↔
      ∃ g, operation host.graph = .ok (a, g) ∧ host' = { host with graph := g } := by
  rw [change]
  rw [runOn_bind_ok (runOn_get host)]
  cases operation host.graph with
  | error e =>
    have hrun : (ofGraph (.error e : Except GraphError (α × Graph))).runOn host
        = (.error (.graph e), host) := rfl
    rw [runOn_bind_error hrun]
    simp
  | ok r =>
    have hrun : (ofGraph (.ok r : Except GraphError (α × Graph))).runOn host = (.ok r, host) := rfl
    rw [runOn_bind_ok hrun]
    constructor
    · intro h
      obtain ⟨hout, rfl⟩ := Prod.mk.inj h
      obtain rfl := Except.ok.inj hout
      exact ⟨r.2, rfl, rfl⟩
    · rintro ⟨g, h, rfl⟩
      obtain rfl := Except.ok.inj h
      rfl

lemma runOn_adapt (x : ExceptT GraphError (StateM Host) α) (host : Host) :
    runOn (ExceptT.adapt .graph x) host
      = ((x.run.run host).1.mapError .graph, (x.run.run host).2) := by
  change (Except.mapError StoreError.graph <$> x.run).run host = _
  rw [StateT.run_map]
  rfl

/-- Actions that run alike one by one do so as they follow one another. -/
lemma runOn_mapM_congr {f : γ → Action α} {f' : δ → Action α} {cs : List γ} {cs' : List δ}
    (h : List.Forall₂ (fun c c' => ∀ host, (f c).runOn host = (f' c').runOn host) cs cs')
    (host : Host) : (cs.mapM f).runOn host = (cs'.mapM f').runOn host := by
  induction h generalizing host with
  | nil => rfl
  | cons hc _ ih =>
    rw [List.mapM_cons, List.mapM_cons, runOn_bind, runOn_bind, hc]
    split
    · rw [runOn_bind, runOn_bind, ih]
    · rfl

/-- The first action that fails is the last one that runs. -/
lemma runOn_mapM_error {f : γ → Action α} {before after : List γ} {c : γ} {as : List α}
    {between : Host} (hbefore : (before.mapM f).runOn host = (.ok as, between))
    (hc : (f c).runOn between = (.error e, host')) :
    ((before ++ c :: after).mapM f).runOn host = (.error e, host') := by
  rw [List.mapM_append, runOn_bind_ok hbefore, List.mapM_cons]
  exact runOn_bind_error (runOn_bind_error hc)

lemma runOn_startFetch (fetch : Graph → Query → Except GraphError DelayedFrame) (q : Query)
    (host : Host) :
    (startFetch fetch q).runOn host = ((fetch host.graph q).mapError .graph, host) :=
  runOn_bind_ok (runOn_get host)

/-- A fetch that answers at once reads the tables and leaves the host as it is. -/
lemma runOn_ofFetch_ready (fetch : Graph → Query → Except GraphError Frame) (q : Query)
    (host : Host) :
    (ofFetch (fun g q => .ready <$> fetch g q) q).runOn host
      = ((fetch host.graph q).mapError .graph, host) := by
  have hstart := runOn_startFetch (fun g q => .ready <$> fetch g q) q host
  rw [ofFetch]
  cases hf : fetch host.graph q with
  | error e =>
    rw [hf] at hstart
    exact runOn_bind_error hstart
  | ok f =>
    rw [hf] at hstart
    exact runOn_bind_ok hstart

/-- A delayed fetch runs on the tables of the host and is counted there, whether it succeeds. -/
lemma runOn_ofFetch_delay (idColumn : String) (parts : Nat)
    (fetch : Graph → Query → Except GraphError Frame) (q : Query) (host : Host) :
    (ofFetch (fun _ q => .ok (Source.delay idColumn parts (fetch · q))) q).runOn host
      = (((fetch host.graph q).bind (Source.arrange idColumn parts)).mapError .graph,
          { host with forced := host.forced + 1 }) := by
  have hstart :=
    runOn_startFetch (fun _ q => .ok (Source.delay idColumn parts (fetch · q))) q host
  rw [ofFetch]
  exact (runOn_bind_ok hstart).trans (runOn_adapt _ host)

/-! ### Results and tables -/

/-- Whatever an action gives, on any host, has a property. -/
def Yields (P : α → Prop) (x : Action α) : Prop :=
  ∀ host host' a, x.runOn host = (.ok a, host') → P a

/-- An action leaves the tables of every host as they are. -/
def KeepsTables (x : Action α) : Prop := ∀ host, (x.runOn host).2.graph = host.graph

namespace Yields

variable {P : α → Prop} {Q : β → Prop} {x : Action α} {f : α → Action β}

lemma pure (h : P a) : Yields P (Pure.pure a) := by
  intro host host' b hb
  obtain ⟨rfl, -⟩ : a = b ∧ host = host' := by simpa using hb
  exact h

lemma throw (e : StoreError) : Yields P (MonadExcept.throw e) := by
  intro host host' a ha
  simp at ha

lemma bind (hx : Yields P x) (hf : ∀ a, P a → Yields Q (f a)) : Yields Q (x >>= f) := by
  intro host host' b hb
  obtain ⟨a, between, ha, hb⟩ := runOn_bind_eq_ok_iff.mp hb
  exact hf a (hx _ _ _ ha) _ _ _ hb

lemma throw_bind {e : StoreError} : Yields Q (MonadExcept.throw e >>= f) :=
  bind (P := fun _ => False) (throw e) fun _ h => h.elim

/-- The last step of an action decides what it gives. -/
lemma last (hf : ∀ a, Yields Q (f a)) : Yields Q (x >>= f) :=
  bind (P := fun _ => True) (fun _ _ _ _ => trivial) fun a _ => hf a

end Yields

namespace KeepsTables

variable {x : Action α} {f : α → Action β}

lemma pure (a : α) : KeepsTables (Pure.pure a) := fun _ => rfl

lemma throw (e : StoreError) : KeepsTables (MonadExcept.throw e : Action α) := fun _ => rfl

lemma ofExcept (x : Except StoreError α) : KeepsTables (.ofExcept x) := fun _ => rfl

lemma bind (hx : KeepsTables x) (hf : ∀ a, KeepsTables (f a)) : KeepsTables (x >>= f) := by
  intro host
  have hhost := hx host
  rw [runOn_bind]
  rcases hrun : x.runOn host with ⟨e | a, between⟩ <;> rw [hrun] at hhost
  · exact hhost
  · exact (hf a between).trans hhost

lemma throw_bind {e : StoreError} : KeepsTables (MonadExcept.throw e >>= f) := fun _ => rfl

/-- A fetch that answers at once leaves the tables as they are. -/
lemma ofFetch (fetch : Graph → Query → Except GraphError Frame) (q : Query) :
    KeepsTables (.ofFetch (fun g q => .ready <$> fetch g q) q) := by
  intro host
  rw [runOn_ofFetch_ready]

end KeepsTables

/-- An action that gives the same on every host and leaves each as it is. -/
def TouchesNoHost (x : Action α) : Prop := ∃ r, ∀ host, x.runOn host = (r, host)

namespace TouchesNoHost

variable {x : Action α} {f : α → Action β}

lemma ofExcept (r : Except StoreError α) : TouchesNoHost (.ofExcept r) := ⟨r, fun _ => rfl⟩

lemma bind (hx : TouchesNoHost x) (hf : ∀ a, TouchesNoHost (f a)) : TouchesNoHost (x >>= f) := by
  obtain ⟨r, hr⟩ := hx
  choose g hg using hf
  exact ⟨r >>= g, fun host => runOn_bind_kept (hr host) fun a => hg a host⟩

end TouchesNoHost

/-! ### Agreement -/

/-- Hosts with the same tables. -/
def SameTables (host host' : Host) : Prop := host.graph = host'.graph

/-- Hosts that both have some tables. -/
def BothOn (g : Graph) (host host' : Host) : Prop := host.graph = g ∧ host'.graph = g

/-- Actions that fail alike or give related results on related hosts, and leave related hosts. -/
def Agree (R : Host → Host → Prop) (P : α → β → Prop) (x : Action α) (y : Action β) : Prop :=
  ∀ host host' : Host, R host host' →
    OutcomesAgree P (x.runOn host).1 (y.runOn host').1 ∧ R (x.runOn host).2 (y.runOn host').2

namespace Agree

variable {R : Host → Host → Prop} {P : α → β → Prop} {Q : γ → δ → Prop} {x : Action α}
  {y : Action β}

lemma pure (h : P a b) : Agree R P (Pure.pure a) (Pure.pure b) := by
  intro host host' hR
  exact ⟨h, hR⟩

lemma throw (e : StoreError) : Agree R P (MonadExcept.throw e) (MonadExcept.throw e) := by
  intro host host' hR
  exact ⟨rfl, hR⟩

lemma get : Agree R R MonadState.get MonadState.get := by
  intro host host' hR
  exact ⟨hR, hR⟩

lemma ofExcept {x : Except StoreError α} {y : Except StoreError β} (h : OutcomesAgree P x y) :
    Agree R P (.ofExcept x) (.ofExcept y) := by
  intro host host' hR
  exact ⟨h, hR⟩

/-- Actions agree if their first steps do and related results lead on to actions that agree. -/
theorem bind {f : α → Action γ} {f' : β → Action δ} (h : Agree R P x y)
    (hf : ∀ a b, P a b → Agree R Q (f a) (f' b)) : Agree R Q (x >>= f) (y >>= f') := by
  intro host host' hR
  obtain ⟨hout, hleft⟩ := h host host' hR
  rw [runOn_bind, runOn_bind]
  rcases hx : x.runOn host with ⟨e | a, between⟩ <;>
    rcases hy : y.runOn host' with ⟨e' | b, between'⟩ <;>
    rw [hx, hy] at hout hleft
  · exact ⟨hout, hleft⟩
  · exact hout.elim
  · exact hout.elim
  · exact hf a b hout between between' hleft

lemma mono {P' : α → β → Prop} (h : Agree R P x y) (hP : ∀ a b, P a b → P' a b) :
    Agree R P' x y := by
  intro host host' hR
  obtain ⟨hout, hleft⟩ := h host host' hR
  exact ⟨hout.mono hP, hleft⟩

lemma of_bothOn (h : ∀ g, Agree (BothOn g) P x y) : Agree SameTables P x y := by
  intro host host' hR
  obtain ⟨hout, hleft, hleft'⟩ := h host.graph host host' ⟨rfl, hR.symm⟩
  exact ⟨hout, hleft.trans hleft'.symm⟩

/-- One operation on the same tables has one result and leaves the same tables. -/
lemma change (operation : Graph → Except GraphError (α × Graph)) :
    Agree SameTables Eq (.change operation) (.change operation) := by
  apply bind get
  intro host host' hg
  rw [show host.graph = host'.graph from hg]
  cases operation host'.graph with
  | error e => exact throw (.graph e)
  | ok r =>
    intro between between' hR
    exact ⟨rfl, rfl⟩

/-- Actions on the elements of a list agree if they agree on every element. -/
lemma mapM {f : γ → Action α} {f' : γ → Action β} (h : ∀ c, Agree R P (f c) (f' c))
    (cs : List γ) : Agree R (List.Forall₂ P) (cs.mapM f) (cs.mapM f') := by
  induction cs with
  | nil => exact pure .nil
  | cons c cs ih =>
    rw [List.mapM_cons, List.mapM_cons]
    apply bind (h c)
    intro a b hab
    apply bind ih
    intro as bs habs
    exact pure (.cons hab habs)

end Agree

/-! ### Reading the tables -/

/-- An action whose outcome the tables decide, and that leaves them as they are. -/
def ReadsTables (x : Action α) : Prop := ∀ g, Agree (BothOn g) Eq x x

namespace ReadsTables

variable {x : Action α} {f : α → Action β}

lemma of_runOn (answer : Graph → Except StoreError α) (left : Host → Host)
    (hleft : ∀ host, (left host).graph = host.graph)
    (h : ∀ host, x.runOn host = (answer host.graph, left host)) : ReadsTables x := by
  rintro g host host' ⟨rfl, hgraph⟩
  rw [h, h, hgraph]
  exact ⟨.of_eq (fun _ => rfl) _, hleft host, (hleft host').trans hgraph⟩

lemma of_touchesNoHost (hx : TouchesNoHost x) : ReadsTables x := by
  obtain ⟨r, hr⟩ := hx
  exact .of_runOn (fun _ => r) id (fun _ => rfl) hr

lemma bind (hx : ReadsTables x) (hf : ∀ a, ReadsTables (f a)) : ReadsTables (x >>= f) := by
  intro g
  refine (hx g).bind ?_
  rintro a _ rfl
  exact hf a g

lemma outcome_congr (hx : ReadsTables x) (h : host'.graph = host.graph) :
    (x.runOn host').1 = (x.runOn host).1 :=
  (hx host.graph host' host ⟨h, rfl⟩).1.eq

lemma keepsTables (hx : ReadsTables x) : KeepsTables x :=
  fun host => (hx host.graph host host ⟨rfl, rfl⟩).2.1

/-- Actions that read the tables have the outcomes that each of them has on its own. -/
lemma outcome_mapM {f : γ → Action α} (hf : ∀ c, ReadsTables (f c)) (cs : List γ) (host : Host) :
    ((cs.mapM f).runOn host).1 = cs.mapM fun c => ((f c).runOn host).1 := by
  induction cs generalizing host with
  | nil => rfl
  | cons c cs ih =>
    have hkeeps := (hf c).keepsTables host
    rw [List.mapM_cons, List.mapM_cons]
    -- an action that reads leaves the tables for the next one as they were, whatever it counts
    rcases hc : (f c).runOn host with ⟨e | a, between⟩ <;> rw [hc] at hkeeps
    · rw [runOn_bind_error hc]
      rfl
    · rw [runOn_bind_ok hc, ok_bind]
      have hrest : ((cs.mapM f).runOn between).1 = cs.mapM fun c => ((f c).runOn host).1 := by
        rw [ih]
        exact congrArg (cs.mapM ·) (funext fun c => (hf c).outcome_congr hkeeps)
      rcases hcs : (cs.mapM f).runOn between with ⟨e | as, left⟩ <;> rw [hcs] at hrest
      · rw [runOn_bind_error hcs, ← hrest]
        rfl
      · rw [runOn_bind_ok hcs, ← hrest]
        rfl

end ReadsTables

end Action

end TypedGraph
