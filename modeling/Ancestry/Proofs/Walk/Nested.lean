import Ancestry.Proofs.Cache.Holds
import Ancestry.Proofs.Merge.Steps
import Ancestry.Proofs.Walk.Effort

/-! Walks inside of walks. A node is merged from the linearizations in the memo, and a parent that
the memo lacked would have to be linearized there and then, by a walk of its own that the stack does
not show. Main statement: no merge comes to that (`Stage.merges_from_memo`). It holds of whatever
such a walk would do, over all runs of a linearizer, each with its own limit and store, and for a
store that others change between any two uses; the runs that nobody disturbs are among these
(`Stage.Reached.linearize`). -/
namespace Ancestry.Walk

variable {σ α : Type} [DecidableEq α] [Hashable α]

/-- The linearization of a node from the memo or, failing that, by another walk. -/
def fetch (walk : α → Memo α → σ → Outcome σ α) (node : α) (memo : Memo α) (store : σ) :
    Outcome σ α :=
  match memo[node]? with
  | some found => ⟨.ok found, memo, store⟩
  | none => walk node memo store

/-- The linearizations of the nodes, one after the other, up to the first failure. -/
def gather (walk : α → Memo α → σ → Outcome σ α) :
    List α → Memo α → σ → Except (Failure α) (List (Linearization α)) × Memo α × σ
  | [], memo, store => (.ok [], memo, store)
  | node :: nodes, memo, store =>
    match fetch walk node memo store with
    | ⟨.error failure, memo, store⟩ => (.error failure, memo, store)
    | ⟨.ok order, memo, store⟩ =>
      let (orders, memo, store) := gather walk nodes memo store
      (orders.map (order :: ·), memo, store)

/-- What a walk within another walk leads to. The walk goes on with the memo and the store that it
leaves behind. -/
abbrev NestedWalk (σ α : Type) [DecidableEq α] [Hashable α] :=
  Setting σ α → α → Memo α → σ → Outcome σ α

/-- Leaves the topmost node as `leave` does, but has the parents walked from that the memo lacks. -/
def leaveNested (nested : NestedWalk σ α) (setting : Setting σ α) (state : State σ α) :
    Progress σ α :=
  let frame := state.stack.top
  match gather (nested setting) frame.parents state.memo state.store with
  | (.error failure, memo, store) => .finished ⟨.error failure, memo, store⟩
  | (.ok orders, memo, store) =>
    match merge setting.parents frame.node frame.parents orders with
    | .error conflict => .finished ⟨.error (.inconsistent conflict), memo, store⟩
    | .ok order => leaveWith setting order { state with memo, store }

/-- One step of a walk that may need others. -/
def stepNested (nested : NestedWalk σ α) (setting : Setting σ α) (requested : α)
    (state : State σ α) : Progress σ α :=
  match state.stack.top.pending with
  | parent :: pending => turnTo setting requested parent pending state
  | [] => leaveNested nested setting state

/-- A linearizer at rest, with what its runs have found out, or in the middle of a run. -/
inductive Stage (σ α : Type) [DecidableEq α] [Hashable α] where
  | resting (memo : Memo α)
  | walking (setting : Setting σ α) (requested : α) (state : State σ α)

namespace Stage

/-- How a linearizer comes from one stage to the next. Before each run, its limit and its store may
be replaced. A store that finds nothing and keeps nothing is as good as none. -/
inductive Next (parents : α → List α) (nested : NestedWalk σ α) : Stage σ α → Stage σ α → Prop
  | answers {store : Store σ α} {node : α} {memo known : Memo α} {stored left : σ}
      {found : Linearization α}
      (hLookup : lookup store node memo stored = (some found, known, left)) :
      Next parents nested (.resting memo) (.resting known)
  | begins {limit : Nat} {store : Store σ α} {node : α} {memo known : Memo α} {stored left : σ}
      (hLookup : lookup store node memo stored = (none, known, left)) :
      Next parents nested (.resting memo)
        (.walking ⟨parents, limit, store⟩ node
          ⟨.single (Setting.enter ⟨parents, limit, store⟩ node), known, left⟩)
  | goesOn {setting : Setting σ α} {requested : α} {state next : State σ α}
      (hStep : stepNested nested setting requested state = .running next) :
      Next parents nested (.walking setting requested state) (.walking setting requested next)
  | ends {setting : Setting σ α} {requested : α} {state : State σ α} {outcome : Outcome σ α}
      (hStep : stepNested nested setting requested state = .finished outcome) :
      Next parents nested (.walking setting requested state) (.resting outcome.memo)
  /-- Others change what is stored, in any way. -/
  | disturbed {setting : Setting σ α} {requested : α} {state : State σ α} (store : σ) :
      Next parents nested (.walking setting requested state)
        (.walking setting requested { state with store })

/-- The stages of a linearizer that starts with nothing known. -/
abbrev Reached (parents : α → List α) (nested : NestedWalk σ α) : Stage σ α → Prop :=
  Relation.ReflTransGen (Next parents nested) (.resting ∅)

/-- In the middle of a run, the walk is as it should be. -/
def InOrder (parents : α → List α) : Stage σ α → Prop
  | .resting _ => True
  | .walking setting requested state =>
    setting.parents = parents ∧ state.InOrder setting requested

end Stage

section

variable {walk : α → Memo α → σ → Outcome σ α} {memo : Memo α} {store : σ}

/-- Among known nodes, no other walk is needed. -/
theorem gather_of_known {nodes : List α} (hKnown : ∀ node ∈ nodes, node ∈ memo) :
    gather walk nodes memo store = (.ok (nodes.filterMap (memo[·]?)), memo, store) := by
  induction nodes with
  | nil => rfl
  | cons node nodes ih =>
      have hNode : memo[node]? = some _ :=
        Std.HashMap.getElem?_eq_some_getElem (hKnown node List.mem_cons_self)
      have hNodes := ih fun other hOther => hKnown other (List.mem_cons_of_mem _ hOther)
      simp only [gather, fetch, hNode, hNodes, List.filterMap_cons]
      rfl

/-- The orders of a frame whose parents are all known: one for each parent, and that parent's. -/
theorem Frame.map_some_orders {frame : Frame α} (hKnown : ∀ parent ∈ frame.parents, parent ∈ memo) :
    (frame.orders memo).map some = frame.parents.map (memo[·]?) := by
  rw [Frame.orders_eq hKnown, List.map_map]
  exact List.map_congr_left fun parent hParent =>
    (Std.HashMap.getElem?_eq_some_getD (hKnown parent hParent)).symm

end

section

variable {nested : NestedWalk σ α} {setting : Setting σ α} {requested : α} {state : State σ α}

theorem State.InOrder.gather_eq (h : state.InOrder setting requested)
    (hPending : state.stack.top.pending = []) :
    gather (nested setting) state.stack.top.parents state.memo state.store =
      (.ok (state.stack.top.orders state.memo), state.memo, state.store) :=
  gather_of_known (h.forall_parents_mem hPending)

theorem State.InOrder.leaveNested_eq (h : state.InOrder setting requested)
    (hPending : state.stack.top.pending = []) :
    leaveNested nested setting state = leave setting state := by
  cases hMerge : merge setting.parents state.stack.top.node state.stack.top.parents
      (state.stack.top.orders state.memo) with
  | error conflict =>
      simp only [leaveNested, h.gather_eq hPending, leave, Setting.merge, hMerge]
  | ok order =>
      simp only [leaveNested, h.gather_eq hPending, leave, Setting.merge, hMerge]

/-- A walk in order needs no other walk for its next step. -/
theorem State.InOrder.stepNested_eq (h : state.InOrder setting requested) :
    stepNested nested setting requested state = step setting requested state := by
  cases hPending : state.stack.top.pending with
  | cons parent pending => simp only [stepNested, step, hPending]
  | nil =>
      simp only [stepNested, step, hPending]
      exact h.leaveNested_eq hPending

end

namespace Stage

variable {parents : α → List α} {nested : NestedWalk σ α} {stage next : Stage σ α}

theorem InOrder.of_next (h : stage.InOrder parents) (hNext : Next parents nested stage next) :
    next.InOrder parents := by
  cases hNext with
  | answers => trivial
  | begins => exact ⟨rfl, .enter _ _ _ _⟩
  | goesOn hStep =>
      obtain ⟨hParents, hState⟩ := h
      rw [hState.stepNested_eq] at hStep
      exact ⟨hParents, hState.of_follows hStep⟩
  | ends => trivial
  | disturbed =>
      -- What is stored plays no part in the order of a state.
      obtain ⟨hParents, hState⟩ := h
      exact ⟨hParents, hState.parents_eq, hState.known, hState.waits, hState.height_le⟩

theorem Reached.inOrder (h : Reached parents nested stage) : stage.InOrder parents := by
  induction h with
  | refl => trivial
  | tail _ hNext ih => exact ih.of_next hNext

variable {setting : Setting σ α} {requested : α} {state : State σ α}

theorem Reached.follows {later : State σ α}
    (h : Reached parents nested (.walking setting requested state))
    (hStep : Follows setting requested later state) :
    Reached parents nested (.walking setting requested later) :=
  h.tail (.goesOn (h.inOrder.2.stepNested_eq.trans hStep))

theorem Reached.disturbed (h : Reached parents nested (.walking setting requested state))
    (store : σ) :
    Reached parents nested (.walking setting requested { state with store }) :=
  h.tail (.disturbed store)

theorem Reached.run (h : Reached parents nested (.walking setting requested state)) :
    Reached parents nested (.resting (run setting requested state).memo) := by
  obtain ⟨count, -, hEnds⟩ := exists_endsAfter setting requested state
  generalize Walk.run setting requested state = outcome at hEnds ⊢
  induction hEnds with
  | last hStep => exact h.tail (.ends (h.inOrder.2.stepNested_eq.trans hStep))
  | more hStep _ ih => exact ih (h.follows hStep)

/-- A run that nobody disturbs leads from one stage at rest to another. -/
theorem Reached.linearize {memo : Memo α} (h : Reached parents nested (.resting memo))
    (limit : Nat) (store : Store σ α) (node : α) (stored : σ) :
    Reached parents nested
      (.resting (Setting.linearize ⟨parents, limit, store⟩ node memo stored).memo) := by
  unfold Setting.linearize
  split
  · rename_i hLookup
    exact h.tail (.answers hLookup)
  · rename_i hLookup
    exact Reached.run (h.tail (.begins hLookup))

/-- Whatever a walk within another walk would do, none is ever taken up. At each stage that a
linearizer comes to in the middle of a run, its next step is that of a walk which only merges what
its memo has. When it comes to leave a node, all parents of the node are in the memo, and what is
merged are the linearizations there, one for each parent in the order of the parents. -/
theorem merges_from_memo (h : Reached parents nested (.walking setting requested state)) :
    stepNested nested setting requested state = step setting requested state ∧
    (state.stack.top.pending = [] →
      let frame := state.stack.top
      let orders := frame.orders state.memo
      frame.parents = parents frame.node ∧
      (∀ parent ∈ frame.parents, parent ∈ state.memo) ∧
      gather (nested setting) frame.parents state.memo state.store =
        (.ok orders, state.memo, state.store) ∧
      orders.map some = frame.parents.map (state.memo[·]?)) := by
  obtain ⟨hParents, hState⟩ := h.inOrder
  refine ⟨hState.stepNested_eq, fun hPending => ?_⟩
  have hKnown := hState.forall_parents_mem hPending
  refine ⟨?_, hKnown, hState.gather_eq hPending, Frame.map_some_orders hKnown⟩
  rw [hState.parents_eq, hParents]

/-- Two leaves and their child. -/
def pairedParents : Nat → List Nat
  | 0 => [1, 2]
  | _ => []

/-- The first leaf is found in the cache, the second one is entered. The cache is emptied after
each. -/
theorem merges_from_memo_paired :
    let setting : Setting (OrderCache Nat) Nat := ⟨pairedParents, 2, OrderCache.storeFor 0 Nat⟩
    let memo : Memo Nat := ((∅ : Memo Nat).insert 1 ⟨1, []⟩).insert 2 ⟨2, []⟩
    let emptied : OrderCache Nat := Cache.empty 16 fun _ => 0
    let state : State (OrderCache Nat) Nat := ⟨.single ⟨0, [1, 2], []⟩, memo, emptied⟩
    Reached pairedParents Setting.linearize (.walking setting 0 state) ∧
    stepNested Setting.linearize setting 0 state = step setting 0 state ∧
    (∀ parent ∈ [1, 2], parent ∈ memo) ∧ emptied.stored? (0, 1) = none ∧
    gather setting.linearize [1, 2] memo emptied = (.ok [⟨1, []⟩, ⟨2, []⟩], memo, emptied) := by
  intro setting memo emptied state
  let cache : OrderCache Nat := emptied.insert (0, 1) ⟨1, []⟩
  have hEntry (node : Nat) :
      cache.stored? (0, node) = if node = 1 then some ⟨1, []⟩ else none := by
    rw [Cache.stored?_single _ _ _ _ (by decide)]
    simp [eq_comm]
  have hEmptied (node : Nat) : emptied.stored? (0, node) = none := Cache.stored?_empty _ _ _
  have hBegins : Reached pairedParents Setting.linearize
      (.walking setting 0 ⟨.single ⟨0, [1, 2], [1, 2]⟩, ∅, (cache.get (0, 0)).2⟩) :=
    .single (.begins (OrderCache.lookup_of_no_entry Std.HashMap.getElem?_empty (hEntry 0)))
  have hPasses : Reached pairedParents Setting.linearize
      (.walking setting 0 ⟨.single ⟨0, [1, 2], [2]⟩, (∅ : Memo Nat).insert 1 ⟨1, []⟩, emptied⟩) :=
    (hBegins.follows (step_of_known rfl (OrderCache.lookup_of_stored? Std.HashMap.getElem?_empty
      ((Cache.stored?_get _ _ _).trans (hEntry 1))))).disturbed emptied
  have hEnters : Reached pairedParents Setting.linearize
      (.walking setting 0 ⟨(Stack.single ⟨0, [1, 2], []⟩).push ⟨2, [], []⟩,
        (∅ : Memo Nat).insert 1 ⟨1, []⟩, (emptied.get (0, 2)).2⟩) :=
    hPasses.follows (step_of_unknown rfl
      (OrderCache.lookup_of_no_entry (by simp) (hEmptied 2)) (by decide))
  have hReached : Reached pairedParents Setting.linearize (.walking setting 0 state) :=
    (hEnters.follows (step_of_merged rfl (Merge.merge_nil _ _) rfl)).disturbed emptied
  obtain ⟨hStep, hMerge⟩ := merges_from_memo hReached
  obtain ⟨_, hKnown, hGather, _⟩ := hMerge rfl
  refine ⟨hReached, hStep, hKnown, hEmptied 1, hGather.trans ?_⟩
  simp [state, memo, Frame.orders, Stack.single, Std.HashMap.getElem_insert]

end Stage

end Ancestry.Walk
