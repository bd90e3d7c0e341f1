import Ancestry.Proofs.Walk.Answer
import Ancestry.Proofs.Walk.Steps

/-! Walks that begin with what earlier ones have left in the memo. However a walk ends, the memo
that it leaves knows all parents of each node that it knows. A walk that finds a node there goes
past it, where a walk with nothing known enters it, meets its ancestors higher on the stack and
comes back with the same linearizations. Main statement: unless the latter meets its limit, both
give the same answer (`Setting.linearize_eq_of_closed`). -/
namespace Ancestry

variable {α : Type} [DecidableEq α] [Hashable α]

/-- A memo that knows all parents of each node that it knows. -/
def Memo.Closed (parents : α → List α) (memo : Memo α) : Prop :=
  ∀ node ∈ memo, ∀ parent ∈ parents node, parent ∈ memo

theorem Memo.closed_empty (parents : α → List α) : Memo.Closed parents ∅ :=
  fun _ hNode => absurd hNode Std.HashMap.not_mem_empty

theorem Memo.Closed.insert {parents : α → List α} {memo : Memo α} {node : α}
    (h : Memo.Closed parents memo) (hParents : ∀ parent ∈ parents node, parent ∈ memo)
    (order : Linearization α) : Memo.Closed parents (memo.insert node order) := by
  intro other hOther parent hParent
  refine Std.HashMap.mem_insert.2 (.inr ?_)
  rcases Std.HashMap.mem_insert.1 hOther with hSame | hOld
  · obtain rfl : node = other := beq_iff_eq.1 hSame
    exact hParents parent hParent
  · exact h other hOld parent hParent

namespace Walk

variable {parents : α → List α} {limit : Nat} {requested : α}

section

variable {σ : Type} {setting : Setting σ α} {good : σ → Prop} {state : State σ α}

theorem State.Invariant.pending_subset (h : state.Invariant setting good requested) :
    state.stack.top.pending ⊆ setting.parents state.stack.top.node := by
  obtain ⟨turned, hTurned, _⟩ := h.known
  rw [← h.parents_eq, hTurned]
  exact List.subset_append_right _ _

theorem State.Invariant.parents_known (h : state.Invariant setting good requested)
    (hPending : state.stack.top.pending = []) :
    ∀ parent ∈ setting.parents state.stack.top.node, parent ∈ state.memo := by
  obtain ⟨turned, hTurned, hKnown⟩ := h.known
  rw [hPending, List.append_nil, h.parents_eq] at hTurned
  exact hTurned ▸ hKnown

/-- What the walk merges when it leaves the topmost node. -/
theorem State.Invariant.merge_eq (h : state.Invariant setting good requested)
    (hPending : state.stack.top.pending = []) {orders : α → Linearization α}
    (hOrders : ∀ parent ∈ setting.parents state.stack.top.node,
      Linearizes setting.parents parent (orders parent)) :
    setting.merge state.stack.top state.memo =
      merge setting.parents state.stack.top.node (setting.parents state.stack.top.node)
        ((setting.parents state.stack.top.node).map orders) := by
  have hKnown := h.parents_known hPending
  rw [Setting.merge, Frame.orders_eq (h.parents_eq ▸ hKnown), h.parents_eq,
    Linearizes.map_eq_map (fun parent hParent =>
      h.memo.linearizes_getD (hKnown parent hParent) ⟨parent, []⟩) hOrders]

end

/-- What holds of every state of a walk without a store that begins with a closed memo. -/
structure State.Remembers (parents : α → List α) (limit : Nat) (requested : α)
    (state : State Unit α) : Prop where
  invariant : state.Invariant ⟨parents, limit, .absent α⟩ (fun _ => True) requested
  closed : state.memo.Closed parents

section

variable {state : State Unit α}

theorem State.Remembers.of_step {next : State Unit α}
    (h : state.Remembers parents limit requested)
    (hStep : step ⟨parents, limit, .absent α⟩ requested state = .running next) :
    next.Remembers parents limit requested := by
  have hSound := h.invariant.step (Store.absent_sound parents)
  have hMoves := moves_step parents limit requested state
  rw [hStep] at hSound hMoves
  cases hSound with
  | running hInvariant =>
      cases hMoves with
      | passes => exact ⟨hInvariant, h.closed⟩
      | enters => exact ⟨hInvariant, h.closed⟩
      | returns hPending =>
          exact ⟨hInvariant, h.closed.insert (h.invariant.parents_known hPending) _⟩

/-- However the walk ends, its memo is closed. -/
theorem State.Remembers.run_closed (h : state.Remembers parents limit requested) :
    (run ⟨parents, limit, .absent α⟩ requested state).memo.Closed parents := by
  induction State.accessible ⟨parents, limit, .absent α⟩ requested state with
  | intro state _ ih =>
      have hMoves := moves_step parents limit requested state
      rw [run_eq]
      cases hStep : step ⟨parents, limit, .absent α⟩ requested state with
      | running next => exact ih next hStep (h.of_step hStep)
      | finished outcome =>
          rw [hStep] at hMoves
          cases hMoves with
          | stops => exact h.closed
          | clashes => exact h.closed
          | ends hPending => exact h.closed.insert (h.invariant.parents_known hPending) _

end

/-- The stack has the lower one as its lower part, and the frames above are those of known nodes. -/
inductive Stack.Rises (known : α → Prop) (lower : Stack α) : Stack α → Prop where
  | same : Stack.Rises known lower lower
  | push {stack : Stack α} {frame : Frame α} (hStack : Stack.Rises known lower stack)
      (hFrame : known frame.node) : Stack.Rises known lower (stack.push frame)

/-- Of two walks, the one that knows more is at `ahead`. The other one is at the same point or has
entered nodes that the first has gone past. -/
structure State.Trails (parents : α → List α) (limit : Nat) (requested : α)
    (ahead state : State Unit α) : Prop where
  ahead_remembers : ahead.Remembers parents limit requested
  remembers : state.Remembers parents limit requested
  known : ∀ node ∈ state.memo, node ∈ ahead.memo
  rises : ahead.stack.Rises (· ∈ ahead.memo) state.stack

/-- What a step of the walk that knows less leads to: it still trails the other one, which may have
taken a step too, or one of them has ended. -/
inductive Progress.Trails (parents : α → List α) (limit : Nat) (requested : α)
    (ahead : State Unit α) : Progress Unit α → Prop where
  | alone {next : State Unit α} (h : State.Trails parents limit requested ahead next) :
      Progress.Trails parents limit requested ahead (.running next)
  | together {next nextAhead : State Unit α}
      (hAhead : step ⟨parents, limit, .absent α⟩ requested ahead = .running nextAhead)
      (h : State.Trails parents limit requested nextAhead next) :
      Progress.Trails parents limit requested ahead (.running next)
  | stopped {outcome : Outcome Unit α} (hLimit : HitsLimit outcome.result) :
      Progress.Trails parents limit requested ahead (.finished outcome)
  | ended {outcome other : Outcome Unit α}
      (hAhead : step ⟨parents, limit, .absent α⟩ requested ahead = .finished other)
      (hLimit : ¬HitsLimit other.result) :
      Progress.Trails parents limit requested ahead (.finished outcome)

section

variable {ahead state : State Unit α} {stack : Stack α} {memo known : Memo α}

/-- At a node that the other walk knows, the walk can only go on or meet its limit: such a node has
a linearization. -/
theorem State.Trails.step_above {frame : Frame α}
    (h : State.Trails parents limit requested ahead ⟨stack.push frame, memo, ()⟩)
    (hStack : ahead.stack.Rises (· ∈ ahead.memo) stack) (hFrame : frame.node ∈ ahead.memo) :
    Progress.Trails parents limit requested ahead
      (step ⟨parents, limit, .absent α⟩ requested ⟨stack.push frame, memo, ()⟩) := by
  have hNext : ∀ next, step ⟨parents, limit, .absent α⟩ requested ⟨stack.push frame, memo, ()⟩ =
      .running next → next.Remembers parents limit requested := fun _ => h.remembers.of_step
  have hMoves := moves_step parents limit requested ⟨stack.push frame, memo, ()⟩
  generalize step ⟨parents, limit, .absent α⟩ requested ⟨stack.push frame, memo, ()⟩ =
    progress at hNext hMoves ⊢
  cases hMoves with
  | passes => exact .alone ⟨h.ahead_remembers, hNext _ rfl, h.known, .push hStack hFrame⟩
  | enters hPending =>
      rename_i parent pending _ _
      have hParent : parent ∈ parents frame.node :=
        h.remembers.invariant.pending_subset (by rw [hPending]; exact List.mem_cons_self)
      have hParentKnown := h.ahead_remembers.closed frame.node hFrame parent hParent
      exact .alone
        ⟨h.ahead_remembers, hNext _ rfl, h.known, .push (.push hStack hFrame) hParentKnown⟩
  | stops => exact .stopped ⟨_, _, _, _, rfl⟩
  | clashes hPending hMerge =>
      have hOrder := h.ahead_remembers.invariant.memo.linearizes_getD hFrame ⟨frame.node, []⟩
      obtain ⟨orders, hOrders, hOk⟩ := hOrder
      have hSame := h.remembers.invariant.merge_eq hPending hOrders
      rw [hMerge] at hSame
      exact absurd (hSame.trans hOk) (by simp)
  | returns _ _ hPop =>
      cases hPop
      refine .alone ⟨h.ahead_remembers, hNext _ rfl, fun node hNode => ?_, hStack⟩
      rcases Std.HashMap.mem_insert.1 hNode with hSame | hOld
      · exact beq_iff_eq.1 hSame ▸ hFrame
      · exact h.known node hOld
  | ends _ _ hPop => cases hPop

/-- At the same point, both walks take the same step, unless one of them enters a node that the
other goes past. -/
theorem State.Trails.step_same
    (h : State.Trails parents limit requested ⟨stack, known, ()⟩ ⟨stack, memo, ()⟩) :
    Progress.Trails parents limit requested ⟨stack, known, ()⟩
      (step ⟨parents, limit, .absent α⟩ requested ⟨stack, memo, ()⟩) := by
  have hNext : ∀ next, step ⟨parents, limit, .absent α⟩ requested ⟨stack, memo, ()⟩ =
      .running next → next.Remembers parents limit requested := fun _ => h.remembers.of_step
  have hMoves := moves_step parents limit requested ⟨stack, memo, ()⟩
  generalize step ⟨parents, limit, .absent α⟩ requested ⟨stack, memo, ()⟩ = progress
    at hNext hMoves ⊢
  have hMerge (hPending : stack.top.pending = []) :
      Setting.merge ⟨parents, limit, .absent α⟩ stack.top known =
        Setting.merge ⟨parents, limit, .absent α⟩ stack.top memo := by
    have hKnown := h.remembers.invariant.parents_known hPending
    have hOrders := fun parent hParent =>
      h.remembers.invariant.memo.linearizes_getD (hKnown parent hParent) ⟨parent, []⟩
    rw [h.ahead_remembers.invariant.merge_eq hPending hOrders,
      h.remembers.invariant.merge_eq hPending hOrders]
  have hPast (parent : α) (pending : List α) (hPending : stack.top.pending = parent :: pending)
      (hMember : parent ∈ known) :
      step ⟨parents, limit, .absent α⟩ requested ⟨stack, known, ()⟩ =
        .running ⟨stack.setTop { stack.top with pending }, known, ()⟩ := by
    have hFound : known[parent]? = some (known.getD parent ⟨parent, []⟩) :=
      Std.HashMap.getElem?_eq_some_getD hMember
    exact step_of_known hPending (lookup_of_known hFound)
  cases hMoves with
  | passes hPending hKnown =>
      have hMember := h.known _ (Std.HashMap.mem_iff_isSome_getElem?.2 (by rw [hKnown]; rfl))
      have hAhead := hPast _ _ hPending hMember
      exact .together hAhead ⟨h.ahead_remembers.of_step hAhead, hNext _ rfl, h.known, .same⟩
  | enters hPending hUnknown hRoom =>
      rename_i parent pending
      by_cases hMember : parent ∈ known
      · have hAhead := hPast _ _ hPending hMember
        exact .together hAhead
          ⟨h.ahead_remembers.of_step hAhead, hNext _ rfl, h.known, .push .same hMember⟩
      · have hAhead : step ⟨parents, limit, .absent α⟩ requested ⟨stack, known, ()⟩ = _ :=
          step_of_unknown hPending (lookup_absent (Std.HashMap.getElem?_eq_none hMember)) hRoom
        exact .together hAhead ⟨h.ahead_remembers.of_step hAhead, hNext _ rfl, h.known, .same⟩
  | stops => exact .stopped ⟨_, _, _, _, rfl⟩
  | clashes hPending hClash =>
      rw [← hMerge hPending] at hClash
      exact .ended (step_of_conflict hPending hClash) (not_hitsLimit_inconsistent _)
  | returns hPending hOk hPop =>
      rw [← hMerge hPending] at hOk
      have hAhead : step ⟨parents, limit, .absent α⟩ requested ⟨stack, known, ()⟩ = _ :=
        step_of_merged hPending hOk hPop
      refine .together hAhead
        ⟨h.ahead_remembers.of_step hAhead, hNext _ rfl, fun node hNode => ?_, .same⟩
      rcases Std.HashMap.mem_insert.1 hNode with hSame | hOld
      · exact Std.HashMap.mem_insert.2 (.inl hSame)
      · exact Std.HashMap.mem_insert.2 (.inr (h.known node hOld))
  | ends hPending hOk hPop =>
      rw [← hMerge hPending] at hOk
      exact .ended (step_of_last hPending hOk hPop) (not_hitsLimit_ok _)

theorem State.Trails.step (h : State.Trails parents limit requested ahead state) :
    Progress.Trails parents limit requested ahead
      (Walk.step ⟨parents, limit, .absent α⟩ requested state) := by
  have hRises := h.rises
  obtain ⟨stack, memo, ⟨⟩⟩ := state
  cases hRises with
  | same =>
      obtain ⟨stack, known, ⟨⟩⟩ := ahead
      exact h.step_same
  | push hStack hFrame => exact h.step_above hStack hFrame

/-- The walk that knows more does not meet the limit before the other one. -/
theorem State.Trails.hitsLimit (h : State.Trails parents limit requested ahead state)
    (hLimit : HitsLimit (run ⟨parents, limit, .absent α⟩ requested ahead).result) :
    HitsLimit (run ⟨parents, limit, .absent α⟩ requested state).result := by
  induction State.accessible ⟨parents, limit, .absent α⟩ requested state generalizing ahead with
  | intro state _ ih =>
      have hStep := h.step
      rw [run_eq]
      cases hNext : Walk.step ⟨parents, limit, .absent α⟩ requested state with
      | running next =>
          rw [hNext] at hStep
          cases hStep with
          | alone hTrails => exact ih next hNext hTrails hLimit
          | together hAhead hTrails =>
              exact ih next hNext hTrails (run_of_running hAhead ▸ hLimit)
      | finished outcome =>
          rw [hNext] at hStep
          cases hStep with
          | stopped hStopped => exact hStopped
          | ended hAhead hEnded => exact absurd (run_of_finished hAhead ▸ hLimit) hEnded

end

/-- The state in which a walk begins. -/
theorem State.Remembers.enter {memo : Memo α} (hMemo : memo.Sound parents)
    (hClosed : memo.Closed parents) (node : α) :
    State.Remembers parents limit node ⟨.single ⟨node, parents node, parents node⟩, memo, ()⟩ :=
  ⟨.enter hMemo trivial node, hClosed⟩

section

variable {memo : Memo α}

/-- However a walk ends, it leaves a closed memo if it begins with one. -/
theorem Setting.linearize_closed (hMemo : memo.Sound parents) (hClosed : memo.Closed parents)
    (limit : Nat) (node : α) :
    (Setting.linearize ⟨parents, limit, .absent α⟩ node memo ()).memo.Closed parents := by
  cases hLookup : memo[node]? with
  | some found =>
      rw [Setting.linearize, lookup_of_known hLookup]
      exact hClosed
  | none =>
      rw [Setting.linearize, lookup_absent hLookup]
      exact (State.Remembers.enter hMemo hClosed node).run_closed

/-- A walk that begins with a closed memo of linearizations gives the same answer as one that
begins with nothing known, unless the latter meets its limit. -/
theorem Setting.linearize_eq_of_closed (hMemo : memo.Sound parents)
    (hClosed : memo.Closed parents) {limit : Nat} {node : α}
    (hLimit : ¬HitsLimit (Ancestry.linearize parents node limit)) :
    (Setting.linearize ⟨parents, limit, .absent α⟩ node memo ()).result =
      Ancestry.linearize parents node limit := by
  refine (linearize_absent_sound limit hMemo node).answer.unique
    (linearize_answer parents node limit) (fun hHits => hLimit ?_) hLimit
  have hUnknown : (∅ : Memo α)[node]? = none := Std.HashMap.getElem?_empty
  rw [Ancestry.linearize, Setting.linearize, lookup_absent hUnknown]
  cases hLookup : memo[node]? with
  | some found =>
      rw [Setting.linearize, lookup_of_known hLookup] at hHits
      exact absurd hHits (not_hitsLimit_ok found)
  | none =>
      rw [Setting.linearize, lookup_absent hLookup] at hHits
      have hFresh : State.Remembers parents limit node _ :=
        .enter (Memo.sound_empty parents) (Memo.closed_empty parents) node
      exact State.Trails.hitsLimit ⟨.enter hMemo hClosed node, hFresh,
        fun _ hNode => absurd hNode Std.HashMap.not_mem_empty, .same⟩ hHits

end

end Walk

end Ancestry
