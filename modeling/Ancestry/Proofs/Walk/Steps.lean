import Ancestry.Walk

/-! A walk, step by step: one lemma for each way in which a step can go, all ways together
(`Advances`, and `Moves` for a walk without a store), and the way from a node to its parents and
back (`Visits`). -/
namespace Ancestry.Walk

variable {σ α : Type} [DecidableEq α] [Hashable α]

theorem lookup_of_known {store : Store σ α} {node : α} {memo : Memo α} {stored : σ}
    {found : Linearization α} (h : memo[node]? = some found) :
    lookup store node memo stored = (some found, memo, stored) := by
  simp only [lookup, h]

theorem lookup_absent {node : α} {memo : Memo α} (h : memo[node]? = none) :
    lookup (Store.absent α) node memo () = (none, memo, ()) := by
  simp only [lookup, h, Store.absent]

section

variable {setting : Setting σ α} {requested : α} {state : State σ α}

theorem run_of_running {next : State σ α} (h : step setting requested state = .running next) :
    run setting requested state = run setting requested next := by
  rw [run_eq, h]

theorem run_of_finished {outcome : Outcome σ α}
    (h : step setting requested state = .finished outcome) :
    run setting requested state = outcome := by
  rw [run_eq, h]

section

variable {parent : α} {pending : List α} {memo : Memo α} {store : σ}

/-- The walk goes past a parent that is known. -/
theorem step_of_known {found : Linearization α}
    (hPending : state.stack.top.pending = parent :: pending)
    (hLookup : lookup setting.store parent state.memo state.store = (some found, memo, store)) :
    step setting requested state =
      .running ⟨state.stack.setTop { state.stack.top with pending }, memo, store⟩ := by
  simp only [step, hPending, turnTo, hLookup]

/-- The walk enters a parent that is not known, if the stack is not full. -/
theorem step_of_unknown (hPending : state.stack.top.pending = parent :: pending)
    (hLookup : lookup setting.store parent state.memo state.store = (none, memo, store))
    (hHeight : state.stack.height < setting.limit) :
    step setting requested state =
      .running ⟨(state.stack.setTop { state.stack.top with pending }).push (setting.enter parent),
        memo, store⟩ := by
  have hOpen : ¬setting.limit ≤ (state.stack.setTop { state.stack.top with pending }).height :=
    Nat.not_le_of_lt hHeight
  simp only [step, hPending, turnTo, hLookup, if_neg hOpen]

/-- The walk ends at a parent that is not known, if the stack is full. -/
theorem step_of_full (hPending : state.stack.top.pending = parent :: pending)
    (hLookup : lookup setting.store parent state.memo state.store = (none, memo, store))
    (hHeight : setting.limit ≤ state.stack.height) :
    step setting requested state =
      .finished ⟨.error (.tooDeep requested parent setting.limit state.stack.chain), memo,
        store⟩ := by
  have hFull : setting.limit ≤ (state.stack.setTop { state.stack.top with pending }).height :=
    hHeight
  simp only [step, hPending, turnTo, hLookup, if_pos hFull]
  simp only [Stack.chain, Stack.setTop, List.reverse_cons, List.map_append, List.map_cons]

end

section

variable {order : Linearization α}

/-- The walk goes back to the node below when it knows all parents of the topmost one. -/
theorem step_of_merged {stack : Stack α} (hPending : state.stack.top.pending = [])
    (hMerge : setting.merge state.stack.top state.memo = .ok order)
    (hPop : state.stack.pop? = some stack) :
    step setting requested state =
      .running ⟨stack, state.memo.insert state.stack.top.node order,
        setting.store.keep state.stack.top.node order state.store⟩ := by
  simp only [step, hPending, leave, hMerge, leaveWith, hPop]

/-- The walk ends when no node is below. -/
theorem step_of_last (hPending : state.stack.top.pending = [])
    (hMerge : setting.merge state.stack.top state.memo = .ok order)
    (hPop : state.stack.pop? = none) :
    step setting requested state =
      .finished ⟨.ok order, state.memo.insert state.stack.top.node order,
        setting.store.keep state.stack.top.node order state.store⟩ := by
  simp only [step, hPending, leave, hMerge, leaveWith, hPop]

/-- The walk ends at a node with parents whose linearizations cannot be merged. -/
theorem step_of_conflict {conflict : Conflict α} (hPending : state.stack.top.pending = [])
    (hMerge : setting.merge state.stack.top state.memo = .error conflict) :
    step setting requested state =
      .finished ⟨.error (.inconsistent conflict), state.memo, state.store⟩ := by
  simp only [step, hPending, leave, hMerge]

end

end

/-- The ways in which a step of a walk can go, whatever the store does when it is used. -/
inductive Advances (setting : Setting σ α) (requested : α) (state : State σ α) :
    Progress σ α → Prop where
  | passes {parent : α} {pending : List α} {found : Linearization α} {memo : Memo α} {store : σ}
      (hPending : state.stack.top.pending = parent :: pending)
      (hLookup : lookup setting.store parent state.memo state.store = (some found, memo, store)) :
      Advances setting requested state
        (.running ⟨state.stack.setTop { state.stack.top with pending }, memo, store⟩)
  | enters {parent : α} {pending : List α} {memo : Memo α} {store : σ}
      (hPending : state.stack.top.pending = parent :: pending)
      (hLookup : lookup setting.store parent state.memo state.store = (none, memo, store))
      (hRoom : state.stack.height < setting.limit) :
      Advances setting requested state
        (.running ⟨(state.stack.setTop { state.stack.top with pending }).push
          (setting.enter parent), memo, store⟩)
  | stops {parent : α} {pending : List α} {memo : Memo α} {store : σ}
      (hPending : state.stack.top.pending = parent :: pending)
      (hLookup : lookup setting.store parent state.memo state.store = (none, memo, store))
      (hFull : setting.limit ≤ state.stack.height) :
      Advances setting requested state
        (.finished ⟨.error (.tooDeep requested parent setting.limit state.stack.chain), memo,
          store⟩)
  | clashes {conflict : Conflict α} (hPending : state.stack.top.pending = [])
      (hMerge : setting.merge state.stack.top state.memo = .error conflict) :
      Advances setting requested state
        (.finished ⟨.error (.inconsistent conflict), state.memo, state.store⟩)
  | returns {order : Linearization α} {stack : Stack α} (hPending : state.stack.top.pending = [])
      (hMerge : setting.merge state.stack.top state.memo = .ok order)
      (hPop : state.stack.pop? = some stack) :
      Advances setting requested state
        (.running ⟨stack, state.memo.insert state.stack.top.node order,
          setting.store.keep state.stack.top.node order state.store⟩)
  | ends {order : Linearization α} (hPending : state.stack.top.pending = [])
      (hMerge : setting.merge state.stack.top state.memo = .ok order)
      (hPop : state.stack.pop? = none) :
      Advances setting requested state
        (.finished ⟨.ok order, state.memo.insert state.stack.top.node order,
          setting.store.keep state.stack.top.node order state.store⟩)

theorem advances_step (setting : Setting σ α) (requested : α) (state : State σ α) :
    Advances setting requested state (step setting requested state) := by
  cases hPending : state.stack.top.pending with
  | cons parent pending =>
      cases hLookup : lookup setting.store parent state.memo state.store with
      | mk found? rest =>
          obtain ⟨memo, store⟩ := rest
          cases found? with
          | some found =>
              rw [step_of_known hPending hLookup]
              exact .passes hPending hLookup
          | none =>
              by_cases hRoom : state.stack.height < setting.limit
              · rw [step_of_unknown hPending hLookup hRoom]
                exact .enters hPending hLookup hRoom
              · have hFull : setting.limit ≤ state.stack.height := Nat.le_of_not_lt hRoom
                rw [step_of_full hPending hLookup hFull]
                exact .stops hPending hLookup hFull
  | nil =>
      cases hMerge : setting.merge state.stack.top state.memo with
      | error conflict =>
          rw [step_of_conflict hPending hMerge]
          exact .clashes hPending hMerge
      | ok order =>
          cases hPop : state.stack.pop? with
          | some stack =>
              rw [step_of_merged hPending hMerge hPop]
              exact .returns hPending hMerge hPop
          | none =>
              rw [step_of_last hPending hMerge hPop]
              exact .ends hPending hMerge hPop

/-- The ways in which a step of a walk without a store can go. -/
inductive Moves (parents : α → List α) (limit : Nat) (requested : α) (state : State Unit α) :
    Progress Unit α → Prop where
  | passes {parent : α} {pending : List α} {found : Linearization α}
      (hPending : state.stack.top.pending = parent :: pending)
      (hKnown : state.memo[parent]? = some found) :
      Moves parents limit requested state
        (.running ⟨state.stack.setTop { state.stack.top with pending }, state.memo, ()⟩)
  | enters {parent : α} {pending : List α}
      (hPending : state.stack.top.pending = parent :: pending)
      (hUnknown : state.memo[parent]? = none) (hRoom : state.stack.height < limit) :
      Moves parents limit requested state
        (.running ⟨(state.stack.setTop { state.stack.top with pending }).push
          ⟨parent, parents parent, parents parent⟩, state.memo, ()⟩)
  | stops {parent : α} {pending : List α}
      (hPending : state.stack.top.pending = parent :: pending)
      (hUnknown : state.memo[parent]? = none) (hFull : limit ≤ state.stack.height) :
      Moves parents limit requested state
        (.finished ⟨.error (.tooDeep requested parent limit state.stack.chain), state.memo, ()⟩)
  | clashes {conflict : Conflict α} (hPending : state.stack.top.pending = [])
      (hMerge : Setting.merge ⟨parents, limit, .absent α⟩ state.stack.top state.memo =
        .error conflict) :
      Moves parents limit requested state
        (.finished ⟨.error (.inconsistent conflict), state.memo, ()⟩)
  | returns {order : Linearization α} {stack : Stack α}
      (hPending : state.stack.top.pending = [])
      (hMerge : Setting.merge ⟨parents, limit, .absent α⟩ state.stack.top state.memo = .ok order)
      (hPop : state.stack.pop? = some stack) :
      Moves parents limit requested state
        (.running ⟨stack, state.memo.insert state.stack.top.node order, ()⟩)
  | ends {order : Linearization α} (hPending : state.stack.top.pending = [])
      (hMerge : Setting.merge ⟨parents, limit, .absent α⟩ state.stack.top state.memo = .ok order)
      (hPop : state.stack.pop? = none) :
      Moves parents limit requested state
        (.finished ⟨.ok order, state.memo.insert state.stack.top.node order, ()⟩)

theorem moves_step (parents : α → List α) (limit : Nat) (requested : α) (state : State Unit α) :
    Moves parents limit requested state (step ⟨parents, limit, .absent α⟩ requested state) := by
  cases hPending : state.stack.top.pending with
  | cons parent pending =>
      cases hKnown : state.memo[parent]? with
      | some found =>
          rw [step_of_known hPending (lookup_of_known hKnown)]
          exact .passes hPending hKnown
      | none =>
          by_cases hRoom : state.stack.height < limit
          · rw [step_of_unknown hPending (lookup_absent hKnown) hRoom]
            exact .enters hPending hKnown hRoom
          · have hFull : limit ≤ state.stack.height := Nat.le_of_not_lt hRoom
            rw [step_of_full hPending (lookup_absent hKnown) hFull]
            exact .stops hPending hKnown hFull
  | nil =>
      cases hMerge : Setting.merge ⟨parents, limit, .absent α⟩ state.stack.top state.memo with
      | error conflict =>
          rw [step_of_conflict hPending hMerge]
          exact .clashes hPending hMerge
      | ok order =>
          cases hPop : state.stack.pop? with
          | some stack =>
              rw [step_of_merged hPending hMerge hPop]
              exact .returns hPending hMerge hPop
          | none =>
              rw [step_of_last hPending hMerge hPop]
              exact .ends hPending hMerge hPop

/-- A walk without a store turns to the given nodes from a node at the given height, and it comes
back. What it knew before and what it knows then are the two memos. -/
inductive Visits (parents : α → List α) (limit : Nat) : Nat → Memo α → List α → Memo α → Prop where
  | nil {height : Nat} {memo : Memo α} : Visits parents limit height memo [] memo
  | known {height : Nat} {memo left : Memo α} {node : α} {others : List α}
      {found : Linearization α} (hKnown : memo[node]? = some found)
      (hOthers : Visits parents limit height memo others left) :
      Visits parents limit height memo (node :: others) left
  | entered {height : Nat} {memo inner left : Memo α} {node : α} {others : List α}
      {order : Linearization α} (hUnknown : memo[node]? = none) (hHeight : height < limit)
      (hParents : Visits parents limit (height + 1) memo (parents node) inner)
      (hMerge : merge parents node (parents node) ((parents node).filterMap (inner[·]?)) =
        .ok order)
      (hOthers : Visits parents limit height (inner.insert node order) others left) :
      Visits parents limit height memo (node :: others) left

theorem Visits.run_eq {parents : α → List α} {limit : Nat} {memo left : Memo α}
    {stack : Stack α} (h : Visits parents limit stack.height memo stack.top.pending left)
    (requested : α) :
    run ⟨parents, limit, .absent α⟩ requested ⟨stack, memo, ()⟩ =
      run ⟨parents, limit, .absent α⟩ requested
        ⟨stack.setTop { stack.top with pending := [] }, left, ()⟩ := by
  generalize hHeight : stack.height = height at h
  generalize hPending : stack.top.pending = pending at h
  induction h generalizing stack with
  | nil =>
      rw [← hPending]
      rfl
  | known hKnown _ ih =>
      rw [run_of_running (step_of_known hPending (lookup_of_known hKnown))]
      exact ih hHeight rfl
  | @entered _ _ inner _ node others order hUnknown hRoom _ hMerge _ ihParents ihOthers =>
      have hLeave : step ⟨parents, limit, .absent α⟩ requested
          ⟨(stack.setTop { stack.top with pending := others }).push ⟨node, parents node, []⟩,
            inner, ()⟩ =
          .running ⟨stack.setTop { stack.top with pending := others }, inner.insert node order,
            ()⟩ :=
        step_of_merged rfl hMerge rfl
      rw [run_of_running (step_of_unknown hPending (lookup_absent hUnknown) (hHeight ▸ hRoom))]
      refine (ihParents (congrArg (· + 1) hHeight) rfl).trans ?_
      refine (run_of_running hLeave).trans ?_
      exact ihOthers hHeight rfl

/-- A walk that visits all parents of the requested node merges what it knows then. -/
theorem Visits.linearize_eq {parents : α → List α} {limit : Nat} {left : Memo α} {node : α}
    {order : Linearization α} (h : Visits parents limit 1 ∅ (parents node) left)
    (hMerge : merge parents node (parents node) ((parents node).filterMap (left[·]?)) =
      .ok order) : linearize parents node limit = .ok order := by
  have hUnknown : (∅ : Memo α)[node]? = none := Std.HashMap.getElem?_empty
  have hRun : run ⟨parents, limit, .absent α⟩ node
      ⟨.single ⟨node, parents node, parents node⟩, ∅, ()⟩ = _ :=
    Visits.run_eq h node
  have hLast : step ⟨parents, limit, .absent α⟩ node
      ⟨.single ⟨node, parents node, []⟩, left, ()⟩ = .finished ⟨.ok order, _, _⟩ :=
    step_of_last rfl hMerge rfl
  rw [linearize, Setting.linearize, lookup_absent hUnknown]
  exact congrArg Outcome.result (hRun.trans (run_of_finished hLast))

end Ancestry.Walk
