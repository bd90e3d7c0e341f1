import Ancestry.Walk
import Ancestry.Proofs.FirstClash
import Mathlib.Data.List.Chain

/-! What a walk answers. The invariant of its states says which parents are known already and that
the stack is a chain of parents; it holds for every store that gives linearizations only. Main
statements: every walk ends with an answer of one of three kinds (`Setting.linearize_sound`), and
all walks for one node give the same answer unless they meet their limits (`Answer.unique`). -/
namespace Ancestry

variable {σ α : Type} [DecidableEq α] [Hashable α]

/-- A memo of linearizations only. -/
def Memo.Sound (parents : α → List α) (memo : Memo α) : Prop :=
  ∀ node order, memo[node]? = some order → Linearizes parents node order

/-- A store that gives linearizations only, as long as its contents are good. -/
structure Store.Sound (parents : α → List α) (store : Store σ α) (good : σ → Prop) : Prop where
  good_find : ∀ node stored, good stored → good (store.find node stored).2
  linearizes_find : ∀ node stored order, good stored →
    (store.find node stored).1 = some order → Linearizes parents node order
  good_keep : ∀ node order stored, good stored → Linearizes parents node order →
    good (store.keep node order stored)

theorem Memo.sound_empty (parents : α → List α) : Memo.Sound parents ∅ := by
  intro node order h
  simp at h

theorem Memo.Sound.insert {parents : α → List α} {memo : Memo α} {node : α}
    {order : Linearization α} (h : Memo.Sound parents memo)
    (hOrder : Linearizes parents node order) : Memo.Sound parents (memo.insert node order) := by
  intro other found hFound
  rw [Std.HashMap.getElem?_insert] at hFound
  split at hFound
  · rename_i hSame
    cases hFound
    exact beq_iff_eq.1 hSame ▸ hOrder
  · exact h other found hFound

theorem Memo.Sound.linearizes_getD {parents : α → List α} {memo : Memo α} {node : α}
    (h : Memo.Sound parents memo) (hKnown : node ∈ memo) (fallback : Linearization α) :
    Linearizes parents node (memo.getD node fallback) :=
  h node _ (Std.HashMap.getElem?_eq_some_getD hKnown)

theorem Store.absent_sound (parents : α → List α) :
    (Store.absent α).Sound parents fun _ => True where
  good_find := fun _ _ _ => trivial
  linearizes_find := fun _ _ _ _ h => by cases h
  good_keep := fun _ _ _ _ _ => trivial

namespace Walk

/-- The answers that a walk for the requested node may give. -/
inductive Answer (parents : α → List α) (limit : Nat) (requested : α) :
    Except (Failure α) (Linearization α) → Prop where
  | ok {order : Linearization α} (hOrder : Linearizes parents requested order) :
      Answer parents limit requested (.ok order)
  | inconsistent {conflict : Conflict α} (hMeets : MeetsClash parents requested conflict) :
      Answer parents limit requested (.error (.inconsistent conflict))
  | tooDeep {node : α} {rest : List α}
      (hChain : List.IsChain (TurnsTo parents) (requested :: rest ++ [node]))
      (hLength : (requested :: rest).length = max 1 limit) :
      Answer parents limit requested
        (.error (.tooDeep requested node limit (requested :: rest)))

/-- The walk met its limit. -/
def HitsLimit (result : Except (Failure α) (Linearization α)) : Prop :=
  ∃ requested node limit chain, result = .error (.tooDeep requested node limit chain)

omit [DecidableEq α] [Hashable α] in
theorem not_hitsLimit_ok (order : Linearization α) : ¬HitsLimit (.ok order) := by
  rintro ⟨_, _, _, _, ⟨⟩⟩

omit [DecidableEq α] [Hashable α] in
theorem not_hitsLimit_inconsistent (conflict : Conflict α) :
    ¬HitsLimit (.error (.inconsistent conflict)) := by
  rintro ⟨_, _, _, _, ⟨⟩⟩

/-- The parents of the frame in front of the given ones are known. -/
def Frame.KnownBefore (memo : Memo α) (frame : Frame α) (later : List α) : Prop :=
  ∃ turned, frame.parents = turned ++ later ∧ ∀ parent ∈ turned, parent ∈ memo

theorem Frame.KnownBefore.mono {memo larger : Memo α} {frame : Frame α} {later : List α}
    (hLarger : ∀ key, key ∈ memo → key ∈ larger) (h : frame.KnownBefore memo later) :
    frame.KnownBefore larger later := by
  obtain ⟨turned, hTurned, hKnown⟩ := h
  exact ⟨turned, hTurned, fun parent hParent => hLarger parent (hKnown parent hParent)⟩

/-- When one more parent has become known, the frame waits for the parents behind it. -/
theorem Frame.KnownBefore.tail {memo : Memo α} {frame : Frame α} {node : α} {later : List α}
    (h : frame.KnownBefore memo (node :: later)) (hNode : node ∈ memo) :
    frame.KnownBefore memo later := by
  obtain ⟨turned, hTurned, hKnown⟩ := h
  refine ⟨turned ++ [node], by simpa using hTurned, fun parent hParent => ?_⟩
  rcases List.mem_append.1 hParent with hParent | hParent
  · exact hKnown parent hParent
  · obtain rfl := List.mem_singleton.1 hParent
    exact hNode

/-- The frames, from top to bottom, wait for the node: each has turned to the node of the frame
above last of all, and the lowest frame is that of the requested node. -/
def Waits (parents : α → List α) (requested : α) (memo : Memo α) : α → List (Frame α) → Prop
  | node, [] => node = requested
  | node, frame :: below =>
    frame.parents = parents frame.node ∧ frame.KnownBefore memo (node :: frame.pending) ∧
      Waits parents requested memo frame.node below

section

variable {parents : α → List α} {requested node : α} {memo : Memo α} {frames : List (Frame α)}

theorem Waits.mono {larger : Memo α} (hLarger : ∀ key, key ∈ memo → key ∈ larger)
    (h : Waits parents requested memo node frames) :
    Waits parents requested larger node frames := by
  induction frames generalizing node with
  | nil => exact h
  | cons frame below ih =>
      obtain ⟨hParents, hKnown, hBelow⟩ := h
      exact ⟨hParents, hKnown.mono hLarger, ih hBelow⟩

theorem Waits.exists_rest (h : Waits parents requested memo node frames) :
    ∃ rest, frames.reverse.map (·.node) ++ [node] = requested :: rest := by
  induction frames generalizing node with
  | nil =>
      obtain rfl : node = requested := h
      exact ⟨[], rfl⟩
  | cons frame below ih =>
      obtain ⟨_, _, hBelow⟩ := h
      obtain ⟨rest, hRest⟩ := ih hBelow
      refine ⟨rest ++ [node], ?_⟩
      rw [← List.cons_append, ← hRest]
      simp

theorem Waits.turnsTo {frame : Frame α} (hMemo : Memo.Sound parents memo)
    (h : Waits parents requested memo node (frame :: frames)) :
    TurnsTo parents frame.node node := by
  obtain ⟨hParents, ⟨turned, hTurned, hKnown⟩, _⟩ := h
  refine ⟨turned, frame.pending, hParents.symm.trans hTurned, fun earlier hEarlier => ?_⟩
  exact ⟨_, hMemo.linearizes_getD (hKnown earlier hEarlier) ⟨earlier, []⟩⟩

/-- From bottom to top, each node is a parent to which the walk has turned from the one below. -/
theorem Waits.isChain (hMemo : Memo.Sound parents memo)
    (h : Waits parents requested memo node frames) :
    List.IsChain (TurnsTo parents) (frames.reverse.map (·.node) ++ [node]) := by
  induction frames generalizing node with
  | nil => exact List.isChain_singleton _
  | cons frame below ih =>
      have hChain := List.isChain_append_cons_cons.2
        ⟨ih h.2.2, h.turnsTo hMemo, List.isChain_singleton node⟩
      simpa using hChain

/-- A clash that the topmost node meets is met by the requested node too. -/
theorem Waits.meetsClash {conflict : Conflict α} (hMemo : Memo.Sound parents memo)
    (h : Waits parents requested memo node frames) (hMeets : MeetsClash parents node conflict) :
    MeetsClash parents requested conflict := by
  induction frames generalizing node with
  | nil =>
      obtain rfl : node = requested := h
      exact hMeets
  | cons frame below ih => exact ih h.2.2 (.ancestral (h.turnsTo hMemo) hMeets)

end

/-- What holds of every state of a walk for the requested node. -/
structure State.Invariant (setting : Setting σ α) (good : σ → Prop) (requested : α)
    (state : State σ α) : Prop where
  memo : Memo.Sound setting.parents state.memo
  store : good state.store
  parents_eq : state.stack.top.parents = setting.parents state.stack.top.node
  known : state.stack.top.KnownBefore state.memo state.stack.top.pending
  waits : Waits setting.parents requested state.memo state.stack.top.node state.stack.below
  height_le : state.stack.height ≤ max 1 setting.limit

/-- What holds of everything that a walk leaves behind. -/
structure Outcome.Sound (setting : Setting σ α) (good : σ → Prop) (requested : α)
    (outcome : Outcome σ α) : Prop where
  memo : Memo.Sound setting.parents outcome.memo
  store : good outcome.store
  answer : Answer setting.parents setting.limit requested outcome.result

/-- What holds after one more step. -/
inductive Progress.Sound (setting : Setting σ α) (good : σ → Prop) (requested : α) :
    Progress σ α → Prop where
  | running {state : State σ α} (h : state.Invariant setting good requested) :
      Progress.Sound setting good requested (.running state)
  | finished {outcome : Outcome σ α} (h : outcome.Sound setting good requested) :
      Progress.Sound setting good requested (.finished outcome)

section

variable {setting : Setting σ α} {good : σ → Prop} {requested : α} {state : State σ α}

/-- A look-up forgets nothing, and what it finds is in the memo afterwards. -/
theorem lookup_sound {memo known : Memo α} {stored left : σ} {node : α}
    {found? : Option (Linearization α)} (hStore : setting.store.Sound setting.parents good)
    (hMemo : Memo.Sound setting.parents memo) (hGood : good stored)
    (h : lookup setting.store node memo stored = (found?, known, left)) :
    Memo.Sound setting.parents known ∧ good left ∧ (∀ key, key ∈ memo → key ∈ known) ∧
      ∀ found, found? = some found → known[node]? = some found := by
  unfold lookup at h
  split at h
  · rename_i found hFound
    cases h
    exact ⟨hMemo, hGood, fun _ hKey => hKey, fun _ hSame => hSame ▸ hFound⟩
  · have hGoodLeft := hStore.good_find node stored hGood
    split at h
    · rename_i found rest hFind
      cases h
      rw [hFind] at hGoodLeft
      have hOrder := hStore.linearizes_find node stored found hGood (by rw [hFind])
      refine ⟨hMemo.insert hOrder, hGoodLeft, ?_, ?_⟩
      · exact fun key hKey => Std.HashMap.mem_insert.2 (.inr hKey)
      · rintro _ ⟨⟩
        exact Std.HashMap.getElem?_insert_self
    · rename_i rest hFind
      cases h
      rw [hFind] at hGoodLeft
      exact ⟨hMemo, hGoodLeft, fun _ hKey => hKey, fun _ hSame => by cases hSame⟩

/-- The answer when the stack is full and the topmost node has an unknown parent. -/
theorem Waits.answer_tooDeep {parents : α → List α} {limit : Nat} {memo known : Memo α}
    {parent : α} {stack : Stack α}
    (hKnown : Memo.Sound parents known)
    (h : Waits parents requested known parent (stack.top :: stack.below))
    (hBelow : Waits parents requested memo stack.top.node stack.below)
    (hHeight : stack.height ≤ max 1 limit) (hLimit : limit ≤ stack.height) :
    Answer parents limit requested (.error (.tooDeep requested parent limit stack.chain)) := by
  obtain ⟨rest, hRest⟩ := hBelow.exists_rest
  have hNodes : stack.chain = requested :: rest := by
    rw [← hRest]
    simp [Stack.chain]
  have hChain := h.isChain hKnown
  have hLength := stack.length_chain
  have hPositive := stack.height_eq
  rw [hNodes] at hLength ⊢
  refine .tooDeep ?_ (by omega)
  rwa [List.reverse_cons, List.map_append, List.map_singleton, hRest] at hChain

/-- The known linearizations of a frame's parents, when all of these are known. -/
theorem Frame.orders_eq {frame : Frame α} {memo : Memo α}
    (hKnown : ∀ parent ∈ frame.parents, parent ∈ memo) :
    frame.orders memo = frame.parents.map fun parent => memo.getD parent ⟨parent, []⟩ := by
  rw [Frame.orders, ← List.filterMap_eq_map]
  exact List.filterMap_congr fun parent hParent =>
    Std.HashMap.getElem?_eq_some_getD (hKnown parent hParent)

theorem State.Invariant.turnTo {parent : α} {pending : List α}
    (hStore : setting.store.Sound setting.parents good)
    (h : state.Invariant setting good requested)
    (hPending : state.stack.top.pending = parent :: pending) :
    Progress.Sound setting good requested
      (Walk.turnTo setting requested parent pending state) := by
  have hTop := h.known
  rw [hPending] at hTop
  cases hLookup : lookup setting.store parent state.memo state.store with
  | mk found? rest =>
      obtain ⟨memo, store⟩ := rest
      obtain ⟨hMemo, hGood, hLarger, hFound⟩ := lookup_sound hStore h.memo h.store hLookup
      have hKnown := hTop.mono hLarger
      have hWaits := h.waits.mono hLarger
      have hHeight := h.height_le
      simp only [Walk.turnTo, hLookup]
      cases found? with
      | some found =>
          have hParent : parent ∈ memo :=
            Std.HashMap.mem_iff_isSome_getElem?.2 (by simp [hFound found rfl])
          exact .running ⟨hMemo, hGood, h.parents_eq, hKnown.tail hParent, hWaits, hHeight⟩
      | none =>
          have hAbove : Waits setting.parents requested memo parent
              ({ state.stack.top with pending } :: state.stack.below) :=
            ⟨h.parents_eq, hKnown, hWaits⟩
          show Progress.Sound setting good requested
            (if setting.limit ≤ state.stack.height then _ else _)
          by_cases hLimit : setting.limit ≤ state.stack.height
          · rw [if_pos hLimit]
            exact .finished ⟨hMemo, hGood, hAbove.answer_tooDeep hMemo hWaits hHeight hLimit⟩
          · rw [if_neg hLimit]
            refine .running ⟨hMemo, hGood, rfl, ⟨[], rfl, by simp⟩, hAbove, ?_⟩
            simp only [Stack.push, Stack.setTop]
            omega

/-- What the walk finds out about the topmost node goes to the memo and to the store. -/
theorem State.Invariant.leaveWith {order : Linearization α}
    (hStore : setting.store.Sound setting.parents good)
    (h : state.Invariant setting good requested)
    (hOrder : Linearizes setting.parents state.stack.top.node order) :
    Progress.Sound setting good requested (Walk.leaveWith setting order state) := by
  have hMemo := h.memo.insert hOrder
  have hGood := hStore.good_keep _ order _ h.store hOrder
  have hHeight := h.height_le
  have hLarger : ∀ key, key ∈ state.memo → key ∈ state.memo.insert state.stack.top.node order :=
    fun key hKey => Std.HashMap.mem_insert.2 (.inr hKey)
  have hWaits := h.waits.mono hLarger
  obtain ⟨⟨top, below, height, hEq⟩, memo, store⟩ := state
  cases below with
  | nil =>
      obtain rfl : top.node = requested := hWaits
      exact .finished ⟨hMemo, hGood, .ok hOrder⟩
  | cons frame below =>
      obtain ⟨hParents, hKnown, hBelow⟩ := hWaits
      refine .running ⟨hMemo, hGood, hParents, ?_, hBelow, ?_⟩
      · exact hKnown.tail Std.HashMap.mem_insert_self
      · simp only at hHeight ⊢
        omega

theorem State.Invariant.leave (hStore : setting.store.Sound setting.parents good)
    (h : state.Invariant setting good requested) (hPending : state.stack.top.pending = []) :
    Progress.Sound setting good requested (Walk.leave setting state) := by
  obtain ⟨turned, hTurned, hKnown⟩ := h.known
  rw [hPending, List.append_nil] at hTurned
  have hOrders := Frame.orders_eq (hTurned ▸ hKnown)
  have hLinearizes : ∀ parent ∈ setting.parents state.stack.top.node,
      Linearizes setting.parents parent (state.memo.getD parent ⟨parent, []⟩) := by
    intro parent hParent
    rw [← h.parents_eq, hTurned] at hParent
    exact h.memo.linearizes_getD (hKnown parent hParent) _
  unfold Walk.leave
  rw [Setting.merge, hOrders, h.parents_eq]
  split
  · rename_i conflict hMerge
    have hMeets := h.waits.meetsClash h.memo (.own ⟨_, hLinearizes, hMerge⟩)
    exact .finished ⟨h.memo, h.store, .inconsistent hMeets⟩
  · rename_i order hMerge
    exact h.leaveWith hStore (.of_merge _ hLinearizes hMerge)

theorem State.Invariant.step (hStore : setting.store.Sound setting.parents good)
    (h : state.Invariant setting good requested) :
    Progress.Sound setting good requested (Walk.step setting requested state) := by
  unfold Walk.step
  split
  · rename_i parent pending hPending
    exact h.turnTo hStore hPending
  · rename_i hPending
    exact h.leave hStore hPending

/-- From a state with the invariant, a walk leaves linearizations only and gives a right answer. -/
theorem State.Invariant.run (hStore : setting.store.Sound setting.parents good)
    (h : state.Invariant setting good requested) :
    (Walk.run setting requested state).Sound setting good requested := by
  -- The induction is on the proof that the walk ends; the stack may grow or shrink in a step.
  induction State.accessible setting requested state with
  | intro state _ ih =>
      have hStep := h.step hStore
      rw [run_eq]
      cases hNext : Walk.step setting requested state with
      | finished outcome =>
          rw [hNext] at hStep
          cases hStep with
          | finished hOutcome => exact hOutcome
      | running next =>
          rw [hNext] at hStep
          cases hStep with
          | running hInvariant => exact ih next hNext hInvariant

/-- The state in which a walk begins. -/
theorem State.Invariant.enter {memo : Memo α} {store : σ}
    (hMemo : Memo.Sound setting.parents memo) (hGood : good store) (node : α) :
    State.Invariant setting good node ⟨.single (setting.enter node), memo, store⟩ :=
  ⟨hMemo, hGood, rfl, ⟨[], rfl, by simp⟩, rfl, Nat.le_max_left _ _⟩

theorem Setting.linearize_sound (setting : Setting σ α)
    (hStore : setting.store.Sound setting.parents good) {memo : Memo α} {store : σ}
    (hMemo : Memo.Sound setting.parents memo) (hGood : good store) (node : α) :
    (setting.linearize node memo store).Sound setting good node := by
  rw [Setting.linearize]
  cases hLookup : lookup setting.store node memo store with
  | mk found? rest =>
      obtain ⟨known, left⟩ := rest
      obtain ⟨hKnown, hLeft, _, hFound⟩ := lookup_sound hStore hMemo hGood hLookup
      cases found? with
      | some found => exact ⟨hKnown, hLeft, .ok (hKnown node found (hFound found rfl))⟩
      | none => exact (State.Invariant.enter hKnown hLeft node).run hStore

end

section

variable {parents : α → List α} {limit : Nat} {node : α} {order : Linearization α}
  {result : Except (Failure α) (Linearization α)}

/-- The chain that a walk followed to its limit is longer than the limit. -/
theorem Answer.not_hitsLimit (h : Answer parents limit node result)
    (hChains : ∀ rest, List.IsChain (TurnsTo parents) (node :: rest) → rest.length < limit) :
    ¬HitsLimit result := by
  rintro ⟨requested, deep, bound, chain, rfl⟩
  cases h with
  | @tooDeep _ rest hChain hLength =>
      have hRest := hChains (rest ++ [deep]) hChain
      simp only [List.length_append, List.length_cons, List.length_nil] at hRest hLength
      omega

/-- No limit is met that is as large as the linearization. -/
theorem Answer.not_hitsLimit_of_linearizes (h : Answer parents limit node result)
    (hOrder : Linearizes parents node order) (hLimit : order.toList.length ≤ limit) :
    ¬HitsLimit result := by
  refine h.not_hitsLimit fun rest hChain => ?_
  have hLength := hOrder.length_chain_le (hChain.imp fun _ _ hTurn => hTurn.directParent)
  rw [List.length_cons] at hLength
  omega

/-- A node with a linearization gets it unless the limit is met. -/
theorem Answer.eq_ok (h : Answer parents limit node result)
    (hOrder : Linearizes parents node order) (hLimit : ¬HitsLimit result) :
    result = .ok order := by
  cases h with
  | ok hOther => rw [hOther.unique hOrder]
  | inconsistent hMeets => exact absurd hOrder hMeets.not_linearizes
  | tooDeep => exact absurd ⟨_, _, _, _, rfl⟩ hLimit

/-- A node that meets a clash gets that one unless the limit is met. -/
theorem Answer.eq_error (h : Answer parents limit node result) {conflict : Conflict α}
    (hMeets : MeetsClash parents node conflict) (hLimit : ¬HitsLimit result) :
    result = .error (.inconsistent conflict) := by
  cases h with
  | ok hOrder => exact absurd hOrder hMeets.not_linearizes
  | inconsistent hOther => rw [hOther.unique hMeets]
  | tooDeep => exact absurd ⟨_, _, _, _, rfl⟩ hLimit

/-- A node without a linearization meets a clash unless the limit is met. -/
theorem Answer.exists_eq_error (h : Answer parents limit node result)
    (hNone : ∀ order, ¬Linearizes parents node order) (hLimit : ¬HitsLimit result) :
    ∃ conflict, result = .error (.inconsistent conflict) := by
  cases h with
  | ok hOrder => exact absurd hOrder (hNone _)
  | inconsistent => exact ⟨_, rfl⟩
  | tooDeep => exact absurd ⟨_, _, _, _, rfl⟩ hLimit

/-- Two walks for a node give the same answer unless one of them meets its limit. -/
theorem Answer.unique {bound : Nat} {other : Except (Failure α) (Linearization α)}
    (h : Answer parents limit node result) (hOther : Answer parents bound node other)
    (hLimit : ¬HitsLimit result) (hBound : ¬HitsLimit other) : result = other := by
  cases h with
  | ok hOrder => exact (hOther.eq_ok hOrder hBound).symm
  | inconsistent hMeets => exact (hOther.eq_error hMeets hBound).symm
  | tooDeep => exact absurd ⟨_, _, _, _, rfl⟩ hLimit

/-- A node that got an answer of another kind than that its limit is met has bounded chains. -/
theorem Answer.chainsBounded (h : Answer parents limit node result) (hLimit : ¬HitsLimit result) :
    ChainsBounded parents node := by
  cases h with
  | ok hOrder => exact hOrder.chainsBounded
  | inconsistent hMeets => exact hMeets.chainsBounded
  | tooDeep => exact absurd ⟨_, _, _, _, rfl⟩ hLimit

end

end Walk

/-- A walk without a store. -/
theorem Walk.linearize_absent_sound {parents : α → List α} (limit : Nat) {memo : Memo α}
    (hMemo : Memo.Sound parents memo) (node : α) :
    (Walk.Setting.linearize ⟨parents, limit, .absent α⟩ node memo ()).Sound
      ⟨parents, limit, .absent α⟩ (fun _ => True) node :=
  Walk.Setting.linearize_sound _ (Store.absent_sound parents) hMemo trivial node

/-- What a walk answers that begins with nothing known. -/
theorem linearize_answer (parents : α → List α) (node : α) (limit : Nat) :
    Walk.Answer parents limit node (linearize parents node limit) :=
  (Walk.linearize_absent_sound limit (Memo.sound_empty parents) node).answer

theorem Linearizes.of_linearize {parents : α → List α} {node : α} {limit : Nat}
    {order : Linearization α} (h : linearize parents node limit = .ok order) :
    Linearizes parents node order := by
  have hAnswer := linearize_answer parents node limit
  rw [h] at hAnswer
  cases hAnswer with
  | ok hOrder => exact hOrder

theorem Linearizes.linearize_eq {parents : α → List α} {node : α} {limit : Nat}
    {order : Linearization α} (h : Linearizes parents node order)
    (hLimit : order.toList.length ≤ limit) : linearize parents node limit = .ok order := by
  have hAnswer := linearize_answer parents node limit
  exact hAnswer.eq_ok h (hAnswer.not_hitsLimit_of_linearizes h hLimit)

/-- From some limit on, the walk for a node with bounded chains does not meet the limit. -/
theorem ChainsBounded.exists_not_hitsLimit {parents : α → List α} {node : α}
    (h : ChainsBounded parents node) :
    ∃ enough, ∀ limit, enough ≤ limit → ¬Walk.HitsLimit (linearize parents node limit) := by
  obtain ⟨bound, hBound⟩ := h
  refine ⟨bound + 1, fun limit hEnough => ?_⟩
  refine (linearize_answer parents node limit).not_hitsLimit fun rest hChain => ?_
  have hRest := hBound rest hChain
  omega

/-- An answer that any walk gives for a node, unless it meets its limit, is the one that a walk
with nothing known gives from some limit on. -/
theorem Walk.Answer.exists_linearize_eq {parents : α → List α} {node : α} {limit : Nat}
    {result : Except (Failure α) (Linearization α)} (h : Walk.Answer parents limit node result)
    (hLimit : ¬Walk.HitsLimit result) :
    ∃ enough, ∀ bound, enough ≤ bound → linearize parents node bound = result := by
  obtain ⟨enough, hEnough⟩ := (h.chainsBounded hLimit).exists_not_hitsLimit
  refine ⟨enough, fun bound hBound => ?_⟩
  exact (linearize_answer parents node bound).unique h (hEnough bound hBound) hLimit

theorem MeetsClash.of_linearize {parents : α → List α} {node : α} {limit : Nat}
    {conflict : Conflict α}
    (h : linearize parents node limit = .error (.inconsistent conflict)) :
    MeetsClash parents node conflict := by
  have hAnswer := linearize_answer parents node limit
  rw [h] at hAnswer
  cases hAnswer with
  | inconsistent hMeets => exact hMeets

/-- From some limit on a walk does not meet the limit, exactly if the node has a linearization or
meets a clash. -/
theorem exists_not_hitsLimit_iff {parents : α → List α} {node : α} :
    (∃ enough, ∀ limit, enough ≤ limit → ¬Walk.HitsLimit (linearize parents node limit)) ↔
      (∃ order, Linearizes parents node order) ∨ ∃ conflict, MeetsClash parents node conflict := by
  constructor
  · rintro ⟨enough, hEnough⟩
    have hLimit := hEnough enough (Nat.le_refl _)
    have hAnswer := linearize_answer parents node enough
    generalize linearize parents node enough = result at hLimit hAnswer
    cases hAnswer with
    | ok hOrder => exact .inl ⟨_, hOrder⟩
    | inconsistent hMeets => exact .inr ⟨_, hMeets⟩
    | tooDeep => exact absurd ⟨_, _, _, _, rfl⟩ hLimit
  · rintro (⟨order, hOrder⟩ | ⟨conflict, hMeets⟩)
    · exact hOrder.chainsBounded.exists_not_hitsLimit
    · exact hMeets.chainsBounded.exists_not_hitsLimit

end Ancestry
