import Ancestry.Proofs.Merge.Steps

/-! The merge by its plain rule: heads are taken off the sequences, and whether a node stands behind
a head is found out by a search through all of them. Main statement: the counting merge gives the
same answers (`merge_refines_plain`), and none of its counts is ever lowered below zero. -/
namespace Ancestry.Merge.Plain

variable {α : Type} [DecidableEq α]

/-- Whether the node heads a sequence and is in the tail of none. -/
def isEligible (remaining : List (List α)) (node : α) : Bool :=
  remaining.any (·.head? == some node) &&
    remaining.all fun sequence => !(sequence.drop 1).contains node

/-- The first eligible node among the direct parents of the placed nodes, where the nodes are
visited newest first. The oldest one is the node whose parents are given; `placed` lists the
others, oldest first. -/
def next? (parentsOf : α → List α) (parents placed : List α) (remaining : List (List α)) :
    Option α :=
  (placed.reverse.map parentsOf ++ [parents]).findSome? (·.find? (isEligible remaining))

/-- Takes the node off every sequence that it heads. -/
def remove (node : α) (remaining : List (List α)) : List (List α) :=
  remaining.map fun sequence => if sequence.head? = some node then sequence.drop 1 else sequence

theorem isEligible_iff (remaining : List (List α)) (node : α) :
    isEligible remaining node = true ↔ Eligible remaining node := by
  simp [isEligible, Eligible, List.head?_eq_some_iff]

theorem remove_eq (node : α) (remaining : List (List α)) :
    remove node remaining = remaining.map (dropHead node) := by
  refine List.map_congr_left fun sequence _ => ?_
  cases sequence <;> simp [dropHead]

theorem isEligible_of_next? {parentsOf : α → List α} {parents placed : List α}
    {remaining : List (List α)} {node : α}
    (h : next? parentsOf parents placed remaining = some node) :
    isEligible remaining node = true := by
  obtain ⟨_, _, hFind⟩ := List.exists_of_findSome?_eq_some h
  exact List.find?_some hFind

theorem length_flatten_remove_lt {remaining : List (List α)} {node : α}
    (h : isEligible remaining node = true) :
    (remove node remaining).flatten.length < remaining.flatten.length := by
  obtain ⟨⟨rest, hHead⟩, _⟩ := (isEligible_iff remaining node).1 h
  rw [remove_eq]
  exact length_flatten_dropHead_lt
    (List.any_eq_true.2 ⟨_, hHead, (isHeadOf_eq_true_iff node _).2 ⟨rest, rfl⟩⟩)

/-- The merge after some nodes have been placed behind the first. -/
def mergeFrom (parentsOf : α → List α) (node : α) (parents placed : List α)
    (remaining : List (List α)) : Except (Conflict α) (List α) :=
  if remaining.all (·.isEmpty) then .ok (node :: placed)
  else match (next? parentsOf parents placed remaining).attach with
    | none => .error ⟨node, parents, node :: placed, remaining⟩
    | some ⟨candidate, _⟩ =>
      mergeFrom parentsOf node parents (placed ++ [candidate]) (remove candidate remaining)
termination_by remaining.flatten.length
decreasing_by exact length_flatten_remove_lt (isEligible_of_next? (by assumption))

/-- The merge of the given sequences, one for each parent, for a node with the given parents. -/
def merge (parentsOf : α → List α) (node : α) (parents : List α) (sequences : List (List α)) :
    Except (Conflict α) (List α) :=
  mergeFrom parentsOf node parents [] (sequences ++ [parents])

theorem mergeFrom_of_next?_eq_none {parentsOf : α → List α} {parents placed : List α}
    {remaining : List (List α)} (node : α)
    (h : next? parentsOf parents placed remaining = none) :
    mergeFrom parentsOf node parents placed remaining =
      if remaining.all (·.isEmpty) then .ok (node :: placed)
      else .error ⟨node, parents, node :: placed, remaining⟩ := by
  rw [mergeFrom]
  split
  · rfl
  · split
    · rfl
    · rename_i candidate hCandidate _
      rw [h] at hCandidate
      cases hCandidate

theorem mergeFrom_of_next? {parentsOf : α → List α} {parents placed : List α}
    {remaining : List (List α)} {candidate : α} (node : α)
    (h : next? parentsOf parents placed remaining = some candidate) :
    mergeFrom parentsOf node parents placed remaining =
      mergeFrom parentsOf node parents (placed ++ [candidate]) (remove candidate remaining) := by
  obtain ⟨⟨rest, hInput⟩, _⟩ := (isEligible_iff remaining candidate).1 (isEligible_of_next? h)
  rw [mergeFrom]
  split
  · rename_i hEmpty
    simpa using List.all_eq_true.1 hEmpty _ hInput
  · split
    · rename_i hNone
      rw [Option.attach_eq_none_iff, h] at hNone
      cases hNone
    · rename_i other hOther _
      rw [h] at hOther
      cases hOther
      rfl

variable [Hashable α]

/-- A state of the counting merge stands for the nodes placed and the sequences left by the plain
merge. -/
structure Stands (parentsOf : α → List α) (parents : List α) (state : State α)
    (placed : List α) : Prop where
  placed_eq : state.placed = placed.reverse
  searched_eq : state.searched = placed.reverse.map parentsOf ++ [parents]
  counted : state.Counted

section

variable {parentsOf : α → List α} {parents placed : List α} {state : State α}

theorem Stands.start (parentsOf : α → List α) (parents : List α)
    (orders : List (Linearization α)) :
    Stands parentsOf parents (.start parents orders) [] :=
  ⟨rfl, rfl, State.counted_start parents orders⟩

theorem Stands.place (h : Stands parentsOf parents state placed) (node : α) :
    Stands parentsOf parents (state.place node (parentsOf node)) (placed ++ [node]) where
  placed_eq := by simp [State.place, h.placed_eq]
  searched_eq := by simp [State.place, h.searched_eq]
  counted := h.counted.place node _

/-- Both merges take the same candidate. -/
theorem Stands.candidate?_eq (h : Stands parentsOf parents state placed) :
    state.candidate? = next? parentsOf parents placed state.inputs := by
  have hFree : state.isFree = isEligible state.inputs := by
    funext node
    exact Bool.eq_iff_iff.2
      ((h.counted.isFree_iff node).trans (isEligible_iff state.inputs node).symm)
  rw [State.candidate?, h.searched_eq, hFree, next?]

/-- The plain merge goes on to the final state of the counting merge. -/
theorem Stands.mergeFrom_eq (node : α) (h : Stands parentsOf parents state placed) :
    mergeFrom parentsOf node parents placed state.inputs =
      if (state.run parentsOf).isExhausted then .ok (node :: (state.run parentsOf).placed.reverse)
      else .error ⟨node, parents, node :: (state.run parentsOf).placed.reverse,
        (state.run parentsOf).inputs⟩ := by
  -- Both merges take one step at a time, and each step leaves fewer elements in the orders.
  induction hSize : state.size using Nat.strongRecOn generalizing state placed with
  | ind size ih =>
      subst hSize
      have hNext := h.candidate?_eq
      cases hCandidate : state.candidate? with
      | none =>
          rw [State.run_of_candidate?_eq_none parentsOf hCandidate,
            mergeFrom_of_next?_eq_none node (hNext.symm.trans hCandidate), h.placed_eq,
            List.reverse_reverse]
          rfl
      | some candidate =>
          rw [State.run_of_candidate? parentsOf hCandidate,
            mergeFrom_of_next? node (hNext.symm.trans hCandidate), remove_eq]
          exact ih _ (State.size_place_lt hCandidate _) (h.place candidate) rfl

end

/-- The plain merge of sequences, each given as a node with the rest, is the counting merge. -/
theorem merge_eq (parentsOf : α → List α) (node : α) (parents : List α)
    (orders : List (Linearization α)) :
    merge parentsOf node parents (orders.map (·.toList)) =
      (Ancestry.merge parentsOf node parents orders).map (·.toList) := by
  have hMerge := (Stands.start parentsOf parents orders).mergeFrom_eq node
  rw [merge, Ancestry.merge]
  refine hMerge.trans ?_
  split <;> rfl

omit [Hashable α] [DecidableEq α] in
/-- Answers of a merge are the same if they are as sequences. -/
theorem eq_of_map_toList {result other : Except (Conflict α) (Linearization α)}
    (h : result.map (·.toList) = other.map (·.toList)) : result = other := by
  have hInjective : Function.Injective (Linearization.toList : Linearization α → List α) := by
    rintro ⟨node, ancestors⟩ ⟨otherNode, others⟩ hSame
    obtain ⟨rfl, rfl⟩ := List.cons.inj hSame
    rfl
  cases result with
  | error conflict =>
      cases other with
      | error otherConflict =>
          cases h
          rfl
      | ok order => cases h
  | ok order =>
      cases other with
      | error conflict => cases h
      | ok otherOrder => rw [hInjective (Except.ok.inj h)]

/-- So an answer of the plain merge is one of the counting merge. -/
theorem merge_eq_ok_of_plain {parentsOf : α → List α} {node : α} {parents ancestors : List α}
    {orders : List (Linearization α)}
    (h : merge parentsOf node parents (orders.map (·.toList)) = .ok (node :: ancestors)) :
    Ancestry.merge parentsOf node parents orders = .ok ⟨node, ancestors⟩ := by
  apply eq_of_map_toList
  rw [← merge_eq, h]
  rfl

theorem merge_eq_error_of_plain {parentsOf : α → List α} {node : α} {parents : List α}
    {orders : List (Linearization α)} {conflict : Conflict α}
    (h : merge parentsOf node parents (orders.map (·.toList)) = .error conflict) :
    Ancestry.merge parentsOf node parents orders = .error conflict := by
  apply eq_of_map_toList
  rw [← merge_eq, h]
  rfl

end Plain

/-- Counting gives exactly the answers of the plain rule, for any sequences and any parents: the
same sequence, or the same conflict with what is left of each sequence. At every step that the
merge reaches, no count is lowered below zero. -/
theorem merge_refines_plain {α : Type} [DecidableEq α] [Hashable α] (parentsOf : α → List α)
    (node : α) (parents : List α) (orders : List (Linearization α)) :
    (merge parentsOf node parents orders).map (·.toList) =
      Plain.merge parentsOf node parents (orders.map (·.toList)) ∧
    ∀ state, State.Leads parentsOf (.start parents orders) state →
      ∀ candidate, state.candidate? = some candidate → state.NoUnderflow candidate := by
  refine ⟨(Plain.merge_eq parentsOf node parents orders).symm, ?_⟩
  intro state hLeads candidate _
  exact (hLeads.counted (State.counted_start parents orders)).noUnderflow candidate

end Ancestry.Merge
