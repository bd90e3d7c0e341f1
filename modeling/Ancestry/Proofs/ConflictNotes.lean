import Ancestry.Proofs.ConflictRecord
import Ancestry.Proofs.Conflicts

/-! What the diagnostic of a conflict says. A conflict records what is left of each order that was
merged, for the parents in their order and then for the list of the parents itself. The notes pair
what is left with the parents, and nothing of it is lost. Main statement:
`Conflict.notes_lose_nothing`. -/
namespace Ancestry.Conflict

section

variable {α β : Type}

/-- What a source had is what was taken from it and what is left for it. -/
theorem exists_part_of_mem_zip {sources : List α} {original : α → List β}
    {consumed rests : List (List β)}
    (h : sources.map original = List.zipWith (· ++ ·) consumed rests) {source : α} {rest : List β}
    (hMember : (source, rest) ∈ sources.zip rests) :
    ∃ part ∈ consumed, original source = part ++ rest := by
  induction sources generalizing consumed rests with
  | nil => cases hMember
  | cons first others ih =>
      cases rests with
      | nil => cases hMember
      | cons own rests =>
          cases consumed with
          | nil => cases h
          | cons part consumed =>
              obtain ⟨hOwn, hOthers⟩ := List.cons.inj h
              rcases List.mem_cons.1 hMember with hSame | hMember
              · cases hSame
                exact ⟨part, List.mem_cons_self, hOwn⟩
              · obtain ⟨taken, hTaken, hSource⟩ := ih hOthers hMember
                exact ⟨taken, List.mem_cons_of_mem _ hTaken, hSource⟩

variable [DecidableEq α] {conflict : Conflict α}

/-- What was taken has been placed, and nothing that is left has. -/
theorem Accounts.filter_append {originals consumed : List (List α)} {part rest : List α}
    (h : conflict.Accounts originals consumed) (hPart : part ∈ consumed)
    (hRest : rest ∈ conflict.remaining) :
    (part ++ rest).filter (· ∉ conflict.placed) = rest := by
  obtain ⟨others, hPlaced, hOthers⟩ := h.placed
  have hTaken : part.filter (· ∉ conflict.placed) = [] := by
    refine List.filter_eq_nil_iff.2 fun member hMember => ?_
    have hMemberPlaced : member ∈ conflict.placed :=
      hPlaced ▸ List.mem_cons_of_mem _ ((hOthers member).2 ⟨part, hPart, hMember⟩)
    simpa using hMemberPlaced
  have hLeft : rest.filter (· ∉ conflict.placed) = rest :=
    List.filter_eq_self.2 fun member hMember => decide_eq_true (h.fresh rest hRest member hMember)
  rw [List.filter_append, hTaken, hLeft, List.nil_append]

/-- For each source and then for the last order, a conflict has what has not been placed of it. -/
theorem Accounts.exists_left {sources last : List α} {original : α → List α}
    {consumed : List (List α)}
    (h : conflict.Accounts (sources.map original ++ [last]) consumed) :
    ∃ (left : List (α × List α)) (declared : List α), sources = left.map Prod.fst ∧
      conflict.remaining = left.map Prod.snd ++ [declared] ∧
      (∀ source rest, (source, rest) ∈ left →
        rest = (original source).filter (· ∉ conflict.placed)) ∧
      declared = last.filter (· ∉ conflict.placed) := by
  have hRemaining := h.length_remaining
  have hConsumed := h.length_consumed
  have hSplit := h.split
  rw [List.length_append, List.length_map, List.length_singleton] at hRemaining hConsumed
  obtain ⟨rests, declared, hRests⟩ : ∃ rests declared, conflict.remaining = rests ++ [declared] :=
    ⟨_, _, (List.dropLast_concat_getLast (List.ne_nil_of_length_eq_add_one hRemaining)).symm⟩
  obtain ⟨parts, taken, rfl⟩ : ∃ parts taken, consumed = parts ++ [taken] :=
    ⟨_, _, (List.dropLast_concat_getLast (List.ne_nil_of_length_eq_add_one hConsumed)).symm⟩
  rw [hRests, List.length_append, List.length_singleton] at hRemaining
  rw [List.length_append, List.length_singleton] at hConsumed
  have hLength : sources.length = rests.length := by omega
  rw [hRests, List.zipWith_append (by omega)] at hSplit
  obtain ⟨hSources, hLast⟩ := List.append_inj' hSplit rfl
  refine ⟨sources.zip rests, declared, ?_, ?_, fun source rest hPair => ?_, ?_⟩
  · rw [List.map_fst_zip hLength.le]
  · rw [List.map_snd_zip hLength.ge, hRests]
  · obtain ⟨part, hPart, hSource⟩ := exists_part_of_mem_zip hSources hPair
    have hRest : rest ∈ conflict.remaining :=
      hRests ▸ List.mem_append_left _ (List.of_mem_zip hPair).2
    rw [hSource, h.filter_append (List.mem_append_left _ hPart) hRest]
  · obtain rfl : last = taken ++ declared := (List.cons.inj hLast).1
    have hDeclared : declared ∈ conflict.remaining := hRests ▸ List.mem_concat_self
    rw [h.filter_append List.mem_concat_self hDeclared]

end

variable (names : ClassId → String)

def ancestorNote (node requested : Node) : String :=
  "`" ++ node.written names ++ "` is an ancestor of `" ++ requested.written names ++ "`"

def placedNote (placed : List Node) : String :=
  "order so far: [" ++ Node.writtenList names placed ++ "]"

def parentNote (parent : Node) (rest : List Node) : String :=
  "still to place from `" ++ parent.written names ++ "`: [" ++ Node.writtenList names rest ++ "]"

def declaredNote (rest : List Node) : String :=
  "still to place from the declared parents: [" ++ Node.writtenList names rest ++ "]"

variable {conflict : Conflict Node} {left : List (Node × List Node)} {declared : List Node}

theorem parentNotes_eq (hParents : conflict.parents = left.map Prod.fst)
    (hRemaining : conflict.remaining = left.map Prod.snd ++ [declared]) :
    conflict.parentNotes names =
      (left.filter fun pair => pair.2 ≠ []).map fun pair => parentNote names pair.1 pair.2 := by
  rw [parentNotes, hParents, hRemaining, List.dropLast_concat, List.zip_map', List.filterMap_map,
    ← List.filterMap_eq_map, List.filterMap_filter]
  refine List.filterMap_congr fun pair _ => ?_
  obtain ⟨parent, rest⟩ := pair
  cases rest <;> rfl

theorem declaredNotes_eq (hRemaining : conflict.remaining = left.map Prod.snd ++ [declared]) :
    conflict.declaredNotes names = if declared = [] then [] else [declaredNote names declared] := by
  rw [declaredNotes, hRemaining, List.getLast?_concat]
  cases declared <;> rfl

theorem conflictNotes_eq (conflict : Conflict Node) :
    conflict.conflictNotes names =
      if 2 ≤ conflict.conflicting.length then [Command.conflictNote names conflict] else [] := by
  by_cases hTwo : 2 ≤ conflict.conflicting.length
  · rw [if_pos hTwo]
    exact if_neg (Nat.not_le_of_lt hTwo)
  · rw [if_neg hTwo]
    exact if_pos (Nat.le_of_lt_succ (Nat.lt_of_not_le hTwo))

/-- The notes on a conflict, given what is left for each parent and of the list of the parents. -/
theorem notes_eq (hParents : conflict.parents = left.map Prod.fst)
    (hRemaining : conflict.remaining = left.map Prod.snd ++ [declared]) (requested : Node) :
    conflict.notes names requested =
      (if conflict.node = requested then [] else [ancestorNote names conflict.node requested]) ++
      [placedNote names conflict.placed] ++
      ((left.filter fun pair => pair.2 ≠ []).map fun pair => parentNote names pair.1 pair.2) ++
      (if declared = [] then [] else [declaredNote names declared]) ++
      (if 2 ≤ conflict.conflicting.length then [Command.conflictNote names conflict] else []) := by
  rw [notes, parentNotes_eq names hParents hRemaining, declaredNotes_eq names hRemaining,
    conflictNotes_eq]
  rfl

theorem prefix_append {start text : String} (h : start.toList <+: text.toList) (more : String) :
    start.toList <+: (text ++ more).toList := by
  rw [String.toList_append]
  exact h.trans (List.prefix_append _ _)

theorem prefix_parentNote (parent : Node) (rest : List Node) :
    "still to place from ".toList <+: (parentNote names parent rest).toList := by
  have hText : "still to place from ".toList <+: "still to place from `".toList := by simp
  exact prefix_append (prefix_append (prefix_append (prefix_append hText _) _) _) _

theorem prefix_declaredNote (rest : List Node) :
    "still to place from ".toList <+: (declaredNote names rest).toList := by
  have hText : "still to place from ".toList <+:
      "still to place from the declared parents: [".toList := by simp
  exact prefix_append (prefix_append hText _) _

/-- The diagnostic of a conflict that a walk meets, whatever the names and whichever node was asked
for, loses nothing of what the conflict records. With each parent of the conflicting node goes what
has not been placed of the linearization of this parent, with all of them together what has not been
placed of their list; for each of these of which something is left there is one note, in this order,
which names the parent and lists what is left. In front of these notes stand one that relates the
two nodes if they are different and one on what has been placed, behind them one on the nodes in
conflict if there are at least two. At least one note says that something is still to be placed. -/
theorem notes_lose_nothing {parents : Node → List Node} {node : Node} {limit : Nat}
    (h : linearize parents node limit = .error (.inconsistent conflict)) (requested : Node) :
    let notes := ((Failure.inconsistent conflict).diagnostic names requested).notes
    conflict.parents = parents conflict.node ∧
    (∃ (left : List (Node × List Node)) (declared : List Node),
      conflict.parents = left.map Prod.fst ∧
      conflict.remaining = left.map Prod.snd ++ [declared] ∧
      (∀ parent rest, (parent, rest) ∈ left → ∃ own enough,
        rest = own.toList.filter (· ∉ conflict.placed) ∧
        ∀ bound, enough ≤ bound → linearize parents parent bound = .ok own) ∧
      declared = conflict.parents.filter (· ∉ conflict.placed) ∧
      notes =
        (if conflict.node = requested then [] else [ancestorNote names conflict.node requested]) ++
        [placedNote names conflict.placed] ++
        ((left.filter fun pair => pair.2 ≠ []).map fun pair => parentNote names pair.1 pair.2) ++
        (if declared = [] then [] else [declaredNote names declared]) ++
        (if 2 ≤ conflict.conflicting.length then [Command.conflictNote names conflict] else [])) ∧
    conflict.conflicting.Nodup ∧
    (∀ head, head ∈ conflict.conflicting ↔ ∃ rest, head :: rest ∈ conflict.remaining) ∧
    ∃ note ∈ notes, "still to place from ".toList <+: note.toList := by
  intro notes
  have hClash := (MeetsClash.of_linearize h).clashes_node
  obtain ⟨orders, hOrders⟩ :=
    Linearizes.exists_orders fun _ hParent => hClash.linearizes_parent hParent
  obtain ⟨hSame, consumed, hAccounts⟩ := hClash.accounts hOrders
  obtain ⟨left, declared, hLeft, hRemaining, hRests, hDeclared⟩ := hAccounts.exists_left
  have hParents : conflict.parents = left.map Prod.fst := hSame.trans hLeft
  have hNotes : notes = _ := notes_eq names hParents hRemaining requested
  refine ⟨hSame, ⟨left, declared, hParents, hRemaining, fun parent rest hPair => ?_,
    hSame ▸ hDeclared, hNotes⟩, nodup_eraseDups _, fun _ => mem_conflicting_iff, ?_⟩
  · have hParent : parent ∈ parents conflict.node := hLeft ▸ List.mem_map_of_mem hPair
    have hOrder := hOrders parent hParent
    exact ⟨orders parent, _, hRests parent rest hPair, fun _ => hOrder.linearize_eq⟩
  · obtain ⟨rest, hRest, hNonempty⟩ := hAccounts.unfinished
    rw [hRemaining, List.mem_append, List.mem_map, List.mem_singleton] at hRest
    rw [hNotes]
    rcases hRest with ⟨⟨parent, own⟩, hPair, rfl⟩ | rfl
    · have hKept : (parent, own) ∈ left.filter fun pair => pair.2 ≠ [] :=
        List.mem_filter.2 ⟨hPair, decide_eq_true hNonempty⟩
      refine ⟨parentNote names parent own, ?_, prefix_parentNote names parent own⟩
      simp only [List.mem_append]
      exact .inl (.inl (.inr (List.mem_map.2 ⟨_, hKept, rfl⟩)))
    · refine ⟨declaredNote names rest, ?_, prefix_declaredNote names rest⟩
      simp [if_neg hNonempty]

/-- The graph of `disputedParents` among classes. -/
def disputedNodes (node : Node) : List Node :=
  match node.asClass? with
  | some id => (disputedParents id.index).map fun parent => .ofClass ⟨parent⟩
  | none => []

def disputedOrder (node : Node) : Linearization Node :=
  if node = .ofClass ⟨2⟩ then ⟨node, [.ofClass ⟨1⟩]⟩ else ⟨node, []⟩

/-- The conflict that the class 5 meets. Nothing is left for the first parent of the class 0. -/
def disputedConflict : Conflict Node :=
  let one : Node := .ofClass ⟨1⟩
  let two : Node := .ofClass ⟨2⟩
  let three : Node := .ofClass ⟨3⟩
  ⟨.ofClass ⟨0⟩, [three, one, two], [.ofClass ⟨0⟩, three], [[], [one], [two, one], [one, two]]⟩

theorem linearize_disputedNodes :
    linearize disputedNodes (.ofClass ⟨5⟩) 4 = .error (.inconsistent disputedConflict) := by
  have hOne : Linearizes disputedNodes (.ofClass ⟨1⟩) (disputedOrder (.ofClass ⟨1⟩)) :=
    .of_no_parents rfl
  have hTwo : Linearizes disputedNodes (.ofClass ⟨2⟩) (disputedOrder (.ofClass ⟨2⟩)) :=
    .of_only_parent rfl hOne
  have hThree : Linearizes disputedNodes (.ofClass ⟨3⟩) (disputedOrder (.ofClass ⟨3⟩)) :=
    .of_no_parents rfl
  have hOrders : ∀ parent ∈ disputedNodes (.ofClass ⟨0⟩),
      Linearizes disputedNodes parent (disputedOrder parent) := by
    change ∀ parent ∈ [Node.ofClass ⟨3⟩, .ofClass ⟨1⟩, .ofClass ⟨2⟩], _
    simpa using ⟨hThree, hOne, hTwo⟩
  have hClash : Clashes disputedNodes (.ofClass ⟨0⟩) disputedConflict :=
    .of_merge disputedOrder hOrders (Merge.Plain.merge_eq_error_of_plain (by cbv))
  have hMeets : MeetsClash disputedNodes (.ofClass ⟨5⟩) disputedConflict :=
    .ancestral ⟨[], [], rfl, by simp⟩ (.own hClash)
  have hChains : ChainsWithin disputedNodes 4 (.ofClass ⟨5⟩) := by
    refine .of_parents fun parent hParent => ?_
    obtain rfl : parent = .ofClass ⟨0⟩ := List.mem_singleton.1 hParent
    refine .of_parents fun parent hParent => (hOrders parent hParent).chainsWithin ?_
    unfold disputedOrder
    split <;> simp [Linearization.toList]
  have hAnswer := linearize_answer disputedNodes (.ofClass ⟨5⟩) 4
  exact hAnswer.eq_error hMeets (hAnswer.not_hitsLimit_of_chains hChains)

theorem notes_lose_nothing_disputed :
    let names : ClassId → String := fun id => toString id.index
    let notes :=
      ((Failure.inconsistent disputedConflict).diagnostic names (.ofClass ⟨5⟩)).notes
    linearize disputedNodes (.ofClass ⟨5⟩) 4 = .error (.inconsistent disputedConflict) ∧
    (∃ (left : List (Node × List Node)) (declared : List Node),
      disputedConflict.parents = left.map Prod.fst ∧
      disputedConflict.remaining = left.map Prod.snd ++ [declared] ∧
      notes =
        [ancestorNote names (.ofClass ⟨0⟩) (.ofClass ⟨5⟩),
          placedNote names [.ofClass ⟨0⟩, .ofClass ⟨3⟩]] ++
        ((left.filter fun pair => pair.2 ≠ []).map fun pair => parentNote names pair.1 pair.2) ++
        (if declared = [] then [] else [declaredNote names declared]) ++
        [Command.conflictNote names disputedConflict]) ∧
    ∃ note ∈ notes, "still to place from ".toList <+: note.toList := by
  intro names notes
  obtain ⟨_, ⟨left, declared, hParents, hRemaining, _, _, hNotes⟩, _, _, hPlace⟩ :=
    notes_lose_nothing names linearize_disputedNodes (.ofClass ⟨5⟩)
  exact ⟨linearize_disputedNodes, ⟨left, declared, hParents, hRemaining, hNotes⟩, hPlace⟩

example : disputedConflict.notes (fun id => toString id.index) (.ofClass ⟨5⟩) =
    ["`0` is an ancestor of `5`", "order so far: [`0`, `3`]", "still to place from `1`: [`1`]",
      "still to place from `2`: [`2`, `1`]", "still to place from the declared parents: [`1`, `2`]",
      "no order satisfies every declaration among `1`, `2`"] := by
  cbv

end Ancestry.Conflict
