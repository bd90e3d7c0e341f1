import Ancestry.Proofs.Merge.Order
import Ancestry.Proofs.Merge.Plain

/-! The merge of the same orders under other names and with a common tail behind each. Names do not
decide which node comes next, and no node of the tail can come before all others are placed, so that
the merge goes the same way and takes the tail at the end (`Plain.merge_extended`). -/
namespace Ancestry

variable {α β : Type}

/-- The order under other names, with the tail behind it. -/
def Linearization.extended (rename : α → β) (tail : List β) (order : Linearization α) :
    Linearization β :=
  ⟨rename order.node, order.ancestors.map rename ++ tail⟩

/-- The conflict under other names, with the tail behind what is left of each order. The order of
the parents themselves, which is the last one, has no tail. -/
def Conflict.extended (rename : α → β) (tail : List β) (conflict : Conflict α) : Conflict β :=
  ⟨rename conflict.node, conflict.parents.map rename, conflict.placed.map rename,
    conflict.remaining.dropLast.map (fun rest => rest.map rename ++ tail) ++
      conflict.remaining.getLast?.toList.map (·.map rename)⟩

theorem Linearization.toList_extended (rename : α → β) (tail : List β)
    (order : Linearization α) :
    (order.extended rename tail).toList = order.toList.map rename ++ tail := rfl

/-- Names may be changed again. -/
theorem Linearization.extended_extended {γ : Type} (rename : α → β) (again : β → γ)
    (tail : List γ) (order : Linearization α) :
    (order.extended rename []).extended again tail = order.extended (again ∘ rename) tail := by
  simp [extended]

theorem Conflict.extended_extended {γ : Type} (rename : α → β) (again : β → γ) (tail : List γ)
    (conflict : Conflict α) :
    (conflict.extended rename []).extended again tail =
      conflict.extended (again ∘ rename) tail := by
  obtain ⟨node, parents, placed, remaining⟩ := conflict
  cases remaining using List.reverseRec with
  | nil => simp [extended]
  | append_singleton rests own => simp [extended, Function.comp_def]

namespace Merge

namespace Plain

variable [DecidableEq α]

section

variable {parentsOf : α → List α} {parents placed : List α} {remaining : List (List α)} {node : α}

theorem next?_eq_some_of_unique (hNode : isEligible remaining node = true)
    (hUnique : ∀ other, isEligible remaining other = true → other = node)
    (hSearched : node ∈ parents ∨ ∃ earlier ∈ placed, node ∈ parentsOf earlier) :
    next? parentsOf parents placed remaining = some node := by
  have hFound : (next? parentsOf parents placed remaining).isSome = true := by
    rw [next?, List.findSome?_isSome_iff]
    rcases hSearched with hParent | ⟨earlier, hEarlier, hParent⟩
    · exact ⟨parents, by simp, List.find?_isSome.2 ⟨node, hParent, hNode⟩⟩
    · exact ⟨parentsOf earlier, by simpa using .inl ⟨earlier, hEarlier, rfl⟩,
        List.find?_isSome.2 ⟨node, hParent, hNode⟩⟩
  obtain ⟨other, hOther⟩ := Option.isSome_iff_exists.1 hFound
  rw [hOther, hUnique other (isEligible_of_next? hOther)]

/-- When one order is left, be it several times, the merge takes it as it is. -/
theorem mergeFrom_uniform {rest : List α} (first : α)
    (hRemaining : ∀ input ∈ remaining, input = rest ∨ input = []) (hRest : rest ∈ remaining)
    (hNodup : rest.Nodup)
    (hLinked : ∀ before member after, rest = before ++ member :: after →
      member ∈ parents ∨ ∃ earlier ∈ placed ++ before, member ∈ parentsOf earlier) :
    mergeFrom parentsOf first parents placed remaining = .ok (first :: placed ++ rest) := by
  induction rest generalizing placed remaining with
  | nil =>
      rw [mergeFrom, if_pos, List.append_nil]
      exact List.all_eq_true.2 fun input hInput => by simpa using hRemaining input hInput
  | cons head rest ih =>
      obtain ⟨hHead, hNodup⟩ := List.nodup_cons.1 hNodup
      have hEligible : isEligible remaining head = true := by
        refine (isEligible_iff remaining head).2 ⟨⟨rest, hRest⟩, fun input hInput => ?_⟩
        rcases hRemaining input hInput with rfl | rfl
        · exact hHead
        · exact List.not_mem_nil
      have hUnique : ∀ other, isEligible remaining other = true → other = head := by
        intro other hOther
        obtain ⟨⟨_, hInput⟩, _⟩ := (isEligible_iff remaining other).1 hOther
        rcases hRemaining _ hInput with hSame | hNone
        · exact (List.cons.inj hSame).1
        · cases hNone
      have hNext : next? parentsOf parents placed remaining = some head :=
        next?_eq_some_of_unique hEligible hUnique (by simpa using hLinked [] head rest rfl)
      rw [mergeFrom_of_next? first hNext, remove_eq, ih]
      · simp
      · intro input hInput
        obtain ⟨old, hOld, rfl⟩ := List.mem_map.1 hInput
        rcases hRemaining old hOld with rfl | rfl
        · exact .inl (by simp [dropHead])
        · exact .inr rfl
      · exact List.mem_map.2 ⟨head :: rest, hRest, by simp [dropHead]⟩
      · exact hNodup
      · intro before member after hSplit
        have hWhole := hLinked (head :: before) member after (by rw [hSplit]; rfl)
        simpa using hWhole

end

section

variable {rename : α → β} {tail : List β}

omit [DecidableEq α] in
theorem head?_extended (hInjective : Function.Injective rename) {node : α}
    (hApart : rename node ∉ tail) (input : List α) :
    (input.map rename ++ tail).head? = some (rename node) ↔ input.head? = some node := by
  cases input with
  | nil =>
      simp only [List.map_nil, List.nil_append, List.head?_nil]
      constructor
      · intro hHead
        exact absurd (List.mem_of_mem_head? hHead) hApart
      · intro hHead
        cases hHead
  | cons head rest => simp [hInjective.eq_iff]

omit [DecidableEq α] in
theorem mem_drop_one_extended (hInjective : Function.Injective rename) {node : α}
    (hApart : rename node ∉ tail) (input : List α) :
    rename node ∈ (input.map rename ++ tail).drop 1 ↔ node ∈ input.drop 1 := by
  cases input with
  | nil =>
      simp only [List.map_nil, List.nil_append, List.drop_nil, List.not_mem_nil, iff_false]
      exact fun hMember => hApart (List.mem_of_mem_drop hMember)
  | cons head rest => simp [hInjective.eq_iff, hApart]

theorem dropHead_extended [DecidableEq β] (hInjective : Function.Injective rename) {node : α}
    (hApart : rename node ∉ tail) (input : List α) :
    dropHead (rename node) (input.map rename ++ tail) =
      (dropHead node input).map rename ++ tail := by
  cases input with
  | nil =>
      cases tail with
      | nil => rfl
      | cons head rest =>
          have hHead : head ≠ rename node := fun hSame => hApart (by simp [hSame])
          simp [dropHead, hHead]
  | cons head rest =>
      by_cases hHead : head = node
      · simp [dropHead, hHead]
      · simp [dropHead, hHead, hInjective.eq_iff]

omit [DecidableEq α] in
/-- Nothing of the tail may come next while something is left of an order. -/
theorem not_isEligible_of_mem_tail [DecidableEq β] {rests : List (List α)} {own : List β}
    (hLeft : ∃ rest ∈ rests, rest ≠ []) {other : β} (hOther : other ∈ tail) :
    isEligible (rests.map (fun rest => rest.map rename ++ tail) ++ [own]) other = false := by
  obtain ⟨rest, hRest, hNonempty⟩ := hLeft
  obtain ⟨head, behind, rfl⟩ := List.exists_cons_of_ne_nil hNonempty
  rw [Bool.eq_false_iff]
  intro hEligible
  obtain ⟨_, hTails⟩ := (isEligible_iff _ _).1 hEligible
  refine hTails _ (List.mem_append_left _ (List.mem_map_of_mem hRest)) ?_
  simp [hOther]

theorem mem_dropHead_of_ne {node other : α} {input : List α} (h : other ∈ input)
    (hNe : other ≠ node) : other ∈ dropHead node input := by
  cases input with
  | nil => cases h
  | cons head rest =>
      rw [dropHead]
      split
      · rename_i hHead
        exact (List.mem_cons.1 h).resolve_left fun hSame => hNe (hSame.trans hHead)
      · exact h

end

variable [DecidableEq β]

/-- Two merges at the same point, the second one under other names and with the tail. What is left
of the parents is given apart from what is left of their orders. Some nodes, the spine, have been
or will be placed in any case; what comes in the tail is found from there. -/
structure Extends (parentsOf : α → List α) (othersOf : β → List β) (rename : α → β)
    (tail : List β) (spine placed : List α) (rests : List (List α)) (own : List α) : Prop where
  injective : Function.Injective rename
  apart : ∀ node, rename node ∉ tail
  nodup : tail.Nodup
  /-- The direct parents go by the other names too; a node without any may have some in the tail. -/
  othersOf_rename : ∀ node, node ∈ placed ∨ (∃ rest ∈ rests, node ∈ rest) →
    othersOf (rename node) = (parentsOf node).map rename ∨
      parentsOf node = [] ∧ ∀ other ∈ othersOf (rename node), other ∈ tail
  linked : ∀ before other after, tail = before ++ other :: after →
    ∃ earlier ∈ spine.map rename ++ before, other ∈ othersOf earlier
  spine_mem : ∀ node ∈ spine, node ∈ placed ∨ ∃ rest ∈ rests, node ∈ rest
  own_mem : ∀ node ∈ own, ∃ rest ∈ rests, node ∈ rest
  rests_ne_nil : rests ≠ []

section

variable {parentsOf : α → List α} {othersOf : β → List β} {rename : α → β} {tail : List β}
  {spine placed own parents : List α} {rests : List (List α)}

theorem Extends.isEligible_rename
    (h : Extends parentsOf othersOf rename tail spine placed rests own) (node : α) :
    isEligible (rests.map (fun rest => rest.map rename ++ tail) ++ [own.map rename])
      (rename node) = isEligible (rests ++ [own]) node := by
  have hHead (input : List α) (last : List β) (hApart : rename node ∉ last) :
      ((input.map rename ++ last).head? == some (rename node)) = (input.head? == some node) := by
    rw [Bool.eq_iff_iff, beq_iff_eq, beq_iff_eq]
    exact head?_extended h.injective hApart input
  have hBehind (input : List α) (last : List β) (hApart : rename node ∉ last) :
      ((input.map rename ++ last).drop 1).contains (rename node) =
        (input.drop 1).contains node := by
    rw [Bool.eq_iff_iff, List.contains_iff_mem, List.contains_iff_mem]
    exact mem_drop_one_extended h.injective hApart input
  have hOwnHead := hHead own [] List.not_mem_nil
  have hOwnBehind := hBehind own [] List.not_mem_nil
  rw [List.append_nil] at hOwnHead hOwnBehind
  simp only [isEligible, List.any_append, List.all_append, List.any_map, List.all_map,
    List.any_cons, List.any_nil, List.all_cons, List.all_nil, Function.comp_def, hOwnHead,
    hOwnBehind, hHead _ tail (h.apart node), hBehind _ tail (h.apart node)]

/-- The same node comes next in both merges. -/
theorem Extends.next?_eq (h : Extends parentsOf othersOf rename tail spine placed rests own)
    (parents : List α) (hLeft : ∃ rest ∈ rests, rest ≠ []) :
    next? othersOf (parents.map rename) (placed.map rename)
        (rests.map (fun rest => rest.map rename ++ tail) ++ [own.map rename]) =
      (next? parentsOf parents placed (rests ++ [own])).map rename := by
  have hFind (nodes : List α) :
      (nodes.map rename).find?
          (isEligible (rests.map (fun rest => rest.map rename ++ tail) ++ [own.map rename])) =
        (nodes.find? (isEligible (rests ++ [own]))).map rename := by
    have hEligible : isEligible (rests.map (fun rest => rest.map rename ++ tail) ++
        [own.map rename]) ∘ rename = isEligible (rests ++ [own]) :=
      funext fun node => h.isEligible_rename node
    rw [List.find?_map, hEligible]
  have hPlaced : ∀ nodes : List α, (∀ node ∈ nodes, node ∈ placed) →
      ((nodes.map rename).map othersOf).findSome? (·.find?
          (isEligible (rests.map (fun rest => rest.map rename ++ tail) ++ [own.map rename]))) =
        ((nodes.map parentsOf).findSome? (·.find? (isEligible (rests ++ [own])))).map rename := by
    intro nodes hNodes
    induction nodes with
    | nil => rfl
    | cons node nodes ih =>
        have hRest := ih fun other hOther => hNodes other (List.mem_cons_of_mem _ hOther)
        have hHere : (othersOf (rename node)).find?
            (isEligible (rests.map (fun rest => rest.map rename ++ tail) ++ [own.map rename])) =
            ((parentsOf node).find? (isEligible (rests ++ [own]))).map rename := by
          rcases h.othersOf_rename node (.inl (hNodes node List.mem_cons_self)) with
            hSame | ⟨hNone, hTail⟩
          · rw [hSame, hFind]
          · rw [hNone, List.find?_nil, Option.map_none, List.find?_eq_none]
            intro other hOther
            rw [not_isEligible_of_mem_tail hLeft (hTail other hOther)]
            exact Bool.false_ne_true
        simp only [List.map_cons, List.findSome?_cons, hHere, hRest]
        cases (parentsOf node).find? (isEligible (rests ++ [own])) <;> rfl
  have hReverse := hPlaced placed.reverse fun node hNode => List.mem_reverse.1 hNode
  rw [next?, next?, List.findSome?_append, List.findSome?_append, Option.map_or, ← List.map_reverse,
    hReverse, List.findSome?_singleton, List.findSome?_singleton, hFind]

theorem Extends.remove_rename
    (h : Extends parentsOf othersOf rename tail spine placed rests own) (node : α) :
    remove (rename node) (rests.map (fun rest => rest.map rename ++ tail) ++ [own.map rename]) =
      (rests.map (dropHead node)).map (fun rest => rest.map rename ++ tail) ++
        [(dropHead node own).map rename] := by
  have hRest (rest : List α) : dropHead (rename node) (rest.map rename ++ tail) =
      (dropHead node rest).map rename ++ tail :=
    dropHead_extended h.injective (h.apart node) rest
  have hOwn : dropHead (rename node) (own.map rename ++ []) =
      (dropHead node own).map rename ++ [] :=
    dropHead_extended h.injective List.not_mem_nil own
  rw [List.append_nil, List.append_nil] at hOwn
  simp [remove_eq, Function.comp_def, hRest, hOwn]

omit [DecidableEq β] in
/-- After one more node, the merges are at the same point again. -/
theorem Extends.place (h : Extends parentsOf othersOf rename tail spine placed rests own)
    {node : α} (hNode : isEligible (rests ++ [own]) node = true) :
    Extends parentsOf othersOf rename tail spine (placed ++ [node]) (rests.map (dropHead node))
      (dropHead node own) := by
  obtain ⟨⟨behind, hHead⟩, hTails⟩ := (isEligible_iff _ node).1 hNode
  have hOld : ∃ rest ∈ rests, node ∈ rest := by
    rcases List.mem_append.1 hHead with hRest | hOwn
    · exact ⟨_, hRest, List.mem_cons_self⟩
    · obtain rfl := List.mem_singleton.1 hOwn
      exact h.own_mem node List.mem_cons_self
  have hLater {other : α} (hNe : other ≠ node) (hMember : ∃ rest ∈ rests, other ∈ rest) :
      ∃ rest ∈ rests.map (dropHead node), other ∈ rest := by
    obtain ⟨rest, hRest, hOther⟩ := hMember
    exact ⟨_, List.mem_map_of_mem hRest, mem_dropHead_of_ne hOther hNe⟩
  refine ⟨h.injective, h.apart, h.nodup, ?_, h.linked, ?_, ?_, ?_⟩
  · rintro other (hPlaced | ⟨rest, hRest, hOther⟩)
    · rcases List.mem_append.1 hPlaced with hPlaced | hSame
      · exact h.othersOf_rename other (.inl hPlaced)
      · obtain rfl := List.mem_singleton.1 hSame
        exact h.othersOf_rename other (.inr hOld)
    · obtain ⟨old, hOldRest, rfl⟩ := List.mem_map.1 hRest
      exact h.othersOf_rename other (.inr ⟨old, hOldRest, dropHead_subset node old hOther⟩)
  · intro other hSpine
    by_cases hSame : other = node
    · exact .inl (by simp [hSame])
    · exact (h.spine_mem other hSpine).imp (List.mem_append_left _) (hLater hSame)
  · intro other hOther
    have hGone : node ∉ dropHead node own := not_mem_dropHead (hTails own (by simp))
    refine hLater (fun hSame => hGone (hSame ▸ hOther)) ?_
    exact h.own_mem other (dropHead_subset node own hOther)
  · simpa using h.rests_ne_nil

omit [DecidableEq α] [DecidableEq β] in
theorem Extends.own_eq_nil
    (h : Extends parentsOf othersOf rename tail spine placed rests own)
    (hDone : ∀ rest ∈ rests, rest = []) : own = [] := by
  refine List.eq_nil_iff_forall_not_mem.2 fun node hNode => ?_
  obtain ⟨rest, hRest, hMember⟩ := h.own_mem node hNode
  rw [hDone rest hRest] at hMember
  cases hMember

omit [DecidableEq α] in
/-- When nothing is left of the orders, the tail is. -/
theorem Extends.mergeFrom_exhausted
    (h : Extends parentsOf othersOf rename tail spine placed rests own) (first : β)
    (parents : List β) (hDone : ∀ rest ∈ rests, rest = []) :
    mergeFrom othersOf first parents (placed.map rename)
        (rests.map (fun rest => rest.map rename ++ tail) ++ [own.map rename]) =
      .ok (first :: placed.map rename ++ tail) := by
  have hOwn := h.own_eq_nil hDone
  obtain ⟨rest, hRest⟩ := List.exists_mem_of_ne_nil rests h.rests_ne_nil
  refine mergeFrom_uniform first ?_ ?_ h.nodup ?_
  · intro input hInput
    rcases List.mem_append.1 hInput with hInput | hInput
    · obtain ⟨old, hOld, rfl⟩ := List.mem_map.1 hInput
      exact .inl (by rw [hDone old hOld]; rfl)
    · exact .inr (by simpa [hOwn] using hInput)
  · refine List.mem_append_left _ (List.mem_map.2 ⟨rest, hRest, ?_⟩)
    rw [hDone rest hRest]
    rfl
  · intro before other after hSplit
    obtain ⟨earlier, hEarlier, hOther⟩ := h.linked before other after hSplit
    refine .inr ⟨earlier, ?_, hOther⟩
    rcases List.mem_append.1 hEarlier with hSpine | hBefore
    · obtain ⟨node, hNode, rfl⟩ := List.mem_map.1 hSpine
      refine List.mem_append_left _ (List.mem_map_of_mem ?_)
      refine (h.spine_mem node hNode).resolve_right ?_
      rintro ⟨left, hLeft, hMember⟩
      rw [hDone left hLeft] at hMember
      cases hMember
    · exact List.mem_append_right _ hBefore

/-- From the same point on, both merges go the same way, and the second one takes the tail at the
end. -/
theorem Extends.mergeFrom_eq (h : Extends parentsOf othersOf rename tail spine placed rests own)
    (parents : List α) (first : α) :
    mergeFrom othersOf (rename first) (parents.map rename) (placed.map rename)
        (rests.map (fun rest => rest.map rename ++ tail) ++ [own.map rename]) =
      ((mergeFrom parentsOf first parents placed (rests ++ [own])).map
        fun order => order.map rename ++ tail).mapError (Conflict.extended rename tail) := by
  induction hSize : (rests ++ [own]).flatten.length using Nat.strongRecOn
    generalizing placed rests own with
  | ind size ih =>
      subst hSize
      by_cases hLeft : ∃ rest ∈ rests, rest ≠ []
      · have hNext := h.next?_eq parents hLeft
        cases hCandidate : next? parentsOf parents placed (rests ++ [own]) with
        | none =>
            -- Both merges are stuck.
            rw [hCandidate] at hNext
            obtain ⟨rest, hRest, hNonempty⟩ := hLeft
            have hOpen : ¬(rests ++ [own]).all (·.isEmpty) = true := by
              rw [List.all_eq_true]
              intro hEmpty
              exact hNonempty (by simpa using hEmpty rest (List.mem_append_left _ hRest))
            have hOtherOpen : ¬(rests.map (fun rest => rest.map rename ++ tail) ++
                [own.map rename]).all (·.isEmpty) = true := by
              rw [List.all_eq_true]
              intro hEmpty
              have hRenamed := hEmpty _ (List.mem_append_left _ (List.mem_map_of_mem hRest))
              simp [hNonempty] at hRenamed
            rw [mergeFrom_of_next?_eq_none _ hCandidate, mergeFrom_of_next?_eq_none _ hNext,
              if_neg hOpen, if_neg hOtherOpen]
            simp [Except.map, Except.mapError, Conflict.extended]
        | some node =>
            rw [hCandidate] at hNext
            have hEligible := isEligible_of_next? hCandidate
            have hSmaller := length_flatten_remove_lt hEligible
            rw [remove_eq, List.map_append, List.map_singleton] at hSmaller
            rw [mergeFrom_of_next? _ hCandidate, mergeFrom_of_next? _ hNext, h.remove_rename,
              remove_eq, List.map_append, List.map_singleton]
            simpa using ih _ hSmaller (h.place hEligible) rfl
      · have hDone : ∀ rest ∈ rests, rest = [] := by simpa using hLeft
        have hOwn := h.own_eq_nil hDone
        have hEmpty : (rests ++ [own]).all (·.isEmpty) = true := by
          simpa [hOwn] using hDone
        rw [h.mergeFrom_exhausted _ _ hDone, mergeFrom, if_pos hEmpty]
        rfl

end

end Plain

/-- The merge of such orders is that of the original ones under the other names and with the tail,
and so is the conflict where there is none. -/
theorem merge_extended [DecidableEq α] [Hashable α] [DecidableEq β] [Hashable β]
    {parentsOf : α → List α} {othersOf : β → List β} {rename : α → β} {tail : List β}
    {spine parents : List α} {orders : List (Linearization α)} (node : α)
    (h : Plain.Extends parentsOf othersOf rename tail spine [] (orders.map (·.toList)) parents) :
    merge othersOf (rename node) (parents.map rename)
        (orders.map (Linearization.extended rename tail)) =
      ((merge parentsOf node parents orders).map
        (Linearization.extended rename tail)).mapError (Conflict.extended rename tail) := by
  apply Plain.eq_of_map_toList
  have hLists : (orders.map (Linearization.extended rename tail)).map (·.toList) =
      (orders.map (·.toList)).map fun rest => rest.map rename ++ tail := by
    simp [Function.comp_def, Linearization.toList_extended]
  rw [← Plain.merge_eq, Plain.merge, hLists]
  refine (h.mergeFrom_eq parents node).trans ?_
  rw [← Plain.merge, Plain.merge_eq]
  cases merge parentsOf node parents orders <;> rfl

end Merge

end Ancestry
