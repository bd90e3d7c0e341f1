import Ancestry.Proofs.Walk.Effort

/-! What a walk does to its store. It looks nodes up and keeps the linearizations of the nodes that
it has entered, which are ancestors of the requested node and not farther from it than the limit
allows; nothing else happens to the store. Main statement: `Setting.uses_linearize`. -/
namespace Ancestry

variable {σ α : Type}

/-- Any number of uses of a store, by which something is kept only for such nodes. -/
inductive Store.Uses (store : Store σ α) (kept : α → Prop) (first : σ) : σ → Prop where
  | refl : Uses store kept first first
  | find {stored : σ} (h : Uses store kept first stored) (node : α) :
      Uses store kept first (store.find node stored).2
  | keep {stored : σ} (h : Uses store kept first stored) {node : α} (hNode : kept node)
      (order : Linearization α) : Uses store kept first (store.keep node order stored)

/-- The ends of the chains of parents from a node that have at most so many members. -/
def nodesWithin (parents : α → List α) : Nat → α → List α
  | 0, _ => []
  | bound + 1, node => node :: (parents node).flatMap (nodesWithin parents bound)

section

variable {parents : α → List α} {bound larger : Nat} {node member parent : α}

theorem mem_nodesWithin_parent (h : member ∈ nodesWithin parents bound node)
    (hParent : parent ∈ parents member) : parent ∈ nodesWithin parents (bound + 1) node := by
  induction bound generalizing node with
  | zero => cases h
  | succ bound ih =>
      rw [nodesWithin, List.mem_cons, List.mem_flatMap]
      rcases List.mem_cons.1 h with rfl | hFarther
      · exact .inr ⟨parent, hParent, List.mem_cons_self⟩
      · obtain ⟨first, hFirst, hMember⟩ := List.mem_flatMap.1 hFarther
        exact .inr ⟨first, hFirst, ih hMember⟩

theorem mem_nodesWithin_mono (hBound : bound ≤ larger)
    (h : member ∈ nodesWithin parents bound node) : member ∈ nodesWithin parents larger node := by
  induction bound generalizing larger node with
  | zero => cases h
  | succ bound ih =>
      obtain ⟨more, rfl⟩ : ∃ more, larger = more + 1 := Nat.exists_eq_add_of_le' (by omega)
      rcases List.mem_cons.1 h with rfl | hFarther
      · exact List.mem_cons_self
      · obtain ⟨first, hFirst, hMember⟩ := List.mem_flatMap.1 hFarther
        have hMore := ih (Nat.le_of_succ_le_succ hBound) hMember
        exact List.mem_cons_of_mem _ (List.mem_flatMap.2 ⟨first, hFirst, hMore⟩)

theorem reaches_of_mem_nodesWithin (h : member ∈ nodesWithin parents bound node) :
    Reaches parents node member := by
  induction bound generalizing node with
  | zero => cases h
  | succ bound ih =>
      rcases List.mem_cons.1 h with rfl | hFarther
      · exact .refl
      · obtain ⟨first, hFirst, hMember⟩ := List.mem_flatMap.1 hFarther
        exact .head hFirst (ih hMember)

end

variable [DecidableEq α] [Hashable α]

namespace Walk

theorem Waits.mem_nodesWithin {parents : α → List α} {requested node : α} {memo : Memo α}
    {frames : List (Frame α)} (h : Waits parents requested memo node frames) :
    node ∈ nodesWithin parents (frames.length + 1) requested := by
  induction frames generalizing node with
  | nil =>
      obtain rfl : node = requested := h
      exact List.mem_cons_self
  | cons frame below ih =>
      obtain ⟨hParents, ⟨turned, hTurned, _⟩, hBelow⟩ := h
      refine mem_nodesWithin_parent (ih hBelow) ?_
      rw [← hParents, hTurned]
      exact List.mem_append_right _ List.mem_cons_self

def Progress.store : Progress σ α → σ
  | .running state => state.store
  | .finished outcome => outcome.store

variable {setting : Setting σ α} {requested : α} {state : State σ α}

theorem State.InOrder.top_mem (h : state.InOrder setting requested) :
    state.stack.top.node ∈ nodesWithin setting.parents (max 1 setting.limit) requested := by
  have hHeight := h.height_le
  rw [state.stack.height_eq] at hHeight
  exact mem_nodesWithin_mono hHeight h.waits.mem_nodesWithin

section

variable {kept : α → Prop} {first stored : σ} {progress : Progress σ α}

theorem uses_lookup (h : setting.store.Uses kept first stored) (node : α) (memo : Memo α) :
    setting.store.Uses kept first (lookup setting.store node memo stored).2.2 := by
  have hFind := h.find node
  unfold lookup
  split
  · exact h
  · split <;> simp_all

theorem Advances.uses (h : Advances setting requested state progress)
    (hFirst : setting.store.Uses kept first state.store) (hTop : kept state.stack.top.node) :
    setting.store.Uses kept first progress.store := by
  have hLookup {parent : α} {found? : Option (Linearization α)} {memo : Memo α} {store : σ}
      (hFound : lookup setting.store parent state.memo state.store = (found?, memo, store)) :
      setting.store.Uses kept first store := by
    have hUses := uses_lookup hFirst parent state.memo
    rwa [hFound] at hUses
  cases h with
  | passes _ hFound => exact hLookup hFound
  | enters _ hFound => exact hLookup hFound
  | stops _ hFound => exact hLookup hFound
  | clashes => exact hFirst
  | returns => exact hFirst.keep hTop _
  | ends => exact hFirst.keep hTop _

theorem State.InOrder.uses_run (h : state.InOrder setting requested)
    (hFirst : setting.store.Uses
      (· ∈ nodesWithin setting.parents (max 1 setting.limit) requested) first state.store) :
    setting.store.Uses (· ∈ nodesWithin setting.parents (max 1 setting.limit) requested) first
      (run setting requested state).store := by
  induction State.accessible setting requested state with
  | intro state _ ih =>
      have hUses := (advances_step setting requested state).uses hFirst h.top_mem
      rw [run_eq]
      cases hNext : step setting requested state with
      | running next =>
          rw [hNext] at hUses
          exact ih next hNext (h.of_follows hNext) hUses
      | finished outcome =>
          rw [hNext] at hUses
          exact hUses

end

/-- However it ends, a walk has only looked nodes up and kept linearizations of nodes to which a
chain of parents leads that keeps the limit. -/
theorem Setting.uses_linearize (setting : Setting σ α) (node : α) (memo : Memo α) (stored : σ) :
    setting.store.Uses (· ∈ nodesWithin setting.parents (max 1 setting.limit) node) stored
      (setting.linearize node memo stored).store := by
  have hLookup : setting.store.Uses
      (· ∈ nodesWithin setting.parents (max 1 setting.limit) node) stored
      (lookup setting.store node memo stored).2.2 := uses_lookup .refl node memo
  rw [Setting.linearize]
  split
  · rename_i hFound
    rwa [hFound] at hLookup
  · rename_i hNone
    rw [hNone] at hLookup
    exact (State.InOrder.enter setting node _ _).uses_run hLookup

end Walk

end Ancestry
