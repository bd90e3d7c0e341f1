import Ancestry.Proofs.Session
import Ancestry.Proofs.Walk.Remembered

/-! What it costs that a linearizer is used again. It begins each run with all that its earlier runs
have found out, also those that failed on the way. Main statement: as long as it uses no cache, it
loses nothing by that (`Session.reuse_loses_nothing`). -/
namespace Ancestry

open Walk (HitsLimit)

variable {α : Type} [DecidableEq α] [Hashable α]

/-- A closed memo of linearizations has those of all ancestors of the nodes that it knows. -/
theorem Memo.Closed.mem_of_reaches {parents : α → List α} {memo : Memo α} {node ancestor : α}
    (h : memo.Closed parents) (hNode : node ∈ memo) (hReach : Reaches parents node ancestor) :
    ancestor ∈ memo := by
  induction hReach with
  | refl => exact hNode
  | tail _ hParent ih => exact h _ ih _ hParent

/-- The request does not give the linearizer with the given number another limit or a cache. -/
def Request.Spares (index : Nat) : Request α → Prop
  | .reconfigure linearizer _ _ => linearizer ≠ index
  | _ => True

namespace Session

variable {parents : Nat → α → List α} {session : Session α} {index resolver limit : Nat}

/-- The answer of a run without a cache. -/
theorem answers_run {memo : Memo α}
    (h : session.linearizers[index]? = some ⟨resolver, limit, none, memo⟩) (node : α) :
    (session.run parents index node).answers =
      ⟨resolver, node, (Walk.Setting.linearize ⟨parents resolver, limit, .absent α⟩ node memo
        ()).result⟩ :: session.answers := by
  rw [run, h]
  rfl

/-- What the linearizer with the given number has: no cache, and a closed memo of linearizations. -/
def Retains (parents : Nat → α → List α) (index resolver limit : Nat) (session : Session α) :
    Prop :=
  ∃ memo : Memo α, session.linearizers[index]? = some ⟨resolver, limit, none, memo⟩ ∧
    memo.Sound (parents resolver) ∧ memo.Closed (parents resolver)

namespace Retains

theorem of_linearizers_eq {later : Session α}
    (h : session.Retains parents index resolver limit)
    (hSame : later.linearizers = session.linearizers) :
    later.Retains parents index resolver limit := by
  rwa [Retains, hSame]

/-- Without a cache a run only adds to the memo. -/
theorem run (h : session.Retains parents index resolver limit) (other : Nat) (node : α) :
    (session.run parents other node).Retains parents index resolver limit := by
  obtain ⟨memo, hIndex, hSound, hClosed⟩ := h
  rw [Session.run]
  cases hOther : session.linearizers[other]? with
  | none => exact ⟨memo, hIndex, hSound, hClosed⟩
  | some linearizer =>
      simp only
      generalize hOutcome : linearizer.outcome (parents linearizer.resolver)
        (linearizer.cache?.bind session.orders?) node = outcome
      have hLater : (session.updateLinearizer other fun old =>
          { old with memo := outcome.memo }).Retains parents index resolver limit := by
        by_cases hSame : other = index
        · subst hSame
          obtain rfl := Option.some.inj (hOther.symm.trans hIndex)
          refine ⟨outcome.memo, ?_, ?_, ?_⟩
          · simp [updateLinearizer, Array.getElem?_modify, hIndex]
          · exact hOutcome ▸ (Walk.linearize_absent_sound limit hSound node).memo
          · exact hOutcome ▸ Walk.Setting.linearize_closed hSound hClosed limit node
        · refine ⟨memo, ?_, hSound, hClosed⟩
          simp [updateLinearizer, Array.getElem?_modify, hSame, hIndex]
      refine of_linearizers_eq hLater ?_
      split <;> rfl

theorem respond (h : session.Retains parents index resolver limit) {request : Request α}
    (hRequest : request.Spares index) :
    (session.respond parents request).Retains parents index resolver limit := by
  cases request with
  | linearize => exact h.of_linearizers_eq rfl
  | newLinearizer =>
      obtain ⟨memo, hIndex, hMemo⟩ := h
      refine ⟨memo, ?_, hMemo⟩
      have hLess := (Array.getElem?_eq_some_iff.1 hIndex).1
      rw [Session.respond, Array.getElem?_push, if_neg (Nat.ne_of_lt hLess), hIndex]
  | reconfigure linearizer _ _ =>
      obtain ⟨memo, hIndex, hMemo⟩ := h
      refine ⟨memo, ?_, hMemo⟩
      have hOther : linearizer ≠ index := hRequest
      simp [Session.respond, updateLinearizer, Array.getElem?_modify, hOther, hIndex]
  | run linearizer node => exact h.run linearizer node
  | newCache => exact h.of_linearizers_eq rfl
  | compute cache _ _ =>
      refine h.of_linearizers_eq ?_
      rw [Session.respond, Session.compute]
      split <;> rfl
  | get cache _ _ =>
      refine h.of_linearizers_eq ?_
      rw [Session.respond, Session.get]
      split
      · rfl
      · simp only
        split <;> rfl
  | insert => exact h.of_linearizers_eq rfl
  | clear => exact h.of_linearizers_eq rfl
  | clearResolver => exact h.of_linearizers_eq rfl

theorem foldl_respond {requests : List (Request α)}
    (h : session.Retains parents index resolver limit)
    (hRequests : ∀ request ∈ requests, request.Spares index) :
    (requests.foldl (Session.respond parents) session).Retains parents index resolver limit := by
  induction requests generalizing session with
  | nil => exact h
  | cons request rest ih =>
      obtain ⟨hRequest, hRest⟩ := List.forall_mem_cons.1 hRequests
      exact ih (h.respond hRequest) hRest

end Retains

/-- A new linearizer knows nothing. -/
theorem retains_newLinearizer (parents : Nat → α → List α) (session : Session α)
    (resolver limit : Nat) :
    (session.respond parents (.newLinearizer resolver limit none)).Retains parents
      session.linearizers.size resolver limit :=
  ⟨∅, Array.getElem?_push_size, Memo.sound_empty _, Memo.closed_empty _⟩

/-- A linearizer is made for a session and runs any number of times without a cache, while the
session serves whatever other requests there are. Then the linearizer remembers the linearizations
of all ancestors of each node that it remembers. And its next run, for whatever node, gives the
answer that a walk with nothing known beforehand gives, unless that one meets the limit. -/
theorem reuse_loses_nothing (parents : Nat → α → List α) (session : Session α)
    (resolver limit : Nat) {requests : List (Request α)}
    (hRequests : ∀ request ∈ requests, request.Spares session.linearizers.size) :
    let index := session.linearizers.size
    let later := requests.foldl (Session.respond parents)
      (session.respond parents (.newLinearizer resolver limit none))
    ∃ memo : Memo α, later.linearizers[index]? = some ⟨resolver, limit, none, memo⟩ ∧
      (∀ node ∈ memo, ∀ ancestor, Reaches (parents resolver) node ancestor →
        ∃ order, memo[ancestor]? = some order ∧ ∀ depth, order.toList.length ≤ depth →
          linearize (parents resolver) ancestor depth = .ok order) ∧
      ∀ node, ¬HitsLimit (linearize (parents resolver) node limit) →
        (later.respond parents (.run index node)).answers =
          ⟨resolver, node, linearize (parents resolver) node limit⟩ :: later.answers := by
  intro index later
  obtain ⟨memo, hIndex, hSound, hClosed⟩ :=
    (retains_newLinearizer parents session resolver limit).foldl_respond hRequests
  refine ⟨memo, hIndex, fun node hNode ancestor hReach => ?_, fun node hLimit => ?_⟩
  · have hAncestor := hClosed.mem_of_reaches hNode hReach
    have hOrder := hSound.linearizes_getD hAncestor ⟨ancestor, []⟩
    exact ⟨_, Std.HashMap.getElem?_eq_some_getD hAncestor, fun depth hDepth =>
      hOrder.linearize_eq hDepth⟩
  · rw [← Walk.Setting.linearize_eq_of_closed hSound hClosed hLimit]
    exact answers_run hIndex node

/-- A chain of two, a node with a parent that is its own parent, and one whose parents do not
agree. -/
def mixedParents : Nat → List Nat
  | 0 => [1]
  | 1 => [2]
  | 3 => [1, 4]
  | 4 => [4]
  | 5 => [2, 6]
  | 6 => [2]
  | _ => []

/-- The first run meets the limit and the second one a conflict. -/
theorem reuse_loses_nothing_mixed :
    let parents : Nat → Nat → List Nat := fun _ => mixedParents
    let requests : List (Request Nat) := [.run 0 3, .compute 0 0 5, .run 0 5]
    let later := requests.foldl (Session.respond parents)
      ((start fun _ => 0).respond parents (.newLinearizer 0 3 none))
    (∀ request ∈ requests, request.Spares 0) ∧
      ¬HitsLimit (linearize mixedParents 0 3) ∧
      (later.respond parents (.run 0 0)).answers = ⟨0, 0, .ok ⟨0, [1, 2]⟩⟩ :: later.answers := by
  intro parents requests later
  have hSpares : ∀ request ∈ requests, request.Spares 0 := by
    simp only [requests, List.forall_mem_cons]
    exact ⟨trivial, trivial, trivial, nofun⟩
  have hOrder : Linearizes mixedParents 0 ⟨0, [1, 2]⟩ :=
    .of_only_parent rfl (.of_only_parent rfl (.of_no_parents rfl))
  have hFresh : linearize mixedParents 0 3 = .ok ⟨0, [1, 2]⟩ := hOrder.linearize_eq (by decide)
  have hLimit : ¬HitsLimit (linearize mixedParents 0 3) :=
    hFresh ▸ Walk.not_hitsLimit_ok _
  obtain ⟨_, _, _, hNext⟩ := reuse_loses_nothing parents (start fun _ => 0) 0 3 hSpares
  refine ⟨hSpares, hLimit, ?_⟩
  rw [← hFresh]
  exact hNext 0 hLimit

end Session

end Ancestry
