import Ancestry.Session
import Ancestry.Proofs.Cache.Holds
import Ancestry.Proofs.Laws

/-! What the answers of a session have in common. A request may be served by a walk, by what a
linearizer remembers or by what a cache holds, and walks go shorter or longer ways depending on what
is known. Main statements: the answers for one node agree unless a walk meets its limit
(`Session.answers_agree`). -/
namespace Ancestry

open Walk (HitsLimit)

variable {α : Type} [DecidableEq α] [Hashable α]

/-- A linearizer that remembers linearizations only gives a right answer and goes on to remember
linearizations only. So does the cache that it uses. -/
theorem Linearizer.outcome_sound {parents : Nat → α → List α} {linearizer : Linearizer α}
    {orders? : Option (OrderCache α)}
    (hMemo : Memo.Sound (parents linearizer.resolver) linearizer.memo)
    (hOrders : ∀ orders ∈ orders?, OrderCache.Sound parents orders) (node : α) :
    Walk.Answer (parents linearizer.resolver) linearizer.limit node
        (linearizer.outcome (parents linearizer.resolver) orders? node).result ∧
      Memo.Sound (parents linearizer.resolver)
        (linearizer.outcome (parents linearizer.resolver) orders? node).memo ∧
      ∀ orders ∈ (linearizer.outcome (parents linearizer.resolver) orders? node).orders?,
        OrderCache.Sound parents orders := by
  cases orders? with
  | none =>
      have hDone := Walk.linearize_absent_sound linearizer.limit hMemo node
      exact ⟨hDone.answer, hDone.memo, by simp [outcome]⟩
  | some orders =>
      have hDone := Walk.Setting.linearize_sound
        ⟨parents linearizer.resolver, linearizer.limit, OrderCache.storeFor linearizer.resolver α⟩
        (OrderCache.storeFor_sound parents linearizer.resolver) hMemo (hOrders orders rfl) node
      refine ⟨hDone.answer, hDone.memo, fun left hLeft => ?_⟩
      cases hLeft
      exact hDone.store

theorem forall_mem_modify {β : Type} {property : β → Prop} {items : Array β} {index : Nat}
    {update : β → β} (h : ∀ item ∈ items, property item)
    (hUpdate : ∀ item, items[index]? = some item → property (update item)) :
    ∀ item ∈ items.modify index update, property item := by
  intro item hItem
  obtain ⟨place, hPlace⟩ := Array.mem_iff_getElem?.1 hItem
  rw [Array.getElem?_modify] at hPlace
  split at hPlace
  · rename_i hSame
    obtain ⟨old, hOld, rfl⟩ := Option.map_eq_some_iff.1 hPlace
    exact hUpdate old (hSame ▸ hOld)
  · exact h item (Array.mem_of_getElem? hPlace)

namespace Session

/-- What holds at any time: memos and caches have linearizations only, and every answer is one that
some walk may give. -/
structure Sound (parents : Nat → α → List α) (session : Session α) : Prop where
  memo : ∀ linearizer ∈ session.linearizers,
    Memo.Sound (parents linearizer.resolver) linearizer.memo
  orders : ∀ shared ∈ session.caches, OrderCache.Sound parents shared.orders
  answers : ∀ answered ∈ session.answers, ∃ limit,
    Walk.Answer (parents answered.resolver) limit answered.node answered.result

variable {parents : Nat → α → List α} {session : Session α}

theorem sound_start (parents : Nat → α → List α) (shardOf : Nat × α → Fin 16) :
    (start shardOf).Sound parents where
  memo := by simp [start]
  orders := by simpa [start] using OrderCache.sound_empty parents _ _
  answers := by simp [start]

namespace Sound

theorem answer {resolver : Nat} {node : α} {limit : Nat}
    {result : Except (Failure α) (Linearization α)} (h : session.Sound parents)
    (hAnswer : Walk.Answer (parents resolver) limit node result) :
    (session.answer resolver node result).Sound parents where
  memo := h.memo
  orders := h.orders
  answers := by
    intro answered hAnswered
    rcases List.mem_cons.1 hAnswered with rfl | hOld
    · exact ⟨limit, hAnswer⟩
    · exact h.answers answered hOld

theorem updateOrders {cache : Nat} {update : OrderCache α → OrderCache α}
    (h : session.Sound parents)
    (hUpdate : ∀ shared, session.caches[cache]? = some shared →
      OrderCache.Sound parents (update shared.orders)) :
    (session.updateOrders cache update).Sound parents where
  memo := h.memo
  orders := by
    rw [caches_updateOrders]
    exact forall_mem_modify h.orders hUpdate
  answers := h.answers

theorem updateLinearizer {linearizer : Nat} {update : Linearizer α → Linearizer α}
    (h : session.Sound parents)
    (hUpdate : ∀ old, session.linearizers[linearizer]? = some old →
      Memo.Sound (parents (update old).resolver) (update old).memo) :
    (session.updateLinearizer linearizer update).Sound parents where
  memo := forall_mem_modify h.memo hUpdate
  orders := h.orders
  answers := h.answers

theorem orders? (h : session.Sound parents) {cache : Nat} {orders : OrderCache α}
    (hOrders : session.orders? cache = some orders) : OrderCache.Sound parents orders := by
  obtain ⟨shared, hShared, rfl⟩ := Option.map_eq_some_iff.1 hOrders
  exact h.orders shared (Array.mem_of_getElem? hShared)

theorem run (h : session.Sound parents) (index : Nat) (node : α) :
    (session.run parents index node).Sound parents := by
  rw [Session.run]
  split
  · exact h
  · rename_i linearizer hLinearizer
    have hUsed : ∀ orders ∈ linearizer.cache?.bind session.orders?,
        OrderCache.Sound parents orders := by
      intro orders hOrders
      obtain ⟨cache, _, hCache⟩ := Option.bind_eq_some_iff.1 hOrders
      exact h.orders? hCache
    obtain ⟨hAnswer, hMemo, hStore⟩ := Linearizer.outcome_sound
      (h.memo linearizer (Array.mem_of_getElem? hLinearizer)) hUsed node
    have hRemembered : (session.updateLinearizer index fun old =>
        { old with memo := (linearizer.outcome (parents linearizer.resolver)
          (linearizer.cache?.bind session.orders?) node).memo }).Sound parents := by
      refine h.updateLinearizer fun old hOld => ?_
      rw [hLinearizer] at hOld
      cases hOld
      exact hMemo
    refine Sound.answer ?_ hAnswer
    split
    · rename_i orders _ hLeft
      exact hRemembered.updateOrders fun _ _ => hStore orders hLeft
    · exact hRemembered

theorem compute (h : session.Sound parents) (cache resolver : Nat) (node : α) :
    (session.compute parents cache resolver node).Sound parents := by
  rw [Session.compute]
  split
  · exact h
  · rename_i shared hShared
    obtain ⟨hAnswer, hOrders⟩ := OrderCache.getOrLinearize_sound
      (h.orders shared (Array.mem_of_getElem? hShared)) resolver shared.limit node
    exact (h.updateOrders fun _ _ => hOrders).answer hAnswer

theorem get (h : session.Sound parents) (cache resolver : Nat) (node : α) :
    (session.get cache resolver node).Sound parents := by
  rw [Session.get]
  split
  · exact h
  · rename_i orders hOrders
    have hSound := h.orders? hOrders
    have hCounted : (session.updateOrders cache fun _ =>
        (orders.get (resolver, node)).2).Sound parents :=
      h.updateOrders fun _ _ => hSound.get (resolver, node)
    simp only
    split
    · exact hCounted
    · rename_i order hFound
      rw [Cache.get_fst] at hFound
      have hAnswer : Walk.Answer (parents resolver) 0 node (.ok order) :=
        .ok (hSound _ _ _ (Cache.holds_of_stored? hFound))
      exact hCounted.answer hAnswer

end Sound

end Session

/-- What is put into a cache is the linearization of the node under which it is put there: it has
been answered for that node, or a walk with nothing known beforehand finds it out. -/
def Request.Honest (parents : Nat → α → List α) (session : Session α) : Request α → Prop
  | .insert _ resolver node order =>
    ⟨resolver, node, .ok order⟩ ∈ session.answers ∨
      ∃ limit, Ancestry.linearize (parents resolver) node limit = .ok order
  | _ => True

namespace Session

/-- The sessions to which honest requests lead. -/
inductive Reachable (parents : Nat → α → List α) : Session α → Prop where
  | start (shardOf : Nat × α → Fin 16) : Reachable parents (.start shardOf)
  | respond {session : Session α} {request : Request α} (hSession : Reachable parents session)
      (hHonest : request.Honest parents session) :
      Reachable parents (session.respond parents request)

variable {parents : Nat → α → List α} {session : Session α}

theorem Sound.linearizes_of_honest (h : session.Sound parents) {cache resolver : Nat} {node : α}
    {order : Linearization α}
    (hHonest : (Request.insert cache resolver node order).Honest parents session) :
    Linearizes (parents resolver) node order := by
  rcases hHonest with hAnswered | ⟨limit, hResult⟩
  · obtain ⟨limit, hAnswer⟩ := h.answers _ hAnswered
    cases hAnswer with
    | ok hOrder => exact hOrder
  · exact .of_linearize hResult

theorem Sound.respond (h : session.Sound parents) {request : Request α}
    (hHonest : request.Honest parents session) :
    (session.respond parents request).Sound parents := by
  cases request with
  | linearize resolver node limit => exact h.answer (linearize_answer (parents resolver) node limit)
  | newLinearizer resolver limit cache? =>
      refine ⟨fun linearizer hLinearizer => ?_, h.orders, h.answers⟩
      rcases Array.mem_push.1 hLinearizer with hOld | rfl
      · exact h.memo linearizer hOld
      · exact Memo.sound_empty _
  | reconfigure linearizer limit cache? =>
      exact h.updateLinearizer fun old hOld => h.memo old (Array.mem_of_getElem? hOld)
  | run linearizer node => exact h.run linearizer node
  | newCache capacity limit shardOf =>
      refine ⟨h.memo, fun shared hShared => ?_, h.answers⟩
      rcases Array.mem_push.1 hShared with hOld | rfl
      · exact h.orders shared hOld
      · exact OrderCache.sound_empty parents capacity shardOf
  | compute cache resolver node => exact h.compute cache resolver node
  | get cache resolver node => exact h.get cache resolver node
  | insert cache resolver node order =>
      have hOrder := h.linearizes_of_honest hHonest
      exact h.updateOrders fun shared hShared =>
        (h.orders shared (Array.mem_of_getElem? hShared)).insert hOrder
  | clear cache => exact h.updateOrders fun shared _ => OrderCache.sound_clear parents shared.orders
  | clearResolver cache resolver =>
      exact h.updateOrders fun shared hShared =>
        (h.orders shared (Array.mem_of_getElem? hShared)).clearResolver resolver

theorem Reachable.sound (h : session.Reachable parents) : session.Sound parents := by
  induction h with
  | start shardOf => exact sound_start parents shardOf
  | respond _ hHonest ih => exact ih.respond hHonest

/-- However the answers for one node of a resolver came about, they are the same linearization or
the same conflict, unless a walk met its limit. A walk with nothing known beforehand gives that
answer too, from some limit on. All that a cache ever holds under a resolver and a node is the
linearization of the node, and no node is there that is answered with a conflict. -/
theorem answers_agree (h : session.Reachable parents) :
    (∀ first ∈ session.answers, ∀ second ∈ session.answers,
      first.resolver = second.resolver → first.node = second.node →
      ¬HitsLimit first.result → ¬HitsLimit second.result → first.result = second.result) ∧
    (∀ answered ∈ session.answers, ¬HitsLimit answered.result →
      ∃ enough, ∀ limit, enough ≤ limit →
        linearize (parents answered.resolver) answered.node limit = answered.result) ∧
    ∀ shared ∈ session.caches, ∀ resolver node order,
      shared.orders.Holds (resolver, node) order →
        (∃ enough, ∀ limit, enough ≤ limit →
          linearize (parents resolver) node limit = .ok order) ∧
        ∀ answered ∈ session.answers, answered.resolver = resolver → answered.node = node →
          ¬HitsLimit answered.result → answered.result = .ok order := by
  have hSound := h.sound
  refine ⟨?_, ?_, ?_⟩
  · intro first hFirst second hSecond hResolver hNode hLimit hOtherLimit
    obtain ⟨_, hAnswer⟩ := hSound.answers first hFirst
    obtain ⟨_, hOther⟩ := hSound.answers second hSecond
    rw [← hResolver, ← hNode] at hOther
    exact hAnswer.unique hOther hLimit hOtherLimit
  · intro answered hAnswered hLimit
    obtain ⟨_, hAnswer⟩ := hSound.answers answered hAnswered
    exact hAnswer.exists_linearize_eq hLimit
  · intro shared hShared resolver node order hHolds
    have hOrder := hSound.orders shared hShared resolver node order hHolds
    refine ⟨⟨_, fun _ hEnough => hOrder.linearize_eq hEnough⟩, ?_⟩
    rintro answered hAnswered rfl rfl hLimit
    obtain ⟨_, hAnswer⟩ := hSound.answers answered hAnswered
    exact hAnswer.eq_ok hOrder hLimit

/-- A walk with nothing known, and then one that reads from a cache. -/
theorem answers_agree_tied :
    let parents : Nat → Nat → List Nat := fun _ => tiedParents
    let session := ((start fun _ => 0).respond parents (.linearize 0 0 5)).respond parents
      (.compute 0 0 0)
    let computed := (OrderCache.getOrLinearize tiedParents 0 defaultLimit 0
      (Cache.empty Cache.defaultCapacity fun _ => 0)).1
    session.Reachable parents ∧
      session.answers = [⟨0, 0, computed⟩, ⟨0, 0, .ok ⟨0, [1, 2, 4, 3]⟩⟩] ∧
      computed = .ok ⟨0, [1, 2, 4, 3]⟩ := by
  intro parents session computed
  have hSession : session.Reachable parents := .respond (.respond (.start _) trivial) trivial
  have hAnswers : session.answers = [⟨0, 0, computed⟩, ⟨0, 0, .ok ⟨0, [1, 2, 4, 3]⟩⟩] := by
    rw [← linearize_tiedParents]
    rfl
  have hAnswer : Walk.Answer tiedParents defaultLimit 0 computed :=
    (OrderCache.getOrLinearize_sound (OrderCache.sound_empty parents _ _) 0 defaultLimit 0).1
  have hLimit := hAnswer.not_hitsLimit_of_linearizes (.of_linearize linearize_tiedParents)
    (by decide)
  have hAgree := (answers_agree hSession).1
  rw [hAnswers] at hAgree
  exact ⟨hSession, hAnswers, hAgree ⟨0, 0, computed⟩ (by simp) ⟨0, 0, .ok ⟨0, [1, 2, 4, 3]⟩⟩
    (by simp) rfl rfl hLimit (by simp [HitsLimit])⟩

end Session

end Ancestry
