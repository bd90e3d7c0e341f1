import Ancestry.Proofs.Check
import Ancestry.Proofs.Embedding
import Ancestry.Proofs.Hierarchy.Kinds
import Ancestry.Proofs.Hierarchy.Loaded

/-! The interfaces of a file under the three policies. Interfaces have interfaces for parents, in
the same order under each of them. The policies differ in what they do with an interface that
extends none: it has the root for its parent, or no parent at all. Main statement:
`Hierarchy.linearize_interface`. -/
namespace Ancestry

namespace Policy

variable {relations : Relations}

/-- What follows on the last interface among the ancestors of an interface. -/
def interfaceTail (policy : Policy) (relations : Relations) : List Node :=
  match policy with
  | interfacesOnly => []
  | superclassFirst | interfacesFirst => [.ofClass relations.root]

/-- The interfaces that an interface extends. -/
def interfaceParents (hOrdinary : relations.Ordinary)
    (id : {id // relations.isInterface id = true}) : List {id // relations.isInterface id = true} :=
  (relations.interfaces id).attachWith _ (hOrdinary.isInterface_of_mem id)

theorem ne_root_of_isInterface (hOrdinary : relations.Ordinary) {id : ClassId}
    (hId : relations.isInterface id = true) : id ≠ relations.root := by
  rintro rfl
  rw [hOrdinary.isInterface_root] at hId
  cases hId

/-- An interface that extends others has these for parents under all policies. -/
theorem classParents_interface (hOrdinary : relations.Ordinary) (hKinds : relations.WellKinded)
    {id : ClassId} (hId : relations.isInterface id = true)
    (hInterfaces : relations.interfaces id ≠ []) (policy : Policy) :
    policy.classParents relations id = relations.interfaces id := by
  have hSuperclass := hKinds.superclass?_interface id hId
  have hRoot := ne_root_of_isInterface hOrdinary hId
  cases policy <;> simp [classParents, hRoot, hSuperclass, hId, interfacesOrRoot, hInterfaces]

theorem classParents_interface_of_nil (hOrdinary : relations.Ordinary)
    (hKinds : relations.WellKinded) {id : ClassId} (hId : relations.isInterface id = true)
    (hInterfaces : relations.interfaces id = []) (policy : Policy) :
    (policy.classParents relations id).map Node.ofClass = policy.interfaceTail relations := by
  have hSuperclass := hKinds.superclass?_interface id hId
  have hRoot := ne_root_of_isInterface hOrdinary hId
  cases policy <;>
    simp [classParents, hRoot, hSuperclass, hId, interfacesOrRoot, hInterfaces, interfaceTail]

/-- The graph of interfaces is the same under all policies, up to what follows on the last ones. -/
theorem embedsInterfaces (hOrdinary : relations.Ordinary) (hKinds : relations.WellKinded)
    (policy : Policy) :
    Embeds (interfaceParents hOrdinary) (policy.parents relations)
      (fun id => Node.ofClass id.val) (fun _ => policy.interfaceTail relations) where
  injective := Node.ofClass_injective.comp Subtype.val_injective
  apart := by
    intro id _ hTail
    have hRoot := ne_root_of_isInterface hOrdinary id.property
    cases policy with
    | interfacesOnly => cases hTail
    | superclassFirst => exact hRoot (Node.ofClass_injective (List.mem_singleton.1 hTail))
    | interfacesFirst => exact hRoot (Node.ofClass_injective (List.mem_singleton.1 hTail))
  othersOf_rename := by
    intro id hParents
    have hInterfaces : relations.interfaces id ≠ [] := by
      simpa [interfaceParents] using hParents
    rw [parents_ofClass, classParents_interface hOrdinary hKinds id.property hInterfaces]
    exact (List.attachWith_map_val _).symm
  linearizes_last := by
    intro id hParents
    have hInterfaces : relations.interfaces id = [] := by
      simpa [interfaceParents] using hParents
    have hLast := classParents_interface_of_nil hOrdinary hKinds id.property hInterfaces policy
    rw [← parents_ofClass] at hLast
    have hRoot : Linearizes (policy.parents relations) (.ofClass relations.root)
        ⟨.ofClass relations.root, []⟩ := by
      refine .of_no_parents ?_
      rw [parents_ofClass, classParents_root]
      rfl
    cases policy with
    | interfacesOnly => exact .of_no_parents hLast
    | superclassFirst => exact .of_only_parent hLast hRoot
    | interfacesFirst => exact .of_only_parent hLast hRoot
  tail_eq := fun _ _ _ => rfl

end Policy

namespace Hierarchy

open Walk (HitsLimit)

variable {hierarchy : Hierarchy} {source : String}

/-- Take any interface of a loaded file. From some limit on its walk does not meet the limit under
one policy exactly if that is so under all of them. Where no walk meets its limit, the interface
has a linearization under one policy exactly if it has one under all of them, and the policies that
count superclasses put the root behind the linearization of the one that does not. -/
theorem linearize_interface (hLoad : load source = .ok hierarchy) {id : ClassId}
    (hId : hierarchy.catalog.isInterface id = true) :
    let result (policy : Policy) :=
      linearize (policy.parents hierarchy.catalog.relations) (.ofClass id)
    (∀ policy other : Policy,
      (∃ enough, ∀ limit, enough ≤ limit → ¬HitsLimit (result policy limit)) →
        ∃ enough, ∀ limit, enough ≤ limit → ¬HitsLimit (result other limit)) ∧
    ∀ limits : Policy → Nat, (∀ policy, ¬HitsLimit (result policy (limits policy))) →
      ((∃ policy order, result policy (limits policy) = .ok order) ↔
        ∀ policy, ∃ order, result policy (limits policy) = .ok order) ∧
      ∀ order, result .interfacesOnly (limits .interfacesOnly) = .ok order →
        result .superclassFirst (limits .superclassFirst) =
            .ok ⟨order.node, order.ancestors ++ [.object]⟩ ∧
          result .interfacesFirst (limits .interfacesFirst) =
            .ok ⟨order.node, order.ancestors ++ [.object]⟩ := by
  intro result
  have hEmbeds := Policy.embedsInterfaces (ordinary_of_load hLoad) (wellKinded_of_load hLoad)
  have hLinearizes {policy : Policy} {order : Linearization Node} :
      Linearizes (policy.parents hierarchy.catalog.relations) (.ofClass id) order ↔
        ∃ own, Linearizes (Policy.interfaceParents (ordinary_of_load hLoad)) ⟨id, hId⟩ own ∧
          order = own.extended (fun id => .ofClass id.val)
            (policy.interfaceTail hierarchy.catalog.relations) :=
    @Embeds.linearizes_iff _ _ _ _ _ _ _ _ _ _ ⟨id, hId⟩ (hEmbeds policy) order
  refine ⟨fun policy other hEnough => ?_, fun limits hLimits => ⟨⟨?_, ?_⟩, fun order hOrder => ?_⟩⟩
  · have hSame := (hEmbeds policy).exists_not_hitsLimit_iff ⟨id, hId⟩
    exact ((hEmbeds other).exists_not_hitsLimit_iff ⟨id, hId⟩).2 (hSame.1 hEnough)
  · rintro ⟨policy, order, hOrder⟩ other
    obtain ⟨own, hOwn, _⟩ := hLinearizes.1 (.of_linearize hOrder)
    exact ⟨_, (linearize_answer ..).eq_ok (hLinearizes.2 ⟨own, hOwn, rfl⟩) (hLimits other)⟩
  · exact fun hAll => ⟨.interfacesOnly, hAll .interfacesOnly⟩
  · obtain ⟨own, hOwn, rfl⟩ := hLinearizes.1 (.of_linearize hOrder)
    have hRoot (policy : Policy) (hTail : policy.interfaceTail hierarchy.catalog.relations =
        [.object]) : result policy (limits policy) = .ok (own.extended _ [.object]) :=
      (linearize_answer ..).eq_ok (hLinearizes.2 ⟨own, hOwn, by rw [hTail]⟩) (hLimits policy)
    simp only [Linearization.extended, Policy.interfaceTail, List.append_nil] at hRoot ⊢
    exact ⟨hRoot .superclassFirst rfl, hRoot .interfacesFirst rfl⟩

/-- The second interface of that file, which extends the first one. -/
theorem linearize_interface_tangled : ∃ hierarchy, load tangledSource = .ok hierarchy ∧
    hierarchy.catalog.isInterface ⟨5⟩ = true ∧
    let result (policy : Policy) :=
      linearize (policy.parents hierarchy.catalog.relations) (.ofClass ⟨5⟩)
    ∃ limits : Policy → Nat, (∀ policy, ¬HitsLimit (result policy (limits policy))) ∧
      result .interfacesOnly (limits .interfacesOnly) = .ok ⟨.ofClass ⟨5⟩, [.ofClass ⟨4⟩]⟩ ∧
      result .interfacesFirst (limits .interfacesFirst) =
        .ok ⟨.ofClass ⟨5⟩, [.ofClass ⟨4⟩, .object]⟩ := by
  obtain ⟨hierarchy, hLoad, hMeans⟩ := declares_tangled.exists_means coherent_tangled
  have hKind : hierarchy.catalog.kind? ⟨5⟩ = some .interfaceType := (hMeans.reflects 2 _ rfl).kind
  have hId : hierarchy.catalog.isInterface ⟨5⟩ = true := beq_iff_eq.2 hKind
  have hOrder := (orders_tangled hMeans).2.2
  obtain ⟨hSame, hResults⟩ := linearize_interface hLoad hId
  choose limits hEnough using fun policy =>
    hSame .superclassFirst policy (exists_not_hitsLimit_iff.2 (.inl ⟨_, hOrder⟩))
  have hLimits := fun policy => hEnough policy (limits policy) (Nat.le_refl _)
  have hFirst := (linearize_answer ..).eq_ok hOrder (hLimits .superclassFirst)
  obtain ⟨hAll, hRoot⟩ := hResults limits hLimits
  obtain ⟨order, hOnly⟩ := hAll.1 ⟨_, _, hFirst⟩ .interfacesOnly
  obtain ⟨hSuperclass, hInterfaces⟩ := hRoot order hOnly
  have hWhole := Except.ok.inj (hSuperclass.symm.trans hFirst)
  have hAncestors : order.ancestors = [.ofClass ⟨4⟩] :=
    List.append_cancel_right (congrArg Linearization.ancestors hWhole)
  have hNode : order.node = .ofClass ⟨5⟩ := congrArg Linearization.node hWhole
  obtain ⟨node, ancestors⟩ := order
  subst hNode hAncestors
  exact ⟨hierarchy, hLoad, hId, limits, hLimits, hOnly, hInterfaces⟩

end Hierarchy

end Ancestry
