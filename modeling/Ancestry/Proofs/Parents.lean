import Ancestry.Policy
import Ancestry.Proofs.Linearizes

/-! The direct parents of a type under a policy. Main statements: the policies that count a
superclass leave nothing but the root without parents (`Policy.classParents_ne_nil`), and all
ancestors of a class or interface are classes or interfaces (`Policy.exists_ofClass_of_reaches`). -/
namespace Ancestry

theorem Node.ofClass_injective : Function.Injective Node.ofClass := by
  intro id other hSame
  cases hSame
  rfl

namespace Policy

variable {policy : Policy} {relations : Relations}

theorem interfacesOrRoot_ne_nil (interfaces : List ClassId) (root : ClassId) :
    interfacesOrRoot interfaces root ≠ [] := by
  unfold interfacesOrRoot
  split
  · exact List.cons_ne_nil _ _
  · rename_i hInterfaces
    simpa using hInterfaces

theorem classParents_root (policy : Policy) (relations : Relations) :
    policy.classParents relations relations.root = [] := by
  simp [classParents]

/-- The policies that count a superclass leave nothing but the root without parents. -/
theorem classParents_ne_nil {id : ClassId} (hPolicy : policy ≠ .interfacesOnly)
    (hId : id ≠ relations.root) : policy.classParents relations id ≠ [] := by
  have hOrRoot := interfacesOrRoot_ne_nil (relations.interfaces id) relations.root
  cases policy with
  | superclassFirst =>
      simp only [classParents, if_neg hId]
      split
      · split <;> simp
      · exact hOrRoot
  | interfacesFirst =>
      simp only [classParents, if_neg hId]
      split
      · simp
      · exact hOrRoot
  | interfacesOnly => exact absurd rfl hPolicy

theorem classParents_interfacesOnly {id : ClassId} (hId : id ≠ relations.root) :
    interfacesOnly.classParents relations id =
      if relations.isInterface id || !(relations.interfaces id).isEmpty then
        relations.interfaces id else [relations.root] := by
  simp only [classParents, if_neg hId, interfacesOrRoot]
  cases relations.isInterface id <;> cases (relations.interfaces id).isEmpty <;> rfl

/-- The parents of a type are among the types to which it is related, and the root. -/
theorem mem_classParents {id parent : ClassId} (h : parent ∈ policy.classParents relations id) :
    parent = relations.root ∨ relations.superclass? id = some parent ∨
      parent ∈ relations.interfaces id := by
  have hOrRoot : ∀ interfaces, parent ∈ interfacesOrRoot interfaces relations.root →
      parent = relations.root ∨ parent ∈ interfaces := by
    intro interfaces hParent
    unfold interfacesOrRoot at hParent
    split at hParent
    · exact .inl (List.mem_singleton.1 hParent)
    · exact .inr hParent
  unfold classParents at h
  dsimp only at h
  split at h
  · cases h
  · cases policy <;> dsimp only at h <;> grind

/-- A type that is related to no other has the root for its only parent, if it has any. -/
theorem classParents_of_unrelated {id : ClassId} (hSuperclass : relations.superclass? id = none)
    (hInterfaces : relations.interfaces id = []) :
    policy.classParents relations id = [] ∨
      policy.classParents relations id = [relations.root] := by
  by_cases hRoot : id = relations.root
  · exact .inl (hRoot ▸ classParents_root policy relations)
  · cases policy with
    | superclassFirst => simp [classParents, hRoot, hSuperclass, hInterfaces, interfacesOrRoot]
    | interfacesFirst => simp [classParents, hRoot, hSuperclass, hInterfaces, interfacesOrRoot]
    | interfacesOnly =>
        rw [classParents_interfacesOnly hRoot, hInterfaces]
        cases relations.isInterface id <;> simp

@[simp] theorem parents_ofClass (policy : Policy) (relations : Relations) (id : ClassId) :
    policy.parents relations (.ofClass id) =
      (policy.classParents relations id).map Node.ofClass := by
  simp [parents, elementParents, Node.ofClass, Node.isArray, Function.comp_def]

/-- Among the ancestors of a class or interface there are no arrays and no primitive kinds. -/
theorem exists_ofClass_of_reaches {id : ClassId} {ancestor : Node}
    (h : Reaches (policy.parents relations) (.ofClass id) ancestor) :
    ∃ other, ancestor = .ofClass other := by
  induction h with
  | refl => exact ⟨id, rfl⟩
  | tail _ hParent ih =>
      obtain ⟨child, rfl⟩ := ih
      rw [DirectParent, parents_ofClass] at hParent
      obtain ⟨parent, _, rfl⟩ := List.mem_map.1 hParent
      exact ⟨parent, rfl⟩

end Policy

end Ancestry
