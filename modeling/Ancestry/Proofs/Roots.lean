import Ancestry.Proofs.Laws
import Ancestry.Proofs.Parents

/-! Where an ancestry ends. Under the policies that count a superclass every class and interface
but the root has a parent, and a parent comes behind its children, so that nothing but the root can
come last. Main statement: `linearize_ends_with_root`. -/
namespace Ancestry

namespace Policy

variable {policy : Policy} {relations : Relations} {id : ClassId} {order : Linearization Node}

/-- The last member of a linearization has no parents, so it is the root. -/
theorem getLast?_of_linearizes (hPolicy : policy ≠ .interfacesOnly)
    (h : Linearizes (policy.parents relations) (.ofClass id) order) :
    order.toList.getLast? = some (.ofClass relations.root) := by
  obtain ⟨last, hLast⟩ : ∃ last, order.toList.getLast? = some last :=
    ⟨_, List.getLast?_eq_some_getLast (List.cons_ne_nil order.node order.ancestors)⟩
  have hReach := (h.mem_toList_iff last).1 (List.mem_of_getLast? hLast)
  obtain ⟨other, rfl⟩ := exists_ofClass_of_reaches hReach
  have hParents : (policy.classParents relations other).map Node.ofClass = [] := by
    rw [← parents_ofClass]
    exact h.parents_of_last hLast
  have hRoot : other = relations.root := by
    by_contra hOther
    apply classParents_ne_nil hPolicy hOther
    exact List.map_eq_nil_iff.1 hParents
  rw [hLast, hRoot]

end Policy

/-- Whatever the relations of the types are and whichever type is the root, under the policies that
count a superclass the linearization of a class or interface ends with the root. -/
theorem linearize_ends_with_root {relations : Relations} {policy : Policy} {id : ClassId}
    {limit : Nat} {order : Linearization Node} (hPolicy : policy ≠ .interfacesOnly)
    (h : linearize (policy.parents relations) (.ofClass id) limit = .ok order) :
    Node.ofClass relations.root ∈ order.toList ∧
      order.toList.getLast? = some (.ofClass relations.root) := by
  have hLast := Policy.getLast?_of_linearizes hPolicy (.of_linearize h)
  exact ⟨List.mem_of_getLast? hLast, hLast⟩

/-- A root that is not the usual one. The type 3 has no superclass and lists two classes among its
interfaces, the root after one that extends it. -/
def unusualRelations : Relations where
  superclass? := fun id => if id = ⟨4⟩ then some ⟨9⟩ else none
  interfaces := fun id => if id = ⟨3⟩ then [⟨4⟩, ⟨9⟩] else []
  isInterface := fun _ => false
  root := ⟨9⟩

theorem linearize_ends_with_root_unusual :
    let parents := Policy.superclassFirst.parents unusualRelations
    let order : Linearization Node := ⟨.ofClass ⟨3⟩, [.ofClass ⟨4⟩, .ofClass ⟨9⟩]⟩
    Policy.superclassFirst ≠ .interfacesOnly ∧
      linearize parents (.ofClass ⟨3⟩) 3 = .ok order ∧
      Node.ofClass ⟨9⟩ ∈ order.toList ∧ order.toList.getLast? = some (.ofClass ⟨9⟩) := by
  intro parents order
  let orders (node : Node) : Linearization Node :=
    ⟨node, if node = .ofClass ⟨4⟩ then [.ofClass ⟨9⟩] else []⟩
  have hNine : Linearizes parents (.ofClass ⟨9⟩) (orders (.ofClass ⟨9⟩)) := .of_no_parents rfl
  have hFour : Linearizes parents (.ofClass ⟨4⟩) (orders (.ofClass ⟨4⟩)) :=
    .of_only_parent rfl hNine
  have hParents : parents (.ofClass ⟨3⟩) = [.ofClass ⟨4⟩, .ofClass ⟨9⟩] := rfl
  have hOrder : Linearizes parents (.ofClass ⟨3⟩) order := by
    apply Linearizes.of_plain orders
    · rw [hParents]
      simpa using ⟨hFour, hNine⟩
    · cbv
  have hResult := hOrder.linearize_eq (by decide : order.toList.length ≤ 3)
  exact ⟨by decide, hResult, linearize_ends_with_root (by decide) hResult⟩

end Ancestry
