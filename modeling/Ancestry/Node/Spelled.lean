import Ancestry.Node

/-!
The spelled-out form of a node. It shows how a node is built instead of what it is called, so it
needs no catalog, and messages that know none use it.
-/
namespace Ancestry

/-- A kind as it is spelled out: its keyword with a capital letter. -/
def Primitive.spelled : Primitive → String
  | boolean => "Boolean"
  | byte => "Byte"
  | char => "Char"
  | short => "Short"
  | int => "Int"
  | long => "Long"
  | float => "Float"
  | double => "Double"
  | void => "Void"

/-- An identity as it is spelled out: the predeclared types by their roles, all others by number. -/
def ClassId.spelled (id : ClassId) : String :=
  if id = object then "ClassId::OBJECT"
  else if id = serializable then "ClassId::SERIALIZABLE"
  else if id = cloneable then "ClassId::CLONEABLE"
  else "ClassId(" ++ toString id.index ++ ")"

def Element.spelled : Element → String
  | declared id => "Class(" ++ id.spelled ++ ")"
  | primitive kind => "Primitive(" ++ kind.spelled ++ ")"

def Node.spelled (node : Node) : String :=
  if node.isArray then
    "Array(ArrayType \x7b element: " ++ node.element.spelled ++ ", dims: " ++
      toString node.dims.val ++ " \x7d)"
  else node.element.spelled

/-- A sequence of nodes, spelled out between brackets. -/
def Node.spelledList (nodes : List Node) : String :=
  "[" ++ ", ".intercalate (nodes.map spelled) ++ "]"

end Ancestry
