import Ancestry.Diagnostic.Code

/-!
The explanations of the codes, as Markdown.
-/
namespace Ancestry.Diagnostic.Code

def explanationLines : Code → List String
  | inconsistent => [
      "# E0001: Inconsistent precedence",
      "",
      "The direct parents declared somewhere in the hierarchy cannot be arranged into",
      "a single order that respects every declaration.",
      "",
      "A linearization lists a type, then its ancestors, so that:",
      "",
      "- each type comes before its own parents, and",
      "- each type's parents keep the order in which they were declared.",
      "",
      "When two declarations demand opposite orders for the same pair of types, no",
      "linearization exists.",
      "",
      "## Example",
      "",
      "```text",
      "interface B",
      "interface C extends B",
      "interface A extends B, C",
      "```",
      "",
      "`A` lists `B` before `C`, but `C` extends `B`, so `C` must come before `B`.",
      "",
      "## Solution",
      "",
      "Reorder the parents so they agree with their ancestors:",
      "",
      "```text",
      "interface A extends C, B",
      "```",
      "",
      "or drop the redundant parent:",
      "",
      "```text",
      "interface A extends C",
      "```",
      "",
      "The error names the type whose merge failed. That may be an ancestor of the",
      "type you asked about; fix the ancestor's declaration."]
  | tooDeep => [
      "# E0002: Ancestor chain too deep",
      "",
      "Linearization walked more nested ancestors than the configured limit allows.",
      "Real hierarchies are far shallower than the default limit of 4096 levels, so",
      "this almost always means the parent relation contains a cycle.",
      "",
      "## Example",
      "",
      "```text",
      "class A extends B",
      "class B extends A",
      "```",
      "",
      "## Solution",
      "",
      "Break the cycle. If the hierarchy is genuinely that deep, raise the limit:",
      "",
      "```text",
      "mroc linearize hierarchy.txt A --max-depth=10000",
      "```"]
  | badSyntax => [
      "# E0101: Hierarchy syntax error",
      "",
      "A line of the hierarchy file is not a valid declaration.",
      "",
      "Each non-empty line declares one type:",
      "",
      "```text",
      "interface NAME [extends NAME, ...]",
      "class NAME [extends NAME] [implements NAME, ...]",
      "```",
      "",
      "Text after `#` is a comment.",
      "",
      "## Example",
      "",
      "```text",
      "class ArrayList implements List extends AbstractList",
      "```",
      "",
      "`extends` must come before `implements`.",
      "",
      "## Solution",
      "",
      "```text",
      "class ArrayList extends AbstractList implements List",
      "```"]
  | unknownType => [
      "# E0102: Unknown type",
      "",
      "A declaration or a command-line type expression names a type that is not",
      "declared in the hierarchy file.",
      "",
      "`Object`, `Serializable`, and `Cloneable` are always available, as are the",
      "primitive keywords (`boolean`, `byte`, `char`, `short`, `int`, `long`,",
      "`float`, `double`, `void`) when naming a type to linearize.",
      "",
      "## Example",
      "",
      "```text",
      "class Stack extends Vectr",
      "```",
      "",
      "## Solution",
      "",
      "Fix the spelling or declare the missing type. Declarations may appear in any",
      "order in the file."]
  | duplicate => [
      "# E0103: Duplicate declaration",
      "",
      "The same type name is declared more than once.",
      "",
      "## Example",
      "",
      "```text",
      "interface List",
      "class List",
      "```",
      "",
      "## Solution",
      "",
      "Rename or remove one of the declarations. The predeclared `Object`,",
      "`Serializable`, and `Cloneable` cannot be redeclared."]
  | wrongKind => [
      "# E0104: Wrong kind of parent",
      "",
      "A parent clause names a type of the wrong kind:",
      "",
      "- a class `extends` exactly one class",
      "- a class `implements` interfaces",
      "- an interface `extends` interfaces",
      "",
      "## Example",
      "",
      "```text",
      "interface Shape",
      "class Circle extends Shape",
      "```",
      "",
      "## Solution",
      "",
      "```text",
      "class Circle implements Shape",
      "```"]
  | repeatedParent => [
      "# W0101: Repeated parent",
      "",
      "A parent list names the same type more than once. Only the first occurrence",
      "is kept; a repeated direct parent would otherwise make every linearization of",
      "the type fail.",
      "",
      "## Example",
      "",
      "```text",
      "class Bag implements Collection, Iterable, Collection",
      "```",
      "",
      "## Solution",
      "",
      "Remove the repetition:",
      "",
      "```text",
      "class Bag implements Collection, Iterable",
      "```"]

/-- The explanation of a code. Each line ends with a line break. -/
def explanation (code : Code) : String :=
  String.join (code.explanationLines.map fun line => line ++ "\n")

end Ancestry.Diagnostic.Code
