import DocumentLanguage.Text.Basic
import DocumentLanguage.Tree.Walk

/-! The outline of a tree: a line for every node and every token, indented by its depth. -/
namespace DocumentLanguage

namespace Outline

/-- The lines so far, and the depth of the next. -/
structure Sheet where
  text : String := ""
  depth : Nat := 0
deriving DecidableEq, Repr

def Sheet.addLine (sheet : Sheet) (line : String) : Sheet :=
  { sheet with text := sheet.text ++ String.ofList (List.replicate (2 * sheet.depth) ' ') ++
      line ++ "\n" }

def writer : Processor Sheet Empty where
  enter node _ _ := modify fun sheet =>
    { sheet.addLine node.rule.name with depth := sheet.depth + 1 }
  leave _ _ _ := modify fun sheet => { sheet with depth := sheet.depth - 1 }
  token kind text := modify (·.addLine (kind.name ++ " " ++ Text.quoted text))

end Outline

/-- The outline of a tree. -/
def Tree.outline {rule : Rule} (tree : Tree rule) : String :=
  (tree.process Outline.writer {} 0 1).2.text

end DocumentLanguage
