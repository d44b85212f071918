import DocumentLanguage.Tree.Basic

/-! Trees built by hand. -/
namespace DocumentLanguage

/-- How the items of a container are laid out: in a row, or each on a line with the same
note. -/
inductive Layout
  | inline
  | multiline (note : Option String)
deriving DecidableEq, Repr

/-- A document of a component, with or without a comment before it. -/
def Document.ofComponent (comment : Option String) (component : Tree .component) : Document :=
  .mk (.sequence (.optionalText comment (.child component .nil)))

/-- A component without parameters. -/
def Component.ofEntity (entity : Tree .entity) : Tree .component :=
  .mk (.sequence (.child entity (.absent .nil)))

def Element.ofText (kind : Kind) (text : String) : Tree .element :=
  .mk (.literal kind text)

/-- An element as a key or an end of a range. -/
def Primitive.ofElement (element : Tree .element) : Tree .primitive :=
  .mk (.oneOf .element (by decide) element)

def Component.ofElement (element : Tree .element) : Tree .component :=
  Component.ofEntity (.mk (.oneOf .element (by decide) element))

def Component.ofCollection (collection : Tree .collection) : Tree .component :=
  Component.ofEntity (.mk (.oneOf .collection (by decide) collection))

def Component.ofStatements (statements : Tree .statements) : Tree .component :=
  Component.ofEntity
    (.mk (.oneOf .procedure (by decide) (.mk (.sequence (.child statements .nil)))))

def Range.of (left : String) (first last : Tree .primitive) (right : String) : Tree .range :=
  .mk (.sequence (.text left (.child first (.child last (.text right .nil)))))

def Collection.ofRange (range : Tree .range) : Tree .collection :=
  .mk (.oneOf .range (by decide) range)

def Collection.ofValues (values : Tree .values) : Tree .collection :=
  .mk (.oneOf .list (by decide) (.mk (.sequence (.child values .nil))))

/-- Values of a list. No values in a row have a form of their own. -/
def Values.ofList : Layout → List (Tree .component) → Tree .values
  | .multiline note, values =>
    let line (value : Tree .component) : Tree .annotatedValue :=
      .mk (.sequence (.child value (.optionalText note .nil)))
    .mk (.oneOf .multilineValues (by decide)
      (.mk (.sequence (.many (.ofList (values.map line)) .nil))))
  | .inline, [] => .mk (.oneOf .noValues (by decide) (.mk (.sequence .nil)))
  | .inline, first :: rest =>
    let additional (value : Tree .component) : Tree .additionalValue :=
      .mk (.sequence (.child value .nil))
    .mk (.oneOf .inlineValues (by decide)
      (.mk (.sequence (.child first (.many (.ofList (rest.map additional)) .nil)))))

/-- Statements of a procedure. No statements in a row have a form of their own. -/
def Statements.ofList : Layout → List (Tree .statement) → Tree .statements
  | .multiline note, statements =>
    let line (statement : Tree .statement) : Tree .annotatedStatement :=
      .mk (.oneOf .statementLine (by decide)
        (.mk (.sequence (.child statement (.optionalText note .nil)))))
    .mk (.oneOf .multilineStatements (by decide)
      (.mk (.sequence (.many (.ofList (statements.map line)) .nil))))
  | .inline, [] => .mk (.oneOf .noStatements (by decide) (.mk (.sequence .nil)))
  | .inline, first :: rest =>
    let additional (statement : Tree .statement) : Tree .additionalStatement :=
      .mk (.sequence (.child statement .nil))
    .mk (.oneOf .inlineStatements (by decide)
      (.mk (.sequence (.child first (.many (.ofList (rest.map additional)) .nil)))))

def Expression.ofVariable (identifier : String) : Tree .expression :=
  let variable' : Tree .variableTarget := .mk (.sequence (.text identifier .nil))
  let subject : Tree .subject :=
    .mk (.oneOf .target (by decide) (.mk (.oneOf .variableTarget (by decide) variable')))
  .mk (.sequence (.child subject (.many .nil .nil)))

def Statement.ofExpression (expression : Tree .expression) : Tree .statement :=
  .mk (.sequence (.child (.mk (.oneOf .expression (by decide) expression)) (.absent .nil)))

end DocumentLanguage
