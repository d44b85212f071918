/-!
The names of the grammar. A rule has nodes of its own in the tree; a choice stands for one of
several delimiters, whose text is kept by the node around it.
-/
namespace DocumentLanguage

/-- The rules of the grammar, in the order in which they are introduced. -/
inductive Rule
  | document | component | entity | element | string | primitive
  | collection | range | catalog | associations | multilineAssociations | annotatedAssociation
  | inlineAssociations | additionalAssociation | noAssociations | association
  | list | values | multilineValues | annotatedValue | inlineValues | additionalValue | noValues
  | parameters
  | procedure | statements | multilineStatements | annotatedStatement | commentLine
  | statementLine | inlineStatements | additionalStatement | noStatements | statement | onClause
  | matchHandler
  | mainClause | flowControl | ifClause | selectClause | whileClause | withClause
  | continueClause | breakClause | returnClause | throwClause | letClause | recipient
  | repositoryAccess | checkoutClause | atLevel | saveClause | discardClause | notarizeClause
  | messageHandling | postClause | retrieveClause | acceptClause | rejectClause | publishClause
  | expression | predicate | subject | target | function | method | arguments
  | additionalArgument | attributeTarget | indices | additionalIndex | variableTarget | referent | precedence
  | inversion | magnitude | complement
deriving DecidableEq, Repr

def Rule.name : Rule → String
  | .document => "Document"
  | .component => "Component"
  | .entity => "Entity"
  | .element => "Element"
  | .string => "String"
  | .primitive => "Primitive"
  | .collection => "Collection"
  | .range => "Range"
  | .catalog => "Catalog"
  | .associations => "Associations"
  | .multilineAssociations => "MultilineAssociations"
  | .annotatedAssociation => "AnnotatedAssociation"
  | .inlineAssociations => "InlineAssociations"
  | .additionalAssociation => "AdditionalAssociation"
  | .noAssociations => "NoAssociations"
  | .association => "Association"
  | .list => "List"
  | .values => "Values"
  | .multilineValues => "MultilineValues"
  | .annotatedValue => "AnnotatedValue"
  | .inlineValues => "InlineValues"
  | .additionalValue => "AdditionalValue"
  | .noValues => "NoValues"
  | .parameters => "Parameters"
  | .procedure => "Procedure"
  | .statements => "Statements"
  | .multilineStatements => "MultilineStatements"
  | .annotatedStatement => "AnnotatedStatement"
  | .commentLine => "CommentLine"
  | .statementLine => "StatementLine"
  | .inlineStatements => "InlineStatements"
  | .additionalStatement => "AdditionalStatement"
  | .noStatements => "NoStatements"
  | .statement => "Statement"
  | .onClause => "OnClause"
  | .matchHandler => "MatchHandler"
  | .mainClause => "MainClause"
  | .flowControl => "FlowControl"
  | .ifClause => "IfClause"
  | .selectClause => "SelectClause"
  | .whileClause => "WhileClause"
  | .withClause => "WithClause"
  | .continueClause => "ContinueClause"
  | .breakClause => "BreakClause"
  | .returnClause => "ReturnClause"
  | .throwClause => "ThrowClause"
  | .letClause => "LetClause"
  | .recipient => "Recipient"
  | .repositoryAccess => "RepositoryAccess"
  | .checkoutClause => "CheckoutClause"
  | .atLevel => "AtLevel"
  | .saveClause => "SaveClause"
  | .discardClause => "DiscardClause"
  | .notarizeClause => "NotarizeClause"
  | .messageHandling => "MessageHandling"
  | .postClause => "PostClause"
  | .retrieveClause => "RetrieveClause"
  | .acceptClause => "AcceptClause"
  | .rejectClause => "RejectClause"
  | .publishClause => "PublishClause"
  | .expression => "Expression"
  | .predicate => "Predicate"
  | .subject => "Subject"
  | .target => "Target"
  | .function => "Function"
  | .method => "Method"
  | .arguments => "Arguments"
  | .additionalArgument => "AdditionalArgument"
  | .attributeTarget => "Attribute"
  | .indices => "Indices"
  | .additionalIndex => "AdditionalIndex"
  | .variableTarget => "Variable"
  | .referent => "Referent"
  | .precedence => "Precedence"
  | .inversion => "Inversion"
  | .magnitude => "Magnitude"
  | .complement => "Complement"

/-- The places where one of several delimiters may stand. -/
inductive Choice
  | leftBracket | rightBracket | assign | operator | invoke | inverse
deriving DecidableEq, Repr

namespace Choice

def name : Choice → String
  | leftBracket => "LeftBracket"
  | rightBracket => "RightBracket"
  | assign => "Assign"
  | operator => "Operator"
  | invoke => "Invoke"
  | inverse => "Inverse"

def delimiters : Choice → List String
  | leftBracket => ["[", "("]
  | rightBracket => ["]", ")"]
  | assign => [":=", "?=", "+=", "-=", "*=", "/="]
  | operator =>
    ["and", "san", "ior", "xor", "is", "matches", "<", "=", ">", "&", "+", "-", "*", "//", "/",
     "^"]
  | invoke => [".", "<-"]
  | inverse => ["-", "*"]

end Choice

end DocumentLanguage
