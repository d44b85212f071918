import DocumentLanguage.Grammar.Rule
import DocumentLanguage.Token.Kind

/-!
The grammar as data. The form of a rule says how its text is read, at which point a reader can
no longer turn back, and what its node in the tree keeps.
-/
namespace DocumentLanguage

/-- One step in reading a rule that is a sequence. Steps with a label leave a field in the
node. -/
inductive Part
  /-- A delimiter behind which there is no way back. -/
  | keyword (text : String)
  | delimiter (text : String)
  | newline
  /-- One of several delimiters, kept. -/
  | choice (label : String) (choice : Choice)
  /-- A token, kept. -/
  | token (label : String) (kind : Kind)
  | optionalToken (label : String) (kind : Kind)
  | child (label : String) (rule : Rule)
  /-- A child that ends with its line. -/
  | line (label : String) (rule : Rule)
  | optional (label : String) (rule : Rule)
  /-- A child as often as it comes. -/
  | many (label : String) (rule : Rule)
  /-- A child at least once. -/
  | some (label : String) (rule : Rule)
  /-- From here on there is no way back. -/
  | commit
deriving DecidableEq, Repr

/-- What a node keeps in one place. -/
inductive Shape
  | text (kind : Kind)
  | optionalText (kind : Kind)
  | child (rule : Rule)
  | optional (rule : Rule)
  | many (rule : Rule)
deriving DecidableEq, Repr

/-- A labelled place in a node. -/
structure Field where
  label : String
  shape : Shape
deriving DecidableEq, Repr

/-- The fields that the parts of a sequence leave behind. -/
def fieldsOf : List Part → List Field
  | [] => []
  | .keyword _ :: parts | .delimiter _ :: parts | .newline :: parts | .commit :: parts =>
    fieldsOf parts
  | .choice label _ :: parts => ⟨label, .text .delimiter⟩ :: fieldsOf parts
  | .token label kind :: parts => ⟨label, .text kind⟩ :: fieldsOf parts
  | .optionalToken label kind :: parts => ⟨label, .optionalText kind⟩ :: fieldsOf parts
  | .child label rule :: parts | .line label rule :: parts =>
    ⟨label, .child rule⟩ :: fieldsOf parts
  | .optional label rule :: parts => ⟨label, .optional rule⟩ :: fieldsOf parts
  | .many label rule :: parts | .some label rule :: parts =>
    ⟨label, .many rule⟩ :: fieldsOf parts

/-- How a rule that is a sequence may be given up. -/
inductive Standing
  /-- It can be given up and read again from its start, until it commits. -/
  | attempt
  /-- Only its first part can fail. -/
  | plain
  /-- As `plain`; where it commits, the rule around it does. -/
  | body
  /-- As `attempt`; where it commits, the rule around it does too. -/
  | bodyAttempt
deriving DecidableEq, Repr

/-- Whether the rule can be given up by itself. -/
def Standing.isAttempt : Standing → Bool
  | attempt | bodyAttempt => true
  | plain | body => false

/-- Whether the rule commits for the rule around it. -/
def Standing.isBody : Standing → Bool
  | body | bodyAttempt => true
  | attempt | plain => false

/-- How a rule is made up. -/
inductive Form
  /-- One token of one of these kinds. -/
  | literal (kinds : List Kind)
  /-- The first of these rules that can be read. -/
  | oneOf (rules : List Rule)
  | sequence (standing : Standing) (parts : List Part)
deriving DecidableEq, Repr

namespace Rule

/-- The form of each rule. -/
def form : Rule → Form
  -- documents and components
  | document =>
    .sequence .plain [.optionalToken "comment" .comment, .child "component" component]
  | component =>
    .sequence .plain [.child "entity" entity, .optional "parameters" parameters]
  | entity => .oneOf [element, string, collection, procedure]
  | element => .literal Kind.elements
  | string => .literal Kind.strings
  | primitive => .oneOf [element, string]
  -- collections
  | collection => .oneOf [range, catalog, list]
  | range =>
    .sequence .attempt
      [.choice "left" .leftBracket, .child "first" primitive, .delimiter "..",
       .child "last" primitive, .choice "right" .rightBracket]
  | catalog =>
    .sequence .attempt [.delimiter "[", .child "associations" associations, .delimiter "]"]
  | associations => .oneOf [multilineAssociations, inlineAssociations, noAssociations]
  | multilineAssociations =>
    .sequence .bodyAttempt [.newline, .some "lines" annotatedAssociation]
  | annotatedAssociation =>
    .sequence .attempt
      [.child "association" association, .commit, .optionalToken "note" .note, .newline]
  | inlineAssociations =>
    .sequence .body
      [.child "association" association, .commit, .many "additional" additionalAssociation]
  | additionalAssociation =>
    .sequence .attempt [.delimiter ",", .child "association" association]
  | noAssociations => .sequence .body [.delimiter ":", .commit]
  | association =>
    .sequence .attempt [.child "key" primitive, .delimiter ":", .child "value" component]
  | list => .sequence .attempt [.delimiter "[", .commit, .child "values" values, .delimiter "]"]
  | values => .oneOf [multilineValues, inlineValues, noValues]
  | multilineValues => .sequence .attempt [.newline, .some "lines" annotatedValue]
  | annotatedValue =>
    .sequence .attempt
      [.child "value" component, .commit, .optionalToken "note" .note, .newline]
  | inlineValues =>
    .sequence .plain [.child "value" component, .many "additional" additionalValue]
  | additionalValue => .sequence .attempt [.delimiter ",", .child "value" component]
  | noValues => .sequence .plain []
  | parameters =>
    .sequence .attempt [.delimiter "(", .child "associations" associations, .delimiter ")"]
  -- procedures
  | procedure =>
    .sequence .attempt
      [.delimiter "\x7b", .commit, .child "statements" statements, .delimiter "\x7d"]
  | statements => .oneOf [multilineStatements, inlineStatements, noStatements]
  | multilineStatements => .sequence .attempt [.newline, .some "lines" annotatedStatement]
  | annotatedStatement => .oneOf [commentLine, statementLine]
  | commentLine => .sequence .attempt [.token "comment" .comment, .newline]
  | statementLine =>
    .sequence .attempt
      [.line "statement" statement, .commit, .optionalToken "note" .note, .newline]
  | inlineStatements =>
    .sequence .plain [.child "statement" statement, .many "additional" additionalStatement]
  | additionalStatement => .sequence .attempt [.delimiter ";", .child "statement" statement]
  | noStatements => .sequence .plain []
  | statement =>
    .sequence .plain [.child "main_clause" mainClause, .optional "on_clause" onClause]
  | onClause =>
    .sequence .attempt
      [.keyword "on", .token "failure" .symbol, .some "handlers" matchHandler]
  | matchHandler =>
    .sequence .attempt
      [.keyword "matching", .child "template" expression, .delimiter "do",
       .child "procedure" procedure]
  | mainClause => .oneOf [flowControl, letClause, repositoryAccess, messageHandling, expression]
  -- clauses
  | flowControl =>
    .oneOf
      [ifClause, selectClause, whileClause, withClause, continueClause, breakClause,
       returnClause, throwClause]
  | ifClause =>
    .sequence .attempt
      [.keyword "if", .child "condition" expression, .delimiter "do",
       .child "procedure" procedure]
  | selectClause =>
    .sequence .attempt
      [.keyword "select", .child "target" target, .some "handlers" matchHandler]
  | whileClause =>
    .sequence .attempt
      [.keyword "while", .child "condition" expression, .delimiter "do",
       .child "procedure" procedure]
  | withClause =>
    .sequence .attempt
      [.keyword "with", .delimiter "each", .token "item" .identifier, .delimiter "in",
       .child "sequence" expression, .delimiter "do", .child "procedure" procedure]
  | continueClause => .sequence .attempt [.keyword "continue", .delimiter "loop"]
  | breakClause => .sequence .attempt [.keyword "break", .delimiter "loop"]
  | returnClause => .sequence .attempt [.keyword "return", .child "result" expression]
  | throwClause => .sequence .attempt [.keyword "throw", .child "exception" expression]
  | letClause =>
    .sequence .attempt
      [.keyword "let", .child "recipient" recipient, .choice "assign" .assign,
       .child "expression" expression]
  | recipient => .oneOf [attributeTarget, variableTarget]
  | repositoryAccess => .oneOf [checkoutClause, saveClause, discardClause, notarizeClause]
  | checkoutClause =>
    .sequence .attempt
      [.keyword "checkout", .child "recipient" recipient, .optional "level" atLevel,
       .delimiter "from", .child "name" expression]
  | atLevel =>
    .sequence .attempt [.keyword "at", .delimiter "level", .child "level" expression]
  | saveClause =>
    .sequence .attempt
      [.keyword "save", .child "document" expression, .delimiter "as",
       .child "recipient" recipient]
  | discardClause => .sequence .attempt [.keyword "discard", .child "document" expression]
  | notarizeClause =>
    .sequence .attempt
      [.keyword "notarize", .child "document" expression, .delimiter "as",
       .child "name" expression]
  | messageHandling =>
    .oneOf [postClause, retrieveClause, acceptClause, rejectClause, publishClause]
  | postClause =>
    .sequence .attempt
      [.keyword "post", .child "message" expression, .delimiter "to", .child "bag" expression]
  | retrieveClause =>
    .sequence .attempt
      [.keyword "retrieve", .child "recipient" recipient, .delimiter "from",
       .child "bag" expression]
  | acceptClause => .sequence .attempt [.keyword "accept", .child "message" expression]
  | rejectClause => .sequence .attempt [.keyword "reject", .child "message" expression]
  | publishClause => .sequence .attempt [.keyword "publish", .child "event" expression]
  -- expressions
  | expression =>
    .sequence .plain [.child "subject" subject, .many "predicates" predicate]
  | predicate => .sequence .attempt [.choice "operator" .operator, .child "subject" subject]
  | subject =>
    .oneOf [component, target, referent, precedence, inversion, magnitude, complement]
  | target => .oneOf [function, method, attributeTarget, variableTarget]
  | function =>
    .sequence .attempt
      [.token "identifier" .identifier, .delimiter "(", .optional "arguments" arguments,
       .delimiter ")"]
  | method =>
    .sequence .attempt
      [.token "target" .identifier, .choice "invoke" .invoke, .token "method" .identifier,
       .delimiter "(", .optional "arguments" arguments, .delimiter ")"]
  | arguments =>
    .sequence .plain [.child "argument" expression, .many "additional" additionalArgument]
  | additionalArgument => .sequence .attempt [.delimiter ",", .child "argument" expression]
  | attributeTarget =>
    .sequence .attempt
      [.token "identifier" .identifier, .delimiter "[", .child "indices" indices, .commit,
       .delimiter "]"]
  | indices =>
    .sequence .plain [.child "index" expression, .many "additional" additionalIndex]
  | additionalIndex => .sequence .attempt [.delimiter ",", .child "index" expression]
  | variableTarget => .sequence .plain [.token "identifier" .identifier]
  | referent => .sequence .attempt [.delimiter "@", .child "subject" subject]
  | precedence =>
    .sequence .attempt
      [.delimiter "(", .child "expression" expression, .commit, .delimiter ")"]
  | inversion => .sequence .attempt [.choice "inverse" .inverse, .child "subject" subject]
  | magnitude =>
    .sequence .attempt
      [.delimiter "|", .child "expression" expression, .commit, .delimiter "|"]
  | complement => .sequence .attempt [.keyword "not", .child "subject" subject]

end Rule

end DocumentLanguage
