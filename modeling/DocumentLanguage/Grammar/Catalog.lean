import DocumentLanguage.Grammar.Form

/-!
The grammar written down: one production for every rule and every choice. A capitalised word
names a rule, a lower-case word a kind of token, and quoted text is a delimiter; a mark behind
an item makes it optional or repeated.
-/
namespace DocumentLanguage

/-- A name of the grammar that has a production. -/
inductive Entry
  | rule (rule : Rule)
  | choice (choice : Choice)
deriving DecidableEq, Repr

def delimiterItem (text : String) : String :=
  "\"" ++ text ++ "\""

/-- How a part stands in a production. Where a reader commits is not shown. -/
def Part.item? : Part → Option String
  | keyword text | delimiter text => .some (delimiterItem text)
  | newline => .some Kind.newline.grammarName
  | choice _ delimiters => .some delimiters.name
  | token _ kind => .some kind.grammarName
  | optionalToken _ kind => .some (kind.grammarName ++ "?")
  | child _ rule | line _ rule => .some rule.name
  | optional _ rule => .some (rule.name ++ "?")
  | many _ rule => .some (rule.name ++ "*")
  | some _ rule => .some (rule.name ++ "+")
  | commit => none

def alternativesText (alternatives : List String) : String :=
  " | ".intercalate alternatives

def Form.production : Form → String
  | literal kinds => alternativesText (kinds.map Kind.grammarName)
  | oneOf rules => alternativesText (rules.map Rule.name)
  | sequence _ parts => " ".intercalate (parts.filterMap Part.item?)

namespace Entry

def name : Entry → String
  | rule named => named.name
  | choice named => named.name

def production : Entry → String
  | rule named => named.form.production
  | choice named => alternativesText (named.delimiters.map delimiterItem)

/-- Every entry, in the order in which it is introduced. -/
def all : List Entry :=
  [rule .document, rule .component, rule .entity, rule .element, rule .string, rule .primitive,
   rule .collection, rule .range, choice .leftBracket, choice .rightBracket, rule .catalog,
   rule .associations, rule .multilineAssociations, rule .annotatedAssociation,
   rule .inlineAssociations, rule .additionalAssociation, rule .noAssociations,
   rule .association, rule .list, rule .values, rule .multilineValues, rule .annotatedValue,
   rule .inlineValues, rule .additionalValue, rule .noValues, rule .parameters,
   rule .procedure, rule .statements, rule .multilineStatements, rule .annotatedStatement,
   rule .commentLine, rule .statementLine, rule .inlineStatements, rule .additionalStatement,
   rule .noStatements, rule .statement, rule .onClause, rule .matchHandler, rule .mainClause,
   rule .flowControl, rule .ifClause, rule .selectClause, rule .whileClause,
   rule .withClause, rule .continueClause, rule .breakClause, rule .returnClause,
   rule .throwClause, rule .letClause, choice .assign, rule .recipient,
   rule .repositoryAccess, rule .checkoutClause, rule .atLevel, rule .saveClause,
   rule .discardClause, rule .notarizeClause, rule .messageHandling, rule .postClause,
   rule .retrieveClause, rule .acceptClause, rule .rejectClause, rule .publishClause,
   rule .expression, rule .predicate, choice .operator, rule .subject, rule .target,
   rule .function, rule .method, choice .invoke, rule .arguments, rule .additionalArgument,
   rule .attributeTarget, rule .indices, rule .additionalIndex, rule .variableTarget, rule .referent,
   rule .precedence, rule .inversion, choice .inverse, rule .magnitude, rule .complement]

end Entry

/-- Names and productions, in order. -/
abbrev Catalog := List (String × String)

/-- The catalog of the grammar. -/
def catalog : Catalog :=
  Entry.all.map fun entry => (entry.name, entry.production)

/-- The grammar as it is written down, from documents to expressions. -/
def Catalog.written : Catalog :=
  [("Document", "comment? Component"),
   ("Component", "Entity Parameters?"),
   ("Entity", "Element | String | Collection | Procedure"),
   ("Element",
    "angle | boolean | duration | moment | number | pattern | percentage | probability | " ++
      "resource | symbol | tag"),
   ("String", "binary | bytecode | moniker | narrative | quote | version"),
   ("Primitive", "Element | String"),
   -- collections
   ("Collection", "Range | Catalog | List"),
   ("Range", "LeftBracket Primitive \"..\" Primitive RightBracket"),
   ("LeftBracket", "\"[\" | \"(\""),
   ("RightBracket", "\"]\" | \")\""),
   ("Catalog", "\"[\" Associations \"]\""),
   ("Associations", "MultilineAssociations | InlineAssociations | NoAssociations"),
   ("MultilineAssociations", "newline AnnotatedAssociation+"),
   ("AnnotatedAssociation", "Association note? newline"),
   ("InlineAssociations", "Association AdditionalAssociation*"),
   ("AdditionalAssociation", "\",\" Association"),
   ("NoAssociations", "\":\""),
   ("Association", "Primitive \":\" Component"),
   ("List", "\"[\" Values \"]\""),
   ("Values", "MultilineValues | InlineValues | NoValues"),
   ("MultilineValues", "newline AnnotatedValue+"),
   ("AnnotatedValue", "Component note? newline"),
   ("InlineValues", "Component AdditionalValue*"),
   ("AdditionalValue", "\",\" Component"),
   ("NoValues", ""),
   ("Parameters", "\"(\" Associations \")\""),
   -- procedures
   ("Procedure", "\"\x7b\" Statements \"\x7d\""),
   ("Statements", "MultilineStatements | InlineStatements | NoStatements"),
   ("MultilineStatements", "newline AnnotatedStatement+"),
   ("AnnotatedStatement", "CommentLine | StatementLine"),
   ("CommentLine", "comment newline"),
   ("StatementLine", "Statement note? newline"),
   ("InlineStatements", "Statement AdditionalStatement*"),
   ("AdditionalStatement", "\";\" Statement"),
   ("NoStatements", ""),
   ("Statement", "MainClause OnClause?"),
   ("OnClause", "\"on\" symbol MatchHandler+"),
   ("MatchHandler", "\"matching\" Expression \"do\" Procedure"),
   ("MainClause", "FlowControl | LetClause | RepositoryAccess | MessageHandling | Expression"),
   -- clauses
   ("FlowControl",
    "IfClause | SelectClause | WhileClause | WithClause | ContinueClause | BreakClause | " ++
      "ReturnClause | ThrowClause"),
   ("IfClause", "\"if\" Expression \"do\" Procedure"),
   ("SelectClause", "\"select\" Target MatchHandler+"),
   ("WhileClause", "\"while\" Expression \"do\" Procedure"),
   ("WithClause", "\"with\" \"each\" identifier \"in\" Expression \"do\" Procedure"),
   ("ContinueClause", "\"continue\" \"loop\""),
   ("BreakClause", "\"break\" \"loop\""),
   ("ReturnClause", "\"return\" Expression"),
   ("ThrowClause", "\"throw\" Expression"),
   ("LetClause", "\"let\" Recipient Assign Expression"),
   ("Assign", "\":=\" | \"?=\" | \"+=\" | \"-=\" | \"*=\" | \"/=\""),
   ("Recipient", "Attribute | Variable"),
   ("RepositoryAccess", "CheckoutClause | SaveClause | DiscardClause | NotarizeClause"),
   ("CheckoutClause", "\"checkout\" Recipient AtLevel? \"from\" Expression"),
   ("AtLevel", "\"at\" \"level\" Expression"),
   ("SaveClause", "\"save\" Expression \"as\" Recipient"),
   ("DiscardClause", "\"discard\" Expression"),
   ("NotarizeClause", "\"notarize\" Expression \"as\" Expression"),
   ("MessageHandling", "PostClause | RetrieveClause | AcceptClause | RejectClause | PublishClause"),
   ("PostClause", "\"post\" Expression \"to\" Expression"),
   ("RetrieveClause", "\"retrieve\" Recipient \"from\" Expression"),
   ("AcceptClause", "\"accept\" Expression"),
   ("RejectClause", "\"reject\" Expression"),
   ("PublishClause", "\"publish\" Expression"),
   -- expressions
   ("Expression", "Subject Predicate*"),
   ("Predicate", "Operator Subject"),
   ("Operator",
    "\"and\" | \"san\" | \"ior\" | \"xor\" | \"is\" | \"matches\" | \"<\" | \"=\" | \">\" | " ++
      "\"&\" | \"+\" | \"-\" | \"*\" | \"//\" | \"/\" | \"^\""),
   ("Subject", "Component | Target | Referent | Precedence | Inversion | Magnitude | Complement"),
   ("Target", "Function | Method | Attribute | Variable"),
   ("Function", "identifier \"(\" Arguments? \")\""),
   ("Method", "identifier Invoke identifier \"(\" Arguments? \")\""),
   ("Invoke", "\".\" | \"<-\""),
   ("Arguments", "Expression AdditionalArgument*"),
   ("AdditionalArgument", "\",\" Expression"),
   ("Attribute", "identifier \"[\" Indices \"]\""),
   ("Indices", "Expression AdditionalIndex*"),
   ("AdditionalIndex", "\",\" Expression"),
   ("Variable", "identifier"),
   ("Referent", "\"@\" Subject"),
   ("Precedence", "\"(\" Expression \")\""),
   ("Inversion", "Inverse Subject"),
   ("Inverse", "\"-\" | \"*\""),
   ("Magnitude", "\"|\" Expression \"|\""),
   ("Complement", "\"not\" Subject")]

set_option maxRecDepth 2000 in
/-- The forms of the rules and the delimiters of the choices say the grammar word for word as it is
written down, so that what holds of the catalog holds of that text. -/
theorem catalog_eq_written : catalog = Catalog.written := by
  rfl

def production? (name : String) : Option String :=
  catalog.lookup name

end DocumentLanguage
