import DocumentLanguage.Grammar.Form

/-!
The names that interchange uses for rules: the record a node is kept in, and the tag by which a
node of one of several rules is told from the others.
-/
namespace DocumentLanguage.Rule

/-- The name of the record that a node of a rule is kept in. -/
def recordName : Rule → String
  | string => "Text"
  | rule => rule.name

/-- The name of a rule without the word that the rules it stands with have in common. -/
def tag : Rule → String
  | string => "Text"
  | multilineAssociations | multilineValues | multilineStatements => "Multiline"
  | inlineAssociations | inlineValues | inlineStatements => "Inline"
  | noAssociations | noValues | noStatements => "Empty"
  | commentLine => "Comment"
  | statementLine => "Statement"
  | letClause => "Let"
  | ifClause => "If"
  | selectClause => "Select"
  | whileClause => "While"
  | withClause => "With"
  | continueClause => "Continue"
  | breakClause => "Break"
  | returnClause => "Return"
  | throwClause => "Throw"
  | checkoutClause => "Checkout"
  | saveClause => "Save"
  | discardClause => "Discard"
  | notarizeClause => "Notarize"
  | postClause => "Post"
  | retrieveClause => "Retrieve"
  | acceptClause => "Accept"
  | rejectClause => "Reject"
  | publishClause => "Publish"
  | rule => rule.name

def ofTag? (rules : List Rule) (tag : String) : Option { rule : Rule // rule ∈ rules } :=
  rules.attach.find? fun rule => rule.val.tag = tag

end DocumentLanguage.Rule
