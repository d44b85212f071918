import DocumentLanguage.Format.Canonical
import DocumentLanguage.Parse.Document
import DocumentLanguage.Tree.Equality
import DocumentLanguage.Validation

/-! What becomes of a tree when it is written in canonical form and read again. -/
namespace DocumentLanguage

/-- A tree in canonical form, and what reading that gives. -/
structure Inspection where
  canonical : String
  /-- Whether the tree comes back, or why nothing does. -/
  reparsed : Except Failure Bool
  /-- Whether what comes back has the same canonical form, if anything does. -/
  stable : Option Bool
  valid : Except Inconsistency Unit

/-- Write a document, read it again and validate it. -/
def Document.inspect (document : Document) : Inspection :=
  let canonical := document.canonical
  let again := parse canonical
  { canonical
    reparsed := again.map (· = document)
    stable := again.toOption.map (·.canonical = canonical)
    valid := document.validate }

end DocumentLanguage
