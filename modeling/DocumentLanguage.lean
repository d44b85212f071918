import DocumentLanguage.Format.Registry
import DocumentLanguage.Grammar.Conflict
import DocumentLanguage.Proofs.Format.Fusing
import DocumentLanguage.Proofs.Format.Pieces
import DocumentLanguage.Proofs.Format.Plain
import DocumentLanguage.Proofs.Interchange.RoundTrip
import DocumentLanguage.Proofs.Parse.Delivery
import DocumentLanguage.Proofs.Parse.Spacing
import DocumentLanguage.Proofs.Parse.Unbounded
import DocumentLanguage.Proofs.Token.Lossless
import DocumentLanguage.Proofs.Token.Rescan
import DocumentLanguage.Proofs.Validation.Parsed
import DocumentLanguage.Settings.Load
import DocumentLanguage.Tree.Build
import DocumentLanguage.Tree.Event
import DocumentLanguage.Tree.Inspection
import DocumentLanguage.Tree.Size
import DocumentLanguage.Proofs.Parse.Spelt
import DocumentLanguage.Proofs.Parse.Lines
import DocumentLanguage.Proofs.Format.Sign
import DocumentLanguage.Proofs.Format.Shown
import DocumentLanguage.Proofs.Parse.Look
import DocumentLanguage.Proofs.Parse.Tails
import DocumentLanguage.Proofs.Parse.Exact
import DocumentLanguage.Proofs.Parse.Complete
import DocumentLanguage.Proofs.Parse.Rival
import DocumentLanguage.Proofs.Parse.Progress
import DocumentLanguage.Proofs.Parse.Inside
import DocumentLanguage.Proofs.Parse.Failure
import DocumentLanguage.Proofs.Grammar.Analysis
import DocumentLanguage.Proofs.Grammar.Conflict
import DocumentLanguage.Proofs.Format.Outline
import DocumentLanguage.Proofs.Format.Nesting
import DocumentLanguage.Proofs.Parse.Foremost
import DocumentLanguage.Proofs.Parse.Bracketed
import DocumentLanguage.Proofs.Parse.Found
import DocumentLanguage.Proofs.Format.Parsed
import DocumentLanguage.Proofs.Tree.Notices
import DocumentLanguage.Proofs.Tree.Script
import DocumentLanguage.Proofs.Tree.Shape
import DocumentLanguage.Proofs.Validation.First
import DocumentLanguage.Proofs.Format.Shifted
import DocumentLanguage.Proofs.Parse.Caret
import DocumentLanguage.Proofs.Tree.Size
import DocumentLanguage.Proofs.Token.Whole
import DocumentLanguage.Proofs.Token.Reindent
import DocumentLanguage.Proofs.Parse.Remains
import DocumentLanguage.Proofs.Parse.Commits
