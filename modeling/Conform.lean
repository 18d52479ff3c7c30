import Conform.Main
import Conform.Proofs.Descents
import Conform.Proofs.Entries
import Conform.Proofs.Reports
import Conform.Proofs.Acceptance
import Conform.Proofs.Cleanness
import Conform.Proofs.Conformance
import Conform.Proofs.Search
import Conform.Proofs.Findings
import Conform.Proofs.References
import Conform.Proofs.Completion
import Conform.Proofs.Reading
import Conform.Proofs.Admission
import Conform.Proofs.Models
import Conform.Proofs.Literals
import Conform.Proofs.Sizes
import Conform.Proofs.Idempotence
import Conform.Proofs.Grammar
import Conform.Proofs.Rendering
import Conform.Proofs.Reloading
import Conform.Proofs.Changes
import Conform.Proofs.Logs
import Conform.Proofs.Limits
import Conform.Proofs.Renditions
import Conform.Proofs.Verdicts
import Conform.Proofs.Secrets
import Conform.Proofs.Cycles
import Conform.Proofs.Keys
import Conform.Proofs.Addresses
import Conform.Proofs.Inlining
import Conform.Proofs.Equality
import Conform.Proofs.Reordering
import Conform.Proofs.Vocabulary
import Conform.Proofs.Faithfulness
import Conform.Proofs.Revalidation
import Conform.Proofs.Admittance
import Conform.Proofs.Representations
import Conform.Proofs.RoundTrips
import Conform.Proofs.Candidates
import Conform.Proofs.ModelNames
import Conform.Proofs.Rounding
import Conform.Proofs.Digits
import Conform.Proofs.Radixes
import Conform.Proofs.Numerals
import Conform.Proofs.Decimals
import Conform.Proofs.KeyTexts
import Conform.Proofs.JsonTexts
import Conform.Proofs.Lookups
import Conform.Proofs.IntegerTexts
import Conform.Proofs.Printouts
import Conform.Proofs.Outlines
import Conform.Proofs.LiteralScalars
import Conform.Proofs.Layouts
import Conform.Proofs.Lexemes
import Conform.Proofs.Readback
import Conform.Proofs.Listings
import Conform.Proofs.Endings
