import Logo.Main
import Logo.Proofs.Capture
import Logo.Proofs.Clearing
import Logo.Proofs.Nesting
import Logo.Proofs.Printing
import Logo.Proofs.Recording
import Logo.Proofs.Reports
import Logo.Proofs.Script
import Logo.Proofs.Timeline
import Logo.Proofs.Trail
import Logo.Token.Json
import Logo.Turtle.Json
import Logo.Proofs.Completion
import Logo.Proofs.Carets
import Logo.Proofs.Batch
import Logo.Proofs.Numerals
import Logo.Proofs.Stacking
import Logo.Proofs.Declaring
import Logo.Proofs.Nearest
import Logo.Proofs.Bits
import Logo.Proofs.Figures
import Logo.Proofs.Documents
import Logo.Proofs.Reading
import Logo.Proofs.Archive
