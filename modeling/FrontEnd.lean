import FrontEnd.Main
import FrontEnd.Parse.Script
import FrontEnd.Proofs.Answers
import FrontEnd.Proofs.Bookmarks
import FrontEnd.Proofs.Capacity
import FrontEnd.Proofs.Charges
import FrontEnd.Proofs.Consistency
import FrontEnd.Proofs.Files
import FrontEnd.Proofs.FirstError
import FrontEnd.Proofs.Gluing
import FrontEnd.Proofs.Layout
import FrontEnd.Proofs.Missing
import FrontEnd.Proofs.Numerals
import FrontEnd.Proofs.Precedence
import FrontEnd.Proofs.Recovery
import FrontEnd.Proofs.RoundTrip
import FrontEnd.Proofs.Runs
import FrontEnd.Proofs.SameTokens
import FrontEnd.Proofs.Semicolons
import FrontEnd.Proofs.Termination
import FrontEnd.Proofs.Transcript
import FrontEnd.Token.Bookmark
import FrontEnd.Tree.Outline
