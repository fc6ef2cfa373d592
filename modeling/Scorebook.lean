import Scorebook.Main
import Scorebook.Proofs.Database.Access
import Scorebook.Proofs.Database.Cataloguing
import Scorebook.Proofs.Database.Sessions
import Scorebook.Proofs.Game.Tags
import Scorebook.Proofs.Movetext.Drawing
import Scorebook.Proofs.Movetext.Numbers
import Scorebook.Proofs.Movetext.Rereading
import Scorebook.Proofs.Written.Reading
import Scorebook.Proofs.Catalogue.Order
import Scorebook.Proofs.Database.Events
import Scorebook.Proofs.Catalogue.Moving
import Scorebook.Proofs.Catalogue.Growing
import Scorebook.Proofs.Catalogue.Scans
import Scorebook.Proofs.Catalogue.Joining
import Scorebook.Proofs.Catalogue.Reopening
import Scorebook.Proofs.Database.Growth
import Scorebook.Proofs.Checksum
import Scorebook.Proofs.Database.Staleness
import Scorebook.Proofs.Game.Problems
import Scorebook.Proofs.Database.Healing
import Scorebook.Proofs.Header.Lookahead
import Scorebook.Proofs.Header.Failing
import Scorebook.Proofs.Reporter.Hearing
import Scorebook.Proofs.Database.Hearing
import Scorebook.Proofs.Reporter.Calls
import Scorebook.Proofs.Movetext.Agreement
import Scorebook.Proofs.Movetext.Transparency
import Scorebook.Proofs.Strictness.Sessions
import Scorebook.Proofs.Strictness.Wide
import Scorebook.Proofs.Database.Counting
import Scorebook.Proofs.Reporter.Recalling
import Scorebook.Proofs.Catalogue.Telling
import Scorebook.Proofs.Dump.Exit
import Scorebook.Proofs.Database.Checking
import Scorebook.Proofs.Database.Unfinished
import Scorebook.Proofs.Movetext.Matching
import Scorebook.Proofs.Catalogue.Marking
import Scorebook.Proofs.Movetext.Glyphs
import Scorebook.Proofs.Movetext.Comments
import Scorebook.Proofs.Movetext.Rendering
import Scorebook.Proofs.Header.Spaced
import Scorebook.Proofs.Problem.Excerpts
import Scorebook.Proofs.Database.Position
import Scorebook.Proofs.Movetext.Leaves
import Scorebook.Proofs.Dump.Tags
import Scorebook.Proofs.Guarded.Databases
