import Cadence.Main
import Cadence.Proofs.Civil.Readings
import Cadence.Proofs.Civil.Shifts
import Cadence.Proofs.Civil.Words
import Cadence.Proofs.Command.Arguments
import Cadence.Proofs.Command.Counting
import Cadence.Proofs.Command.Inputs
import Cadence.Proofs.Command.Printing
import Cadence.Proofs.Command.Sorting
import Cadence.Proofs.Frequency.Closed
import Cadence.Proofs.Frequency.Comparison
import Cadence.Proofs.Frequency.Description
import Cadence.Proofs.Frequency.Members
import Cadence.Proofs.Frequency.Routes
import Cadence.Proofs.Frequency.Session
import Cadence.Proofs.Moment.DayWords
import Cadence.Proofs.Notation.Grammar
import Cadence.Proofs.Notation.Positions
import Cadence.Proofs.Notation.Reading
import Cadence.Proofs.Notation.RoundTrip
import Cadence.Proofs.Search.DayRule
import Cadence.Proofs.Search.Earliest
import Cadence.Proofs.Search.FixedPoint
import Cadence.Proofs.Search.Forward
import Cadence.Proofs.Search.FourCenturies
import Cadence.Proofs.Search.FreeParent
import Cadence.Proofs.Search.GivingUp
import Cadence.Proofs.Search.Listing
import Cadence.Proofs.Search.Passes
import Cadence.Proofs.Search.PeriodStart
import Cadence.Proofs.Search.Saturation
import Cadence.Proofs.Search.WeekSteps
import Cadence.Proofs.Text.Cuts
import Cadence.Proofs.Text.Lines
import Cadence.Proofs.Zone.Constant
import Cadence.Proofs.Zone.Midnight
