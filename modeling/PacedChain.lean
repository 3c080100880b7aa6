import PacedChain.Main
import PacedChain.Chain.Rehearsal
import PacedChain.Queue.Session
import PacedChain.Queue.Vigil
import PacedChain.Service.Rehearsal
import PacedChain.Proofs.Queue.Calls
import PacedChain.Proofs.Queue.Placed
import PacedChain.Proofs.Desk.Usage
import PacedChain.Proofs.Desk.Placement
import PacedChain.Proofs.Desk.Keys
import PacedChain.Proofs.Host.Moves
import PacedChain.Proofs.Queue.Counting
import PacedChain.Proofs.Host.Balance
import PacedChain.Proofs.Backoff.Rounding
import PacedChain.Proofs.Backoff.Magnitude
import PacedChain.Proofs.Backoff.Sign
import PacedChain.Proofs.Backoff.Whole
import PacedChain.Proofs.Backoff.Bounds
import PacedChain.Proofs.Backoff.NoBase
import PacedChain.Proofs.Queue.Lone
import PacedChain.Proofs.Pacing.Course
import PacedChain.Proofs.Pacing.Solo
import PacedChain.Proofs.Pacing.Recurrence
import PacedChain.Proofs.Queue.Unfinished
import PacedChain.Proofs.Queue.History
import PacedChain.Proofs.Queue.Sessions
import PacedChain.Proofs.Host.Alone
import PacedChain.Proofs.Desk.Agenda
import PacedChain.Proofs.Host.Phases
import PacedChain.Proofs.Host.Watched
import PacedChain.Proofs.Host.News
import PacedChain.Proofs.Host.Unison
import PacedChain.Proofs.Desk.Attempts
import PacedChain.Proofs.Host.Books
import PacedChain.Proofs.Host.Diaries
import PacedChain.Proofs.Host.OneChain
import PacedChain.Proofs.Host.Untold
import PacedChain.Proofs.Host.Incidents
import PacedChain.Proofs.Desk.Waiting
import PacedChain.Proofs.Host.Deliveries
import PacedChain.Proofs.Host.Spacing
import PacedChain.Proofs.Service.Loops
import PacedChain.Proofs.Service.Entry
import PacedChain.Proofs.Service.Overtaking
import PacedChain.Proofs.Queue.Abandoned
import PacedChain.Queue.Lobby
import PacedChain.Proofs.Queue.Ahead
import PacedChain.Proofs.Queue.Unnoticed
import PacedChain.Proofs.Queue.Solitary
import PacedChain.Proofs.Desk.Punctual
import PacedChain.Proofs.Host.Traffic
import PacedChain.Proofs.Queue.Recorded
import PacedChain.Proofs.Desk.Census
import PacedChain.Proofs.Queue.Line
import PacedChain.Proofs.Desk.Timeline
import PacedChain.Proofs.Desk.Turns
import PacedChain.Proofs.Desk.Sooner
import PacedChain.Proofs.Desk.Seniority
import PacedChain.Proofs.Queue.Closing
import PacedChain.Proofs.Desk.Closing
import PacedChain.Proofs.Host.Successors
import PacedChain.Proofs.Host.Closing
import PacedChain.Proofs.Chain.Performance
import PacedChain.Proofs.Chain.AllOrNothing
import PacedChain.Proofs.Json.Lexemes
import PacedChain.Proofs.Json.Values
import PacedChain.Proofs.Json.Restored
