import Ledboard.Main
import Ledboard.Proofs.IdleTimers
import Ledboard.Proofs.IdealStack
import Ledboard.Proofs.ControlFlow
import Ledboard.Proofs.Batches
import Ledboard.Proofs.Upload
import Ledboard.Proofs.Exchange
import Ledboard.Proofs.SenderFrames
import Ledboard.Proofs.FreshFrames
import Ledboard.Proofs.Influence
import Ledboard.Proofs.Isolation
import Ledboard.Proofs.Listing
import Ledboard.Proofs.Pipelining
import Ledboard.Proofs.Wire.FrameStream
import Ledboard.Proofs.Assembly.Literals
import Ledboard.Proofs.Assembly.ErrorPlaces
import Ledboard.Proofs.Wire.LaterBytes
import Ledboard.Proofs.History
import Ledboard.Proofs.DisplayFilling
import Ledboard.Proofs.Domains
import Ledboard.Proofs.RunsAsListed
import Ledboard.Proofs.StackRing
import Ledboard.Proofs.Wire.EarlyEnd
import Ledboard.Proofs.Wire.ResponseEnds
import Ledboard.Proofs.BusDispatch
import Ledboard.Proofs.ProgramReach
import Ledboard.Proofs.DisplayWindow
import Ledboard.Proofs.ShownStack
import Ledboard.Proofs.GivenNumbers
