import Wiring.Script.Transcript
import Wiring.Proofs.Sharing
import Wiring.Proofs.Waiting
import Wiring.Proofs.NameMatching
import Wiring.Proofs.Alarm
import Wiring.Proofs.Replacement
import Wiring.Proofs.Order
import Wiring.Proofs.Loading
import Wiring.Proofs.Termination
import Wiring.Proofs.Isolation
import Wiring.Proofs.Filling
import Wiring.Proofs.Avoidance
import Wiring.Proofs.Assembly
import Wiring.Proofs.Bypass
import Wiring.Proofs.FillingDeterminism
import Wiring.Proofs.Succession
import Wiring.Proofs.Injection
import Wiring.Proofs.Settings
import Wiring.Proofs.Copies
import Wiring.Proofs.Agreement
import Wiring.Proofs.WaitCycle
import Wiring.Proofs.LogFaithfulness
