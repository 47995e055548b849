import ClosureLang.Main
import ClosureLang.Proofs.Advancing.Theorems
import ClosureLang.Proofs.Blaming.Theorems
import ClosureLang.Proofs.Calculating.Theorems
import ClosureLang.Proofs.Comparing.Theorems
import ClosureLang.Proofs.Confinement.Theorems
import ClosureLang.Proofs.Dropping.Theorems
import ClosureLang.Proofs.EarlyExit.Theorems
import ClosureLang.Proofs.Failing.Theorems
import ClosureLang.Proofs.Grammar.Theorems
import ClosureLang.Proofs.Interacting.Theorems
import ClosureLang.Proofs.Locating.Theorems
import ClosureLang.Proofs.Mentioning.Theorems
import ClosureLang.Proofs.Nodes.Theorems
import ClosureLang.Proofs.Numerals.Theorems
import ClosureLang.Proofs.Placing.Theorems
import ClosureLang.Proofs.Reaching.Theorems
import ClosureLang.Proofs.Rendering.Lossless
import ClosureLang.Proofs.Rendering.Theorems
import ClosureLang.Proofs.Reporting.Theorems
import ClosureLang.Proofs.Running.Theorems
import ClosureLang.Proofs.Scanning.Theorems
import ClosureLang.Proofs.Scoping.Theorems
import ClosureLang.Proofs.Semicolons.Theorems
import ClosureLang.Proofs.Sessions.Theorems
import ClosureLang.Proofs.Splicing.Theorems
import ClosureLang.Proofs.Stepwise.Theorems
import ClosureLang.Proofs.Tracing.Theorems
import ClosureLang.Proofs.Underlining.Theorems
