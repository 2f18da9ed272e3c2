import PbsLevel2.Proofs.Completion
import PbsLevel2.Proofs.Ending
import PbsLevel2.Proofs.Lateness
import PbsLevel2.Proofs.Quiet
import PbsLevel2.Proofs.Reconciliation
import PbsLevel2.Proofs.Stress
import PbsLevel2.Proofs.History
import PbsLevel2.Proofs.Counts
import PbsLevel2.Proofs.Pointers
import PbsLevel2.Proofs.States
import PbsLevel2.Proofs.Thresholds
import PbsLevel2.Proofs.Fresh
import PbsLevel2.Proofs.Report
import PbsLevel2.Proofs.Deviation
import PbsLevel2.Proofs.Unallocated
import PbsLevel2.Proofs.Caches
import PbsLevel2.Proofs.Slots
import PbsLevel2.Proofs.Percentages
import PbsLevel2.Proofs.TaskLateness
import PbsLevel2.Proofs.IdLists
import PbsLevel2.Proofs.Builds
import PbsLevel2.Proofs.OrderCheck
import PbsLevel2.Proofs.Replay
import PbsLevel2.Proofs.Isolation
import PbsLevel2.Proofs.PlanFile
import PbsLevel2.Proofs.Userland
import PbsLevel2.Proofs.Driver
import PbsLevel2.Proofs.Turns
import PbsLevel2.Proofs.Statistics
import PbsLevel2.Proofs.Waiting
import PbsLevel2.Proofs.Comebacks
