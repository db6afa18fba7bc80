import StepRunner.ApiServer.Client
import StepRunner.Cluster.Paced
import StepRunner.Proofs.Log.Lines
import StepRunner.Proofs.Run.Success
import StepRunner.Run.Stage
import StepRunner.Serial.Stage
import StepRunner.Wait.Loop
import StepRunner.Proofs.Log.Sequence
import StepRunner.Proofs.Log.Frames
import StepRunner.Proofs.Wait.Edges
import StepRunner.Proofs.Run.Forwarding
import StepRunner.Proofs.Run.Roster
import StepRunner.Proofs.Run.Fanout
import StepRunner.Proofs.Run.Output
import StepRunner.Proofs.Run.Capture
import StepRunner.Proofs.Run.Deletion
import StepRunner.Proofs.Run.Verdict
import StepRunner.Proofs.Run.Token
import StepRunner.Proofs.Run.Cancellation
import StepRunner.Proofs.Run.Progress
import StepRunner.Proofs.Run.Prompt
import StepRunner.Proofs.Run.Siblings
import StepRunner.Proofs.Run.Unswayed
import StepRunner.Proofs.Run.Results
import StepRunner.Proofs.Run.Custody
import StepRunner.Proofs.Run.Company
import StepRunner.Proofs.Run.Isolation
import StepRunner.Proofs.Wait.Remaining
import StepRunner.Proofs.Run.Order
import StepRunner.Proofs.Run.Failures
import StepRunner.Proofs.Run.Readers
import StepRunner.Proofs.Wait.Pending
import StepRunner.Proofs.Wait.Retries
import StepRunner.Proofs.Log.Room
import StepRunner.Proofs.Log.Script
import StepRunner.Proofs.Text.Residue
import StepRunner.Proofs.Text.Intact
import StepRunner.Proofs.Stage.Builder
import StepRunner.Proofs.Stage.Keys
import StepRunner.Proofs.Pod.Checks
import StepRunner.Proofs.Cluster.Sessions
import StepRunner.Proofs.Cluster.Timelines
import StepRunner.Proofs.Serial.ReadBack
import StepRunner.Proofs.ApiServer.Manifest
import StepRunner.Proofs.Log.Window
import StepRunner.Proofs.Wait.Drive
