import Notebook.Links.Completion
import Notebook.Cell.Json
import Notebook.Flags.Json
import Notebook.Engine.Step
import Notebook.Run.Execution
import Notebook.Functions
import Notebook.Document.Binary
import Notebook.Document.Json
import Notebook.Toml.Reader
import Notebook.Config.Environment
import Notebook.Config.Settings
import Notebook.Config.Json
import Notebook.Proofs.Graph.Cycle
import Notebook.Proofs.Graph.Distance
import Notebook.Proofs.Run.Readers
import Notebook.Proofs.Run.Order
import Notebook.Proofs.Engine.Batch
import Notebook.Proofs.Run.History
import Notebook.Proofs.Run.Evaluation
import Notebook.Proofs.Run.Provenance
import Notebook.Proofs.Run.Glitches
import Notebook.Proofs.Document.Binary
import Notebook.Proofs.Document.Json
import Notebook.Proofs.Run.Slot
import Notebook.Proofs.Run.Saved
import Notebook.Proofs.Run.Deletion
import Notebook.Proofs.Run.Refresh
import Notebook.Proofs.Run.Edges
import Notebook.Proofs.Run.Freshness
import Notebook.Proofs.Run.Tags
import Notebook.Proofs.Links.Activation
import Notebook.Proofs.Run.Resubmission
import Notebook.Proofs.Run.Footprint
import Notebook.Proofs.Run.Calls
import Notebook.Proofs.Run.HandBack
import Notebook.Proofs.Run.Living
import Notebook.Proofs.Run.Batches
import Notebook.Proofs.Bytes.Taken
import Notebook.Proofs.Document.Files
import Notebook.Proofs.Document.Normal
import Notebook.Proofs.Links.Completion
import Notebook.Proofs.Links.Forgetting
import Notebook.Proofs.Graph.Closing
import Notebook.Proofs.Run.Computed
