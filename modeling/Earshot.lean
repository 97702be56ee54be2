import Earshot.Access.Granted
import Earshot.Analysis.Partition
import Earshot.Blobs.Parts
import Earshot.Blobs.Survives
import Earshot.Browser.Losses
import Earshot.Browser.Sealing
import Earshot.Checkpoint.Agreement
import Earshot.Client.Conserved
import Earshot.Client.Declared
import Earshot.Clocks.Latency
import Earshot.Costs.PriceList
import Earshot.Deliveries.Once
import Earshot.Engines.Folding
import Earshot.Exporting.Durable
import Earshot.Fetching.Guarded
import Earshot.History.Late
import Earshot.History.Listing
import Earshot.History.Resources
import Earshot.History.Revisions
import Earshot.History.Schedule
import Earshot.Inspection.Splits
import Earshot.Jobs.Analysis
import Earshot.Live.Expiry
import Earshot.Live.Gaps
import Earshot.Live.Refreshing
import Earshot.Live.Uploaded
import Earshot.Otlp.Validation
import Earshot.Privacy.Projection
import Earshot.Projecting.Current
import Earshot.Recording.Budget
import Earshot.Recording.Rollback
import Earshot.Sidecars.Written
import Earshot.Signals.Refinement
import Earshot.Signals.Scans
import Earshot.Timeline.Pairing
import Earshot.Timeline.Placement
import Earshot.Timeline.Speech
import Earshot.Uploads.Layout
