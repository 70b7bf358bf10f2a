import MediaRelay.Control
import MediaRelay.Settings.Environment
import MediaRelay.Sharding
import MediaRelay.Text.Rate
import MediaRelay.Proofs.Picture
import MediaRelay.Proofs.Interleaving
import MediaRelay.Proofs.Reporting
import MediaRelay.Proofs.Uninterrupted
import MediaRelay.Proofs.Targets
import MediaRelay.Proofs.Spacing
import MediaRelay.Proofs.Capacity
import MediaRelay.Proofs.Expiry
import MediaRelay.Proofs.References
import MediaRelay.Proofs.SendLog
import MediaRelay.Proofs.Settlement
import MediaRelay.Proofs.Eviction
import MediaRelay.Proofs.Tiling
import MediaRelay.Proofs.Room.Refusals
import MediaRelay.Proofs.Wishes
import MediaRelay.Proofs.FrameMemory
import MediaRelay.Proofs.Thresholds
import MediaRelay.Proofs.Pursuit
import MediaRelay.Proofs.Quantization
import MediaRelay.Proofs.Wire.Delimiting
import MediaRelay.Proofs.ClockOrigins
import MediaRelay.Proofs.MediaClock
import MediaRelay.Proofs.Numbering
import MediaRelay.Proofs.Usability
import MediaRelay.Proofs.Wire.Routing
import MediaRelay.Proofs.Completion
