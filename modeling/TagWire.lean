import TagWire.ByEncoding
import TagWire.Json.Settings
import TagWire.Proofs.FrameStream
import TagWire.Proofs.Reencoding
import TagWire.Registry.Discovery
import TagWire.Proofs.Lockstep
import TagWire.Proofs.RegistryHistory
import TagWire.Proofs.Dispatch
import TagWire.Proofs.Delivery
import TagWire.Proofs.Frames
import TagWire.Proofs.FrameDelivery
import TagWire.Proofs.FirstFlaw
import TagWire.Proofs.Consumption
import TagWire.Proofs.Histories
import TagWire.Proofs.RaisedLimits
import TagWire.Proofs.ReadScripts
import TagWire.Proofs.WriteScripts
import TagWire.Proofs.FramePartition
import TagWire.Proofs.RegistrationOrder
import TagWire.Proofs.Rediscovery
import TagWire.Proofs.Poisoning
import TagWire.Proofs.Narrowing
import TagWire.Proofs.ByEncoding
import TagWire.Proofs.OpenValues
import TagWire.Proofs.SignBytes
import TagWire.Proofs.CalendarWords
import TagWire.Proofs.EpochDays
import TagWire.Proofs.TimeParts
import TagWire.Proofs.TagHash
import TagWire.Proofs.SharedTags
import TagWire.Proofs.Variants
import TagWire.Proofs.Updates
