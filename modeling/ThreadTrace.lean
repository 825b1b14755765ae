import ThreadTrace.Capture.Clock
import ThreadTrace.Capture.Config
import ThreadTrace.Capture.Medium
import ThreadTrace.Capture.Tracer
import ThreadTrace.CommandLine.Directory
import ThreadTrace.CommandLine.Inspect
import ThreadTrace.Main
import ThreadTrace.Proofs.Capture.Session
import ThreadTrace.Proofs.Stream.Cut
import ThreadTrace.Proofs.Symbol.NameMap
import ThreadTrace.Symbol.Executable
import ThreadTrace.Symbol.Maps
import ThreadTrace.Proofs.Capture.Lifecycle
import ThreadTrace.Proofs.Capture.Refusal
import ThreadTrace.Proofs.Capture.Tracer
import ThreadTrace.Proofs.Stream.Delivery
import ThreadTrace.Proofs.Capture.Recording
import ThreadTrace.Proofs.CommandLine.Export
import ThreadTrace.Proofs.Capture.Config
import ThreadTrace.Proofs.Report.Totals
import ThreadTrace.Proofs.Capture.Mirror
import ThreadTrace.Proofs.Wire.Record
import ThreadTrace.Proofs.Capture.FirstTicks
import ThreadTrace.Proofs.Capture.Retry
import ThreadTrace.Proofs.Wire.Grammar
import ThreadTrace.Proofs.Timeline.Translation
import ThreadTrace.Proofs.Capture.Bounds
import ThreadTrace.Proofs.Capture.Packing
import ThreadTrace.Proofs.Stream.Items
import ThreadTrace.Proofs.Report.Texts
import ThreadTrace.Proofs.Symbol.Maps
import ThreadTrace.Proofs.Report.Account
import ThreadTrace.Proofs.Symbol.Executable
import ThreadTrace.Proofs.Symbol.Mapping
import ThreadTrace.Proofs.Wire.Store
import ThreadTrace.Proofs.Report.Rows
import ThreadTrace.Proofs.Symbol.Index
