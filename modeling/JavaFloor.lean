import JavaFloor.Archive.Session
import JavaFloor.Batch
import JavaFloor.Descriptor
import JavaFloor.Feature.Update
import JavaFloor.Main
import JavaFloor.Report
import JavaFloor.Resolution
import JavaFloor.Scratch.Bank
import JavaFloor.Settings
import JavaFloor.Proofs.Resolution.Demand
import JavaFloor.Proofs.Resolution.Survivors
import JavaFloor.Proofs.Feature.Atomicity
import JavaFloor.Proofs.Version.Bounds
import JavaFloor.Proofs.Bytes
import JavaFloor.Proofs.Version.Text
import JavaFloor.Proofs.Filter.Grammar
import JavaFloor.Proofs.Filter.Reading
import JavaFloor.Proofs.Filter.Interval
import JavaFloor.Proofs.Filter.Conjunct
import JavaFloor.Proofs.Version.Intersection
import JavaFloor.Proofs.Resolution.Trail
import JavaFloor.Proofs.Dict
import JavaFloor.Proofs.Requirement.Quoted
import JavaFloor.Proofs.Requirement.Written
import JavaFloor.Proofs.Filter.Flatten
import JavaFloor.Proofs.Resolution.Java
import JavaFloor.Proofs.Manifest.Written
import JavaFloor.Proofs.Archive.Yields
import JavaFloor.Proofs.Extraction.Modes
import JavaFloor.Proofs.Collection.Entries
import JavaFloor.Proofs.Collection.Complete
import JavaFloor.Proofs.Feature.Modes
import JavaFloor.Proofs.Resolution.Joint
import JavaFloor.Proofs.Resolution.Nested
import JavaFloor.Proofs.Resolution.Outcome
import JavaFloor.Proofs.Feature.Outcomes
import JavaFloor.Proofs.Collection.Order
import JavaFloor.Proofs.Feature.Order
import JavaFloor.Proofs.Feature.Scratch
import JavaFloor.Proofs.Scratch.History
import JavaFloor.Proofs.Scratch.Ownership
import JavaFloor.Proofs.Archive.Reading
import JavaFloor.Proofs.Batch
import JavaFloor.Proofs.Feature.FileNames
import JavaFloor.Proofs.CommandLine
import JavaFloor.Proofs.Report
import JavaFloor.Proofs.Version.Semilattice
import JavaFloor.Proofs.Version.Gaps
import JavaFloor.Proofs.Archive.Finishing
import JavaFloor.Proofs.Version.Grammar
import JavaFloor.Proofs.Extraction.Contents
import JavaFloor.Proofs.Manifest.Lookup
import JavaFloor.Proofs.Manifest.Sections
import JavaFloor.Proofs.Manifest.Pass
import JavaFloor.Proofs.Settings.Loading
import JavaFloor.Proofs.Requirement.Scan
import JavaFloor.Proofs.Scratch.Agreement
import JavaFloor.Proofs.Slots
import JavaFloor.Proofs.Descriptor
import JavaFloor.Proofs.Filter.Spelling
import JavaFloor.Proofs.Resolution.Spelling
