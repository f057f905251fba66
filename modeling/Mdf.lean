import Mdf.FileSystem.Tree
import Mdf.Main
import Mdf.Proofs.Measurement.Safety
import Mdf.Proofs.Session.Refusal
import Mdf.Proofs.Session.RoundTrip
import Mdf.Proofs.Measurement.Shape
import Mdf.Proofs.Export.Table
import Mdf.Proofs.Block.Walk
import Mdf.Proofs.Measurement.Walks
import Mdf.Proofs.Block.Tiling
import Mdf.Proofs.Session.Tiling
import Mdf.Proofs.Session.Append
import Mdf.Proofs.Session.Outcome
import Mdf.Proofs.Session.Storage
import Mdf.Proofs.FileSystem.Output
import Mdf.Proofs.FileSystem.Save
import Mdf.Proofs.Measurement.Supported
import Mdf.Proofs.Session.Truncation
import Mdf.Proofs.Pipeline
import Mdf.Proofs.Session.Records
import Mdf.Proofs.Block.Text
import Mdf.Proofs.Identification
import Mdf.Proofs.Markup.Tree
import Mdf.Proofs.Markup.Forest
import Mdf.Proofs.Measurement.Joining
import Mdf.Proofs.Binary.Notation
import Mdf.Proofs.Session.Fixture
import Mdf.Proofs.Text.Numeral
import Mdf.Proofs.Version
import Mdf.Proofs.FileSystem.Naming
import Mdf.Proofs.CommandLine.Export
import Mdf.Proofs.Measurement.Column
import Mdf.Proofs.Binary.NaN
import Mdf.Proofs.Markup.Reference
import Mdf.Proofs.Block.Confined
