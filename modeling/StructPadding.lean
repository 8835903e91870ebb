import StructPadding.Main
import StructPadding.Partition
import StructPadding.Proofs.Arrangement
import StructPadding.Proofs.Buffers
import StructPadding.Proofs.ChangedLines
import StructPadding.Proofs.Comments
import StructPadding.Proofs.Compiled
import StructPadding.Proofs.Covering
import StructPadding.Proofs.Encoded
import StructPadding.Proofs.Extracted
import StructPadding.Proofs.History
import StructPadding.Proofs.LeastSize
import StructPadding.Proofs.Literals
import StructPadding.Proofs.Located
import StructPadding.Proofs.Manifests
import StructPadding.Proofs.Measured
import StructPadding.Proofs.NamedRecords
import StructPadding.Proofs.NormalScript
import StructPadding.Proofs.OneEdit
import StructPadding.Proofs.Preserved
import StructPadding.Proofs.Printed
import StructPadding.Proofs.Proposals
import StructPadding.Proofs.ReadBack
import StructPadding.Proofs.Relisted
import StructPadding.Proofs.Replaced
import StructPadding.Proofs.Reread
import StructPadding.Proofs.Savings
import StructPadding.Proofs.Sequential
import StructPadding.Proofs.Spans
import StructPadding.Proofs.Suggested
import StructPadding.Proofs.Surroundings
import StructPadding.Proofs.Tiling
import StructPadding.Proofs.Unbroken
import StructPadding.Proofs.ValueCycles
