import ConfigContract.Contract.Decoding
import ConfigContract.Main
import ConfigContract.Proofs.CommandLine.Task
import ConfigContract.Proofs.Lowering.Dropped
import ConfigContract.Proofs.Lowering.Shape
import ConfigContract.Proofs.Provider.Computed
import ConfigContract.Proofs.Provider.Reload
import ConfigContract.Proofs.Provider.Version
import ConfigContract.Proofs.Provider.VersionConstraint
import ConfigContract.Proofs.Provider.VersionOrder
import ConfigContract.Proofs.Provider.VersionSpelling
import ConfigContract.Proofs.Provider.VersionRange
import ConfigContract.Proofs.Provider.VersionConjunction
import ConfigContract.Proofs.Provider.Lookup
import ConfigContract.Proofs.Provider.Meaning
import ConfigContract.Proofs.Pointwise
import ConfigContract.Proofs.Provider.Isolation
import ConfigContract.Proofs.Rearranged
import ConfigContract.Proofs.Schema.Reordered
import ConfigContract.Proofs.Contract.Alike
import ConfigContract.Proofs.Lowering.Reordered
import ConfigContract.Proofs.Contract.RoundTrip
import ConfigContract.Proofs.Provider.Opening
import ConfigContract.Proofs.Lowering.Selection
import ConfigContract.Proofs.Lowering.Overridden
import ConfigContract.Proofs.Lowering.Relocated
import ConfigContract.Proofs.Provider.ValueType
import ConfigContract.Proofs.Schema.TypeGrammar
import ConfigContract.Proofs.Lowering.Decided
