import Statechart.Builder.Children
import Statechart.Builder.Clause
import Statechart.Json.Printer
import Statechart.Machine
import Statechart.Proofs.Blame
import Statechart.Proofs.BuilderRuns
import Statechart.Proofs.Delays
import Statechart.Proofs.Entries
import Statechart.Proofs.EqualInputs
import Statechart.Proofs.Equivalence
import Statechart.Proofs.Flattening
import Statechart.Proofs.Foreign
import Statechart.Proofs.GivenJson
import Statechart.Proofs.MergedTables
import Statechart.Proofs.Navigation
import Statechart.Proofs.Pieces
import Statechart.Proofs.Policies
import Statechart.Proofs.Positions
import Statechart.Proofs.Rearrangement
import Statechart.Proofs.Renaming
import Statechart.Proofs.Single
import Statechart.Proofs.Splicing
import Statechart.Proofs.GivenJson
