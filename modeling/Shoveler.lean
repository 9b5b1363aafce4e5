import Shoveler.Properties.RowIds
import Shoveler.Properties.Inserts
import Shoveler.Properties.ColumnUpdates
import Shoveler.Properties.Checkpoint
import Shoveler.Properties.Generations
import Shoveler.Properties.Rebuilding
import Shoveler.Properties.StringLiterals
import Shoveler.Properties.NestedQueries
import Shoveler.Properties.NoTrace
import Shoveler.Properties.SelectSemantics
import Shoveler.Properties.StoredViews
import Shoveler.Properties.Arithmetic
import Shoveler.Properties.DecoderSafety
import Shoveler.Properties.VectorOverlay
import Shoveler.Properties.AutoIncrement
import Shoveler.Properties.ProcedureTails
import Shoveler.Properties.JoinWords
import Shoveler.Properties.QualifiedNames
import Shoveler.Properties.StaticChecks
import Shoveler.Properties.Grouping
import Shoveler.Properties.Aggregates
import Shoveler.Properties.GroupKeys
import Shoveler.Properties.Expressions
import Shoveler.Properties.IntegerLiterals
import Shoveler.Properties.QuotedNames
import Shoveler.Properties.PolicyScan
import Shoveler.Properties.OverlayDrains
import Shoveler.Properties.NearestVectors
import Shoveler.Properties.TokenSpans
import Shoveler.Properties.SharedStore
import Shoveler.Properties.Substitution
import Shoveler.Properties.CallArguments
import Shoveler.Properties.Recovery
