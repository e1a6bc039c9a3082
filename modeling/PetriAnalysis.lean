import PetriAnalysis.Config
import PetriAnalysis.Lp.Feasibility
import PetriAnalysis.Lp.Metered
import PetriAnalysis.Net.ArcTables
import PetriAnalysis.Net.Firing
import PetriAnalysis.Net.Json
import PetriAnalysis.Net.Outline
import PetriAnalysis.Proofs.Relaxation.StateEquation
import PetriAnalysis.Query.Colored
import PetriAnalysis.Relaxation.Basic
import PetriAnalysis.Proofs.Relaxation.Polling
import PetriAnalysis.Proofs.Lp.PlainMatrix
import PetriAnalysis.Proofs.Relaxation.Retry
import PetriAnalysis.Proofs.Relaxation.Solutions
import PetriAnalysis.Proofs.Net.Construction
import PetriAnalysis.Proofs.Names.Positions
import PetriAnalysis.Proofs.Query.Resolution
import PetriAnalysis.Proofs.Names.Trace
import PetriAnalysis.Proofs.Query.Session
import PetriAnalysis.Proofs.Query.Families
import PetriAnalysis.Proofs.Net.Monotone
import PetriAnalysis.Proofs.Net.Faults
import PetriAnalysis.Proofs.Net.History
import PetriAnalysis.Proofs.Net.Independence
import PetriAnalysis.Proofs.Lp.RowByRow
import PetriAnalysis.Proofs.Lp.Appending
import PetriAnalysis.Proofs.Lp.Defects
import PetriAnalysis.Proofs.Lp.Accesses
import PetriAnalysis.Proofs.Relaxation.GoalRows
import PetriAnalysis.Proofs.Names.Fresh
import PetriAnalysis.Proofs.Relaxation.Precision
import PetriAnalysis.Proofs.Relaxation.Cache
import PetriAnalysis.Proofs.Net.Json
