import LexPivot.Label
import LexPivot.PivotError
import LexPivot.Grid
import LexPivot.Basis
import LexPivot.Binary64
import LexPivot.Scalar.Basic
import LexPivot.Scalar.Exact
import LexPivot.Scalar.Approximate
import LexPivot.BasicSolution
import LexPivot.Tableau.Basic
import LexPivot.Tableau.Refactor
import LexPivot.Tableau.Pivot
import LexPivot.Tableau.RatioTest
import LexPivot.Complementary.Path
import LexPivot.Complementary.Problem
import LexPivot.Complementary.Bimatrix
import LexPivot.Search.Bounds
import LexPivot.Search.Run
import LexPivot.LinearProgram.Constraints
import LexPivot.LinearProgram.Simplex
import LexPivot.LinearProgram.Solve
import LexPivot.Game.Error
import LexPivot.Game.Strategy
import LexPivot.Game.Payoff
import LexPivot.Game.Equilibrium
import LexPivot.Game.ZeroSum
import LexPivot.Json.Token
import LexPivot.Json.Skip
import LexPivot.Search.Text
import LexPivot.Proofs.ExactScalar
import LexPivot.Proofs.FractionFree
import LexPivot.Proofs.GaussJordan
import LexPivot.Proofs.BasisLookup
import LexPivot.Proofs.BasisConsistency
import LexPivot.Proofs.ReducedSystem
import LexPivot.Proofs.Elimination
import LexPivot.Proofs.Representation
import LexPivot.Proofs.BasicPoint
import LexPivot.Proofs.TableauRun
import LexPivot.Proofs.BasisDetermines
import LexPivot.Proofs.PivotContract
import LexPivot.Proofs.LexRatioTest
import LexPivot.Proofs.LexFeasible
import LexPivot.Proofs.ComplementaryPivot
import LexPivot.Proofs.LexicographicInvariant
import LexPivot.Proofs.RatioTestWinner
import LexPivot.Proofs.GameSystem
import LexPivot.Proofs.NashSoundness
import LexPivot.Proofs.ComplementaryPath
import LexPivot.Proofs.PathTermination
import LexPivot.Proofs.AlmostComplementary
import LexPivot.Proofs.ComplementaryColumns
import LexPivot.Proofs.LemkeHowsonPath
import LexPivot.Proofs.CoverPivot
import LexPivot.Proofs.LemkeRun
import LexPivot.Proofs.LemkeTermination
import LexPivot.Proofs.CopositivePlus
import LexPivot.Proofs.RayLevel
import LexPivot.Proofs.LemkeRerun
import LexPivot.Proofs.ObjectiveRow
import LexPivot.Proofs.SimplexRun
import LexPivot.Proofs.ConstraintSystem
import LexPivot.Proofs.SimplexStart
import LexPivot.Proofs.ArtificialRemoval
import LexPivot.Proofs.ProgramStatus
import LexPivot.Proofs.OptimalityCertificate
import LexPivot.Proofs.SimplexCalls
import LexPivot.Proofs.SimplexTermination
import LexPivot.Proofs.ArtificialExclusion
import LexPivot.Proofs.SolutionOrder
import LexPivot.Proofs.SearchRun
import LexPivot.Proofs.EquilibriumSearch
import LexPivot.Proofs.PathTrace
import LexPivot.Proofs.NondegenerateGame
import LexPivot.Proofs.PathBudget
import LexPivot.Proofs.PathInvolution
import LexPivot.Proofs.SearchClosure
import LexPivot.Proofs.BoundedSearch
import LexPivot.Proofs.PathComplementarity
import LexPivot.Proofs.EquilibriumClosure
import LexPivot.Proofs.EquilibriumParity
import LexPivot.Proofs.ZeroSumValue
