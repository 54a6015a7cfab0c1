import BasicScript.Main
import BasicScript.Proofs.DataValues
import BasicScript.Proofs.LentNames
import BasicScript.Proofs.NumberLiteral
import BasicScript.Proofs.RuntimeNames
import BasicScript.Proofs.RejectedLines
import BasicScript.Proofs.OpenedBlocks
import BasicScript.Proofs.DeclaredUse
import BasicScript.Proofs.CacheHistory
import BasicScript.Proofs.Counts
import BasicScript.Proofs.DiagnosticPlaces
import BasicScript.Proofs.CarriageReturns
import BasicScript.Proofs.LabelCalls
import BasicScript.Proofs.LoopExits
import BasicScript.Proofs.Respelling
import BasicScript.Proofs.Atomicity
import BasicScript.Proofs.Regrouping
import BasicScript.Proofs.EditDistance
import BasicScript.Proofs.Suggestions
import BasicScript.Proofs.ArenaHistory
import BasicScript.Proofs.Isolation
import BasicScript.Proofs.LongLiterals
import BasicScript.Proofs.Arguments
