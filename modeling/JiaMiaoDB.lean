import JiaMiaoDB.Storage.CheckpointRoundTrip
import JiaMiaoDB.Storage.SnapshotStability
import JiaMiaoDB.Storage.ReadCommitted
import JiaMiaoDB.Storage.WalSequence
import JiaMiaoDB.Storage.WalDamage
import JiaMiaoDB.Storage.FuzzyOutcome
import JiaMiaoDB.Storage.XidReuse
import JiaMiaoDB.Storage.MemTableVersions
import JiaMiaoDB.Storage.LockSafety
import JiaMiaoDB.Ai.PlanEquivalence
import JiaMiaoDB.Common.MemoryContextTree
import JiaMiaoDB.Common.AllocSetIntegrity
import JiaMiaoDB.Storage.CallLocks
import JiaMiaoDB.Storage.DeleteEffect
import JiaMiaoDB.Storage.VacuumView
import JiaMiaoDB.Server.CommitRecords
import JiaMiaoDB.Storage.WriteSkew
import JiaMiaoDB.Ai.NlConditions
import JiaMiaoDB.Storage.LockOrder
import JiaMiaoDB.Storage.RowIds
import JiaMiaoDB.Storage.Conformance
import JiaMiaoDB.Sql.StringLiteral
import JiaMiaoDB.Sql.Parser
import JiaMiaoDB.Sql.ParserSafety
import JiaMiaoDB.Sql.ParserRuns
import JiaMiaoDB.Sql.ExpressionGrammar
import JiaMiaoDB.Sql.ColumnGrammar
import JiaMiaoDB.Sql.Arithmetic
import JiaMiaoDB.Sql.Comparison
import JiaMiaoDB.Lib.StableSort
import JiaMiaoDB.Ai.SortOrder
import JiaMiaoDB.Storage.CheckpointCadence
import JiaMiaoDB.Storage.GeneratedKeys
import JiaMiaoDB.Storage.InsertedRows
import JiaMiaoDB.Ai.InsertValues
import JiaMiaoDB.Lib.TableChecksum
import JiaMiaoDB.Storage.CrcBursts
import JiaMiaoDB.Storage.WalTruncate
import JiaMiaoDB.Storage.DecodeTargets
import JiaMiaoDB.Storage.StoredCells
import JiaMiaoDB.Storage.SystemColumns
import JiaMiaoDB.Common.JsonText
import JiaMiaoDB.Common.JsonRoundTrip
import JiaMiaoDB.Common.JsonReader
import JiaMiaoDB.Common.JsonTruncation
import JiaMiaoDB.Storage.CheckpointExact
import JiaMiaoDB.Storage.DecoderRoom
import JiaMiaoDB.Storage.VacuumComplete
import JiaMiaoDB.Ai.KeyExtraction
import JiaMiaoDB.Storage.SavepointLifetime
import JiaMiaoDB.Storage.ReadRecords
import JiaMiaoDB.Storage.LockHandles
import JiaMiaoDB.Lib.Carving
import JiaMiaoDB.Storage.Arena
import JiaMiaoDB.Common.Bump
import JiaMiaoDB.Lib.ByteMemory
import JiaMiaoDB.Common.HeapRuns
import JiaMiaoDB.Sql.ParserRules
import JiaMiaoDB.Sql.StatementGrammar
import JiaMiaoDB.Sql.Layout
import JiaMiaoDB.Sql.Printing
import JiaMiaoDB.Storage.Outcomes
import JiaMiaoDB.Lib.UndoLog
import JiaMiaoDB.Storage.TransactionRows
import JiaMiaoDB.Storage.SerialTransactions
import JiaMiaoDB.Storage.TransactionStatements
import JiaMiaoDB.Storage.TransactionLedger
import JiaMiaoDB.Storage.LedgerKeys
import JiaMiaoDB.Server.ServerLedger
import JiaMiaoDB.Sql.CreateTable
