import SqlEngine.Library.Program
import SqlEngine.Library.Monitor
import SqlEngine.Library.Interleaving
import SqlEngine.Library.FileSystem
import SqlEngine.Library.FileSystemRules
import SqlEngine.Library.Contents
import SqlEngine.Library.Growth
import SqlEngine.Library.Conduct
import SqlEngine.Library.Replay
import SqlEngine.Library.Chaining
import SqlEngine.Library.ByteCodec
import SqlEngine.Library.Mixing
import SqlEngine.Util
import SqlEngine.Tokenizer
import SqlEngine.Parser
import SqlEngine.Layout
import SqlEngine.HashIndex
import SqlEngine.Storage
import SqlEngine.IndexFile
import SqlEngine.Semantic
import SqlEngine.Executor
import SqlEngine.Operations
import SqlEngine.Cli
import SqlEngine.Lexical
import SqlEngine.LexicalErrors
import SqlEngine.Grammar
import SqlEngine.SyntaxErrors
import SqlEngine.ErrorPlaces
import SqlEngine.RoundTrip
import SqlEngine.Integers
import SqlEngine.IntegerLiterals
import SqlEngine.LayoutProofs
import SqlEngine.FileOperations
import SqlEngine.TableReads
import SqlEngine.TableScan
import SqlEngine.JournalProofs
import SqlEngine.JournalFile
import SqlEngine.TableInvariant
import SqlEngine.TableWrites
import SqlEngine.TableCreation
import SqlEngine.TableRecovery
import SqlEngine.CrashAtomicity
import SqlEngine.FailedInsert
import SqlEngine.TableAppends
import SqlEngine.CreationCrash
import SqlEngine.ConcurrentCreation
import SqlEngine.JournalIntegrity
import SqlEngine.HashIndexProofs
import SqlEngine.HashSpread
import SqlEngine.PreSizing
import SqlEngine.IndexFileProofs
import SqlEngine.IndexExactness
import SqlEngine.IndexPaths
import SqlEngine.ExecutorProofs
import SqlEngine.SelectProofs
import SqlEngine.RowCounter
import SqlEngine.Escaping
import SqlEngine.InsertProofs
import SqlEngine.InsertReports
import SqlEngine.SelectReports
import SqlEngine.TableStore
import SqlEngine.IndexIndependence
import SqlEngine.Database
import SqlEngine.StaleIndex
import SqlEngine.UniqueIds
import SqlEngine.Availability
import SqlEngine.Durability
import SqlEngine.StorageConduct
import SqlEngine.EngineConduct
import SqlEngine.CliReading
import SqlEngine.CliRouting
import SqlEngine.CliConduct
import SqlEngine.Console
