import ScriptEngine.Double
import ScriptEngine.Signature
import ScriptEngine.Suggestion
import ScriptEngine.Token.Lexer
import ScriptEngine.Date.Layout
import ScriptEngine.Program.Parser
import ScriptEngine.Program.Walk
import ScriptEngine.Builtin
import ScriptEngine.Json.Reader
import ScriptEngine.Store.Path
import ScriptEngine.Store.Scope
import ScriptEngine.Plugin
import ScriptEngine.Text.Case
import ScriptEngine.Text.Charset
import ScriptEngine.Timer
import ScriptEngine.Eval
import ScriptEngine.Console.Session
import ScriptEngine.Main
import ScriptEngine.Proofs.LinkedRun
import ScriptEngine.Proofs.Performed
import ScriptEngine.Proofs.FaultsPass
import ScriptEngine.Proofs.LexemeScan
import ScriptEngine.Proofs.ParserSteps
import ScriptEngine.Proofs.SpelledParse
import ScriptEngine.Proofs.SpelledProgram
import ScriptEngine.Proofs.PreparedArguments
import ScriptEngine.Proofs.TokenStream
import ScriptEngine.Proofs.CompleteTree
import ScriptEngine.Proofs.ReadingCourse
import ScriptEngine.Proofs.ReadingExpressions
import ScriptEngine.Proofs.ReadingStatements
import ScriptEngine.Proofs.ReadingPrograms
import ScriptEngine.Proofs.StatementsBegun
import ScriptEngine.Proofs.LaterMemory
import ScriptEngine.Proofs.SatisfiedShapes
import ScriptEngine.Proofs.Conforming
import ScriptEngine.Proofs.Definitions
import ScriptEngine.Proofs.LexicalScope
import ScriptEngine.Proofs.AssignedShapes
import ScriptEngine.Proofs.ArrayLists
import ScriptEngine.Proofs.ArraySizes
import ScriptEngine.Proofs.ArgumentOrder
import ScriptEngine.Proofs.JsonReading
import ScriptEngine.Proofs.JsonRoundTrip
import ScriptEngine.Proofs.RootedFrames
import ScriptEngine.Proofs.MachineLives
import ScriptEngine.Proofs.TickNumbers
import ScriptEngine.Proofs.WholeNumbers
import ScriptEngine.Proofs.FitAgain
import ScriptEngine.Proofs.FoundedData
import ScriptEngine.Proofs.WholeMemory
import ScriptEngine.Proofs.MemberPaths
import ScriptEngine.Proofs.MemberWrites
import ScriptEngine.Proofs.JsonPlaces
import ScriptEngine.Proofs.SafeData
import ScriptEngine.Proofs.PathWrites
import ScriptEngine.Proofs.PathTexts
import ScriptEngine.Proofs.PathRemoval
import ScriptEngine.Proofs.SafeBuiltins
import ScriptEngine.Proofs.WholeRuns
import ScriptEngine.Proofs.ElementWrites
import ScriptEngine.Proofs.IndexChains
import ScriptEngine.Proofs.DataWalks
import ScriptEngine.Proofs.SourceBytes
import ScriptEngine.Proofs.SourcePieces
import ScriptEngine.Proofs.LiteralTokens
import ScriptEngine.Proofs.RefusedWrites
import ScriptEngine.Proofs.CoercedValues
import ScriptEngine.Proofs.NamedArguments
import ScriptEngine.Proofs.LoweredSource
import ScriptEngine.Proofs.KindsInScope
import ScriptEngine.Proofs.MarkedPrograms
import ScriptEngine.Proofs.OrderedValues
import ScriptEngine.Proofs.WholeDoubles
import ScriptEngine.Proofs.EqualData
import ScriptEngine.Proofs.ReadValues
import ScriptEngine.Proofs.EqualValues
import ScriptEngine.Proofs.SortedArrays
import ScriptEngine.Proofs.LoopSnapshots
import ScriptEngine.Proofs.RejectedArrays
import ScriptEngine.Proofs.VisitedRecords
import ScriptEngine.Proofs.TextSearches
import ScriptEngine.Proofs.WalkedPrograms
import ScriptEngine.Proofs.SignalsEnd
import ScriptEngine.Proofs.CalendarDays
import ScriptEngine.Proofs.NumberRanges
import ScriptEngine.Proofs.TimerPeriods
import ScriptEngine.Proofs.DateTexts
import ScriptEngine.Proofs.AddressedPaths
import ScriptEngine.Proofs.ParserPromises
import ScriptEngine.Proofs.ShownLiterals
