import CxxpyTree.Ctype
import CxxpyTree.ParseNum
import CxxpyTree.Token
import CxxpyTree.Lexer
import CxxpyTree.TreeAst
import CxxpyTree.Lib.Machine
import CxxpyTree.Lib.Ebnf
import CxxpyTree.Lib.TwoRuns
import CxxpyTree.Parser
import CxxpyTree.Grammar
import CxxpyTree.ParserRun
import CxxpyTree.ParserCorrect
import CxxpyTree.ViablePrefix
import CxxpyTree.Mirror
import CxxpyTree.ParserOutcome
import CxxpyTree.FirstError
import CxxpyTree.Tracing
import CxxpyTree.DebugFlag
import CxxpyTree.LexerRun
import CxxpyTree.Layout
import CxxpyTree.SourcePrinter
import CxxpyTree.SourceRoundTrip
import CxxpyTree.Lib.Walk
import CxxpyTree.Lib.BinarySearch
import CxxpyTree.TypeTable
import CxxpyTree.PoolAllocator
import CxxpyTree.Evaluator
import CxxpyTree.TreeValue
import CxxpyTree.ValueChecks
import CxxpyTree.MakerRun
import CxxpyTree.EvaluatorRun
import CxxpyTree.RaisedFlag
import CxxpyTree.MakerInvariant
import CxxpyTree.PoolRuns
import CxxpyTree.Lib.Quota
import CxxpyTree.ExtPrinter
import CxxpyTree.NodePools
import CxxpyTree.CastOrder
import CxxpyTree.EvaluatorRefinement
import CxxpyTree.Typing
import CxxpyTree.BuiltNodes
import CxxpyTree.MakerAgreement
import CxxpyTree.MakerHistory
import CxxpyTree.ObjectRequests
import CxxpyTree.LeafOrder
import CxxpyTree.AstPrinter
import CxxpyTree.AstDump
import CxxpyTree.DumpRoundTrip
import CxxpyTree.ExtObject
import CxxpyTree.ExtText
import CxxpyTree.ExtRebuild
import CxxpyTree.LexerTrace
import CxxpyTree.Lib.PostOrder
import CxxpyTree.Lib.FilterIterator
import CxxpyTree.AstPool
import CxxpyTree.ReadInput
import CxxpyTree.AstStore
import CxxpyTree.ExtOptions
import CxxpyTree.ExtCall
import CxxpyTree.ExtRepeat
import CxxpyTree.LiteralSyntax
import CxxpyTree.ArgContext
import CxxpyTree.Lib.Lines
import CxxpyTree.VerboseError
import CxxpyTree.ErrorPosition
import CxxpyTree.CachedFind
import CxxpyTree.LeftmostArg
import CxxpyTree.CheckLimits
import CxxpyTree.ParseNumExact
import CxxpyTree.BoxedInt
import CxxpyTree.ReprPrint
import CxxpyTree.PoolRollback
import CxxpyTree.TextBuffer
import CxxpyTree.ExtFuncLoad
import CxxpyTree.Lib.Document
import CxxpyTree.SourceLayout
import CxxpyTree.Lib.Unfold
import CxxpyTree.Lib.Logging
import CxxpyTree.ObjPrint
import CxxpyTree.VerbosePrint
import CxxpyTree.EvalTrace
import CxxpyTree.Lib.Budget
import CxxpyTree.StoredParser
import CxxpyTree.StoreRefinement
import CxxpyTree.StoredRun
import CxxpyTree.StoredDebug
import CxxpyTree.Lib.Credits
import CxxpyTree.StoredCapacity
import CxxpyTree.StoredTree
import CxxpyTree.StoredPrinter
import CxxpyTree.ObjPrintRoundTrip
import CxxpyTree.ExtRoundTrip
import CxxpyTree.Abc
import CxxpyTree.Cxxpy
import CxxpyTree.CastModes
import CxxpyTree.Lib.TextReader
import CxxpyTree.PrintTypes
import CxxpyTree.Lib.Batch
import CxxpyTree.Program
import CxxpyTree.ProgramRun
import CxxpyTree.PrinterProgram
import CxxpyTree.EvalErrors
import CxxpyTree.LibraryProgram
import CxxpyTree.LibraryRun
import CxxpyTree.BasicPrinter
import CxxpyTree.IndentDots
import CxxpyTree.DumpLines
