import ModernC.Mir.OwnershipSoundness
import ModernC.Mir.OwnershipClosure
import ModernC.Eval.IntegerFold
import ModernC.Eval.RuntimeHelpers
import ModernC.Eval.HelperAgreement
import ModernC.Mir.ExecutableBody
import ModernC.Mir.CleanupRuns
import ModernC.Move.MoveState
import ModernC.Move.Joins
import ModernC.Move.LoopBody
import ModernC.Move.LoopExitLeaks
import ModernC.Move.JoinRestrictions
import ModernC.Syntax.Ast
import ModernC.Syntax.Walk
import ModernC.Specialize.Names
import ModernC.Specialize.Linkage
import ModernC.Specialize.Clone
import ModernC.Syntax.NameResolve
import ModernC.Specialize.CaptureFree
import ModernC.Specialize.Transform
import ModernC.Syntax.WalkLogs
import ModernC.Specialize.Uses
import ModernC.Specialize.Passes
import ModernC.Specialize.Collection
import ModernC.Specialize.Completeness
import ModernC.Specialize.Emission
import ModernC.Specialize.Permutation
import ModernC.Syntax.FreshNames
import ModernC.Syntax.ManglePrivate
import ModernC.Syntax.PrivateBinding
import ModernC.Syntax.BindingPreservation
import ModernC.Types.DeclTables
import ModernC.Types.ValueType
import ModernC.Types.Resolution
import ModernC.Types.Classification
import ModernC.Types.ClassAgreement
import ModernC.Mir.Typed.Body
import ModernC.Mir.Typed.Places
import ModernC.Mir.Typed.Verification
import ModernC.Mir.Typed.Verified
import ModernC.Mir.Typed.BoundsEdges
import ModernC.Mir.Typed.TaggedUnions
import ModernC.Mir.IrqContext
import ModernC.Publisher.ArtifactPublisher
import ModernC.Publisher.ArtifactMetadata
import ModernC.Layout.Layout
import ModernC.Layout.Reflection
import ModernC.Lower.CIdentifiers
import ModernC.Layout.DepthGuard
import ModernC.Layout.ZeroSized
import ModernC.Layout.ReflectionAgreement
import ModernC.Symbols.Scopes
import ModernC.Symbols.Recording
import ModernC.Symbols.Jumps
import ModernC.Parser.Expressions
import ModernC.Parser.RoundTrip
import ModernC.Parser.Misreading
import ModernC.Lexer.Lexer
import ModernC.Lexer.Boundaries
import ModernC.Lexer.Runs
import ModernC.Lexer.Loop
import ModernC.Format.Formatter
import ModernC.Format.Spacing
import ModernC.Format.LineContents
import ModernC.Format.TokenPreservation
import ModernC.Alloc.Pool
import ModernC.Alloc.Addresses
import ModernC.Alloc.Arena
import ModernC.Sync.Spinlock
import ModernC.Sync.RwLock
import ModernC.Sync.SeqLock
import ModernC.Sync.Traps
import ModernC.Alloc.Heap
import ModernC.Alloc.LiveTable
import ModernC.Alloc.Requests
import ModernC.Libc.Malloc
import ModernC.Libc.MallocSafety
import ModernC.Libc.MallocTraps
import ModernC.Collections.HashMap
import ModernC.Collections.MapSafety
import ModernC.Loader.ImportGraph
import ModernC.Loader.LoadedGraph
import ModernC.Optionals.Agreement
import ModernC.Bytes.Accessors
import ModernC.Collections.Arc
import ModernC.Collections.Vec
import ModernC.Grants.Grant
import ModernC.Sync.Snapshots
import ModernC.Layout.LengthExactness
import ModernC.Lexer.IntegerAgreement
import ModernC.Libc.Cnum
import ModernC.Libc.CnumConversions
import ModernC.Libc.Directives
import ModernC.Libc.Emission
import ModernC.Libc.FormatConversions
import ModernC.Libc.RoundTrip
import ModernC.Alloc.Ownership
import ModernC.Bytes.ByteReader
import ModernC.Comptime.Assignment
import ModernC.Comptime.Casts
import ModernC.Comptime.Folder
import ModernC.Comptime.HostArithmetic
import ModernC.Comptime.Panics
import ModernC.Comptime.RangeInvariant
import ModernC.Comptime.Ranges
import ModernC.Comptime.Scope
import ModernC.Comptime.Statements
import ModernC.Comptime.Storage
import ModernC.Comptime.Termination
import ModernC.Layout.LengthFold
import ModernC.Lexer.Endings
import ModernC.Lexer.IntegerGrammar
import ModernC.Libc.MemCopy
import ModernC.Libc.NumberTexts
import ModernC.Libc.Stdio
import ModernC.Libc.Truncation
import ModernC.Loader.Loader
import ModernC.Mir.CleanupPlan
import ModernC.Mir.DominatingChecks
import ModernC.Mir.Model
import ModernC.Mir.OwnershipFlow
import ModernC.Move.BranchJoin
import ModernC.Move.LoopRuns
import ModernC.Move.Restrictions
import ModernC.Optionals.EmitterPaths
import ModernC.Parser.GenericCalls
import ModernC.Parser.Tokens
import ModernC.Parser.Writing
import ModernC.SemaTypes.Agreement
import ModernC.SemaTypes.Denotation
import ModernC.SemaTypes.Interning
import ModernC.SemaTypes.Rendering
import ModernC.SemaTypes.Table
import ModernC.Syntax.IntegerLiteral
import ModernC.Syntax.Occurrences
import ModernC.Mir.Typed.EvaluationOrder
import ModernC.Bytes.ByteBuf
import ModernC.Collections.Sort
import ModernC.Lexer.StringLiterals
import ModernC.Numbers.Bits
import ModernC.Numbers.Math
import ModernC.Numbers.Rights
import ModernC.SourceMap.LineIndex
import ModernC.Layout.Shared
import ModernC.Layout.Storage
import ModernC.Diagnostics.Document
import ModernC.Diagnostics.Faithful
import ModernC.Alloc.Release
import ModernC.Bytes.Split
import ModernC.Lower.AggregateClosure
import ModernC.Lower.AggregateOrder
import ModernC.Lower.StringConstants
import ModernC.Mir.AliasChains
import ModernC.Mir.Fallthrough
import ModernC.Specialize.Dependence
import ModernC.Collections.Ring
import ModernC.Numbers.Renderers
