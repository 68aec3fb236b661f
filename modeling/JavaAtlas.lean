import JavaAtlas.Binding.Lexicon
import JavaAtlas.Binding.TypeRef
import JavaAtlas.Build.Modules
import JavaAtlas.Classpath.Assembly
import JavaAtlas.Classpath.Dump
import JavaAtlas.Classpath.Entry
import JavaAtlas.Command
import JavaAtlas.Config
import JavaAtlas.Deadline
import JavaAtlas.Element
import JavaAtlas.Engine
import JavaAtlas.Error
import JavaAtlas.FileTree
import JavaAtlas.Hierarchy
import JavaAtlas.Index
import JavaAtlas.Jdk
import JavaAtlas.Json
import JavaAtlas.Match
import JavaAtlas.NamePattern
import JavaAtlas.Outline.Basic
import JavaAtlas.Outline.Collect
import JavaAtlas.Outline.TypeText
import JavaAtlas.Path
import JavaAtlas.PathMap
import JavaAtlas.Position
import JavaAtlas.Project
import JavaAtlas.Proofs.Confinement
import JavaAtlas.Proofs.DeclarationVisits
import JavaAtlas.Proofs.Gathering
import JavaAtlas.Proofs.IndexConsistency
import JavaAtlas.Proofs.IndexUses
import JavaAtlas.Proofs.Lineage
import JavaAtlas.Proofs.MemberBinding
import JavaAtlas.Proofs.MentionVisits
import JavaAtlas.Proofs.OutlineBlocks
import JavaAtlas.Proofs.OutlineNesting
import JavaAtlas.Proofs.PathNames
import JavaAtlas.Proofs.Resolution
import JavaAtlas.Proofs.SearchSelection
import JavaAtlas.Proofs.ServiceRuns
import JavaAtlas.Proofs.SessionFrame
import JavaAtlas.Proofs.SourceTreeSafety
import JavaAtlas.Proofs.TreeShape
import JavaAtlas.Proofs.TypeResolution
import JavaAtlas.Proofs.TypeVisits
import JavaAtlas.Proofs.Walking
import JavaAtlas.Query
import JavaAtlas.Service
import JavaAtlas.Session
import JavaAtlas.Shell.Arithmetic
import JavaAtlas.Shell.Fields
import JavaAtlas.Shell.Machine
import JavaAtlas.Shell.Pattern
import JavaAtlas.Shell.Reader
import JavaAtlas.Shell.Run
import JavaAtlas.Shell.Script
import JavaAtlas.Shell.Tools
import JavaAtlas.Sources
import JavaAtlas.Syntax.Form
import JavaAtlas.Syntax.Grammar
import JavaAtlas.Syntax.Lexer
import JavaAtlas.Syntax.Node
import JavaAtlas.Syntax.Token
import JavaAtlas.Syntax.Tree
import JavaAtlas.Text.Alphanumeric
import JavaAtlas.Text.Blank
import JavaAtlas.Text.Bytes
import JavaAtlas.Text.CaseFold
import JavaAtlas.Text.CodeRange
import JavaAtlas.Text.Digit
import JavaAtlas.Text.Identifier
import JavaAtlas.Text.Lines
import JavaAtlas.Text.Split
import JavaAtlas.Workspace
import JavaAtlas.Proofs.AssembledEntries
import JavaAtlas.Proofs.BoundProjects
import JavaAtlas.Proofs.ProjectReading
import JavaAtlas.Proofs.ProjectRegister
import JavaAtlas.Proofs.ServiceLifecycle
import JavaAtlas.Proofs.SharedSources
import JavaAtlas.Proofs.PathTexts
import JavaAtlas.Proofs.ReportedPaths
import JavaAtlas.Proofs.ServiceAnswers
import JavaAtlas.Proofs.SupertypeSources
import JavaAtlas.Proofs.TypeClosures
import JavaAtlas.Proofs.LegibleNames
import JavaAtlas.Proofs.LikeWalks
import JavaAtlas.Proofs.MovedLexicons
import JavaAtlas.Proofs.DeclaredMembers
import JavaAtlas.Proofs.LocalBindings
import JavaAtlas.Proofs.ScopeIsolation
import JavaAtlas.Proofs.RegisteredProjects
import JavaAtlas.Proofs.ProjectRemoval
import JavaAtlas.Proofs.SessionStarts
import JavaAtlas.Proofs.FileOrder
import JavaAtlas.Proofs.CodeLayout
import JavaAtlas.Proofs.QualifiedSearch
import JavaAtlas.Proofs.BreadthFirst
import JavaAtlas.Proofs.LineageOrder
import JavaAtlas.Proofs.ModelForms
import JavaAtlas.Proofs.NameWords
import JavaAtlas.Proofs.OwnNames
import JavaAtlas.Proofs.InnermostOwners
import JavaAtlas.Proofs.ImplementationSearch
import JavaAtlas.Proofs.SeparateMentions
import JavaAtlas.Proofs.PatternLanguage
import JavaAtlas.Proofs.LinePositions
import JavaAtlas.Proofs.PlacedMatches
import JavaAtlas.Proofs.TypeSlots
import JavaAtlas.Proofs.ErasedNames
import JavaAtlas.Proofs.AnchorNames
import JavaAtlas.Proofs.PathReturns
import JavaAtlas.Proofs.LinkNames
import JavaAtlas.Proofs.ModuleTrees
import JavaAtlas.Proofs.AnnotationUses
import JavaAtlas.Proofs.CleanedPaths
import JavaAtlas.Proofs.ModuleChains
import JavaAtlas.Proofs.WrittenTypes
import JavaAtlas.Proofs.ParameterTypes
import JavaAtlas.Proofs.DecodedArities
import JavaAtlas.Proofs.TimeoutRequests
import JavaAtlas.Proofs.Repetitions
import JavaAtlas.Proofs.LibraryLists
import JavaAtlas.Proofs.CapturedOutput
import JavaAtlas.Proofs.TypeErasure
