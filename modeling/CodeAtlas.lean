import CodeAtlas.Encoding.Config
import CodeAtlas.Main
import CodeAtlas.Proofs.Graph.Declaration
import CodeAtlas.Proofs.Graph.Edges
import CodeAtlas.Proofs.Text.Parts
import CodeAtlas.Proofs.Graph.Meaning
import CodeAtlas.Proofs.Graph.Names
import CodeAtlas.Proofs.Graph.Ranking
import CodeAtlas.Proofs.Graph.Resolution
import CodeAtlas.Proofs.Graph.Reachability
import CodeAtlas.Proofs.Graph.Annotation
import CodeAtlas.Proofs.FileFilter.Pruning
import CodeAtlas.Proofs.Graph.Identifiers
import CodeAtlas.Proofs.FileFilter.Validity
import CodeAtlas.Proofs.Graph.Scopes
import CodeAtlas.Proofs.Path.Order
import CodeAtlas.Proofs.Scan.Selection
import CodeAtlas.Proofs.Outline.Patterns
import CodeAtlas.Proofs.Outline.OwnLine
import CodeAtlas.Proofs.Graph.Labels
import CodeAtlas.Proofs.Syntax.Walk
import CodeAtlas.Proofs.Grammar.Extensions
import CodeAtlas.Proofs.Grammar.Sources
import CodeAtlas.Proofs.Naming.ModuleId
import CodeAtlas.Proofs.Naming.DotImports
import CodeAtlas.Proofs.Path.Parent
import CodeAtlas.Proofs.Naming.Specifiers
import CodeAtlas.Proofs.Naming.PathImports
import CodeAtlas.Proofs.Syntax.Places
import CodeAtlas.Proofs.Grammar.Nesting
import CodeAtlas.Proofs.Grammar.Imports
import CodeAtlas.Proofs.Grammar.UsePaths
import CodeAtlas.Proofs.Grammar.KeptImports
import CodeAtlas.Proofs.Text.Lines
import CodeAtlas.Proofs.Outline.Spans
import CodeAtlas.Proofs.Naming.Empty
import CodeAtlas.Proofs.Ordered
import CodeAtlas.Proofs.Project.Roles
import CodeAtlas.Proofs.Project.Shape
import CodeAtlas.Proofs.Analysis.Outcome
import CodeAtlas.Proofs.Analysis.Depth
import CodeAtlas.Proofs.Scan.Issues
import CodeAtlas.Proofs.Analysis.Balance
import CodeAtlas.Proofs.Syntax.Apart
import CodeAtlas.Proofs.Grammar.Decisions
import CodeAtlas.Proofs.Outline.Decisions
import CodeAtlas.Proofs.Complexity
import CodeAtlas.Proofs.Graph.Hotspots
import CodeAtlas.Proofs.Grammar.UseTrees
import CodeAtlas.Proofs.Grammar.OutsideMembers
import CodeAtlas.Proofs.FileFilter.Defaults
import CodeAtlas.Proofs.Grammar.ImportClauses
import CodeAtlas.Proofs.Grammar.ImportPaths
import CodeAtlas.Proofs.Grammar.Introductions
import CodeAtlas.Proofs.Grammar.Variables
import CodeAtlas.Proofs.Syntax.Topmost
import CodeAtlas.Proofs.Grammar.Heritage
import CodeAtlas.Proofs.Grammar.Supertypes
import CodeAtlas.Proofs.Project.Lookup
import CodeAtlas.Proofs.Summary
import CodeAtlas.Proofs.Syntax.Events
import CodeAtlas.Proofs.Grammar.Occurrences
import CodeAtlas.Proofs.Project.Confidence
import CodeAtlas.Proofs.Project.Packages
import CodeAtlas.Proofs.Syntax.Outermost
import CodeAtlas.Proofs.Grammar.TypeNames
import CodeAtlas.Proofs.Text.Pairs
import CodeAtlas.Proofs.Naming.NormalForm
