import Stencil.Main
import Stencil.Proofs.Artifact.Composing
import Stencil.Proofs.Artifact.CountCode
import Stencil.Proofs.Artifact.Fragments
import Stencil.Proofs.Artifact.Grammar
import Stencil.Proofs.Artifact.Layout
import Stencil.Proofs.Artifact.LiteralText
import Stencil.Proofs.Artifact.Paths
import Stencil.Proofs.Artifact.PlainText
import Stencil.Proofs.Artifact.PrintedPrograms
import Stencil.Proofs.Artifact.Printing
import Stencil.Proofs.Artifact.Scanning
import Stencil.Proofs.Artifact.Statements
import Stencil.Proofs.Artifact.TagCode
import Stencil.Proofs.Artifact.TokenEnds
import Stencil.Proofs.Cache.Configurations
import Stencil.Proofs.Cache.FileNames
import Stencil.Proofs.Cache.FilePaths
import Stencil.Proofs.Cache.FolderFiles
import Stencil.Proofs.Cache.Flights
import Stencil.Proofs.Cache.Holding
import Stencil.Proofs.Cache.Info
import Stencil.Proofs.Cache.Interleaving
import Stencil.Proofs.Cache.Persisting
import Stencil.Proofs.Cache.Recompiling
import Stencil.Proofs.Cache.Rendering
import Stencil.Proofs.Cache.SharedFolder
import Stencil.Proofs.Cache.SingleFlight
import Stencil.Proofs.Cache.Staleness
import Stencil.Proofs.Cache.TaglessPages
import Stencil.Proofs.Cache.Team
import Stencil.Proofs.Cache.Trails
import Stencil.Proofs.Cache.Transparency
import Stencil.Proofs.Compile.Blocks
import Stencil.Proofs.Compile.Convergence
import Stencil.Proofs.Compile.CountedText
import Stencil.Proofs.Compile.Cycles
import Stencil.Proofs.Compile.Dependence
import Stencil.Proofs.Compile.Echo
import Stencil.Proofs.Compile.Following
import Stencil.Proofs.Compile.Generation
import Stencil.Proofs.Compile.Handling
import Stencil.Proofs.Compile.KnownTags
import Stencil.Proofs.Compile.Legibility
import Stencil.Proofs.Compile.LegibleSources
import Stencil.Proofs.Compile.Localization
import Stencil.Proofs.Compile.Meaning
import Stencil.Proofs.Compile.Overriding
import Stencil.Proofs.Compile.Places
import Stencil.Proofs.Compile.Pointing
import Stencil.Proofs.Compile.Nesting
import Stencil.Proofs.Compile.Parallel
import Stencil.Proofs.Compile.Putting
import Stencil.Proofs.Compile.Reading
import Stencil.Proofs.Compile.SelfInclusion
import Stencil.Proofs.Compile.Shape
import Stencil.Proofs.Compile.Sites
import Stencil.Proofs.Compile.Aside
import Stencil.Proofs.Compile.Furnishing
import Stencil.Proofs.Compile.Additions
import Stencil.Proofs.Compile.Composing
import Stencil.Proofs.Compile.Openings
import Stencil.Proofs.Compile.Contributions
import Stencil.Proofs.Compile.Texts
import Stencil.Proofs.Decimal.Digits
import Stencil.Proofs.Decimal.Numerals
import Stencil.Proofs.Decimal.Range
import Stencil.Proofs.Decimal.Rounding
import Stencil.Proofs.Disk.Held
import Stencil.Proofs.Disk.Paths
import Stencil.Proofs.Disk.Trees
import Stencil.Proofs.Json.RoundTrip
import Stencil.Proofs.Library.Edits
import Stencil.Proofs.Library.Listing
import Stencil.Proofs.Library.Sharing
import Stencil.Proofs.Markup.Heads
import Stencil.Proofs.Markup.Literals
import Stencil.Proofs.Markup.Partition
import Stencil.Proofs.Markup.Places
import Stencil.Proofs.Run.Buffering
import Stencil.Proofs.Run.Calculating
import Stencil.Proofs.Run.Comparing
import Stencil.Proofs.Run.Counting
import Stencil.Proofs.Run.Dividing
import Stencil.Proofs.Run.Looping
import Stencil.Proofs.Run.Scoping
import Stencil.Proofs.Tag.Checking
import Stencil.Proofs.Tag.Demands
import Stencil.Proofs.Tag.Variables
import Stencil.Proofs.Text.Escaping
import Stencil.Proofs.Text.Layers
import Stencil.Proofs.Text.Search
import Stencil.Proofs.Text.Span
import Stencil.Proofs.Text.Stripping
import Stencil.Proofs.Tree.Composition
import Stencil.Proofs.Tree.Keeping
import Stencil.Proofs.Tree.Legibility
import Stencil.Proofs.Tree.Meaning
import Stencil.Proofs.Tree.Merging
import Stencil.Proofs.Tree.Places
import Stencil.Proofs.Tree.Redirection
import Stencil.Proofs.Tree.Writing
import Stencil.Proofs.Value.Conversion
import Stencil.Tag.Script
import Stencil.Tree.Survey
