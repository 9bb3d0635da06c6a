import Scaffold.Disk.State
import Scaffold.Main
import Scaffold.Proofs.Disk.Entries
import Scaffold.Proofs.Disk.Resolution
import Scaffold.Proofs.Disk.Changes
import Scaffold.Proofs.Job.Runs
import Scaffold.Proofs.BuildList.Declarations
import Scaffold.Proofs.Path.Neat
import Scaffold.Proofs.BuildTree.Plans
import Scaffold.Proofs.BuildList.Reading
import Scaffold.Proofs.Tests.Generation
import Scaffold.Proofs.Tests.Enumeration
import Scaffold.Proofs.BuildTree.Requests
import Scaffold.Proofs.Path.Pieces
import Scaffold.Proofs.Tests.Includes
import Scaffold.Proofs.Disk.Making
import Scaffold.Proofs.BuildTree.Effects
import Scaffold.Proofs.BuildTree.Persistence
import Scaffold.Proofs.BuildTree.Layout
import Scaffold.Proofs.BuildTree.Exactness
import Scaffold.Proofs.Tests.Histories
import Scaffold.Proofs.Disk.Distinct
import Scaffold.Proofs.Job.Passing
import Scaffold.Proofs.BuildTree.Sites
import Scaffold.Proofs.BuildTree.Printed
import Scaffold.Proofs.BuildTree.Written
import Scaffold.Proofs.BuildTree.Composed
import Scaffold.Proofs.Tests.Steps
import Scaffold.Proofs.Tests.Planning
import Scaffold.Proofs.Tests.Outcomes
import Scaffold.Proofs.Tests.Lists
import Scaffold.Proofs.Tests.Alike
import Scaffold.Proofs.Tests.Repair
import Scaffold.Proofs.Tests.Order
import Scaffold.Proofs.Tests.Settled
import Scaffold.Proofs.Tests.Fixpoint
import Scaffold.Proofs.Cpp.Matching
import Scaffold.Proofs.Cpp.Declarators
import Scaffold.Proofs.Job.Trails
import Scaffold.Proofs.Project.Standing
import Scaffold.Proofs.Path.Relocated
import Scaffold.Proofs.Outputs.Handled
import Scaffold.Proofs.Outputs.Places
import Scaffold.Proofs.Outputs.Calls
import Scaffold.Proofs.Outputs.Truth
import Scaffold.Proofs.Outputs.Containment
import Scaffold.Proofs.Outputs.Handwork
import Scaffold.Proofs.Disk.Spelling
import Scaffold.Proofs.Project.Lasting
import Scaffold.Proofs.Mocks.Again
import Scaffold.Proofs.Path.Ancestors
import Scaffold.Proofs.Outputs.Refusals
import Scaffold.Proofs.BuildTree.Targets
import Scaffold.Proofs.Disk.Below
import Scaffold.Proofs.Mocks.Names
import Scaffold.Proofs.Mocks.Written
import Scaffold.Proofs.Mocks.Apart
import Scaffold.Proofs.Disk.Shape
import Scaffold.Proofs.BuildTree.Carried
import Scaffold.Proofs.Tests.Kept
import Scaffold.Proofs.Tests.Legible
import Scaffold.Proofs.Tests.OneByOne
import Scaffold.Proofs.Job.Mishaps
import Scaffold.Proofs.Mocks.Redone
import Scaffold.Proofs.Text.Identifiers
import Scaffold.Proofs.Artifact.Reading
import Scaffold.Proofs.Artifact.MockFiles
import Scaffold.Proofs.Artifact.TestNames
import Scaffold.Proofs.Cpp.Words
import Scaffold.Proofs.Artifact.TestIdentifiers
import Scaffold.Proofs.Path.Continued
import Scaffold.Proofs.Outputs.Registration
import Scaffold.Proofs.Artifact.MacroArguments
import Scaffold.Proofs.Cpp.Occurrences
import Scaffold.Proofs.Cpp.Frames
import Scaffold.Proofs.Cpp.Conditionals
import Scaffold.Proofs.Cpp.Derivations
import Scaffold.Proofs.Cpp.Bodies
import Scaffold.Proofs.Cpp.TopLevel
import Scaffold.Proofs.BuildTree.Enumerated
import Scaffold.Proofs.Text.Squeeze
import Scaffold.Proofs.Cpp.Parts
import Scaffold.Proofs.Cpp.Tops
import Scaffold.Proofs.Cpp.Built
import Scaffold.Proofs.Cpp.Layers
import Scaffold.Proofs.Cpp.Described
import Scaffold.Proofs.Cpp.Spelling
import Scaffold.Proofs.Artifact.SkipMessages
import Scaffold.Proofs.Cpp.Edits
import Scaffold.Proofs.Cpp.Defaults
import Scaffold.Proofs.Tests.Roots
import Scaffold.Proofs.Project.Spellings
import Scaffold.Proofs.Command.Runs
import Scaffold.Proofs.Command.Whereabouts
import Scaffold.Proofs.Json.Reading
import Scaffold.Proofs.Command.Reported
import Scaffold.Proofs.Cpp.IncludeLines
import Scaffold.Proofs.Cpp.Mirror
