import ObjectGraph.Binary64
import ObjectGraph.Command.Arguments
import ObjectGraph.Command.Help
import ObjectGraph.Command.Program
import ObjectGraph.Command.Report
import ObjectGraph.Digest.Sha256
import ObjectGraph.Document
import ObjectGraph.Document.Json
import ObjectGraph.Document.Yaml.Grammar
import ObjectGraph.Document.Yaml.Tag
import ObjectGraph.Document.Yaml.Text
import ObjectGraph.Document.Yaml.Token
import ObjectGraph.Document.Yaml.Tree
import ObjectGraph.Entries
import ObjectGraph.Main
import ObjectGraph.Materialize
import ObjectGraph.Migration
import ObjectGraph.Name
import ObjectGraph.Node
import ObjectGraph.Node.Identity
import ObjectGraph.Proofs.Binary64.Nearest
import ObjectGraph.Proofs.Binary64.Text
import ObjectGraph.Proofs.Command.LoadedIds
import ObjectGraph.Proofs.Command.ResolvedLines
import ObjectGraph.Proofs.Document.Balance
import ObjectGraph.Proofs.Document.Escape
import ObjectGraph.Proofs.Document.SameTree
import ObjectGraph.Proofs.Entries.Sorted
import ObjectGraph.Proofs.Entries.Updates
import ObjectGraph.Proofs.Identity.Content
import ObjectGraph.Proofs.Identity.EqualNodes
import ObjectGraph.Proofs.Identity.Injectivity
import ObjectGraph.Proofs.Identity.Invariance
import ObjectGraph.Proofs.Identity.NonFinite
import ObjectGraph.Proofs.Materialize.ContentId
import ObjectGraph.Proofs.Materialize.Fill
import ObjectGraph.Proofs.Materialize.NormalForm
import ObjectGraph.Proofs.Materialize.OlderConsumer
import ObjectGraph.Proofs.Materialize.Refusal
import ObjectGraph.Proofs.Materialize.RootObject
import ObjectGraph.Proofs.Materialize.RoundTrip
import ObjectGraph.Proofs.Materialize.Suitable
import ObjectGraph.Proofs.Materialize.WalkedOnce
import ObjectGraph.Proofs.Migration.Chain
import ObjectGraph.Proofs.Migration.NodeUpgrade
import ObjectGraph.Proofs.Migration.Registration
import ObjectGraph.Proofs.Migration.Stages
import ObjectGraph.Proofs.Name.Validity
import ObjectGraph.Proofs.Node.Access
import ObjectGraph.Proofs.Node.HeaderFields
import ObjectGraph.Proofs.Node.Reachable
import ObjectGraph.Proofs.Node.Rendering
import ObjectGraph.Proofs.Node.Representation
import ObjectGraph.Proofs.Registry.Build
import ObjectGraph.Proofs.Registry.Calls
import ObjectGraph.Proofs.Registry.Layout
import ObjectGraph.Proofs.Registry.LifeCycle
import ObjectGraph.Proofs.Registry.Memo
import ObjectGraph.Proofs.Registry.ModuleOrder
import ObjectGraph.Proofs.Registry.Names
import ObjectGraph.Proofs.Registry.ParentChain
import ObjectGraph.Proofs.Registry.Resolution
import ObjectGraph.Proofs.Result
import ObjectGraph.Proofs.Traversal.Displayable
import ObjectGraph.Proofs.Traversal.DistinctNodes
import ObjectGraph.Proofs.Traversal.LevelOrder
import ObjectGraph.Proofs.Traversal.Occurrences
import ObjectGraph.Proofs.Traversal.PathTexts
import ObjectGraph.Proofs.Traversal.Pruning
import ObjectGraph.Proofs.Traversal.StockRules
import ObjectGraph.Proofs.Value.Alike
import ObjectGraph.Proofs.Value.Equality
import ObjectGraph.Proofs.Version
import ObjectGraph.Registry
import ObjectGraph.Registry.Index
import ObjectGraph.Text
import ObjectGraph.Text.Quoted
import ObjectGraph.Traversal.Rule
import ObjectGraph.Traversal.Walk
import ObjectGraph.Value
import ObjectGraph.Version
