import ClientGen.Document.Encode
import ClientGen.Main
import ClientGen.Proofs.Run.Basic
import ClientGen.Proofs.Run.Schema
import ClientGen.Proofs.Run.Operation
import ClientGen.Proofs.Names.Emission
import ClientGen.Proofs.Run.Build
import ClientGen.Proofs.Fuel.Bound
import ClientGen.Proofs.Fuel.Endless
import ClientGen.Proofs.Names.Closed
import ClientGen.Proofs.Names.Component
import ClientGen.Proofs.Names.Items
import ClientGen.Proofs.Response.Dispatch
import ClientGen.Proofs.Path.Parameter
import ClientGen.Proofs.Merge.Fields
import ClientGen.Proofs.Merge.Required
import ClientGen.Proofs.Document.Same
import ClientGen.Proofs.Names.Collision
import ClientGen.Proofs.Response.Arrangement
import ClientGen.Proofs.Response.Result
import ClientGen.Proofs.Run.Method
import ClientGen.Proofs.Grouping.Endpoint
import ClientGen.Proofs.Grouping.Methods
import ClientGen.Proofs.Response.Refusal
import ClientGen.Proofs.Names.Made
import ClientGen.Proofs.Grouping.Owner
import ClientGen.Proofs.Comments.Unbroken
import ClientGen.Proofs.Request.Accepted
import ClientGen.Proofs.Files.Failure
import ClientGen.Proofs.Package.Paths
import ClientGen.Proofs.Names.Identifiers
import ClientGen.Proofs.Grouping.MethodNames
import ClientGen.Proofs.Document.RoundTrip
import ClientGen.Proofs.Package.Scope
import ClientGen.Proofs.Query.Encoded
import ClientGen.Proofs.Errors.Returned
import ClientGen.Proofs.Files.Again
import ClientGen.Proofs.Package.Regenerated
import ClientGen.Proofs.Package.Imports
import ClientGen.Proofs.Names.Standing
import ClientGen.Proofs.Merge.Once
import ClientGen.Proofs.Merge.Chain
import ClientGen.Proofs.Response.Classes
import ClientGen.Proofs.Names.Variants
import ClientGen.Proofs.Names.Memoized
import ClientGen.Proofs.Alias.Scalar
import ClientGen.Proofs.Enum.Integers
import ClientGen.Proofs.Mapping.Opaque
import ClientGen.Proofs.Query.Planned
import ClientGen.Proofs.Query.Running
import ClientGen.Proofs.Grouping.Graph
import ClientGen.Proofs.Parameters.Permuted
import ClientGen.Proofs.Path.Matches
import ClientGen.Proofs.Parameters.Arguments
import ClientGen.Proofs.Parameters.Identifiers
import ClientGen.Proofs.Source.Tags
import ClientGen.Proofs.Comments.Paragraphs
import ClientGen.Proofs.Names.Snake
import ClientGen.Proofs.Names.Nested
import ClientGen.Proofs.Names.Singular
import ClientGen.Proofs.Names.Start
