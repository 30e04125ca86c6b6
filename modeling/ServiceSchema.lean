import ServiceSchema.Main
import ServiceSchema.Proofs.Names.Bytes
import ServiceSchema.Proofs.Names.Sorting
import ServiceSchema.Proofs.Resolution.Graph
import ServiceSchema.Proofs.Resolution.Circular
import ServiceSchema.Proofs.Resolution.Depth
import ServiceSchema.Proofs.Resolution.Repeated
import ServiceSchema.Proofs.Resolution.Turns
import ServiceSchema.Proofs.Resolution.Diagnostics
import ServiceSchema.Proofs.Schema.Nesting
import ServiceSchema.Proofs.Schema.References
import ServiceSchema.Proofs.Synthesis.Extension
import ServiceSchema.Proofs.Synthesis.Scoping
import ServiceSchema.Proofs.Schema.Chains
import ServiceSchema.Proofs.Synthesis.Reordering
import ServiceSchema.Proofs.Schema.Mentions
import ServiceSchema.Proofs.Emit.Lossless
import ServiceSchema.Proofs.Synthesis.Conservation
import ServiceSchema.Proofs.Schema.Laziness
import ServiceSchema.Proofs.Synthesis.Annotations
import ServiceSchema.Proofs.Schema.Fields
import ServiceSchema.Proofs.Model.Bounds
import ServiceSchema.Proofs.Schema.Shape
import ServiceSchema.Proofs.Schema.Composition
import ServiceSchema.Proofs.Schema.Counts
import ServiceSchema.Proofs.Schema.Interleaving
import ServiceSchema.Proofs.Schema.Comparisons
import ServiceSchema.Proofs.Json.Pretty
import ServiceSchema.Proofs.Schema.Tagged
import ServiceSchema.Proofs.Emit.Brackets
import ServiceSchema.Proofs.Emit.Enclosed
import ServiceSchema.Proofs.Emit.Pages
import ServiceSchema.Proofs.Emit.Layout
import ServiceSchema.Proofs.Text.Words
import ServiceSchema.Proofs.Synthesis.Plain
import ServiceSchema.Proofs.Json.Numerals
import ServiceSchema.Proofs.Json.Sorted
import ServiceSchema.Proofs.Json.ReadBack
import ServiceSchema.Proofs.Json.Records
import ServiceSchema.Proofs.Json.Guarantees
import ServiceSchema.Proofs.Model.Rules
import ServiceSchema.Proofs.Model.Readable
import ServiceSchema.Proofs.Model.RoundTrip
import ServiceSchema.Proofs.Emit.Histories
import ServiceSchema.Proofs.Program.Files
import ServiceSchema.Proofs.Program.Stages
import ServiceSchema.Proofs.Synthesis.Coercion
import ServiceSchema.Proofs.Synthesis.KeyChecks
import ServiceSchema.Proofs.Program.Generation
