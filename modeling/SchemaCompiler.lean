import SchemaCompiler.CommandLine.Run
import SchemaCompiler.Main
import SchemaCompiler.Proofs.WorkPool.Schedules
import SchemaCompiler.Proofs.WorkPool.Journal
import SchemaCompiler.Proofs.Text.Pieces
import SchemaCompiler.Proofs.Text.Bytes
import SchemaCompiler.Proofs.File.Path
import SchemaCompiler.Proofs.File.Directory
import SchemaCompiler.Proofs.Name.Case
import SchemaCompiler.Proofs.Name.Inflection
import SchemaCompiler.Proofs.Name.Identifier
import SchemaCompiler.Proofs.Name.Snake
import SchemaCompiler.Proofs.Name.Singular
import SchemaCompiler.Proofs.Relation.Names
import SchemaCompiler.Proofs.Relation.Identifiers
import SchemaCompiler.Proofs.Relation.Search
import SchemaCompiler.Proofs.Schema.Lookup
import SchemaCompiler.Proofs.Relation.Duality
import SchemaCompiler.Proofs.Schema.Checks
import SchemaCompiler.Proofs.Schema.Outcome
import SchemaCompiler.Proofs.Schema.Concurrency
import SchemaCompiler.Proofs.TypeScript.Exports
import SchemaCompiler.Proofs.TypeScript.Parts
import SchemaCompiler.Proofs.TypeScript.ObjectKeys
import SchemaCompiler.Proofs.Artifact.Origin
import SchemaCompiler.Proofs.Artifact.StorageReads
import SchemaCompiler.Proofs.Schema.Collisions
import SchemaCompiler.Proofs.Artifact.ValidationReads
import SchemaCompiler.Proofs.Artifact.Closure
import SchemaCompiler.Proofs.Artifact.Directory
import SchemaCompiler.Proofs.Schema.Locality
import SchemaCompiler.Proofs.Json.Keys
import SchemaCompiler.Proofs.Json.Written
import SchemaCompiler.Proofs.Descriptor.Checks
import SchemaCompiler.Proofs.Schema.Loading
import SchemaCompiler.Proofs.Artifact.Roles
import SchemaCompiler.Proofs.Artifact.Ambiguity
import SchemaCompiler.Proofs.Column.Chains
import SchemaCompiler.Proofs.Column.Mappings
import SchemaCompiler.Proofs.Table.Keys
import SchemaCompiler.Proofs.Artifact.Layout
import SchemaCompiler.Proofs.Artifact.InsertSchema
import SchemaCompiler.Proofs.Artifact.UpdateSchema
import SchemaCompiler.Proofs.Artifact.Specifier
import SchemaCompiler.Proofs.Artifact.Places
import SchemaCompiler.Proofs.Artifact.ObjectKeys
import SchemaCompiler.Proofs.Schema.Identifiers
import SchemaCompiler.Proofs.Schema.Below
import SchemaCompiler.Proofs.Schema.Composition
import SchemaCompiler.Proofs.CommandLine.Agreement
import SchemaCompiler.Proofs.Artifact.SeedCells
import SchemaCompiler.Proofs.Column.Decimals
import SchemaCompiler.Proofs.Column.Defaults
import SchemaCompiler.Proofs.Schema.ClaimedNames
import SchemaCompiler.Proofs.Column.ChainOrder
import SchemaCompiler.Proofs.TypeScript.StringLiteral
import SchemaCompiler.Proofs.TypeScript.LiteralValue
import SchemaCompiler.Proofs.TypeScript.RegexLiteral
import SchemaCompiler.Proofs.TypeScript.ImportBlock
import SchemaCompiler.Proofs.TypeScript.Comments
import SchemaCompiler.Proofs.Artifact.Comments
import SchemaCompiler.Proofs.Json.Rearranged
import SchemaCompiler.Proofs.Descriptor.KeyOrder
import SchemaCompiler.Proofs.Decimal.Digits
import SchemaCompiler.Proofs.Decimal.Shortest
import SchemaCompiler.Proofs.Decimal.Nearest
import SchemaCompiler.Proofs.Json.Literal
import SchemaCompiler.Proofs.Json.NumberRead
import SchemaCompiler.Proofs.Descriptor.NumberDefaults
