import SchemaInference.Journal.ErrorLog
import SchemaInference.Mongo.Container
import SchemaInference.Proofs.Failure.Headers
import SchemaInference.Proofs.Field.Sharing
import SchemaInference.Proofs.Mongo.Paging
import SchemaInference.Proofs.Mongo.Surfacing
import SchemaInference.Proofs.Retry.Calls
import SchemaInference.Proofs.Retry.Cancellation
import SchemaInference.Proofs.Retry.Faults
import SchemaInference.Proofs.Retry.Reference
import SchemaInference.Proofs.Retry.Waits
import SchemaInference.Proofs.Sampling.Capping
import SchemaInference.Proofs.Sampling.Shapes
import SchemaInference.Proofs.Sampling.Shares
import SchemaInference.Proofs.Schema.ArrayScopes
import SchemaInference.Proofs.Schema.FieldFlags
import SchemaInference.Proofs.Schema.NamingOrder
import SchemaInference.Proofs.Schema.NumberTypes
import SchemaInference.Proofs.Schema.Reordering
import SchemaInference.Proofs.Schema.Repetition
import SchemaInference.Proofs.Schema.ScalarNames
import SchemaInference.Proofs.Schema.StrictPolicy
import SchemaInference.Proofs.Schema.Truncation
import SchemaInference.Proofs.Settings.CacheKey
import SchemaInference.Retry.Script
import SchemaInference.Sampling.Memory
import SchemaInference.Schema.SampledInference
