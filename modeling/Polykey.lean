import Polykey.Lib.Prog
import Polykey.Lib.Act
import Polykey.Domain.Types
import Polykey.Domain.Uuid
import Polykey.Cache.Generic
import Polykey.Persistence.Table
import Polykey.Persistence.PSQLAdapter
import Polykey.Service.World
import Polykey.Service.KeyService
import Polykey.Service.KeyManager
import Polykey.Service.KeyRetriever
import Polykey.Persistence.VersionChain
import Polykey.Service.Calls
import Polykey.Service.Scenario
import Polykey.Service.Reads
import Polykey.Service.BatchReads
import Polykey.Service.Revocation
import Polykey.Service.Rotation
import Polykey.Persistence.CachedRepository
import Polykey.Auth.Authorizer
import Polykey.Auth.Token
import Polykey.Grpc.PolykeyService
import Polykey.Pipelines.KeyRotation
import Polykey.Grpc.Access
import Polykey.Patterns.CircuitBreaker
import Polykey.Persistence.KeyRepositoryCircuitBreaker
import Polykey.Audit.AsyncAuditLogger
import Polykey.Persistence.CachedConcurrent
import Polykey.Service.Metadata
import Polykey.Service.Status
import Polykey.Service.MetadataUpdates
import Polykey.Validation.RequestValidator
import Polykey.Grpc.Validation
import Polykey.Persistence.ObjectStore
import Polykey.Service.FailedUpdates
import Polykey.Kms.LocalKMSProvider
import Polykey.Kms.Providers
import Polykey.Service.StoredDEKs
import Polykey.Errors.Classifier
import Polykey.Grpc.Server
import Polykey.Grpc.ErrorCodes
import Polykey.Auth.AuthService
import Polykey.Grpc.Failures
import Polykey.Grpc.ContinueOnError
import Polykey.Lib.Edits
import Polykey.Service.UpdateEffects
import Polykey.Service.BatchReports
import Polykey.Lib.Pages
import Polykey.Service.Listing
import Polykey.Pipelines.ExactlyOnce
import Polykey.Service.ItemReports
import Polykey.Service.Spellings
import Polykey.Patterns.Batch
import Polykey.Service.BatchCreation
import Polykey.Pipelines.RotationResponses
import Polykey.Auth.Policy
import Polykey.Patterns.ThreeStates
import Polykey.Persistence.TransactionManager
import Polykey.Auth.PolicyCache
import Polykey.Cache.TimedMap
import Polykey.Execution.Retry
import Polykey.Persistence.CacheIndex
import Polykey.Persistence.S3Storage
import Polykey.Persistence.S3Writes
import Polykey.Grpc.ListFilters
import Polykey.Lib.Progress
import Polykey.Patterns.WorkerPool
import Polykey.Config.Load
import Polykey.Grpc.Interceptors
import Polykey.Auth.FileClientStore
import Polykey.Audit.AuditRepository
