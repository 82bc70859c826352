import LocalEmu.Theory.Sqs.StandardRun
import LocalEmu.Theory.Sqs.FifoOrder
import LocalEmu.Theory.Sqs.FifoDedup
import LocalEmu.Theory.S3.CurrentVersion
import LocalEmu.Theory.S3.FailedWrite
import LocalEmu.Theory.Iam.StatementOrder
import LocalEmu.Theory.S3.CrcCombine
import LocalEmu.Theory.S3.MultipartAssembly
import LocalEmu.Theory.S3.ListObjects
import LocalEmu.Theory.S3.ListVersions
import LocalEmu.Theory.Ec2.IndexPersistence
import LocalEmu.Theory.Ec2.SgFilter
import LocalEmu.Theory.Ec2.FlowLogPolls
import LocalEmu.Theory.CloudFormation.Substitutions
import LocalEmu.Theory.CloudFormation.FailedUpdates
import LocalEmu.Theory.Kms.KeyStates
import LocalEmu.Theory.Kms.Grants
import LocalEmu.Theory.Kms.MultiRegion
import LocalEmu.Theory.CloudFront.Invalidations
import LocalEmu.Theory.Protocol.QueryNames
import LocalEmu.Theory.Protocol.Routing
import LocalEmu.Theory.CloudTrail.RequestIndex
import LocalEmu.Theory.CloudTrail.Scans
import LocalEmu.Theory.Events.SafePatterns
import LocalEmu.Theory.Utils.Batching
import LocalEmu.Theory.Lambda.Assignment
import LocalEmu.Theory.Lambda.StreamLoss
import LocalEmu.Theory.Lambda.EsmStates
import LocalEmu.Theory.StepFunctions.ArrayEquality
import LocalEmu.Theory.StepFunctions.MapResults
import LocalEmu.Theory.StepFunctions.TaskTokens
import LocalEmu.Theory.StepFunctions.Termination
import LocalEmu.Theory.StepFunctions.VariableLiterals
import LocalEmu.Theory.StepFunctions.MapRunCounts
import LocalEmu.Theory.StepFunctions.RetryPolicies
import LocalEmu.Theory.StepFunctions.ControlFlow
import LocalEmu.Theory.StepFunctions.ErrorPropagation
import LocalEmu.Theory.StepFunctions.EventIds
import LocalEmu.Theory.Kms.ReEncryption
import LocalEmu.Theory.Elbv2.StickySessions
import LocalEmu.Theory.CloudWatch.MetricAlarms
import LocalEmu.Theory.ApiGateway.RawPaths
import LocalEmu.Theory.CloudFront.EdgeFrames
import LocalEmu.Theory.ApiGateway.ParameterMappings
import LocalEmu.Theory.ApiGateway.Throttling
import LocalEmu.Theory.Lambda.ProvisionedAliases
import LocalEmu.Theory.Events.ArchivedEvents
import LocalEmu.Theory.Events.RateSchedules
import LocalEmu.Theory.Utils.Batches
import LocalEmu.Theory.Lambda.AsyncRetries
import LocalEmu.Theory.Lambda.FinishedMessages
import LocalEmu.Theory.Ebs.SnapshotDiffs
import LocalEmu.Theory.Ec2.EipLookups
import LocalEmu.Theory.Ec2.RouteLookups
import LocalEmu.Theory.Ec2.SubnetTranslation
import LocalEmu.Theory.S3.RangeReads
import LocalEmu.Theory.Sns.TopicOrder
import LocalEmu.Theory.Ec2.AllocatorExact
import LocalEmu.Theory.Iam.BracketEscapes
import LocalEmu.Theory.Iam.NegatedConditions
import LocalEmu.Theory.Sqs.AttributeFilters
import LocalEmu.Theory.Sqs.GroupBlocking
import LocalEmu.Theory.Sqs.QueueUrls
import LocalEmu.Theory.Ec2.FallbackSubnets
import LocalEmu.Theory.S3.ChunkedUploads
import LocalEmu.Theory.S3.ExpiryRules
