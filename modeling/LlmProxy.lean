import LlmProxy.DemotionRace
import LlmProxy.CircuitAutomaton
import LlmProxy.HalfOpenTrials
import LlmProxy.RequestSequence
import LlmProxy.AnthropicStream
import LlmProxy.RelayTerminators
import LlmProxy.GeminiFraming
import LlmProxy.SseEvents
import LlmProxy.CacheSharing
import LlmProxy.RequestPricing
import LlmProxy.KeyRevival
import LlmProxy.RefreshRace
import LlmProxy.RouterRebuilder
import LlmProxy.KeyChances
import LlmProxy.RegistryRace
import LlmProxy.RetryCount
import LlmProxy.KeyIdentity
import LlmProxy.ThinkExtraction
import LlmProxy.ChunkFrame
import LlmProxy.InspectorFilter
import LlmProxy.PermitAccounting
import LlmProxy.CacheEviction
import LlmProxy.RateLimiter
import LlmProxy.StreamAudit
import LlmProxy.IpGuard
import LlmProxy.ImportedSecrets
import LlmProxy.ImportEffects
import LlmProxy.ExportValidity
import LlmProxy.KeyRace
import LlmProxy.AggregatorRun
import LlmProxy.ThinkRecord
import LlmProxy.FtsIndex
import LlmProxy.RetentionPurge
import LlmProxy.CostScreens
