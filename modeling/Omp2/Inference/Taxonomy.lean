import Omp2.Library.Text

/-!
# Models and their capabilities

What a request knows about its model, `model_taxonomy.rs`, and what a provider may be able to do,
`capability.rs` of `omp-inference`.
-/

namespace Omp2.Inference

/-! ## Capabilities -/

/-- `TriState`. -/
inductive TriState where
  | supported | unsupported | unknown
deriving DecidableEq

/-- The `Display` of `TriState`. -/
def TriState.display : TriState → String
  | .supported => "supported"
  | .unsupported => "unsupported"
  | .unknown => "unknown"

/-- `ProviderCapability`. -/
inductive ProviderCapability where
  | authRefresh | streaming | simpleStreaming | tokenCount | usageQuery | modelDiscovery
  | embeddings | imageVideoGeneration | search | remoteCompaction | constrainedSampling
  | nativeToolChoice | developerRole | midSessionSystemPrompts | dialectParsing
deriving DecidableEq

/-- `as_str`. -/
def ProviderCapability.asStr : ProviderCapability → String
  | .authRefresh => "auth_refresh"
  | .streaming => "streaming"
  | .simpleStreaming => "simple_streaming"
  | .tokenCount => "token_count"
  | .usageQuery => "usage_query"
  | .modelDiscovery => "model_discovery"
  | .embeddings => "embeddings"
  | .imageVideoGeneration => "image_video_generation"
  | .search => "search"
  | .remoteCompaction => "remote_compaction"
  | .constrainedSampling => "constrained_sampling"
  | .nativeToolChoice => "native_tool_choice"
  | .developerRole => "developer_role"
  | .midSessionSystemPrompts => "mid_session_system_prompts"
  | .dialectParsing => "dialect_parsing"

/-- `NativeToolCost`. -/
inductive NativeToolCost where
  | free | costly | unknown
deriving DecidableEq

/-- The `Display` of `NativeToolCost`. -/
def NativeToolCost.display : NativeToolCost → String
  | .free => "free"
  | .costly => "costly"
  | .unknown => "unknown"

/-- What some capabilities are, with each capability once, in the order that the map iterates. -/
structure Capabilities where
  entries : List (ProviderCapability × TriState)
  nodup : (entries.map Prod.fst).Nodup

/-- The state of a capability, if it is defined. -/
def Capabilities.get (capabilities : Capabilities) (cap : ProviderCapability) : Option TriState :=
  capabilities.entries.lookup cap

/-- `CapabilityProfile`. -/
structure CapabilityProfile where
  capabilities : ProviderCapability → TriState
  nativeToolCost : NativeToolCost

/-! ## Models -/

/-- `ModelFamily`. -/
inductive ModelFamily where
  | claude | gpt | gemini | deepSeek | llama | qwen | mistral
  | custom (name : String)
deriving DecidableEq

/-- `ModelClass`. -/
inductive ModelClass where
  | flagship | fast | reasoning | coding | embedding | visionOnly
  | custom (name : String)
deriving DecidableEq

/-- `ProviderRoute`. -/
inductive ProviderRoute where
  | anthropicDirect
  | openAiDirect
  | bedrock (region : String)
  | vertex (project location : String)
  | azureOpenAi (resourceName deployment : String)
  | openAiCompatible (baseUrl : String)
  | ollama (baseUrl : String)
  | localEmbedded
  | custom (providerName host : String)

/-- `provider_name`. -/
def ProviderRoute.providerName : ProviderRoute → String
  | .anthropicDirect => "anthropic"
  | .openAiDirect => "openai"
  | .bedrock _ => "bedrock"
  | .vertex _ _ => "vertex"
  | .azureOpenAi _ _ => "azure"
  | .openAiCompatible _ => "openai_compatible"
  | .ollama _ => "ollama"
  | .localEmbedded => "local_embedded"
  | .custom providerName _ => providerName

/-- `host_name`. -/
def ProviderRoute.hostName : ProviderRoute → String
  | .anthropicDirect => "api.anthropic.com"
  | .openAiDirect => "api.openai.com"
  | .bedrock region => region
  | .vertex _ location => location
  | .azureOpenAi resourceName _ => resourceName
  | .openAiCompatible baseUrl => baseUrl
  | .ollama baseUrl => baseUrl
  | .localEmbedded => "localhost"
  | .custom _ host => host

/-- `ModelTaxonomy`. -/
structure ModelTaxonomy where
  modelId : String
  family : ModelFamily
  revision : Option String
  displayName : String
  contextWindow : Option Nat
  maxOutputTokens : Option Nat

/-- `ModelIdentifier`. -/
structure ModelIdentifier where
  taxonomy : ModelTaxonomy
  «class» : ModelClass
  route : ProviderRoute

namespace ModelIdentifier

/-- `family`. -/
def family (ident : ModelIdentifier) : ModelFamily := ident.taxonomy.family

/-- `revision`. -/
def revision (ident : ModelIdentifier) : Option String := ident.taxonomy.revision

/-- `provider_name`. -/
def providerName (ident : ModelIdentifier) : String := ident.route.providerName

/-- `host_name`. -/
def hostName (ident : ModelIdentifier) : String := ident.route.hostName

end ModelIdentifier

end Omp2.Inference
