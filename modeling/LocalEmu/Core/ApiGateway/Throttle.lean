import LocalEmu.Base.Dict
import LocalEmu.Base.Text
import Mathlib.Data.Rat.Cast.Order

/-!
# Throttling

A stage of an API has a bucket of tokens, which is filled at a rate up to a burst. A request takes
a token, and is refused if there is none.

The bucket of a stage is made for its first request, with the limits of the stage's configuration
at that time. A limit that is zero counts as one that is not configured.
-/

namespace LocalEmu.ApiGateway

/-! ### Buckets -/

structure TokenBucket where
  rate : ℚ
  burst : ℚ
  tokens : ℚ
  lastRefill : ℚ

def TokenBucket.new (rate burst now : ℚ) : TokenBucket := ⟨rate, burst, burst, now⟩

variable (context : Invocation) (buckets : ThrottleHandler) (bucket : TokenBucket)

/-- The first part of `consume`. -/
def TokenBucket.refill (now : ℚ) : TokenBucket :=
  { bucket with
    tokens := min bucket.burst (bucket.tokens + (now - bucket.lastRefill) * bucket.rate)
    lastRefill := now }

def TokenBucket.consume (now : ℚ) : Bool × TokenBucket :=
  let refilled := bucket.refill now
  if 1 ≤ refilled.tokens then (true, { refilled with tokens := refilled.tokens - 1 })
  else (false, refilled)

/-! ### The handler -/

/-- The throttle settings of a method. -/
structure MethodSettings where
  throttlingRateLimit : Option ℚ
  throttlingBurstLimit : Option ℤ

/-- A request, as far as it is throttled, with the `methodSettings` of its stage. -/
structure Invocation where
  apiId : Option Text
  stage : Option Text
  stageConfiguration : Option (Dict Text MethodSettings)
  now : ℚ

def defaultRateLimit : ℚ := 10000

def defaultBurstLimit : ℤ := 5000

/-- `(api_id, stage)`. -/
def Invocation.bucketKey : Text × Text :=
  (context.apiId.getD [], context.stage.getD [])

/-- The settings for all the methods of the stage. -/
def Invocation.defaultSettings : MethodSettings :=
  ((context.stageConfiguration.bind fun methodSettings =>
    methodSettings.get? "*/*".toList).getD ⟨none, none⟩)

def Invocation.limits : ℚ × ℚ :=
  ((context.defaultSettings.throttlingRateLimit.filter fun rate => rate ≠ 0).getD
      defaultRateLimit,
    (((context.defaultSettings.throttlingBurstLimit.filter fun burst => burst ≠ 0).getD
      defaultBurstLimit : ℤ) : ℚ))

/-- `ThrottleHandler`: the buckets. -/
abbrev ThrottleHandler := Dict (Text × Text) TokenBucket

def ThrottleHandler.getOrCreateBucket (context : Invocation) : TokenBucket :=
  (buckets.get? context.bucketKey).getD (.new context.limits.1 context.limits.2 context.now)

/-- `__call__`: if the request is admitted, and the buckets after it. -/
def ThrottleHandler.call (context : Invocation) : Bool × ThrottleHandler :=
  let consumed := (ThrottleHandler.getOrCreateBucket buckets context).consume context.now
  (consumed.1, buckets.set context.bucketKey consumed.2)

end LocalEmu.ApiGateway
