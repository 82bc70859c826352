import LocalEmu.Base.Url
import Mathlib.Data.List.DropRight

/-!
# Queue URLs

What `SqsQueue.url` writes under each endpoint strategy, and what `parse_queue_url` reads.

## Main definitions

* `Queue`, `Endpoint`, `RequestContext`: What the URL of a queue is made of.
* `url`, `parseQueueUrl`: Writing a queue URL, and reading one.
-/

namespace LocalEmu.Sqs.QueueUrl

open List

/-- `[a-zA-Z0-9_-]`. -/
def isNameChar (c : Char) : Bool := c.isAlphanum || c == '_' || c == '-'

/-- `SqsQueue._assert_queue_name`. The dollar also matches before a newline at the end. -/
def standardName (name : Text) : Bool :=
  let line := if name.getLast? = some '\n' then name.dropLast else name
  line ≠ [] && line.length ≤ 80 && line.all isNameChar

/-- `FifoQueue._assert_queue_name`. -/
def fifoName (name : Text) : Bool :=
  ".fifo".toList.isSuffixOf name && standardName (name.take (name.length - 5) ++ "_fifo".toList)

structure Queue where
  region : Text
  accountId : Text
  name : Text
  region_valid : region ≠ [] ∧ ∀ c ∈ region, isNameChar c = true
  accountId_valid : accountId.length = 12 ∧ ∀ c ∈ accountId, c.isDigit = true
  name_valid : standardName name = true ∨ fifoName name = true

/-- `SQS_ENDPOINT_STRATEGY`. -/
inductive Strategy
  | standard | domain | path | dynamic | off
  deriving DecidableEq

/-- What is configured: `get_protocol`, `localemu_host().host_and_port()` and the strategy. -/
structure Endpoint where
  ssl : Bool
  host : Text
  strategy : Strategy
  host_valid : Url.IsNetloc host

/-- `context.request`. -/
structure RequestContext where
  ssl : Bool
  host : Text
  host_valid : Url.IsNetloc host

/-- The dynamic endpoint strategy. -/
def guessEndpointStrategyAndHost (host : Text) : Strategy × Text :=
  let components := host.splitOn '.'
  if "sqs.".toList <+: host then (.standard, intercalate ['.'] (components.drop 2))
  else if "queue.".toList <+: host then (.domain, intercalate ['.'] (components.drop 1))
  else if components.length > 2 ∧ components[1]? = some "queue".toList then
    (.domain, intercalate ['.'] (components.drop 2))
  else (.path, host)

variable (e : Endpoint) (context : RequestContext) (q : Queue)

def strategyAndHost : Strategy × Text :=
  if e.strategy = .dynamic then guessEndpointStrategyAndHost context.host
  else (e.strategy, e.host)

def scheme (ssl : Bool) : Text := (if ssl then "https" else "http").toList

def authority (strategy : Strategy) (hostAndPort : Text) : Text :=
  match strategy with
  | .standard => "sqs.".toList ++ q.region ++ '.' :: hostAndPort
  | .domain =>
    (if q.region = "us-east-1".toList then [] else q.region ++ ['.']) ++
      ("queue.".toList ++ hostAndPort)
  | _ => hostAndPort

def url : Text :=
  let (strategy, hostAndPort) := strategyAndHost e context
  let ssl := if e.strategy = .dynamic ∨ strategy = .standard then context.ssl else e.ssl
  let hostUrl := scheme ssl ++ "://".toList ++ (authority q strategy hostAndPort ++
    if strategy = .path then "/queue/".toList ++ q.region else [])
  hostUrl.rdropWhile (· == '/') ++ '/' :: (q.accountId ++ '/' :: q.name)

variable (netlocOk : Text → Bool)

/-- The region in `parse_queue_url` when the path has two parts, or nothing for a `ValueError`. -/
def regionOfNetloc (netloc : Text) : Option (Option Text) :=
  let domainParts := netloc.splitOn '.'
  if "sqs.".toList <+: netloc then some domainParts[1]?
  else if ".queue.".toList <:+: netloc then
    if domainParts[1]? ≠ some "queue".toList then none else some domainParts[0]?
  else if "queue".toList <+: netloc then some (some "us-east-1".toList)
  else some none

/-- `parse_queue_url`, with what `urlparse` accepts as an authority. -/
def parseQueueUrl (queueUrl : Text) : Option (Text × Option Text × Text) :=
  let url := queueUrl.rdropWhile (· == '/')
  (Url.urlparsePath netlocOk url).bind fun path =>
    match (path.dropWhile (· == '/')).splitOn '/' with
    | [accountId, queueName] =>
      (regionOfNetloc (Url.urlparseNetloc url)).map fun region => (accountId, region, queueName)
    | [first, region, accountId, queueName] =>
      if first ≠ "queue".toList then none else some (accountId, some region, queueName)
    | _ => none

end LocalEmu.Sqs.QueueUrl
