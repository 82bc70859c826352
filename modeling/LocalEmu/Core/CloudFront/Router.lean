import Mathlib.Data.List.Sort
import LocalEmu.Base.Query
import LocalEmu.Core.CloudFront.Cache

/-!
# The Data Plane of Distributions

A request is routed to a distribution and to one of its origins. Then the cache is asked,
under a key of the path and the query string; if it has nothing, the origin is, with a key
of the path and with two of the headers. A good answer is put in the cache.

The request is handled here in three parts, for other requests may come between them: the
lookup, the fetch, and the end with the write. There are no functions at the edge.

## Main definitions

* `buildCacheKey`, `objectKey`: What a request is cached under, and what is fetched for it.
* `route`, `lookUp`, `fetchFromOrigin`, `finish`: The parts.
-/

namespace LocalEmu.CloudFront

/-! ### Configurations -/

/-- An origin, as `_origins_of` returns it. It has a custom configuration or not. -/
structure Origin where
  id : Text
  domainName : Text
  originPath : Text
  custom : Bool
  deriving DecidableEq

/-- The default behavior. Where there is no TTL it is zero. -/
structure CacheBehavior where
  targetOriginId : Text
  defaultTtl : Int
  deriving DecidableEq

/-- A distribution. -/
structure Distribution where
  arn : Text
  origins : List Origin
  behavior : CacheBehavior
  deriving DecidableEq

def ownerAccountId (distribution : Distribution) : Text :=
  match (distribution.arn.splitOn ':')[4]? with
  | some account => if account = [] then "000000000000".toList else account
  | none => "000000000000".toList

def pickOrigin (origins : List Origin) (targetId : Text) : Option Origin :=
  match origins.find? fun o => decide (o.id = targetId) with
  | some origin => some origin
  | none =>
    match origins with
    | [origin] => some origin
    | _ => none

def defaultTtl (behavior : CacheBehavior) : Int := max 0 behavior.defaultTtl

/-! ### Origins -/

structure OriginResponse where
  status : Nat
  body : Bytes
  headers : Dict Text Text

/-- What is asked of the storage service. -/
structure GetObjectRequest where
  bucket : Text
  key : Text
  range : Option Text
  ifNoneMatch : Option Text
  distributionId : Text
  accountId : Text
  region : Text

/-- What it answers. -/
structure GetObjectOutput where
  body : Option Bytes
  contentType : Option Text
  eTag : Option Text
  lastModified : Option Text
  contentLength : Option Nat
  contentRange : Option Text

/-- What the origins hold: the storage service, with the code of an error, and what other
    origins answer to a key and two headers. -/
structure Content where
  getObject : GetObjectRequest → Except Text GetObjectOutput
  fetchHttp : Origin → Text → Option Text → Option Text → OriginResponse

/-- A header that is there and not empty. -/
def nonEmpty (header : Option Text) : Option Text := header.filter fun value => decide (value ≠ [])

namespace OriginS3

/-- A text after a prefix. -/
def afterPrefix (part text : Text) : Option Text :=
  if part.isPrefixOf text then some (text.drop part.length) else none

/-- `amazonaws\.com$`. -/
def isDomain (text : Text) : Bool :=
  text ∈ ["amazonaws.com".toList, "amazonaws.com\n".toList]

def isRegionChar (c : Char) : Bool :=
  decide ('a' ≤ c) && decide (c ≤ 'z') || decide ('0' ≤ c) && decide (c ≤ '9') || c == '-'

/-- What follows the bucket in `_S3_HOST_RE`. -/
def isHostEnd (text : Text) : Bool :=
  match afterPrefix ".s3".toList text with
  | some (c :: rest) =>
    (c == '.' || c == '-') && (isDomain rest ||
      (decide (rest.takeWhile isRegionChar ≠ []) &&
        match rest.dropWhile isRegionChar with
        | '.' :: rest => isDomain rest
        | _ => false))
  | _ => false

def bucketFromOrigin (domainName : Text) : Option Text :=
  let isBucketChar := fun c => c != '.' && c != '/'
  let bucket := domainName.takeWhile isBucketChar
  if bucket ≠ [] ∧ isHostEnd (domainName.dropWhile isBucketChar) = true then some bucket else none

def isS3Origin (domainName : Text) : Bool := (bucketFromOrigin domainName).isSome

/-- A header is set if there is a value. -/
def setHeader (name : String) (value : Option Text) (headers : Dict Text Text) : Dict Text Text :=
  match value with
  | some value => headers.set name.toList value
  | none => headers

/-- The headers and the status for an object. -/
def ofOutput (out : GetObjectOutput) : OriginResponse :=
  { status := if out.contentRange.isSome then 206 else 200
    body := out.body.getD []
    headers := setHeader "Content-Range" out.contentRange
      (setHeader "Content-Length" (out.contentLength.map fun n => (toString n).toList)
        (setHeader "Last-Modified" out.lastModified
          (setHeader "ETag" out.eTag
            (setHeader "Content-Type" out.contentType .empty)))) }

def ofError (code : Text) : OriginResponse :=
  if code = "NoSuchKey".toList ∨ code = "NoSuchBucket".toList then ⟨404, [], .empty⟩
  else if code = "AccessDenied".toList then ⟨403, [], .empty⟩
  else ⟨502, [], .empty⟩

/-- A fetch from a bucket. -/
def fetch (content : Content) (origin : Origin) (key distributionId accountId region : Text)
    (range ifNoneMatch : Option Text) : OriginResponse :=
  match bucketFromOrigin origin.domainName with
  | none => ⟨404, [], .empty⟩
  | some bucket =>
    match content.getObject ⟨bucket, key, nonEmpty range, nonEmpty ifNoneMatch, distributionId,
      accountId, region⟩ with
    | .ok out => ofOutput out
    | .error code => ofError code

end OriginS3

/-! ### Keys -/

/-- `text.lstrip("/")`. -/
def lstripSlash (text : Text) : Text := text.dropWhile fun c => c == '/'

/-- `text.rstrip("/")`. -/
def rstripSlash (text : Text) : Text := (text.reverse.dropWhile fun c => c == '/').reverse

/-- `_MULTI_SLASH_RE.sub("/", text)`. -/
def collapseSlashes : Text → Text
  | [] => []
  | c :: rest =>
    if c = '/' ∧ rest.head? = some '/' then collapseSlashes rest else c :: collapseSlashes rest

def normalizedUriForCache (path : Text) : Text :=
  if path = [] then ['/']
  else collapseSlashes (if ['/'].isPrefixOf path then path else '/' :: path)

abbrev CacheKey := Text × Text

def buildCacheKey (path queryString : Text) : CacheKey :=
  let pairs := (Query.parseQsl queryString).insertionSort fun a b =>
    a.1 < b.1 ∨ a.1 = b.1 ∧ a.2 ≤ b.2
  (normalizedUriForCache path, Query.urlencode pairs)

/-! ### Requests -/

/-- A request, with its headers under their canonical names. -/
structure Request where
  distributionId : Text
  path : Text
  queryString : Text
  headers : Dict Text Text

/-- What is read while a request is handled: the status of the distribution, and the time of the
    lookup and of the write. -/
structure Reading where
  status : Option Text
  now : Int
  storedAt : Int

/-- `Response`, with the header `X-Cache` by itself. -/
structure Response where
  status : Nat
  headers : Dict Text Text
  body : Bytes
  xCache : Option String

/-- The answer, without the header `X-Cache`. -/
def Response.visible (response : Response) : Nat × Dict Text Text × Bytes :=
  (response.status, response.headers, response.body)

variable (distributions : Text → Option Distribution) (request : Request)

def Request.uri : Text :=
  if request.path = [] then ['/'] else '/' :: request.path

def Request.cacheKey : CacheKey :=
  buildCacheKey (lstripSlash request.uri) request.queryString

/-- `fetch_key`. -/
def objectKey (origin : Origin) (request : Request) : Text :=
  let originPath := rstripSlash origin.originPath
  let fetchKey := lstripSlash request.uri
  if originPath = [] then fetchKey else lstripSlash (originPath ++ '/' :: fetchKey)

/-- A request with its distribution and its origin. -/
structure Routed where
  distribution : Distribution
  origin : Origin

/-- The start of `__call__`: the distribution and the origin, or a response. -/
def route (status : Option Text) : Except Response Routed :=
  match distributions request.distributionId with
  | none => .error ⟨404, .empty, Text.utf8 "NoSuchDistribution".toList, none⟩
  | some distribution =>
    if status ≠ none ∧ status ≠ some "Deployed".toList then
      .error ⟨403, .empty, Text.utf8 "Distribution not yet deployed".toList, none⟩
    else
      match pickOrigin distribution.origins distribution.behavior.targetOriginId with
      | none => .error ⟨502, .empty, Text.utf8 "No matching origin".toList, none⟩
      | some origin => .ok ⟨distribution, origin⟩

variable (cache : DistributionCache CacheKey)

/-- The lookup. -/
def lookUp (request : Request) (now : Int) : Option CacheEntry × DistributionCache CacheKey :=
  cache.get request.distributionId request.cacheKey now

variable (routed : Routed) (response : OriginResponse) (content : Content)

def fetchFromOrigin (routed : Routed) (request : Request) : OriginResponse :=
  let origin := routed.origin
  let key := objectKey origin request
  let range := request.headers.get? "Range".toList
  let ifNoneMatch := request.headers.get? "If-None-Match".toList
  if OriginS3.isS3Origin origin.domainName then
    OriginS3.fetch content origin key request.distributionId
      (ownerAccountId routed.distribution) "us-east-1".toList range ifNoneMatch
  else if origin.custom then content.fetchHttp origin key (nonEmpty range) (nonEmpty ifNoneMatch)
  else ⟨502, [], .empty⟩

def isCacheable : Bool :=
  decide (200 ≤ response.status) && decide (response.status < 300) &&
    decide (0 < defaultTtl routed.distribution.behavior)

def newEntry (request : Request) (response : OriginResponse) (storedAt : Int) : CacheEntry :=
  { body := response.body
    headers := response.headers
    status := response.status
    expiresAt := storedAt + defaultTtl routed.distribution.behavior
    uriPath := normalizedUriForCache request.uri }

/-- The end of a request that was not in the cache: the write. -/
def finish (request : Request) (response : OriginResponse)
    (storedAt : Int) : DistributionCache CacheKey :=
  if isCacheable routed response then
    cache.put request.distributionId request.cacheKey (newEntry routed request response storedAt)
  else cache

def ofEntry (entry : CacheEntry) : Response :=
  ⟨entry.status, entry.headers, entry.body, some "Hit from cloudfront"⟩

def ofOrigin : Response :=
  ⟨response.status, response.headers, response.body, some "Miss from cloudfront"⟩

/-- A request without others in between. -/
def call (cache : DistributionCache CacheKey) (request : Request) (reading : Reading) :
    Response × DistributionCache CacheKey :=
  match route distributions request reading.status with
  | .error response => (response, cache)
  | .ok routed =>
    let found := lookUp cache request reading.now
    match found.1 with
    | some entry => (ofEntry entry, found.2)
    | none =>
      let response := fetchFromOrigin content routed request
      (ofOrigin response, finish found.2 routed request response reading.storedAt)

end LocalEmu.CloudFront
