import LocalEmu.Core.CloudFront.Router
import LocalEmu.Theory.CloudFront.Shard

/-!
# The Cache Is Transparent

A response from the cache is one that an origin gave to an earlier request with the same
cache key. The key is made of the path, with its slashes collapsed, and of the query
string. What the origin is asked for is made of the path as it is, and of two headers. So
the cache is transparent as long as requests with one cache key ask the origin for the
same, while the entry of the first one lives.
-/

namespace LocalEmu.CloudFront

open List Option

/-! ### Entries -/

section

variable {κ : Type} [DecidableEq κ]

/-- The entry of a key in the shard of a distribution. -/
def DistributionCache.storedEntry (cache : DistributionCache κ) (distributionId : Text) (key : κ) :
    Option CacheEntry :=
  (cache.shards.get? distributionId).bind fun shard => shard.entries.get? key

omit [DecidableEq κ] in
theorem evictOverBudget_suffix (byteCap : Nat) (entries : List (κ × CacheEntry)) (bytes : Int)
    (evictions : Nat) :
    (Shard.evictOverBudget byteCap entries bytes evictions).1 <:+ entries := by
  induction entries generalizing bytes evictions with
  | nil => exact suffix_refl _
  | cons e entries ih =>
    unfold Shard.evictOverBudget
    by_cases hover : (byteCap : Int) < bytes
    · rw [if_pos hover]
      exact (ih _ _).trans (suffix_cons e entries)
    · rw [if_neg hover]

variable {key key' : κ}

theorem Shard.get?_put {shard : Shard κ} {entry entry' : CacheEntry}
    (h : (shard.put key entry).entries.get? key' = some entry') :
    (key' = key ∧ entry' = entry) ∨ shard.entries.get? key' = some entry' := by
  have hstored : ((shard.entries.erase key).set key entry).get? key' = some entry' := by
    have hsuffix := evictOverBudget_suffix shard.byteCap
      ((shard.entries.erase key).set key entry).entries (shard.released key + entry.sizeBytes)
      shard.evictions
    rw [Dict.get?_eq_some_iff] at h ⊢
    rw [Shard.put, Dict.entries_ofEntries _
      (((shard.entries.erase key).set key entry).nodup.sublist (hsuffix.sublist.map _))] at h
    exact hsuffix.subset h
  rw [get?_erase_set] at hstored
  by_cases hkey : key' = key
  · rw [if_pos hkey, some.injEq] at hstored
    exact .inl ⟨hkey, hstored.symm⟩
  · rw [if_neg hkey] at hstored
    exact .inr hstored

theorem Shard.get?_get {shard : Shard κ} {now : Int} {entry : CacheEntry}
    (h : (shard.get key now).2.entries.get? key' = some entry) :
    shard.entries.get? key' = some entry := by
  unfold Shard.get at h
  cases hget : shard.entries.get? key with
  | none =>
    rw [hget] at h
    exact h
  | some found =>
    rw [hget] at h
    dsimp only at h
    by_cases hkey : key' = key
    · subst hkey
      by_cases hstale : found.expiresAt ≤ now
      · rw [if_pos hstale, Dict.get?_erase, if_pos rfl] at h
        cases h
      · rw [if_neg hstale, get?_erase_set, if_pos rfl] at h
        rw [hget, h]
    · by_cases hstale : found.expiresAt ≤ now
      · rw [if_pos hstale, Dict.get?_erase, if_neg hkey] at h
        exact h
      · rw [if_neg hstale, get?_erase_set, if_neg hkey] at h
        exact h

variable {cache : DistributionCache κ} {distributionId : Text}

theorem storedEntry_of_get {key : κ} {now : Int} {entry : CacheEntry}
    (h : (cache.get distributionId key now).1 = some entry) :
    cache.storedEntry distributionId key = some entry ∧ now < entry.expiresAt := by
  unfold DistributionCache.get at h
  unfold DistributionCache.storedEntry
  cases hshard : cache.shards.get? distributionId with
  | none =>
    rw [hshard] at h
    cases h
  | some =>
    rw [hshard] at h
    exact (get_eq_some_iff _ _ _ _).mp h

/-- What a lookup and a write do to the entries. -/
theorem storedEntry_get {distributionId' : Text} {now : Int} {entry : CacheEntry}
    (h : (cache.get distributionId key now).2.storedEntry distributionId' key' = some entry) :
    cache.storedEntry distributionId' key' = some entry := by
  unfold DistributionCache.get at h
  cases hshard : cache.shards.get? distributionId with
  | none =>
    rw [hshard] at h
    exact h
  | some =>
    rw [hshard] at h
    dsimp only [DistributionCache.storedEntry] at h ⊢
    rw [Dict.get?_set] at h
    by_cases hsame : distributionId' = distributionId
    · rw [if_pos hsame] at h
      rw [hsame, hshard]
      exact Shard.get?_get h
    · rw [if_neg hsame] at h
      exact h

theorem storedEntry_put {distributionId' : Text} {entry entry' : CacheEntry}
    (h : (cache.put distributionId key entry).storedEntry distributionId' key' = some entry') :
    (distributionId' = distributionId ∧ key' = key ∧ entry' = entry) ∨
      cache.storedEntry distributionId' key' = some entry' := by
  dsimp only [DistributionCache.put, DistributionCache.storedEntry] at h ⊢
  rw [Dict.get?_set] at h
  by_cases hsame : distributionId' = distributionId
  · rw [if_pos hsame] at h
    subst hsame
    refine (Shard.get?_put h).imp (fun hnew => ⟨rfl, hnew⟩) fun hold => ?_
    unfold DistributionCache.getOrCreateShard Dict.getD at hold
    cases hshard : cache.shards.get? distributionId' with
    | none =>
      rw [hshard] at hold
      cases hold
    | some =>
      rw [hshard] at hold
      exact hold
  · rw [if_neg hsame] at h
    exact .inr h

end

/-! ### Runs -/

/-- A request with its response. -/
structure Served where
  request : Request
  reading : Reading
  response : Response

def DistributionCache.new (byteCap : Nat) : DistributionCache CacheKey := ⟨.empty, byteCap⟩

section

variable (distributions : Text → Option Distribution) (content : Content)

/-- A request is served. -/
def Serves (cache : DistributionCache CacheKey) (served : Served)
    (cache' : DistributionCache CacheKey) : Prop :=
  call distributions content cache served.request served.reading = (served.response, cache')

/-- The origin is asked for the same object, range and version. -/
def AsksTheSame (routed : Routed) (request request' : Request) : Prop :=
  objectKey routed.origin request = objectKey routed.origin request' ∧
    nonEmpty (request.headers.get? "Range".toList) =
      nonEmpty (request'.headers.get? "Range".toList) ∧
    nonEmpty (request.headers.get? "If-None-Match".toList) =
      nonEmpty (request'.headers.get? "If-None-Match".toList)

instance (routed : Routed) (request request' : Request) :
    Decidable (AsksTheSame routed request request') := inferInstanceAs (Decidable (_ ∧ _ ∧ _))

/-- A request asks for the same as an earlier one with the same cache key, if the answer to that
    one was kept and is not stale. -/
def Compatible (earlier later : Served) : Prop :=
  ∀ routed ∈ (route distributions earlier.request earlier.reading.status).toOption,
    earlier.request.distributionId = later.request.distributionId →
    earlier.request.cacheKey = later.request.cacheKey →
    isCacheable routed (fetchFromOrigin content routed earlier.request) = true →
    later.reading.now < earlier.reading.storedAt + defaultTtl routed.distribution.behavior →
    AsksTheSame routed earlier.request later.request

instance (earlier later : Served) : Decidable (Compatible distributions content earlier later) :=
  inferInstanceAs (Decidable (∀ routed ∈ _, _ → _ → _ → _ → _))

/-- An entry is the answer of an origin to one of the requests. -/
def CachedFor (calls : List Served) (distributionId : Text) (key : CacheKey) (entry : CacheEntry) :
    Prop :=
  ∃ earlier ∈ calls, ∃ routed,
    route distributions earlier.request earlier.reading.status = .ok routed ∧
    earlier.request.distributionId = distributionId ∧ earlier.request.cacheKey = key ∧
    isCacheable routed (fetchFromOrigin content routed earlier.request) = true ∧
    entry = newEntry routed earlier.request (fetchFromOrigin content routed earlier.request)
      earlier.reading.storedAt

variable {distributions content}

variable {routed : Routed} {request : Request}

theorem route_ok {status : Option Text} (h : route distributions request status = .ok routed) :
    distributions request.distributionId = some routed.distribution ∧
      pickOrigin routed.distribution.origins routed.distribution.behavior.targetOriginId =
        some routed.origin := by
  unfold route at h
  split at h
  · cases h
  · next distribution hdistribution =>
    split at h
    · cases h
    · split at h
      · cases h
      · next origin horigin =>
        cases h
        exact ⟨hdistribution, horigin⟩

theorem route_unique {request' : Request} {status status' : Option Text} {routed' : Routed}
    (hid : request.distributionId = request'.distributionId)
    (h : route distributions request status = .ok routed)
    (h' : route distributions request' status' = .ok routed') : routed = routed' := by
  rcases route_ok h with ⟨hdistribution, horigin⟩
  rcases route_ok h' with ⟨hdistribution', horigin'⟩
  rcases routed with ⟨distribution, origin⟩
  rcases routed' with ⟨distribution', origin'⟩
  rw [hid, hdistribution', some.injEq] at hdistribution
  dsimp only at hdistribution horigin horigin'
  subst hdistribution
  rw [horigin, some.injEq] at horigin'
  rw [horigin']

/-- A request adds an entry only if its answer is kept. -/
theorem cached_of_serves {cache cache' : DistributionCache CacheKey} {calls : List Served}
    {served : Served} (hstep : Serves distributions content cache served cache')
    (h : ∀ distributionId key entry, cache.storedEntry distributionId key = some entry →
      CachedFor distributions content calls distributionId key entry) :
    ∀ distributionId key entry, cache'.storedEntry distributionId key = some entry →
      CachedFor distributions content (calls ++ [served]) distributionId key entry := by
  intro distributionId key entry hentry
  have hold (hcached : CachedFor distributions content calls distributionId key entry) :
      CachedFor distributions content (calls ++ [served]) distributionId key entry := by
    rcases hcached with ⟨earlier, hearlier, hrest⟩
    exact ⟨earlier, mem_append.mpr (.inl hearlier), hrest⟩
  have hresult := congrArg Prod.snd hstep
  unfold call at hresult
  cases hroute : route distributions served.request served.reading.status with
  | error =>
    rw [hroute] at hresult
    rw [← show cache = cache' from hresult] at hentry
    exact hold (h _ _ _ hentry)
  | ok routed =>
    rw [hroute] at hresult
    dsimp only at hresult
    cases hfound : (lookUp cache served.request served.reading.now).1 with
    | some =>
      rw [hfound] at hresult
      rw [← show _ = cache' from hresult] at hentry
      exact hold (h _ _ _ (storedEntry_get hentry))
    | none =>
      rw [hfound] at hresult
      unfold finish at hresult
      by_cases hkept : isCacheable routed (fetchFromOrigin content routed served.request) = true
      · rw [if_pos hkept] at hresult
        rw [← hresult] at hentry
        rcases storedEntry_put hentry with ⟨rfl, rfl, rfl⟩ | hentry
        · exact ⟨served, mem_append.mpr (.inr mem_cons_self), routed, hroute, rfl, rfl,
            hkept, rfl⟩
        · exact hold (h _ _ _ (storedEntry_get hentry))
      · rw [if_neg hkept] at hresult
        rw [← hresult] at hentry
        exact hold (h _ _ _ (storedEntry_get hentry))

end

/-- The responses of a run are those of an empty cache, if no request asks the origin for something
    else than an earlier one with the same cache key whose answer was kept and is not stale. -/
theorem cache_transparent (distributions : Text → Option Distribution) (content : Content)
    (byteCap : Nat) (calls : List Served) (cache : DistributionCache CacheKey)
    (hrun : Runs (Serves distributions content) (.new byteCap) calls cache)
    (hcompatible : calls.Pairwise (Compatible distributions content)) :
    ∀ served ∈ calls, served.response.visible =
      (call distributions content (.new byteCap) served.request served.reading).1.visible := by
  intro served hserved
  rcases append_of_mem hserved with ⟨before, after, rfl⟩
  rcases Runs.split _ _ hrun with ⟨s, hbefore, hrest⟩
  have hcached := Runs.history
    (P := fun calls s => ∀ distributionId key entry, s.storedEntry distributionId key = some entry →
      CachedFor distributions content calls distributionId key entry)
    (fun _ _ _ _ hs hstep => cached_of_serves hstep hs) hbefore [] fun _ _ _ h => by
      cases h
  cases hrest with
  | cons _ t _ _ _ hstep _ =>
    have hresponse : served.response =
        (call distributions content s served.request served.reading).1 :=
      (congrArg Prod.fst hstep).symm
    rw [hresponse]
    cases hroute : route distributions served.request served.reading.status with
    | error =>
      unfold call
      rw [hroute]
    | ok routed =>
      unfold call
      rw [hroute]
      dsimp only
      cases hfound : (lookUp s served.request served.reading.now).1 with
      | none => rfl
      | some entry =>
        -- The entry is the answer to an earlier request, which asked for the same.
        rcases storedEntry_of_get hfound with ⟨hentry, hlive⟩
        rcases hcached _ _ _ hentry with
          ⟨earlier, hearlier, routed', hroute', hid, hkey, hkept, rfl⟩
        have hsame : routed' = routed := route_unique hid hroute' hroute
        subst hsame
        have hasks := (pairwise_append.mp hcompatible).2.2 earlier hearlier served
          mem_cons_self routed' (by rw [hroute']; rfl) hid hkey hkept hlive
        rcases hasks with ⟨hkey, hrange, hversion⟩
        unfold fetchFromOrigin OriginS3.fetch
        dsimp only
        rw [hkey, hrange, hversion, hid]
        rfl

/-! ### Examples -/

def serve (distributions : Text → Option Distribution) (content : Content)
    (cache : DistributionCache CacheKey) (input : Request × Reading) :
    DistributionCache CacheKey × Served :=
  let out := call distributions content cache input.1 input.2
  (out.2, ⟨input.1, input.2, out.1⟩)

theorem runs_serve (distributions : Text → Option Distribution) (content : Content)
    (inputs : List (Request × Reading)) (cache : DistributionCache CacheKey) :
    Runs (Serves distributions content) cache (drive (serve distributions content) cache inputs).2
      (drive (serve distributions content) cache inputs).1 := by
  have hdriven : Driven (fun _ _ => True) (serve distributions content) cache inputs := by
    induction inputs generalizing cache with
    | nil => trivial
    | cons input inputs ih => exact ⟨trivial, ih _⟩
  exact Runs.of_driven (fun _ _ _ => rfl) _ _ hdriven

def exampleDistributions (distributionId : Text) : Option Distribution :=
  if distributionId = "E1".toList then
    some ⟨"arn:aws:cloudfront::000000000000:distribution/E1".toList,
      [⟨"o".toList, "site.s3.amazonaws.com".toList, [], false⟩], ⟨"o".toList, 60⟩⟩
  else none

def exampleContent : Content where
  getObject request :=
    if request.bucket = "site".toList ∧ request.key = "a.txt".toList then
      match request.range with
      | none => .ok ⟨some [1, 2, 3], none, none, none, some 3, none⟩
      | some _ => .ok ⟨some [1], none, none, none, some 1, some "bytes 0-0/3".toList⟩
    else .error "NoSuchKey".toList
  fetchHttp _ _ _ _ := ⟨502, [], .empty⟩

def exampleRequest (headers : List (Text × Text)) : Request :=
  ⟨"E1".toList, "a.txt".toList, [], .ofEntries headers⟩

def exampleReading (now : Int) : Reading := ⟨some "Deployed".toList, now, now⟩

def exampleServed : DistributionCache CacheKey × List Served :=
  drive (serve exampleDistributions exampleContent) (.new 1000)
    [(exampleRequest [], exampleReading 0), (exampleRequest [], exampleReading 1)]

theorem cache_transparent_of_exampleServed :
    exampleServed.2.map (fun served => served.response.xCache) =
      [some "Miss from cloudfront", some "Hit from cloudfront"] ∧
    ∀ served ∈ exampleServed.2, served.response.visible =
      (call exampleDistributions exampleContent (.new 1000) served.request
        served.reading).1.visible :=
  ⟨by decide +kernel, cache_transparent _ _ 1000 exampleServed.2
    exampleServed.1 (runs_serve _ _ _ _) (by decide +kernel)⟩

def examplePartial : DistributionCache CacheKey × List Served :=
  drive (serve exampleDistributions exampleContent) (.new 1000)
    [(exampleRequest [("Range".toList, "bytes=0-0".toList)], exampleReading 0),
      (exampleRequest [], exampleReading 1)]

/-- The object is answered with its part. -/
theorem partial_body_of_examplePartial :
    Runs (Serves exampleDistributions exampleContent) (.new 1000) examplePartial.2
      examplePartial.1 ∧
    (examplePartial.2.map fun served => (served.response.status, served.response.body)) =
      [(206, [1]), (206, [1])] ∧
    (call exampleDistributions exampleContent (.new 1000) (exampleRequest [])
      (exampleReading 1)).1.body = [1, 2, 3] :=
  ⟨runs_serve _ _ _ _, by decide +kernel, by decide +kernel⟩

end LocalEmu.CloudFront
