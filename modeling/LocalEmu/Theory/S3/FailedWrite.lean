import LocalEmu.Core.S3.Provider

/-!
# Failed Writes

What a failed upload or copy leaves behind. The three operations put the body
into the file of the object before they know that they will succeed, and the
undo is to remove the file. Where the file was new, as it is for a version id
that was just generated, nothing is lost. Where it is the file of an object
the bucket already has, the record of that object stays and its bytes do not.

A failed request changes no record and no file but the one it writes to. So
all there is to know is what it leaves there: the `residue`, a function of the
request and of the state before it. It is `none` if the request was refused
before the file was changed.
-/

namespace LocalEmu.S3

open List Option

open LocalEmu.Action

/-- From one state to the next no bucket changed, and no file but one, whose
    content is now the given one. -/
structure Wrote (st st' : S3State) (slot : Slot) (content : Bytes) : Prop where
  buckets : st'.buckets = st.buckets
  content : ∀ s, st'.content s = if s = slot then content else st.content s

namespace Wrote

theorem refl (st : S3State) (slot : Slot) : Wrote st st slot (st.content slot) := by
  refine ⟨rfl, fun s => ?_⟩
  by_cases hs : s = slot
  · rw [if_pos hs, hs]
  · rw [if_neg hs]

theorem trans {st st' st'' : S3State} {slot : Slot} {c c' : Bytes} (h : Wrote st st' slot c)
    (h' : Wrote st' st'' slot c') : Wrote st st'' slot c' := by
  refine ⟨h'.buckets.trans h.buckets, fun s => ?_⟩
  rw [h'.content, h.content]
  by_cases hs : s = slot
  · rw [if_pos hs, if_pos hs]
  · rw [if_neg hs, if_neg hs, if_neg hs]

theorem content_self {st st' : S3State} {slot : Slot} {c : Bytes} (h : Wrote st st' slot c) :
    st'.content slot = c := by
  rw [h.content, if_pos rfl]

theorem setContent (st : S3State) (slot : Slot) (c : Bytes) :
    Wrote st (st.setContent slot c) slot c := by
  refine ⟨rfl, fun s => ?_⟩
  simp only [S3State.content, S3State.setContent, Dict.get?_set]
  by_cases hs : s = slot
  · rw [if_pos hs, if_pos hs]
    rfl
  · rw [if_neg hs, if_neg hs]

theorem move {st st' : S3State} {slot : Slot} (h : Wrote st st' slot (st.content slot))
    (other : Slot) : Wrote st st' other (st.content other) := by
  have same : ∀ s, st'.content s = st.content s := by
    intro s
    rw [h.content]
    by_cases hs : s = slot
    · rw [if_pos hs, hs]
    · rw [if_neg hs]
  refine ⟨h.buckets, fun s => ?_⟩
  rw [same]
  by_cases hs : s = other
  · rw [if_pos hs, hs]
  · rw [if_neg hs]

end Wrote

theorem exec_openFile (st : S3State) (slot : Slot) :
    ∃ st', exec (openFile slot) st = (.ok (), st') ∧ Wrote st st' slot (st.content slot) := by
  simp only [openFile, exec_modify]
  refine ⟨_, rfl, ?_⟩
  rcases h : st.files.get? slot with _ | content
  · have hc : st.content slot = [] := by rw [S3State.content, h]; rfl
    rw [hc]
    exact Wrote.setContent st _ []
  · exact Wrote.refl st _

theorem exec_removeFile (st : S3State) (slot : Slot) :
    ∃ st', exec (removeFile slot) st = (.ok (), st') ∧ Wrote st st' slot [] := by
  refine ⟨_, rfl, rfl, fun s => ?_⟩
  simp only [S3State.content, Dict.get?_erase]
  by_cases hs : s = slot
  · rw [if_pos hs, if_pos hs]
    rfl
  · rw [if_neg hs, if_neg hs]

/-- The result of reading a stream to its end. -/
def Stream.result (stream : Stream) : Except S3Error Unit :=
  match stream.failure with
  | none => .ok ()
  | some error => .error error

theorem exec_appendStream (slot : Slot) (stream : Stream) (st : S3State) :
    ∃ st', exec (appendStream slot stream) st = (stream.result, st') ∧
      Wrote st st' slot (st.content slot ++ stream.data) := by
  induction stream generalizing st with
  | chunk data rest ih =>
    have hw := Wrote.setContent st slot (st.content slot ++ data)
    rcases ih _ with ⟨st', he, hw'⟩
    rw [hw.content_self, append_assoc] at hw'
    refine ⟨st', ?_, hw.trans hw'⟩
    exact he
  | done _ | broken _ =>
    refine ⟨st, rfl, ?_⟩
    simp only [Stream.data, append_nil]
    exact Wrote.refl st _

theorem getS3Checksum_of_ok (d : Digests) (algorithm : ChecksumAlgorithm) (c : Bytes)
    (x : String) (h : getS3Checksum d algorithm [] = .ok x) :
    getS3Checksum d algorithm c = .ok (d.checksum algorithm c) := by
  rcases algorithm with _ | _ | _ | _ | _ | name
  · rfl
  · rfl
  · rfl
  · rfl
  · rfl
  · cases h

/-- The object after a write of a complete stream. -/
def S3Object.written (d : Digests) (s3Object : S3Object) (data : Bytes) : S3Object :=
  { s3Object with size := some data.length, etag := some (d.md5 data) }

theorem exec_write (d : Digests) (slot : Slot) (s3Object : S3Object) (stream : Stream)
    (st : S3State) (x : String) (h : getS3Checksum d s3Object.checksumAlgorithm [] = .ok x) :
    ∃ st', exec (StoredObject.write d slot s3Object stream) st =
        (stream.result.map fun _ => s3Object.written d stream.data, st') ∧
      Wrote st st' slot stream.data := by
  have ht := Wrote.setContent st slot []
  rcases exec_appendStream _ _ _ with ⟨st', he, hw⟩
  rw [ht.content_self] at hw
  refine ⟨st', ?_, ht.trans hw⟩
  simp only [StoredObject.write, exec_bind, exec_ofExcept, exec_modify, h, he]
  rcases stream.result with e | u
  · rfl
  · simp only [exec_get, exec_pure, hw.content_self]
    rfl

/-- What a request that raised has left in the file it writes to, `none` for
    what was there before; and that a request which leaves something raised. -/
def Outcome {α : Type} (st : S3State) (slot : Slot) (residue : Option Bytes)
    (r : Except S3Error α × S3State) : Prop :=
  match r with
  | (.error _, st') => Wrote st st' slot (residue.getD (st.content slot))
  | (.ok _, _) => residue = none

namespace Outcome

variable {α β : Type} {st : S3State} {slot : Slot} {residue : Option Bytes}

theorem refused (st : S3State) (slot : Slot) (e : S3Error) :
    Outcome st slot none ((.error e, st) : Except S3Error α × S3State) :=
  Wrote.refl st _

/-- Rules, one for each step of an operation. -/
theorem check (r : Except S3Error α) (f : α → S3Action β) (residue : α → Option Bytes)
    (h : ∀ a, r = .ok a → Outcome st slot (residue a) (exec (f a) st)) :
    Outcome st slot (r.toOption.bind residue) (exec (Action.ofExcept r >>= f) st) := by
  rcases r with e | a
  · exact refused st _ e
  · exact h a rfl

theorem bucket (bucketName : String) (f : Bucket → S3Action β) (residue : Bucket → Option Bytes)
    (h : ∀ b, st.buckets.get? bucketName = some b → Outcome st slot (residue b) (exec (f b) st)) :
    Outcome st slot ((st.buckets.get? bucketName).bind residue)
      (exec (getBucket bucketName >>= f) st) := by
  simp only [getBucket, exec_bind, exec_get]
  rcases hb : st.buckets.get? bucketName with _ | b
  · exact refused st _ _
  · exact h b hb

theorem of_same {st' : S3State} {r : Except S3Error α × S3State}
    (hw : Wrote st st' slot (st.content slot)) (h : Outcome st' slot residue r) :
    Outcome st slot residue r := by
  rcases r with ⟨e | a, st''⟩
  · have h' := hw.trans h
    rw [hw.content_self] at h'
    exact h'
  · exact h

theorem opening (other : Slot) (f : Unit → S3Action β)
    (h : ∀ st', Wrote st st' slot (st.content slot) → Outcome st' slot residue (exec (f ()) st')) :
    Outcome st slot residue (exec (openFile other >>= f) st) := by
  rcases exec_openFile st _ with ⟨st', he, hw⟩
  rw [exec_bind_of_ok _ _ _ _ _ he]
  exact of_same (hw.move _) (h _ (hw.move slot))

end Outcome

variable (d : Digests)

/-- What writing and validating a body leaves if it raises. -/
def storeResidue (s3Object : S3Object) (stream : Stream)
    (check : Except S3Error Unit) : Option Bytes :=
  (getS3Checksum d s3Object.checksumAlgorithm []).toOption.bind fun _ =>
    if stream.failure.isSome then some stream.data
    else if check.toOption.isSome then none else some []

/-- Rule for writing a body, validating it and storing the record. -/
theorem Outcome.store (st : S3State) (slot : Slot) (d : Digests) (s3Object : S3Object)
    (stream : Stream) (update : S3Object → S3Object)
    (check : S3Object → String → Except S3Error Unit)
    (record : S3Object → String → S3Action ObjectVersion)
    (hu : ∀ o, (update o).checksumAlgorithm = o.checksumAlgorithm)
    (hr : ∀ o c st, ∃ v st', exec (record o c) st = (.ok v, st')) :
    Outcome st slot
      (storeResidue d s3Object stream
        (check (update (s3Object.written d stream.data))
          (d.checksum s3Object.checksumAlgorithm stream.data)))
      (exec (do
        let o ← StoredObject.write d slot s3Object stream
        let c ← StoredObject.checksum d slot (update o)
        orRemove slot (check (update o) c)
        record (update o) c) st) := by
  rcases h : getS3Checksum d s3Object.checksumAlgorithm [] with e | x
  · simp only [storeResidue, StoredObject.write, exec_bind, exec_ofExcept, h]
    exact Outcome.refused st _ e
  · rcases exec_write d _ _ _ st x h with ⟨st₁, he, hw⟩
    simp only [storeResidue, h, Except.toOption, bind_some]
    rw [exec_bind, he]
    unfold Stream.result
    rcases hf : stream.failure with _ | e
    · have hc : exec (StoredObject.checksum d slot (update (s3Object.written d stream.data))) st₁ =
          (.ok (d.checksum s3Object.checksumAlgorithm stream.data), st₁) := by
        simp only [StoredObject.checksum, exec_bind, exec_get, exec_ofExcept, hu]
        rw [show (s3Object.written d stream.data).checksumAlgorithm = s3Object.checksumAlgorithm
          from rfl, getS3Checksum_of_ok d _ _ x h, hw.content_self]
      simp only [Except.map, isSome_none, Bool.false_eq_true, if_false]
      rw [exec_bind_of_ok _ _ _ _ _ hc]
      rcases check (update (s3Object.written d stream.data))
          (d.checksum s3Object.checksumAlgorithm stream.data) with e | u
      · rcases exec_removeFile _ _ with ⟨st₂, hx, hw'⟩
        have hm : exec (orRemove slot (.error e)) st₁ = (.error e, st₂) := by
          simp only [orRemove]
          rw [exec_bind_of_ok _ _ _ _ _ hx, exec_throw]
        rw [exec_bind_of_error _ _ _ _ _ hm]
        exact hw.trans hw'
      · have hm : exec (orRemove slot (.ok u)) st₁ = (.ok (), st₁) := rfl
        rw [exec_bind_of_ok _ _ _ _ _ hm]
        rcases hr _ _ _ with ⟨v, st', hv⟩
        rw [hv]
        rfl
    · exact hw

/-- The file a write of a key addresses: that of the next version id. -/
def S3State.target (st : S3State) (bucketName key safeVersionId : String) : Slot :=
  ⟨bucketName, key, (truthy ((st.buckets.get? bucketName).bind fun bucket =>
    bucket.generateVersionId safeVersionId)).getD "null"⟩

theorem slotOf_eq_target (st : S3State) (bucketName key safeVersionId : String) (bucket : Bucket)
    (isCurrent : Bool) (s3Object : Option S3Object)
    (hb : st.buckets.get? bucketName = some bucket) :
    slotOf bucketName ⟨key, bucket.generateVersionId safeVersionId, isCurrent, s3Object⟩ =
      st.target bucketName key safeVersionId := by
  simp only [slotOf, S3State.target, hb, bind_some]

/-- What `put_object` leaves in the file if it raises after opening it. -/
def PutObjectRequest.residue (st : S3State) (request : PutObjectRequest) : Option Bytes :=
  (st.buckets.get? request.bucket).bind fun bucket =>
  (checkConditionHeaders request.ifMatch request.ifNoneMatch).toOption.bind fun _ =>
  (decodeContentMd5 d request.contentMd5).toOption.bind fun etagContentMd5 =>
  (getS3ChecksumAlgorithmFromRequest request.checksums).toOption.bind fun headerAlgorithm =>
  (refuse request.refusal).toOption.bind fun _ =>
  request.algorithm.toOption.bind fun checksumAlgorithm =>
  (checkPreconditions bucket request.key request.ifMatch request.ifNoneMatch).toOption.bind fun _ =>
    let algorithm := checksumAlgorithm.getD .crc64nvme
    storeResidue d { checksumAlgorithm := algorithm } request.body
      (checkDigests d checksumAlgorithm
        (S3Object.written d
          { checksumAlgorithm := algorithm
            checksumValue := request.checksumValue headerAlgorithm algorithm }
          request.body.data)
        request.contentMd5 etagContentMd5 (d.checksum algorithm request.body.data))

/-- The operations. -/
theorem putObject_outcome (st : S3State) (safeVersionId : String) (request : PutObjectRequest) :
    Outcome st (st.target request.bucket request.key safeVersionId) (request.residue d st)
      (exec (putObject d safeVersionId request) st) := by
  refine Outcome.bucket _ _ _ fun bucket hb => ?_
  refine Outcome.check _ _ _ fun _ _ => ?_
  refine Outcome.check _ _ _ fun etagContentMd5 _ => ?_
  refine Outcome.check _ _ _ fun headerAlgorithm _ => ?_
  refine Outcome.check _ _ _ fun _ _ => ?_
  refine Outcome.check _ _ _ fun checksumAlgorithm _ => ?_
  simp only [slotOf_eq_target st _ _ _ _ _ _ hb]
  refine Outcome.opening _ _ fun st' _ => ?_
  refine Outcome.check _ _ _ fun _ _ => ?_
  -- From here on only the body decides.
  exact Outcome.store _ _ d _ _
    (fun o => { o with
      checksumValue := request.checksumValue headerAlgorithm o.checksumAlgorithm })
    (fun o c => checkDigests d checksumAlgorithm o request.contentMd5 etagContentMd5 c)
    _
    (fun _ => rfl) (fun _ _ _ => ⟨_, _, rfl⟩)

/-- What copying a file and checking the preconditions afterwards leaves if it
    raises: the copied bytes, if the preconditions fail. -/
def copyResidue (st : S3State) (bucket : Bucket) (request : CopyObjectRequest)
    (srcVersion destVersion : ObjectVersion) (algorithm : ChecksumAlgorithm) : Option Bytes :=
  if shouldCopyInPlace request.srcBucket srcVersion request.bucket destVersion then none
  else
    (getS3Checksum d algorithm []).toOption.bind fun _ =>
      match checkPreconditions bucket request.key request.ifMatch request.ifNoneMatch with
      | .ok _ => none
      | .error _ => some (st.content (slotOf request.srcBucket srcVersion))

theorem state_of_completeCopy_error (bucket : Bucket) (request : CopyObjectRequest)
    (versionId : Option String) (srcObject s3Object : S3Object) (slot : Slot) (st st' : S3State)
    (e : S3Error)
    (h : exec (completeCopy d bucket request versionId srcObject s3Object slot) st =
      (.error e, st')) : st' = st := by
  unfold completeCopy at h
  rcases hp : checkPreconditions bucket request.key request.ifMatch request.ifNoneMatch with f | u
  · rw [hp] at h
    exact (congrArg Prod.snd h).symm
  · simp only [hp, StoredObject.checksum, exec_bind, exec_get, exec_ofExcept] at h
    rcases hc : getS3Checksum d s3Object.checksumAlgorithm (st.content slot) with f | checksum
    · rw [hc] at h
      exact (congrArg Prod.snd h).symm
    · rw [hc] at h
      cases h

theorem completeCopy_isOk (bucket : Bucket) (request : CopyObjectRequest)
    (versionId : Option String) (srcObject s3Object : S3Object) (slot : Slot) (st : S3State)
    (x : String) (h : getS3Checksum d s3Object.checksumAlgorithm [] = .ok x) :
    (exec (completeCopy d bucket request versionId srcObject s3Object slot) st).1.toOption.isSome =
      (checkPreconditions bucket request.key request.ifMatch
        request.ifNoneMatch).toOption.isSome := by
  unfold completeCopy
  rcases checkPreconditions bucket request.key request.ifMatch request.ifNoneMatch with e | u
  · rfl
  · simp only [StoredObject.checksum, exec_bind, exec_get, exec_ofExcept,
      getS3Checksum_of_ok d _ _ x h]
    rfl

theorem exec_copyFile (srcBucket destBucket : String) (srcObject destObject : ObjectVersion)
    (s3Object : S3Object) (st : S3State)
    (h : shouldCopyInPlace srcBucket srcObject destBucket destObject = false) :
    ∃ st₂, Wrote st st₂ (slotOf destBucket destObject) (st.content (slotOf destBucket destObject)) ∧
      exec (copyFile d srcBucket srcObject destBucket destObject s3Object) st =
        exec (StoredObject.write d (slotOf destBucket destObject) s3Object
          (.chunk (st.content (slotOf srcBucket srcObject)) (.done []))) st₂ := by
  rcases exec_openFile st (slotOf srcBucket srcObject) with ⟨st₁, he₁, hw₁⟩
  rcases exec_openFile _ _ with ⟨st₂, he₂, hw₂⟩
  have hw := hw₁.move (slotOf destBucket destObject)
  rw [hw.content_self] at hw₂
  refine ⟨st₂, hw.trans hw₂, ?_⟩
  unfold copyFile
  rw [h]
  simp
  rw [exec_bind_of_ok _ _ _ _ _ he₁, exec_bind_of_ok _ _ _ _ _ (exec_get _),
    exec_bind_of_ok _ _ _ _ _ he₂, hw₁.content_self]

/-- Rule for copying a file and completing the copy. -/
theorem Outcome.copy (st : S3State) (bucket : Bucket) (request : CopyObjectRequest)
    (srcVersion destVersion : ObjectVersion) (versionId : Option String)
    (srcObject s3Object : S3Object) :
    Outcome st (slotOf request.bucket destVersion)
      (copyResidue d st bucket request srcVersion destVersion s3Object.checksumAlgorithm)
      (exec (do
        let o ← copyFile d request.srcBucket srcVersion request.bucket destVersion s3Object
        completeCopy d bucket request versionId srcObject o (slotOf request.bucket destVersion))
        st) := by
  set content := st.content (slotOf request.srcBucket srcVersion)
  unfold copyResidue
  rcases hp : shouldCopyInPlace request.srcBucket srcVersion request.bucket destVersion with _ | _
  · simp
    rcases exec_copyFile d _ _ _ _ _ st hp with ⟨st₁, hw, he⟩
    rw [exec_bind, he]
    refine Outcome.of_same hw ?_
    rcases hc : getS3Checksum d s3Object.checksumAlgorithm [] with e | x
    · simp only [StoredObject.write, exec_bind, exec_ofExcept, hc]
      exact Outcome.refused _ _ e
    · rcases exec_write d _ _
        (.chunk content (.done [])) _ x hc
        with ⟨st₂, hx, hw'⟩
      simp only [Stream.data, append_nil] at hw'
      rw [hx]
      simp only [Stream.result, Stream.failure, Except.map, Except.toOption, bind_some]
      rcases hy : exec (completeCopy d bucket request versionId srcObject
        (s3Object.written d content)
        (slotOf request.bucket destVersion)) st₂ with ⟨e | v, st₃⟩
      · have ho := completeCopy_isOk d bucket request versionId srcObject
          (s3Object.written d content)
          (slotOf request.bucket destVersion) st₂ x hc
        rw [Stream.data, Stream.data, append_nil, hy]
        rw [hy] at ho
        rw [state_of_completeCopy_error d _ _ _ _ _ _ _ _ e hy]
        rcases hk : checkPreconditions bucket request.key request.ifMatch request.ifNoneMatch
          with f | u
        · exact hw'
        · rw [hk] at ho
          cases ho
      · have ho := completeCopy_isOk d bucket request versionId srcObject
          (s3Object.written d content)
          (slotOf request.bucket destVersion) st₂ x hc
        rw [Stream.data, Stream.data, append_nil, hy]
        rw [hy] at ho
        rcases hk : checkPreconditions bucket request.key request.ifMatch request.ifNoneMatch
          with f | u
        · rw [hk] at ho
          cases ho
        · rfl
  · rcases exec_openFile st _ with ⟨st₁, he, hw⟩
    have hcopy : exec (copyFile d request.srcBucket srcVersion request.bucket destVersion s3Object)
        st = (.ok s3Object, st₁) := by
      rw [copyFile, if_pos hp, exec_bind_of_ok _ _ _ _ _ he, exec_pure]
    rw [exec_bind_of_ok _ _ _ _ _ hcopy]
    refine Outcome.of_same hw ?_
    rcases hx : exec (completeCopy d bucket request versionId srcObject s3Object
      (slotOf request.bucket destVersion)) st₁ with ⟨e | v, st₂⟩
    · rw [state_of_completeCopy_error d _ _ _ _ _ _ _ _ e hx]
      exact Outcome.refused _ _ e
    · rfl

/-- What `copy_object` leaves in the file if it raises. -/
def CopyObjectRequest.residue (st : S3State) (safeVersionId : String)
    (request : CopyObjectRequest) : Option Bytes :=
  (checkConditionHeaders request.ifMatch request.ifNoneMatch).toOption.bind fun _ =>
  (st.buckets.get? request.bucket).bind fun bucket =>
  (st.buckets.get? request.srcBucket).bind fun srcBucket =>
  (getCopySource srcBucket request.srcKey request.srcVersionId).toOption.bind fun srcVersion =>
  (refuse (request.refusal srcVersion)).toOption.bind fun _ =>
  (checkCopyToItself request).toOption.bind fun _ =>
    copyResidue d st bucket request srcVersion
      ⟨request.key, bucket.generateVersionId safeVersionId, true, some {}⟩
      (request.checksumAlgorithm.getD (srcVersion.object.getD {}).checksumAlgorithm)

theorem copyObject_outcome (st : S3State) (safeVersionId : String) (request : CopyObjectRequest) :
    Outcome st (st.target request.bucket request.key safeVersionId)
      (request.residue d st safeVersionId) (exec (copyObject d safeVersionId request) st) := by
  refine Outcome.check _ _ _ fun _ _ => ?_
  refine Outcome.bucket _ _ _ fun bucket hb => ?_
  refine Outcome.bucket _ _ _ fun srcBucket _ => ?_
  refine Outcome.check _ _ _ fun srcVersion _ => ?_
  refine Outcome.check _ _ _ fun _ _ => ?_
  refine Outcome.check _ _ _ fun _ _ => ?_
  rw [← slotOf_eq_target st _ _ _ _ _ _ hb]
  exact Outcome.copy d st _ _ _ _ _ _ _

/-- What `post_object` leaves in the file if it raises. -/
def PostObjectRequest.residue (st : S3State) (request : PostObjectRequest) : Option Bytes :=
  if request.isMultipartForm then
    (st.buckets.get? request.bucket).bind fun _ =>
    (refuse request.refusal).toOption.bind fun _ =>
      let algorithm := request.checksumAlgorithm.getD .crc64nvme
      storeResidue d { checksumAlgorithm := algorithm } request.body
        (checkFormChecksum request.checksumAlgorithm
          (request.checksumAlgorithm.bind fun _ => request.checksumValue)
          (d.checksum algorithm request.body.data))
  else none

theorem postObject_outcome (st : S3State) (safeVersionId : String) (request : PostObjectRequest) :
    Outcome st (st.target request.bucket request.objectKey safeVersionId) (request.residue d st)
      (exec (postObject d safeVersionId request) st) := by
  rcases hm : request.isMultipartForm with _ | _
  · simp only [PostObjectRequest.residue, postObject, hm]
    exact Outcome.refused st _ _
  · simp only [PostObjectRequest.residue, postObject, hm]
    refine Outcome.bucket _ _ _ fun bucket hb => ?_
    refine Outcome.check _ _ _ fun _ _ => ?_
    simp only [slotOf_eq_target st _ _ _ _ _ _ hb]
    refine Outcome.opening _ _ fun st' _ => ?_
    exact Outcome.store _ _ d _ _ id
      (fun o c => checkFormChecksum request.checksumAlgorithm o.checksumValue c)
      _
      (fun _ => rfl) (fun _ _ _ => ⟨_, _, rfl⟩)

/-! ### Failed requests -/

/-- A request that writes an object. -/
inductive WriteRequest
  | put (request : PutObjectRequest)
  | copy (request : CopyObjectRequest)
  | post (request : PostObjectRequest)

namespace WriteRequest

/-- Handle a request; `safeVersionId` is the version id it would generate. -/
def run (d : Digests) (safeVersionId : String) : WriteRequest → S3Action ObjectVersion
  | put request => putObject d safeVersionId request
  | copy request => copyObject d safeVersionId request
  | post request => postObject d safeVersionId request

def target (st : S3State) (safeVersionId : String) : WriteRequest → Slot
  | put request => st.target request.bucket request.key safeVersionId
  | copy request => st.target request.bucket request.key safeVersionId
  | post request => st.target request.bucket request.objectKey safeVersionId

/-- What a request leaves in that file if it raises after changing it. -/
def residue (d : Digests) (st : S3State) (safeVersionId : String) : WriteRequest → Option Bytes
  | put request => request.residue d st
  | copy request => request.residue d st safeVersionId
  | post request => request.residue d st

theorem run_outcome (d : Digests) (st : S3State) (safeVersionId : String)
    (request : WriteRequest) :
    Outcome st (request.target st safeVersionId) (request.residue d st safeVersionId)
      (exec (request.run d safeVersionId) st) := by
  cases request with
  | put => exact putObject_outcome d st _ _
  | copy => exact copyObject_outcome d st _ _
  | post => exact postObject_outcome d st _ _

end WriteRequest

/-- What a client gets for a key and a version: the record of the object and
    its bytes, or the error. `none` if the bucket does not exist. -/
def S3State.observe (st : S3State) (bucketName key : String) (versionId : Option String)
    (httpMethod : HttpMethod) : Option (Except S3Error (ObjectVersion × Bytes)) :=
  (st.buckets.get? bucketName).map fun bucket =>
    (bucket.getObject key versionId httpMethod).map fun s3Object =>
      (s3Object, st.content (slotOf bucketName s3Object))

/-- Every object is the same as before, record and bytes. -/
def Preserved (st st' : S3State) : Prop :=
  ∀ bucketName key versionId httpMethod,
    st'.observe bucketName key versionId httpMethod = st.observe bucketName key versionId httpMethod

/-- A file holds the bytes of an object. -/
def S3State.Stored (st : S3State) (slot : Slot) : Prop :=
  ∃ bucketName bucket key versionId httpMethod s3Object,
    st.buckets.get? bucketName = some bucket ∧
      bucket.getObject key versionId httpMethod = .ok s3Object ∧
      slotOf bucketName s3Object = slot

/-- When a changed file is seen. -/
theorem preserved_iff (st st' : S3State) (slot : Slot) (content : Bytes)
    (h : Wrote st st' slot content) :
    Preserved st st' ↔ (st.Stored slot → st.content slot = content) := by
  constructor
  · rintro hp ⟨bucketName, bucket, key, versionId, httpMethod, s3Object, hb, ho, hs⟩
    have hv := hp bucketName key versionId httpMethod
    simp only [S3State.observe, h.buckets, hb, ho, map_some, Except.map, some.injEq,
      Except.ok.injEq, Prod.mk.injEq, true_and, hs, h.content_self] at hv
    exact hv.symm
  · intro hc bucketName key versionId httpMethod
    simp only [S3State.observe, h.buckets]
    rcases hb : st.buckets.get? bucketName with _ | bucket
    · rfl
    · rcases ho : bucket.getObject key versionId httpMethod with e | s3Object
      · simp only [map_some, ho, Except.map]
      · simp only [map_some, ho, Except.map, h.content]
        by_cases hs : slotOf bucketName s3Object = slot
        · rw [if_pos hs, hs,
            hc ⟨bucketName, bucket, key, versionId, httpMethod, s3Object, hb, ho, hs⟩]
        · rw [if_neg hs]

/-- A request that raises changes nothing, if and only if it was refused before it changed the file,
    or the file holds the bytes of no object, or it already held what is left in it. -/
theorem failed_write_iff (st : S3State) (safeVersionId : String) (request : WriteRequest) :
    (∀ e st', exec (request.run d safeVersionId) st = (.error e, st') → Preserved st st') ↔
      ∀ left, request.residue d st safeVersionId = some left →
        st.Stored (request.target st safeVersionId) →
          st.content (request.target st safeVersionId) = left := by
  have ho := request.run_outcome d st safeVersionId
  rcases hx : exec (request.run d safeVersionId) st with ⟨e | v, st'⟩
  · rw [hx] at ho
    have hw : Wrote st st' _ _ := ho
    have hiff := preserved_iff st _ _ _ hw
    constructor
    · intro hp left hl hs
      have hc := hiff.mp (hp e _ rfl) hs
      rw [hl] at hc
      exact hc
    · intro hc e' st'' hr
      cases hr
      refine hiff.mpr fun hs => ?_
      rcases hl : request.residue d st safeVersionId with _ | left
      · rfl
      · exact hc _ hl hs
  · rw [hx] at ho
    have hn : request.residue d st safeVersionId = none := ho
    constructor
    · intro _ left hl
      rw [hn] at hl
      cases hl
    · intro _ e st'' hr
      cases hr

/-- The digests of the texts `a` and `b`. -/
def digestsOfTwo : Digests where
  md5 data :=
    if data = [97] then "0cc175b9c0f1b6a831c399e269772661" else "92eb5ffee6ae2fec3ad71c777531578f"
  checksum _ data := if data = [97] then "jC+ERbTL/Dw=" else "DZyVHeSVZ7c="
  decodedLength _ := some 8
  contentMd5ToEtag contentMd5 :=
    if contentMd5 = "DMF1ucDxtqgxw5niaXcmYQ==" then some "0cc175b9c0f1b6a831c399e269772661"
    else some "92eb5ffee6ae2fec3ad71c777531578f"
  etagToContentMd5 etag :=
    if etag = "0cc175b9c0f1b6a831c399e269772661" then "DMF1ucDxtqgxw5niaXcmYQ=="
    else "kutf/uauL+w61xx3dTFXjw=="

/-- A bucket without versioning that holds the text `a` under one key. -/
def stateWithText : S3State where
  buckets := Dict.empty.set "bucket" (.unversioned (Dict.empty.set "key"
    ⟨"key", none, true, some
      { etag := some "0cc175b9c0f1b6a831c399e269772661"
        size := some 1
        checksumValue := some "jC+ERbTL/Dw=" }⟩))
  files := Dict.empty.set ⟨"bucket", "key", "null"⟩ [97]

/-- Uploading `b` with the digest of `a` raises, and the text `a` is gone. -/
theorem failed_write_bad_digest :
    ¬ ∀ e st', exec ((WriteRequest.put
      { bucket := "bucket"
        key := "key"
        contentMd5 := some "DMF1ucDxtqgxw5niaXcmYQ=="
        body := .chunk [98] (.done []) }).run digestsOfTwo "id") stateWithText = (.error e, st') →
      Preserved stateWithText st' := by
  intro h
  have hp := h _ _ rfl
  have hv := congrArg (fun o => (o.bind Except.toOption).map Prod.snd) (hp "bucket" "key" none .get)
  cases hv

end LocalEmu.S3
