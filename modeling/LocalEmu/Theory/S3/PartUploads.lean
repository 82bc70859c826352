import LocalEmu.Core.S3.Multipart

/-!
# What a Sequence of Part Uploads Leaves

A call of `UploadPart` has one of three fates: it is refused before the file of
its part is opened, it is dropped after that, and its file is removed, or it is
stored. Which one it is depends on the request and on the checksum algorithm of
the upload, and not on what was uploaded before.

So the record and the file of a part can be read off the calls: the record is
that of the last call that was stored, and the file that of the last call that
was not refused, if this one was stored.
-/

namespace LocalEmu.S3

open List Option
open LocalEmu.Action

/-- What becomes of a call. -/
inductive PartFate
  | refused
  | dropped
  | stored (s3Part : S3Part)

def partRecord (d : Digests) (request : UploadPartRequest)
    (algorithm : Option ChecksumAlgorithm) : S3Part where
  partNumber := request.number
  size := request.body.data.length
  etag := d.md5 request.body.data
  checksumAlgorithm := algorithm
  checksumValue := request.checksumValue algorithm

/-- The error that drops a part: of the checksum algorithm, of the body, or of the digests. -/
def dropError (d : Digests) (request : UploadPartRequest)
    (algorithm : Option ChecksumAlgorithm) : Except UploadError Unit := do
  let _ ← partChecksum d algorithm []
  match request.body.failure with
  | some error => throw (.s3 error)
  | none => checkPartDigests d request (partRecord d request algorithm) request.body.data

/-- The fate of a call. -/
def fate (d : Digests) (multipart : S3Multipart) (request : UploadPartRequest) : PartFate :=
  match checkUploadPart d multipart request with
  | .error _ => .refused
  | .ok algorithm =>
    match dropError d request algorithm with
    | .error _ => .dropped
    | .ok _ => .stored (partRecord d request algorithm)

/-! ### One call -/

section Files

variable (n : Nat)

theorem content_setPartContent (st : UploadState) (content : Bytes) :
    (st.setPartContent n content).partContent n = content := by
  rw [UploadState.partContent, UploadState.setPartContent, Dict.get?_set, if_pos rfl, getD_some]

theorem exec_appendPart (body : Stream) (st : UploadState) :
    ∃ st', exec (appendPart n body) st =
        (match body.failure with
          | some error => .error (.s3 error)
          | none => .ok (), st') ∧
      st'.multipart = st.multipart ∧ st'.partContent n = st.partContent n ++ body.data ∧
      (st.partFiles.get? n ≠ none → st'.partFiles.get? n ≠ none) ∧
      ∀ k, k ≠ n → st'.partFiles.get? k = st.partFiles.get? k := by
  induction body generalizing st with
  | chunk data rest ih =>
    rcases ih (st.setPartContent n (st.partContent n ++ data)) with
      ⟨st', hexec, hmultipart, hcontent, hsome, hothers⟩
    refine ⟨st', ?_, hmultipart, ?_, fun _ => hsome ?_, fun k hk => ?_⟩
    · rw [appendPart]
      exact hexec
    · rw [hcontent, content_setPartContent, Stream.data, append_assoc]
    · rw [UploadState.setPartContent, Dict.get?_set]
      simp
    · rw [hothers k hk, UploadState.setPartContent, Dict.get?_set, if_neg hk]
  | done _ | broken _ =>
    exact ⟨st, rfl, rfl, by rw [Stream.data, append_nil], id, fun _ _ => rfl⟩

theorem exec_openPart (st : UploadState) :
    ∃ st', exec (openPart n) st = (.ok (), st') ∧ st'.multipart = st.multipart ∧
      st'.objectFile = st.objectFile ∧ (∀ k, st'.partContent k = st.partContent k) ∧
      ∀ k, k ≠ n → st'.partFiles.get? k = st.partFiles.get? k := by
  rw [openPart, exec_modify]
  rcases hget : st.partFiles.get? n with _ | content
  · refine ⟨_, rfl, rfl, rfl, fun k => ?_, fun k hk => ?_⟩
    · rw [UploadState.partContent, UploadState.partContent, UploadState.setPartContent,
        Dict.get?_set]
      by_cases hk : k = n
      · rw [if_pos hk, hk, hget]
        rfl
      · rw [if_neg hk]
    · rw [UploadState.setPartContent, Dict.get?_set, if_neg hk]
  · exact ⟨st, rfl, rfl, rfl, fun _ => rfl, fun _ _ => rfl⟩

-- Writing a body replaces the file of a part, unless it raises.
theorem exec_writePart (d : Digests) (algorithm : Option ChecksumAlgorithm) (body : Stream)
    (st : UploadState) :
    ∃ st', exec (writePart d n algorithm body) st =
        ((do
          let _ ← partChecksum d algorithm []
          match body.failure with
          | some error => throw (.s3 error)
          | none => pure ()), st') ∧
      st'.multipart = st.multipart ∧
      (∀ k, k ≠ n → st'.partFiles.get? k = st.partFiles.get? k) ∧
      ((∃ value, partChecksum d algorithm [] = .ok value) →
        st'.partFiles.get? n = some body.data) := by
  rw [writePart]
  rcases hchecksum : partChecksum d algorithm [] with e | value
  · refine ⟨st, rfl, rfl, fun _ _ => rfl, fun h => ?_⟩
    rcases h with ⟨value, hvalue⟩
    cases hvalue
  · rw [Action.exec_ofExcept_bind_ok _ _ _ st rfl, exec_modify_bind]
    rcases exec_appendPart n _ (st.setPartContent n []) with
      ⟨st', hexec, hmultipart, hcontent, hsome, hothers⟩
    refine ⟨st', ?_, hmultipart, fun k hk => ?_, fun _ => ?_⟩
    · rw [hexec]
      rcases body.failure with _ | error
      · rfl
      · rfl
    · rw [hothers k hk, UploadState.setPartContent, Dict.get?_set, if_neg hk]
    · rw [content_setPartContent, nil_append, UploadState.partContent] at hcontent
      rcases hget : st'.partFiles.get? n with _ | content
      · refine absurd hget (hsome ?_)
        rw [UploadState.setPartContent, Dict.get?_set]
        simp
      · rw [hget, getD_some] at hcontent
        rw [hcontent]

end Files

/-- The records and the files after a call. -/
def AfterCall (request : UploadPartRequest) (st st' : UploadState) : PartFate → Prop
  | .refused => st' = st
  | .dropped => st'.multipart = st.multipart ∧
      ∀ k, st'.partFiles.get? k = if k = request.number then none else st.partFiles.get? k
  | .stored s3Part =>
    st'.multipart = { st.multipart with
      parts := st.multipart.parts.set (toString request.number) s3Part } ∧
    ∀ k, st'.partFiles.get? k =
      if k = request.number then some request.body.data else st.partFiles.get? k

/-- What a call does. -/
theorem uploadPart_effect (d : Digests) (request : UploadPartRequest) (st : UploadState) :
    AfterCall request st (exec (uploadPart d request) st).2
      (fate d st.multipart request) := by
  rw [uploadPart, exec_get_bind, fate]
  rcases checkUploadPart d st.multipart request with e | algorithm
  · rfl
  rcases exec_openPart _ st with ⟨st1, hopen, hmultipart1, _, _, hothers1⟩
  rcases exec_writePart _ d _ _ _ with ⟨st2, hwrite, hmultipart2, hothers2, hfile2⟩
  -- A failure after the file is opened leaves the records and takes the file.
  have hdropped : ∀ st3 : UploadState, st3.multipart = st2.multipart →
      (∀ k, k ≠ request.number → st3.partFiles.get? k = st2.partFiles.get? k) →
      AfterCall request st { st3 with partFiles := st3.partFiles.erase request.number }
        .dropped := by
    intro st3 hmultipart3 hothers3
    refine ⟨hmultipart3.trans (hmultipart2.trans hmultipart1), fun k => ?_⟩
    rw [Dict.get?_erase]
    by_cases hk : k = request.number
    · rw [if_pos hk, if_pos hk]
    · rw [if_neg hk, if_neg hk, hothers3 k hk, hothers2 k hk, hothers1 k hk]
  simp only
  rw [Action.exec_ofExcept_bind_ok _ _ _ st rfl, exec_bind_of_ok _ _ st _ () hopen]
  rw [dropError]
  rcases hchecksum : partChecksum d algorithm [] with e | value
  · rw [hchecksum] at hwrite
    rw [Action.exec_bind_of_error _ _ _ { st2 with partFiles := st2.partFiles.erase _ } e]
    · exact hdropped _ rfl fun _ _ => rfl
    · rw [Action.exec_attempt, hwrite]
      rfl
  · rw [hchecksum] at hwrite
    rcases hfailure : request.body.failure with _ | error
    · rw [hfailure] at hwrite
      have hcontent : st2.partContent request.number = request.body.data := by
        rw [UploadState.partContent, hfile2 ⟨value, hchecksum⟩, getD_some]
      rw [Action.exec_bind_of_ok _ _ _ _ ()]
      · rw [Action.exec_get_bind, hcontent]
        change AfterCall request st (exec (do
            orRemovePart request.number
              (checkPartDigests d request (partRecord d request algorithm) request.body.data)
            _) st2).2 (match checkPartDigests d request (partRecord d request algorithm)
              request.body.data with
            | .error _ => .dropped
            | .ok _ => .stored (partRecord d request algorithm))
        rcases checkPartDigests d request (partRecord d request algorithm) request.body.data with
          e | _
        · exact hdropped _ rfl fun _ _ => rfl
        · refine ⟨by rw [← hmultipart1, ← hmultipart2]; rfl, fun k => ?_⟩
          change st2.partFiles.get? k = _
          by_cases hk : k = request.number
          · rw [if_pos hk, hk, hfile2 ⟨value, hchecksum⟩]
          · rw [if_neg hk, hothers2 k hk, hothers1 k hk]
      · rw [Action.exec_attempt, hwrite]
        rfl
    · rw [hfailure] at hwrite
      rw [Action.exec_bind_of_error _ _ _ { st2 with partFiles := st2.partFiles.erase _ }
        _]
      · exact hdropped _ rfl fun _ _ => rfl
      · rw [Action.exec_attempt, hwrite]
        rfl

/-! ### A sequence of calls -/

/-- The state after a sequence of calls. -/
def uploads (d : Digests) (st : UploadState) (requests : List UploadPartRequest) : UploadState :=
  requests.foldl (fun st request => (exec (uploadPart d request) st).2) st

def PartFate.record : PartFate → Option S3Part
  | refused => none
  | dropped => none
  | stored s3Part => some s3Part

def PartFate.isOpened : PartFate → Bool
  | refused => false
  | dropped => true
  | stored _ => true

/-- The last call for a part that was stored. -/
def lastStored (d : Digests) (multipart : S3Multipart) (requests : List UploadPartRequest)
    (n : Nat) : Option UploadPartRequest :=
  requests.reverse.find? fun request =>
    decide (request.number = n) && (fate d multipart request).record.isSome

/-- The last call for a part that opened its file. -/
def lastOpened (d : Digests) (multipart : S3Multipart) (requests : List UploadPartRequest)
    (n : Nat) : Option UploadPartRequest :=
  requests.reverse.find? fun request =>
    decide (request.number = n) && (fate d multipart request).isOpened

/-- The bytes a call leaves in the file of its part. -/
def leftBytes (d : Digests) (multipart : S3Multipart) (request : UploadPartRequest) :
    Option Bytes :=
  (fate d multipart request).record.map fun _ => request.body.data

section Sequence

variable (d : Digests) (st : UploadState) (requests : List UploadPartRequest)

theorem uploads_append (request : UploadPartRequest) :
    uploads d st (requests ++ [request]) =
      (exec (uploadPart d request) (uploads d st requests)).2 := by
  rw [uploads, foldl_append]
  rfl

theorem lastStored_append (multipart : S3Multipart) (request : UploadPartRequest) (n : Nat) :
    lastStored d multipart (requests ++ [request]) n =
      if request.number = n ∧ (fate d multipart request).record.isSome = true then some request
      else lastStored d multipart requests n := by
  rw [lastStored, reverse_append, reverse_singleton, singleton_append, find?_cons, lastStored]
  split <;> simp_all

theorem lastOpened_append (multipart : S3Multipart) (request : UploadPartRequest) (n : Nat) :
    lastOpened d multipart (requests ++ [request]) n =
      if request.number = n ∧ (fate d multipart request).isOpened = true then some request
      else lastOpened d multipart requests n := by
  rw [lastOpened, reverse_append, reverse_singleton, singleton_append, find?_cons, lastOpened]
  split <;> simp_all

theorem multipart_uploads :
    (uploads d st requests).multipart =
      { st.multipart with parts := (uploads d st requests).multipart.parts } := by
  induction requests using reverseRecOn with
  | nil => rfl
  | append_singleton requests request ih =>
    have hcall := uploadPart_effect d request (uploads d st requests)
    rw [uploads_append]
    rcases hfate : fate d (uploads d st requests).multipart request with _ | _ | s3Part
    · rw [hfate] at hcall
      rw [show (exec (uploadPart d request) (uploads d st requests)).2 = _ from hcall]
      exact ih
    · rw [hfate] at hcall
      rw [hcall.1]
      exact ih
    · rw [hfate] at hcall
      rw [hcall.1, ih]

theorem fate_uploads (request : UploadPartRequest) :
    fate d (uploads d st requests).multipart request = fate d st.multipart request := by
  rw [multipart_uploads]
  rfl

theorem toString_number_inj (n m : Nat) (h : toString n = toString m) : n = m := by
  have hrepr : n.repr = m.repr := h
  rw [Nat.repr_eq_ofList_toDigits, Nat.repr_eq_ofList_toDigits, String.ofList_inj] at hrepr
  calc n = Nat.ofDigitChars 10 (Nat.toDigits 10 n) 0 :=
        (Nat.ofDigitChars_toDigits (by omega) (by omega)).symm
    _ = Nat.ofDigitChars 10 (Nat.toDigits 10 m) 0 := by rw [hrepr]
    _ = m := Nat.ofDigitChars_toDigits (by omega) (by omega)

/-- The record and the file of a part. -/
theorem record_uploads (hnew : st.multipart.parts = Dict.empty) (n : Nat) :
    (uploads d st requests).multipart.parts.get? (toString n) =
      (lastStored d st.multipart requests n).bind
        fun request => (fate d st.multipart request).record := by
  induction requests using reverseRecOn with
  | nil =>
    rw [uploads, foldl_nil, hnew]
    rfl
  | append_singleton requests request ih =>
    have hcall := uploadPart_effect d request (uploads d st requests)
    rw [fate_uploads] at hcall
    rw [uploads_append, lastStored_append]
    rcases hfate : fate d st.multipart request with _ | _ | s3Part
    · rw [hfate] at hcall
      rw [show (exec (uploadPart d request) (uploads d st requests)).2 = _ from hcall, ih]
      simp [PartFate.record]
    · rw [hfate] at hcall
      rw [hcall.1, ih]
      simp [PartFate.record]
    · rw [hfate] at hcall
      rw [hcall.1, Dict.get?_set]
      by_cases hn : request.number = n
      · simp [hn, hfate, PartFate.record]
      · have hne : toString n ≠ toString request.number :=
          fun hc => hn (toString_number_inj _ _ hc).symm
        rw [if_neg hne, ih]
        simp [hn]

theorem file_uploads (hnew : st.partFiles = Dict.empty) (n : Nat) :
    (uploads d st requests).partFiles.get? n =
      (lastOpened d st.multipart requests n).bind (leftBytes d st.multipart) := by
  induction requests using reverseRecOn with
  | nil =>
    rw [uploads, foldl_nil, hnew]
    rfl
  | append_singleton requests request ih =>
    have hcall := uploadPart_effect d request (uploads d st requests)
    rw [fate_uploads] at hcall
    rw [uploads_append, lastOpened_append]
    rcases hfate : fate d st.multipart request with _ | _ | s3Part
    · rw [hfate] at hcall
      rw [show (exec (uploadPart d request) (uploads d st requests)).2 = _ from hcall, ih]
      simp [PartFate.isOpened]
    all_goals
      rw [hfate] at hcall
      rw [hcall.2, ih]
      by_cases hn : n = request.number
      · simp [hn, PartFate.isOpened, leftBytes, hfate, PartFate.record]
      · simp [hn, Ne.symm hn]

end Sequence

theorem record_of_fate (d : Digests) (multipart : S3Multipart) (request : UploadPartRequest)
    (s3Part : S3Part) (h : (fate d multipart request).record = some s3Part) :
    s3Part.partNumber = request.number ∧ s3Part.size = request.body.data.length := by
  rw [fate] at h
  split at h
  · cases h
  · split at h
    · cases h
    · rw [PartFate.record, some.injEq] at h
      rw [← h]
      exact ⟨rfl, rfl⟩

end LocalEmu.S3
