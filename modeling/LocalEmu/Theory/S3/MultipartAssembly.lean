import Mathlib.Algebra.Order.BigOperators.Group.List
import Mathlib.Algebra.Order.Group.Nat
import Mathlib.Algebra.GroupWithZero.Nat
import LocalEmu.Theory.S3.PartUploads

/-!
# Assembling a Multipart Object

A completion checks the listed parts against their records, and lays them out
one after the other by the sizes in the records. Then it appends the files of
the parts. The two agree when every file is there: a call that was dropped took
the file of an earlier one, whose record still passes the checks, and a missing
file counts as an empty one. A number that is listed twice is appended twice,
but has one place in the layout.
-/

namespace LocalEmu.S3

open List Option
open LocalEmu.Action

/-! ### Layouts -/

/-- Parts laid out one after the other. -/
def IsLayout (size : Nat → Nat) :
    Nat → List Nat → List (String × InternalObjectPart) → Prop
  | _, [], [] => True
  | pos, n :: ns, e :: es =>
    e.1 = toString n ∧ e.2.position = pos ∧ e.2.size = size n ∧ IsLayout size (pos + size n) ns es
  | _, _, _ => False

section Layout

variable {size : Nat → Nat}

variable {es : List (String × InternalObjectPart)}

theorem IsLayout.keys {pos : Nat} {ns : List Nat}
    (h : IsLayout size pos ns es) : es.map Prod.fst = ns.map fun n => toString n := by
  induction ns generalizing pos es with
  | nil =>
    cases es with
    | nil => rfl
    | cons => exact absurd h not_false
  | cons n ns ih =>
    cases es with
    | nil => exact absurd h not_false
    | cons =>
      rw [map_cons, map_cons, h.1, ih h.2.2.2]

theorem IsLayout.sizes {pos : Nat} {ns : List Nat}
    (h : IsLayout size pos ns es) : (es.map fun e => e.2.size).sum = (ns.map size).sum := by
  induction ns generalizing pos es with
  | nil =>
    cases es with
    | nil => rfl
    | cons => exact absurd h not_false
  | cons n ns ih =>
    cases es with
    | nil => exact absurd h not_false
    | cons =>
      rw [map_cons, map_cons, sum_cons, sum_cons, h.2.2.1, ih h.2.2.2]

theorem IsLayout.position {pos : Nat} (before : List Nat) (n : Nat) (after : List Nat)
    (h : IsLayout size pos (before ++ n :: after) es) :
    ∃ e ∈ es, e.1 = toString n ∧ e.2.position = pos + (before.map size).sum ∧
      e.2.size = size n := by
  induction before generalizing pos es with
  | nil =>
    cases es with
    | nil => exact absurd h not_false
    | cons e => exact ⟨e, mem_cons_self, h.1, h.2.1, h.2.2.1⟩
  | cons m before ih =>
    cases es with
    | nil => exact absurd h not_false
    | cons e =>
      rcases ih h.2.2.2 with ⟨e', he', hkey, hpos, hsize⟩
      refine ⟨e', mem_cons_of_mem e he', hkey, ?_, hsize⟩
      rw [map_cons, sum_cons]
      omega

end Layout

/-! ### Checking the listed parts -/

section Complete

variable (c : Codecs) (multipart : S3Multipart)

theorem completePart_ok (acc acc' : Assembly) (isLast : Bool) (part : CompletedPart)
    (h : multipart.completePart c acc isLast part = .ok acc') :
    ∃ s3Part, multipart.parts.get? (toString part.partNumber) = some s3Part ∧
      (isLast = false → uploadPartMinSize ≤ s3Part.size) ∧
      acc'.pos = acc.pos + s3Part.size ∧
      ∃ e : InternalObjectPart, e.position = acc.pos ∧ e.size = s3Part.size ∧
        acc'.partsMap = acc.partsMap.set (toString part.partNumber) e := by
  rw [S3Multipart.completePart] at h
  rcases hget : multipart.parts.get? (toString part.partNumber) with _ | s3Part
  · rw [hget] at h
    cases h
  · rw [hget] at h
    simp only at h
    split at h
    · cases h
    rcases hhash : multipart.partHash c acc.hash part s3Part with e | hash
    · rw [hhash] at h
      cases h
    rw [hhash] at h
    simp only [bind, Except.bind] at h
    split at h
    · cases h
    next hsize =>
    rw [S3Multipart.placePart] at h
    rcases hhex : c.fromHex s3Part.etag with _ | etag
    · rw [hhex] at h
      cases h
    · rw [hhex] at h
      cases h
      refine ⟨s3Part, rfl, fun hlast => ?_, rfl, _, rfl, rfl, rfl⟩
      by_contra hc
      exact hsize ⟨hlast, by omega⟩

/-- What the check of the listed parts establishes: there are records for all of them, all but the
    last have the minimal size, and they are laid out one after the other. -/
theorem completeParts_ok (size : Nat → Nat)
    (hsize : ∀ n s3Part, multipart.parts.get? (toString n) = some s3Part → s3Part.size = size n)
    (parts : List CompletedPart) (acc acc' : Assembly)
    (h : multipart.completeParts c acc parts = .ok acc') :
    (∀ n ∈ parts.map CompletedPart.partNumber,
      ∃ s3Part, multipart.parts.get? (toString n) = some s3Part) ∧
    (∀ before n after, parts.map CompletedPart.partNumber = before ++ n :: after → after ≠ [] →
      uploadPartMinSize ≤ size n) ∧
    ∃ es, IsLayout size acc.pos (parts.map CompletedPart.partNumber) es ∧
      acc'.partsMap = es.foldl (fun d e => d.set e.1 e.2) acc.partsMap := by
  induction parts generalizing acc with
  | nil =>
    cases h
    refine ⟨fun n hn => absurd hn not_mem_nil, fun before n after hsplit => ?_, [], trivial, rfl⟩
    exact absurd hsplit (by simp)
  | cons part parts ih =>
    rw [S3Multipart.completeParts] at h
    rcases hpart : multipart.completePart c acc parts.isEmpty part with e | acc1
    · rw [hpart] at h
      cases h
    rw [hpart] at h
    rcases completePart_ok c _ _ _ _ _ hpart with
      ⟨s3Part, hget, hmin, hpos, e, heposition, hesize, hmap⟩
    rcases ih _ h with ⟨hrecords, hmins, es, hlayout, hmap'⟩
    have hs := hsize _ _ hget
    refine ⟨fun n hn => ?_, fun before n after hsplit hafter => ?_,
      (toString part.partNumber, e) :: es, ⟨rfl, heposition, hesize.trans hs, ?_⟩, ?_⟩
    · rcases mem_cons.mp hn with rfl | hn
      · exact ⟨s3Part, hget⟩
      · exact hrecords n hn
    · cases before with
      | nil =>
        rw [map_cons, nil_append, cons.injEq] at hsplit
        rw [← hsplit.1, ← hs]
        refine hmin ?_
        rw [isEmpty_eq_false_iff]
        intro hc
        rw [hc] at hsplit
        exact hafter hsplit.2.symm
      | cons =>
        rw [map_cons, cons_append, cons.injEq] at hsplit
        exact hmins _ n _ hsplit.2 hafter
    · rw [← hs, ← hpos]
      exact hlayout
    · rw [hmap', hmap, foldl_cons]

end Complete

/-! ### Appending the files -/

theorem exec_appendParts (s3Parts : List S3Part) (st : UploadState) :
    ∃ st', exec (appendParts s3Parts) st = (.ok (), st') ∧
      st'.objectFile = st.objectFile ++
        (s3Parts.map fun s3Part => st.partContent s3Part.partNumber).flatten ∧
      st'.multipart.object.parts = st.multipart.object.parts ∧
      st'.multipart.object.size + st.objectFile.length =
        st.multipart.object.size + st'.objectFile.length := by
  induction s3Parts generalizing st with
  | nil => exact ⟨st, rfl, by simp, rfl, rfl⟩
  | cons s3Part s3Parts ih =>
    rcases exec_openPart _ st with ⟨st1, hopen, hmultipart, hfile, hcontent, _⟩
    rw [appendParts, exec_bind_of_ok _ _ st _ () hopen]
    rcases ih { st1 with
      objectFile := st1.objectFile ++ st1.partContent s3Part.partNumber
      multipart := { st1.multipart with
        object := { st1.multipart.object with
          size := st1.multipart.object.size +
            (st1.partContent s3Part.partNumber).length } } } with
      ⟨st', hexec, hobject, hparts, hlength⟩
    refine ⟨st', hexec, ?_, ?_, ?_⟩
    · rw [hobject, map_cons, flatten_cons, ← append_assoc, ← hfile, ← hcontent]
      congr 2
      exact map_congr_left fun p _ => hcontent _
    · rw [hparts, ← hmultipart]
    · rw [← hmultipart]
      simp only [length_append, hfile] at hlength ⊢
      omega

/-! ### A completion -/

section Completion

variable (d : Digests) (c : Codecs)

theorem completeMultipart_ok (multipart : S3Multipart) (parts : List CompletedPart)
    (mpuSize : Option Nat) (validationChecksum : Option String) (object : MultipartObject)
    (h : multipart.completeMultipart d c parts mpuSize validationChecksum = .ok object) :
    ∃ hash acc, multipart.completeParts c { hash := hash } parts = .ok acc ∧
      object.parts = acc.partsMap := by
  rw [S3Multipart.completeMultipart] at h
  rcases hhash : multipart.startHash with e | hash
  · rw [hhash] at h
    cases h
  rcases hacc : multipart.completeParts c { hash := hash } parts with e | acc
  · rw [hhash] at h
    simp [bind, Except.bind, hacc] at h
  refine ⟨hash, acc, hacc, ?_⟩
  rw [hhash] at h
  simp only [bind, Except.bind, hacc] at h
  rcases hmpu : S3Multipart.checkMpuSize mpuSize acc.pos with e | _
  · rw [hmpu] at h
    cases h
  rw [hmpu] at h
  rcases hsum : multipart.objectChecksum d c acc.hash parts.length validationChecksum with
    e | checksum
  · rw [hsum] at h
    cases h
  · rw [hsum] at h
    rw [← Except.ok.inj h]

-- Completing the records sets the object, and touches nothing else.
theorem completeRecords_ok (request : CompleteMultipartUploadRequest) (multipart : S3Multipart)
    (st st' : UploadState)
    (h : exec (completeRecords d c request multipart) st = (.ok (), st')) :
    ∃ hash acc, multipart.completeParts c { hash := hash } request.parts = .ok acc ∧
      st'.multipart.object.parts = acc.partsMap ∧ st'.partFiles = st.partFiles := by
  rw [completeRecords] at h
  rcases hcomplete : multipart.completeMultipart d c request.parts request.mpuObjectSize
    (request.checksumValue multipart) with e | object
  · rw [hcomplete] at h
    cases e with
    | typeError =>
      rcases hlegacy : multipart.completeMultipart d c request.parts none none with e | object
      · rw [Action.exec_ofExcept_bind_error _ e _ st hlegacy] at h
        exact absurd (congrArg Prod.fst h) (by simp)
      · rw [Action.exec_ofExcept_bind_ok _ _ _ st hlegacy] at h
        cases h
        rcases completeMultipart_ok d c _ _ _ _ _ hlegacy with ⟨hash, acc, hacc, heq⟩
        exact ⟨hash, acc, hacc, heq, rfl⟩
    | _ => exact absurd (congrArg Prod.fst h) (by simp)
  · rw [hcomplete] at h
    rcases hsums : request.checkChecksums multipart with e | _
    · rw [hsums] at h
      rcases exec_bind_ok _ _ _ _ _ h with ⟨_, _, _, hthrow⟩
      exact absurd (congrArg Prod.fst hthrow) (by simp)
    · rw [hsums] at h
      cases h
      rcases completeMultipart_ok d c _ _ _ _ _ hcomplete with ⟨hash, acc, hacc, heq⟩
      exact ⟨hash, acc, hacc, heq, rfl⟩

theorem completeChecksum_ok (multipart : S3Multipart) (st st' : UploadState)
    (h : exec (completeChecksum d multipart) st = (.ok (), st')) :
    st'.multipart.object.parts = st.multipart.object.parts ∧
      st'.multipart.object.size = st.multipart.object.size ∧ st'.objectFile = st.objectFile := by
  rw [completeChecksum, exec_get_bind] at h
  simp only at h
  split at h
  · rcases exec_bind_ok _ _ _ _ _ h with ⟨value, st1, hvalue, h⟩
    rw [Action.exec_ofExcept] at hvalue
    obtain rfl : st = st1 := congrArg Prod.snd hvalue
    cases h
    exact ⟨rfl, rfl, rfl⟩
  · cases h
    exact ⟨rfl, rfl, rfl⟩

/-- What a completion does. -/
theorem complete_ok (request : CompleteMultipartUploadRequest) (st st' : UploadState)
    (object : MultipartObject)
    (h : exec (completeMultipartUpload d c request) st = (.ok object, st')) :
    ∃ hash acc, st.multipart.completeParts c { hash := hash } request.parts = .ok acc ∧
      object.parts = acc.partsMap ∧ object.size = st'.objectFile.length ∧
      st'.objectFile = ((request.partsNumbers.filterMap fun n =>
        st.multipart.parts.get? (toString n)).map fun s3Part =>
          st.partContent s3Part.partNumber).flatten := by
  rw [completeMultipartUpload, exec_get_bind] at h
  rcases exec_bind_ok _ _ _ _ _ h with ⟨_, st1, hcheck, h⟩
  rw [Action.exec_ofExcept] at hcheck
  obtain rfl : st = st1 := congrArg Prod.snd hcheck
  rcases exec_bind_ok _ _ _ _ _ h with ⟨_, st2, hrecords, h⟩
  rcases completeRecords_ok d c _ _ st _ hrecords with ⟨hash, acc, hacc, hparts2, hfiles2⟩
  refine ⟨hash, acc, hacc, ?_⟩
  rcases exec_bind_ok _ _ _ _ _ h with ⟨_, st3, hstore, h⟩
  rw [storeParts, exec_modify_bind] at hstore
  rcases exec_appendParts (request.partsNumbers.filterMap fun n =>
    st.multipart.parts.get? (toString n)) { st2 with
      objectFile := []
      multipart := { st2.multipart with object := { st2.multipart.object with size := 0 } } } with
    ⟨st3', hstore', hfile3, hparts3, hsize3⟩
  rw [hstore] at hstore'
  obtain rfl : st3 = st3' := congrArg Prod.snd hstore'
  rcases exec_bind_ok _ _ _ _ _ h with ⟨_, st4, hchecksum, h⟩
  rcases completeChecksum_ok d _ _ _ hchecksum with ⟨hparts4, hsize4, hfile4⟩
  cases h
  refine ⟨?_, ?_, ?_⟩
  · exact hparts4.trans (hparts3.trans hparts2)
  · change st4.multipart.object.size = st4.objectFile.length
    rw [hsize4, hfile4]
    simpa using hsize3
  · change st4.objectFile = _
    rw [hfile4, hfile3, nil_append]
    simp only [UploadState.partContent, hfiles2]

end Completion

/-! ### When an upload is assembled -/

/-- The body of the last stored upload of a part. -/
def storedBody (d : Digests) (multipart : S3Multipart) (requests : List UploadPartRequest)
    (n : Nat) : Bytes :=
  ((lastStored d multipart requests n).map fun request => request.body.data).getD []

/-- The last call that opened the file of a part was stored, or there were no bytes to lose. -/
def Intact (d : Digests) (multipart : S3Multipart) (requests : List UploadPartRequest)
    (n : Nat) : Prop :=
  lastOpened d multipart requests n = lastStored d multipart requests n ∨
    storedBody d multipart requests n = []

/-- The object is the concatenation of the bodies of the listed parts, its parts
    tile it, and the range of a part selects the bytes of the part. -/
structure Assembled (body : Nat → Bytes) (partsNumbers : List Nat) (object : MultipartObject)
    (file : Bytes) : Prop where
  content : file = (partsNumbers.map body).flatten
  position : ∀ before n after, partsNumbers = before ++ n :: after →
    ∃ part, object.parts.get? (toString n) = some part ∧
      part.position = (before.map fun m => (body m).length).sum ∧ part.size = (body n).length
  total : (object.parts.values.map InternalObjectPart.size).sum = file.length
  size : object.size = file.length
  range : ∀ n ∈ partsNumbers, ∃ range, getPartRange object n = .ok range ∧
    range.bytes file = body n

theorem find?_of_imp {α : Type} (p q : α → Bool) (h : ∀ a, p a = true → q a = true) (l : List α)
    (a : α) (hfind : l.find? q = some a) (ha : p a = true) : l.find? p = some a := by
  induction l with
  | nil => cases hfind
  | cons b l ih =>
    by_cases hqb : q b = true
    · rw [find?_cons_of_pos hqb, some.injEq] at hfind
      rw [find?_cons_of_pos (hfind ▸ ha), hfind]
    · have hpb : ¬ p b = true := fun hc => hqb (h b hc)
      rw [find?_cons_of_neg hqb] at hfind
      rw [find?_cons_of_neg hpb]
      exact ih hfind

section Assembly

variable (d : Digests) (st : UploadState) (requests : List UploadPartRequest)

theorem record_of_lastStored (n : Nat) (request : UploadPartRequest)
    (h : lastStored d st.multipart requests n = some request) :
    request.number = n ∧ (fate d st.multipart request).record.isSome = true := by
  have hsome := find?_some h
  rw [Bool.and_eq_true, decide_eq_true_eq] at hsome
  exact hsome

theorem lastStored_of_lastOpened (n : Nat) (request : UploadPartRequest)
    (h : lastOpened d st.multipart requests n = some request)
    (hrecord : (fate d st.multipart request).record.isSome = true) :
    lastStored d st.multipart requests n = some request := by
  have hnumber := find?_some h
  rw [Bool.and_eq_true] at hnumber
  refine find?_of_imp _ _ (fun r hr => ?_) _ _ h (by simp [hnumber.1, hrecord])
  rw [Bool.and_eq_true] at hr ⊢
  refine ⟨hr.1, ?_⟩
  rcases hfate : fate d st.multipart r with _ | _ | s3Part
  · rw [hfate] at hr
    exact absurd hr.2 (by simp [PartFate.record])
  · rfl
  · rfl

theorem partContent_uploads (hfiles : st.partFiles = Dict.empty) (n : Nat)
    (request : UploadPartRequest)
    (h : lastStored d st.multipart requests n = some request) :
    (lastOpened d st.multipart requests n = lastStored d st.multipart requests n ∧
      (uploads d st requests).partContent n = storedBody d st.multipart requests n) ∨
    (lastOpened d st.multipart requests n ≠ lastStored d st.multipart requests n ∧
      (uploads d st requests).partContent n = []) := by
  rw [UploadState.partContent, file_uploads d st _ hfiles]
  by_cases hsame : lastOpened d st.multipart requests n = lastStored d st.multipart requests n
  · refine .inl ⟨hsame, ?_⟩
    rcases isSome_iff_exists.mp (record_of_lastStored d st _ n _ h).2 with ⟨s3Part, hrecord⟩
    rw [hsame, h, bind_some, leftBytes, hrecord, storedBody, h]
    rfl
  · refine .inr ⟨hsame, ?_⟩
    rcases hopened : lastOpened d st.multipart requests n with _ | opened
    · rfl
    · rw [bind_some, leftBytes]
      rcases hrecord : (fate d st.multipart opened).record with _ | s3Part
      · rfl
      · have hstored := lastStored_of_lastOpened d st _ n _ hopened (by rw [hrecord]; rfl)
        exact absurd (hopened.trans hstored.symm) hsame

theorem partContent_eq_iff (hfiles : st.partFiles = Dict.empty) (n : Nat)
    (request : UploadPartRequest)
    (h : lastStored d st.multipart requests n = some request) :
    (uploads d st requests).partContent n = storedBody d st.multipart requests n ↔
      Intact d st.multipart requests n := by
  rcases partContent_uploads d st _ hfiles n _ h with ⟨hsame, hcontent⟩ | ⟨hne, hempty⟩
  · exact ⟨fun _ => .inl hsame, fun _ => hcontent⟩
  · rw [hempty]
    constructor
    · exact fun hbody => .inr hbody.symm
    · rintro (hsame | hbody)
      · exact absurd hsame hne
      · exact hbody.symm

end Assembly

/-! ### Sums and splits of lists -/

theorem eq_of_sum_eq (f g : Nat → Nat) (ns : List Nat) (hle : ∀ n ∈ ns, f n ≤ g n)
    (h : (ns.map f).sum = (ns.map g).sum) : ∀ n ∈ ns, f n = g n := by
  induction ns with
  | nil => exact fun n hn => absurd hn not_mem_nil
  | cons m ns ih =>
    have hrest : ∀ n ∈ ns, f n ≤ g n := fun n hn => hle n (mem_cons_of_mem m hn)
    have hm := hle m mem_cons_self
    have hsum := sum_le_sum hrest
    rw [map_cons, map_cons, sum_cons, sum_cons] at h
    intro n hn
    rcases mem_cons.mp hn with rfl | hn
    · omega
    · exact ih hrest (by omega) n hn

theorem nodup_of_splits {α : Type} (l : List α)
    (h : ∀ before a after, l = before ++ a :: after → a ∉ after) : l.Nodup := by
  induction l with
  | nil => exact nodup_nil
  | cons a l ih =>
    refine nodup_cons.mpr ⟨h [] a l rfl, ih fun before b after hsplit => ?_⟩
    exact h _ b _ (by rw [hsplit, cons_append])

theorem take_drop_flatten (body : Nat → Bytes) (before : List Nat) (n : Nat) (after : List Nat) :
    (((before ++ n :: after).map body).flatten.drop
      (before.map fun m => (body m).length).sum).take (body n).length = body n := by
  have hlength : ((before.map body).flatten).length =
      (before.map fun m => (body m).length).sum := by
    rw [List.length_flatten, List.map_map]
    rfl
  rw [map_append, flatten_append, map_cons, flatten_cons, ← hlength, drop_left, take_left]

/-! ### The main result -/

section Main

variable (d : Digests) (c : Codecs) (st : UploadState) (requests : List UploadPartRequest)
  (hparts : st.multipart.parts = Dict.empty)

include hparts

theorem record_facts (n : Nat) (s3Part : S3Part)
    (h : (uploads d st requests).multipart.parts.get? (toString n) = some s3Part) :
    s3Part.partNumber = n ∧ s3Part.size = (storedBody d st.multipart requests n).length ∧
      ∃ request, lastStored d st.multipart requests n = some request := by
  rw [record_uploads d st _ hparts] at h
  rcases hstored : lastStored d st.multipart requests n with _ | request
  · rw [hstored] at h
    cases h
  · rw [hstored] at h
    rcases record_of_fate d _ _ _ h with ⟨hnumber, hsize⟩
    refine ⟨hnumber.trans (record_of_lastStored d st _ n _ hstored).1, ?_, request, rfl⟩
    rw [hsize, storedBody, hstored]
    rfl

theorem partNumber_filterMap (ns : List Nat)
    (h : ∀ n ∈ ns, ∃ s3Part,
      (uploads d st requests).multipart.parts.get? (toString n) = some s3Part) :
    (ns.filterMap fun n =>
      (uploads d st requests).multipart.parts.get? (toString n)).map S3Part.partNumber = ns := by
  induction ns with
  | nil => rfl
  | cons n ns ih =>
    rcases h n mem_cons_self with ⟨s3Part, hget⟩
    rw [filterMap_cons, hget, map_cons,
      (record_facts d st _ hparts n _ hget).1,
      ih fun m hm => h m (mem_cons_of_mem n hm)]

variable (hfiles : st.partFiles = Dict.empty)

include hfiles

/-- A completed upload is assembled exactly when no part is listed twice and the file of every
    listed part is that of its last stored upload, or this was empty. -/
theorem multipart_assembly_iff (request : CompleteMultipartUploadRequest)
    (object : MultipartObject) (st' : UploadState)
    (hcomplete : exec (completeMultipartUpload d c request) (uploads d st requests) =
      (.ok object, st')) :
    Assembled (storedBody d st.multipart requests) request.partsNumbers object st'.objectFile ↔
      request.partsNumbers.Nodup ∧
        ∀ n ∈ request.partsNumbers, Intact d st.multipart requests n := by
  rcases complete_ok d c _ _ _ _ hcomplete with ⟨hash, acc, hacc, hobject, hsize, hfile⟩
  have hrecord := record_facts d st requests hparts
  rcases completeParts_ok c (uploads d st requests).multipart
    (fun n => (storedBody d st.multipart requests n).length)
    (fun n s3Part h => (hrecord n _ h).2.1) _ _ _ hacc with
    ⟨hfound, hmin, es, hlayout, hmap⟩
  change IsLayout _ 0 request.partsNumbers es at hlayout
  have hstored : ∀ n ∈ request.partsNumbers,
      ∃ r, lastStored d st.multipart requests n = some r := by
    intro n hn
    rcases hfound n hn with ⟨s3Part, hget⟩
    exact (hrecord n _ hget).2.2
  -- The file of the object is the concatenation of the files of the parts.
  have hcontents : st'.objectFile =
      (request.partsNumbers.map (uploads d st requests).partContent).flatten := by
    rw [hfile]
    conv_rhs => rw [← partNumber_filterMap d st _ hparts request.partsNumbers hfound]
    rw [List.map_map]
    rfl
  constructor
  · intro h
    refine ⟨nodup_of_splits _ fun before n after hsplit hmem => ?_, fun n hn => ?_⟩
    · -- A part listed twice would begin at two positions.
      rcases List.append_of_mem hmem with ⟨mid, rest, hafter⟩
      rcases h.position _ n _ hsplit with ⟨part, hget, hpos, _⟩
      rcases h.position (before ++ n :: mid) n _ (by
        rw [hsplit, hafter, List.append_assoc, List.cons_append]) with ⟨part', hget', hpos', _⟩
      rw [hget, Option.some.injEq] at hget'
      have hlarge := hmin _ n _ hsplit (by rw [hafter]; simp)
      rw [← hget', List.map_append, List.sum_append, List.map_cons, List.sum_cons] at hpos'
      rw [uploadPartMinSize] at hlarge
      omega
    · rcases hstored n hn with ⟨r, hr⟩
      rw [← partContent_eq_iff d st _ hfiles n r hr]
      have hlengths := congrArg List.length (hcontents.symm.trans h.content)
      rw [List.length_flatten, List.length_flatten, List.map_map, List.map_map] at hlengths
      have hle : ∀ m ∈ request.partsNumbers, ((uploads d st requests).partContent m).length ≤
          (storedBody d st.multipart requests m).length := by
        intro m hm
        rcases hstored m hm with ⟨r, hr⟩
        rcases partContent_uploads d st _ hfiles m r hr with ⟨_, hcontent⟩ | ⟨_, hempty⟩
        · rw [hcontent]
        · rw [hempty]
          exact Nat.zero_le _
      have hlen := eq_of_sum_eq _ _ _ hle hlengths n hn
      rcases partContent_uploads d st _ hfiles n r hr with ⟨_, hcontent⟩ | ⟨_, hempty⟩
      · exact hcontent
      · rw [hempty] at hlen
        rw [hempty, List.eq_nil_of_length_eq_zero hlen.symm]
  · rintro ⟨hnodup, hintact⟩
    have hcontent : st'.objectFile =
        (request.partsNumbers.map (storedBody d st.multipart requests)).flatten := by
      rw [hcontents]
      refine congrArg List.flatten (List.map_congr_left fun n hn => ?_)
      rcases hstored n hn with ⟨r, hr⟩
      exact (partContent_eq_iff d st _ hfiles n r hr).mpr (hintact n hn)
    have hentries : object.parts.entries = es := by
      rw [hobject, hmap]
      refine Dict.entries_ofEntries es ?_
      rw [hlayout.keys]
      exact hnodup.map fun n m hnm => toString_number_inj n m hnm
    have hposition : ∀ before n after, request.partsNumbers = before ++ n :: after →
        ∃ part, object.parts.get? (toString n) = some part ∧
          part.position = (before.map fun m => (storedBody d st.multipart requests m).length).sum ∧
          part.size = (storedBody d st.multipart requests n).length := by
      intro before n after hsplit
      rw [hsplit] at hlayout
      rcases hlayout.position _ n _ with ⟨e, he, hkey, hpos, hes⟩
      refine ⟨e.2, ?_, by rw [hpos, Nat.zero_add], hes⟩
      rw [Dict.get?_eq_some_iff, hentries, ← hkey]
      exact he
    refine ⟨hcontent, hposition, ?_, hsize, fun n hn => ?_⟩
    · rw [Dict.values, hentries, List.map_map]
      refine hlayout.sizes.trans ?_
      rw [hcontent, List.length_flatten, List.map_map]
      rfl
    · rcases List.append_of_mem hn with ⟨before, after, hsplit⟩
      rcases hposition _ n _ hsplit with ⟨part, hget, hpos, hpsize⟩
      refine ⟨.of part.position part.size object.size, ?_, ?_⟩
      · have hne : ¬ object.parts.entries = [] := by
          intro hc
          rw [Dict.get?_eq_some_iff, hc] at hget
          exact List.not_mem_nil hget
        rw [getPartRange, if_neg hne, hget]
      · change (st'.objectFile.drop part.position).take part.size = _
        rw [hcontent, hpos, hpsize, hsplit]
        exact take_drop_flatten _ _ n _

end Main

/-! ### Examples -/

def digestsOfBody : Digests where
  md5 data :=
    if data = [1, 2, 3] then "5289df737df57326fcdd22597afb1fac"
    else "2cb46966a91edfc0afaf8bfb28d79ebe"
  checksum _ _ := "HFNyDkJEeF8="
  decodedLength _ := some 8
  contentMd5ToEtag _ := none
  etagToContentMd5 _ := ""

def codecsOfBody : Codecs where
  fromHex _ := some [82, 137, 223, 115, 125, 245, 115, 38, 252, 221, 34, 89, 122, 251, 31, 172]
  b64decode _ := none
  b64encode _ := ""

def newUpload : UploadState where
  multipart := { id := "upload" }

/-- An upload of the first part. -/
def goodPart : UploadPartRequest where
  partNumber := 1
  body := .chunk [1, 2, 3] (.done [])

/-- The same part again, over a connection that breaks. -/
def brokenPart : UploadPartRequest where
  partNumber := 1
  body := .chunk [9] (.broken (.exception "EOFError" "connection lost"))

/-- A completion with the first part. -/
def completeFirst : CompleteMultipartUploadRequest where
  parts := [⟨1, "5289df737df57326fcdd22597afb1fac", []⟩]

theorem multipart_assembly_of_goodPart :
    ∃ object st', exec (completeMultipartUpload digestsOfBody codecsOfBody completeFirst)
        (uploads digestsOfBody newUpload [goodPart]) = (.ok object, st') ∧
      Assembled (storedBody digestsOfBody newUpload.multipart [goodPart]) completeFirst.partsNumbers
        object st'.objectFile := by
  refine ⟨_, _, rfl, (multipart_assembly_iff _ codecsOfBody _ [goodPart] rfl rfl
    _ _ _ rfl).mpr ⟨by decide, fun n hn => .inl ?_⟩⟩
  obtain rfl : n = 1 := mem_singleton.mp hn
  rfl

/-- A broken upload takes the bytes of the part that was stored before. -/
theorem multipart_assembly_loses_part :
    ∃ object st', exec (completeMultipartUpload digestsOfBody codecsOfBody completeFirst)
        (uploads digestsOfBody newUpload [goodPart, brokenPart]) = (.ok object, st') ∧
      ¬ Assembled (storedBody digestsOfBody newUpload.multipart [goodPart, brokenPart])
        completeFirst.partsNumbers object st'.objectFile := by
  refine ⟨_, _, rfl, fun h => ?_⟩
  have hcontent := h.content
  cases hcontent

end LocalEmu.S3
