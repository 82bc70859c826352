import LocalEmu.Core.S3.Codec

/-!
# Chunked Uploads Are Decoded

An encoding is a line with a size and the data for each chunk, a line with the size zero, and
the lines of the trailing headers. What a decoder has before it is compared with what is left
of the encoding, up to some bytes that are missing at the end. A read then returns a part of
the data that is left, or it is told that there is none. If bytes of the data are missing, no
read is told so, and one of them raises.
-/

namespace LocalEmu.S3

open List

variable (py : ChunkLibrary)

/-! ### Encodings -/

/-- A line with the size of a chunk, in any spelling that Python reads, and an extension. -/
structure SizeLine (size : Nat) where
  digits : Bytes
  ext : Option Bytes
  reads : py.int16 digits = some size
  separate : 59 ∉ digits
  unbroken : 10 ∉ digits ∧ ∀ text ∈ ext, 10 ∉ text

/-- A chunk. -/
structure Chunk where
  data : Bytes
  line : SizeLine py data.length
  nonempty : data ≠ []

/-- A trailing header, as a line that reads as its name and its value. -/
structure TrailingHeader where
  line : Bytes
  name : Text
  value : Text
  unbroken : 10 ∉ line
  nonempty : stripBytes (line ++ [13, 10]) ≠ []
  reads : py.decode (stripBytes (line ++ [13, 10])) = some (name ++ ':' :: value)
  separate : ':' ∉ name

variable {py}

/-- The line without its newline. -/
def SizeLine.text {size : Nat} (line : SizeLine py size) : Bytes :=
  line.digits ++ (line.ext.elim [] (59 :: ·) ++ [13])

def Chunk.bytes (chunk : Chunk py) : Bytes :=
  chunk.line.text ++ 10 :: (chunk.data ++ [13, 10])

/-- The lines of the headers and an empty line. -/
def headerBytes (headers : List (TrailingHeader py)) : Bytes :=
  headers.flatMap (fun header => header.line ++ [13, 10]) ++ [13, 10]

/-- What follows the last chunk. -/
def tailBytes (zero : SizeLine py 0) (headers : List (TrailingHeader py)) : Bytes :=
  zero.text ++ 10 :: headerBytes headers

def encode (chunks : List (Chunk py)) (zero : SizeLine py 0)
    (headers : List (TrailingHeader py)) : Bytes :=
  chunks.flatMap Chunk.bytes ++ tailBytes zero headers

def payload (chunks : List (Chunk py)) : Bytes := chunks.flatMap Chunk.data

/-- The headers under their names in lower case. A later one replaces an earlier one. -/
def exposed (headers : List (TrailingHeader py)) : Dict Text Text :=
  headers.foldl (fun dict header => dict.set (py.lower header.name) (py.strip header.value))
    Dict.empty

/-! ### Lines -/

theorem readline_append {line : Bytes} (h : 10 ∉ line) (rest : Bytes) :
    readline (line ++ 10 :: rest) = (line ++ [10], rest) := by
  have hne : ∀ b ∈ line, decide (b ≠ 10) = true :=
    fun b hb => decide_eq_true fun heq => h (heq ▸ hb)
  rw [readline, takeWhile_append_of_pos hne, dropWhile_append_of_pos hne]
  simp

theorem readline_of_not_mem {line : Bytes} (h : 10 ∉ line) : readline line = (line, []) := by
  have hne : ∀ b ∈ line, decide (b ≠ 10) = true :=
    fun b hb => decide_eq_true fun heq => h (heq ▸ hb)
  rw [readline, takeWhile_eq_self_iff.mpr hne, dropWhile_eq_nil_iff.mpr hne]
  simp

theorem readlines_append {line : Bytes} (h : 10 ∉ line) (start rest : Bytes) :
    readlines start (line ++ 10 :: rest) = (start ++ line ++ [10]) :: readlines [] rest := by
  induction line generalizing start with
  | nil => cases start <;> simp [readlines]
  | cons b line ih =>
    have hb : b ≠ 10 := fun heq => h (heq ▸ mem_cons_self)
    have hrest := ih (fun hmem => h (mem_cons_of_mem b hmem)) (start ++ [b])
    cases start <;> simpa [readlines, hb] using hrest

variable {size : Nat}

theorem SizeLine.not_mem_text (line : SizeLine py size) : 10 ∉ line.text := by
  have hext := line.unbroken.2
  cases hcase : line.ext <;> simp_all [SizeLine.text, line.unbroken.1]

theorem SizeLine.int16_text (line : SizeLine py size) :
    py.int16 ((line.text ++ [10]).takeWhile (· ≠ 59)) = some size := by
  have hne : ∀ b ∈ line.digits, decide (b ≠ 59) = true :=
    fun b hb => decide_eq_true fun heq => line.separate (heq ▸ hb)
  rw [SizeLine.text, append_assoc, takeWhile_append_of_pos hne]
  cases line.ext with
  | none => exact (py.int16_line line.digits).trans line.reads
  | some => simpa using line.reads

theorem foldlM_headers (headers : List (TrailingHeader py)) (dict : Dict Text Text) :
    (readlines [] (headerBytes headers)).foldlM (AwsChunkedDecoder.addTrailingHeader py) dict =
      .ok (headers.foldl
        (fun dict header => dict.set (py.lower header.name) (py.strip header.value)) dict) := by
  induction headers generalizing dict with
  | nil => rfl
  | cons header headers ih =>
    have hline : 10 ∉ header.line ++ [13] := by simp [header.unbroken]
    have hbytes : headerBytes (header :: headers) =
        (header.line ++ [13]) ++ 10 :: headerBytes headers := by simp [headerBytes]
    have hne : ∀ c ∈ header.name, decide (c ≠ ':') = true :=
      fun c hc => decide_eq_true fun heq => header.separate (heq ▸ hc)
    have hadd : AwsChunkedDecoder.addTrailingHeader py dict (header.line ++ [13, 10]) =
        .ok (dict.set (py.lower header.name) (py.strip header.value)) := by
      simp only [AwsChunkedDecoder.addTrailingHeader, header.reads]
      rw [if_neg header.nonempty, takeWhile_append_of_pos hne, dropWhile_append_of_pos hne]
      simp
    rw [hbytes, readlines_append hline, nil_append, append_assoc]
    exact (congrArg (· >>= _) hadd).trans (ih _)

/-! ### A read -/

variable (missing : Bytes) (zero : SizeLine py 0) (headers : List (TrailingHeader py))

/-- What the decoder has before it, with the missing bytes: some data of a chunk, or chunks,
    or nothing but the trailing headers, which it has read. -/
inductive Ahead : AwsChunkedDecoder → Bytes → List (Chunk py) → Prop
  | start {length : Int} {stream s3Object set size chunks}
      (hlength : length = (payload chunks).length)
      (hstream : stream ++ missing = encode chunks zero headers) :
      Ahead ⟨stream, length, s3Object, true, false, set, size, Dict.empty⟩ [] chunks
  | inside {length size : Int} {stream s3Object set data chunks} (hdata : data ≠ [])
      (hsize : size = data.length)
      (hlength : length = (data ++ payload chunks).length)
      (hstream : stream ++ missing = data ++ ([13, 10] ++ encode chunks zero headers)) :
      Ahead ⟨stream, length, s3Object, false, false, set, size, Dict.empty⟩ data chunks
  | ended {length : Int} {stream s3Object new set size chunks}
      (hlength : length = (payload chunks).length)
      (hstream : stream ++ missing = [13, 10] ++ encode chunks zero headers) :
      Ahead ⟨stream, length, s3Object, new, true, set, size, Dict.empty⟩ [] chunks
  | done {s3Object} (hmissing : missing = []) :
      Ahead ⟨[], 0, s3Object, false, false, true, 0, exposed headers⟩ [] []

/-- What is claimed of a read if so much data is left. -/
def ReadsWell (d : AwsChunkedDecoder) (amount : Nat) (left : Bytes) : Prop :=
  (missing ≠ [] ∧ ∃ e, d.read py amount = .error e) ∨
    ∃ piece d' data chunks, d.read py amount = .ok (piece, d') ∧
      Ahead missing zero headers d' data chunks ∧ left = piece ++ (data ++ payload chunks) ∧
      (piece = [] → left = [] ∧ missing = [] ∧ d'.trailing = .ok (exposed headers))

variable {missing zero headers} {stream data : Bytes} {chunks : List (Chunk py)}
  {length size : Int} {new set : Bool} {s3Object : Option ChecksumHolder} {amount : Nat}

theorem read_inside (hamount : 0 < amount) (hdata : data ≠ []) (hsize : size = data.length)
    (hlength : length = (data ++ payload chunks).length)
    (hstream : stream ++ missing = data ++ ([13, 10] ++ encode chunks zero headers)) :
    ReadsWell missing zero headers ⟨stream, length, s3Object, false, false, set, size, Dict.empty⟩
      amount (data ++ payload chunks) := by
  have hpos := length_pos_iff.mpr hdata
  have hread : readAmount stream (min size amount) = stream.take (min data.length amount) := by
    rw [readAmount, if_neg (by omega)]
    congr 1
    omega
  rw [ReadsWell, AwsChunkedDecoder.read, if_neg hamount.ne']
  simp only [Bool.false_eq_true, if_false, pure_bind]
  rw [if_neg (by omega), hread]
  -- Nothing comes only where the bytes end, since there is data left.
  by_cases hnil : stream.take (min data.length amount) = []
  · refine .inl ⟨?_, _, if_pos hnil⟩
    rintro rfl
    rcases take_eq_nil_iff.mp hnil with hzero | rfl
    · omega
    · exact hdata (append_eq_nil_iff.mp hstream.symm).1
  · rw [if_neg hnil]
    -- The piece is what the rest of the chunk starts with.
    obtain ⟨k, hk, hks, htake⟩ : ∃ k, k ≤ data.length ∧ k ≤ stream.length ∧
        stream.take (min data.length amount) = stream.take k := by
      refine ⟨min (min data.length amount) stream.length, by omega, by omega, ?_⟩
      rw [take_eq_take_iff]
      omega
    have hfront := congrArg (take k) hstream
    have hback := congrArg (drop k) hstream
    rw [take_append_of_le_length hks, take_append_of_le_length hk] at hfront
    rw [drop_append_of_le_length hks, drop_append_of_le_length hk] at hback
    rw [htake] at hnil ⊢
    rw [length_take_of_le hks]
    refine .inr ⟨_, _, data.drop k, chunks, rfl, ?_, ?_, fun h => absurd h hnil⟩
    · rw [length_append] at hlength
      by_cases hlast : data.length ≤ k
      · rw [drop_eq_nil_of_le hlast] at hback ⊢
        rw [if_pos (by omega)]
        exact .ended (by omega) hback
      · rw [if_neg (by omega)]
        refine .inside ?_ ?_ ?_ hback
        · rw [Ne, drop_eq_nil_iff]
          exact hlast
        · rw [length_drop]
          omega
        · rw [length_append, length_drop]
          omega
    · rw [hfront, ← append_assoc, take_append_drop]

theorem read_empty (hamount : 0 < amount) (hlength : 0 < length) :
    ∃ e, AwsChunkedDecoder.read py
      ⟨[], length, s3Object, false, false, set, size, Dict.empty⟩ amount = .error e := by
  rw [AwsChunkedDecoder.read, if_neg hamount.ne']
  simp only [Bool.false_eq_true, if_false, pure_bind]
  rw [if_neg (by omega), if_pos (by simp [readAmount])]
  exact ⟨_, rfl⟩

theorem read_tail (hamount : 0 < amount) (hmissing : missing = []) {names : Dict Text Text}
    (hfold : (readlines [] stream).foldlM (AwsChunkedDecoder.addTrailingHeader py) names =
      .ok (exposed headers)) :
    ReadsWell missing zero headers ⟨stream, 0, s3Object, false, false, set, 0, names⟩ amount
      [] := by
  obtain ⟨s3Object', hset⟩ : ∃ s3Object', AwsChunkedDecoder.setChecksumValue py
      ⟨[], 0, s3Object, false, false, true, 0, exposed headers⟩ =
      ⟨[], 0, s3Object', false, false, true, 0, exposed headers⟩ := by
    unfold AwsChunkedDecoder.setChecksumValue
    split
    · exact ⟨_, rfl⟩
    · split <;> exact ⟨_, rfl⟩
  refine .inr ⟨[], ⟨[], 0, s3Object', false, false, true, 0, exposed headers⟩, [], [], ?_,
    .done hmissing, rfl, fun _ => ⟨rfl, hmissing, rfl⟩⟩
  rw [AwsChunkedDecoder.read, if_neg hamount.ne']
  simp only [Bool.false_eq_true, if_false, pure_bind]
  rw [if_pos (by simp), AwsChunkedDecoder.getTrailingHeaders, hfold]
  simp only [bind, Except.bind, pure, Except.pure, hset]

variable (stream) in
theorem line_or_cut {line rest : Bytes} (hline : 10 ∉ line)
    (h : stream ++ missing = line ++ 10 :: rest) :
    (10 ∉ stream ∧ missing ≠ []) ∨
      ∃ after, stream = line ++ 10 :: after ∧ after ++ missing = rest := by
  rcases append_eq_append_iff.mp h with ⟨a, rfl, rfl⟩ | ⟨a, rfl, ha⟩
  · exact .inl ⟨fun hmem => hline (mem_append_left a hmem), by simp⟩
  · cases a with
    | nil =>
      refine .inl ⟨by simpa using hline, ?_⟩
      rintro rfl
      cases ha
    | cons b after =>
      cases ha
      exact .inr ⟨after, rfl, rfl⟩

variable (hcut : missing = [] ∨ (tailBytes zero headers).length + 2 < missing.length)

include hcut

theorem read_next (hamount : 0 < amount) (hlength : length = (payload chunks).length)
    (hstream : stream ++ missing = encode chunks zero headers ∨ stream = [] ∧ missing ≠ []) :
    ReadsWell missing zero headers ⟨stream, length, s3Object, true, false, set, size, Dict.empty⟩
      amount (payload chunks) := by
  -- It reads the line, and then inside of the chunk.
  have hread : AwsChunkedDecoder.read py
      ⟨stream, length, s3Object, true, false, set, size, Dict.empty⟩ amount =
      (py.int16 ((readline stream).1.takeWhile (· ≠ 59))).elim (.error .valueError) fun n =>
        AwsChunkedDecoder.read py
          ⟨(readline stream).2, length, s3Object, false, false, set, n, Dict.empty⟩ amount := by
    simp only [AwsChunkedDecoder.read, if_neg hamount.ne', if_true,
      AwsChunkedDecoder.getNextChunkLength, Bool.false_eq_true, if_false]
    cases py.int16 ((readline stream).1.takeWhile (· ≠ 59)) <;> rfl
  rw [ReadsWell, hread]
  rcases hstream with hstream | ⟨rfl, hmissing⟩
  · cases chunks with
    | nil =>
      have hmissing : missing = [] := by
        -- More than the tail would be missing, but there is only the tail.
        refine hcut.resolve_right fun hlt => ?_
        have hlen := congrArg List.length hstream
        simp only [encode, flatMap_nil, nil_append, length_append] at hlen
        omega
      subst hmissing hlength
      rw [append_nil] at hstream
      rw [hstream, encode, flatMap_nil, nil_append, tailBytes,
        readline_append zero.not_mem_text, zero.int16_text]
      exact read_tail hamount rfl (foldlM_headers headers _)
    | cons chunk chunks =>
      have hbytes : encode (chunk :: chunks) zero headers = chunk.line.text ++
          10 :: (chunk.data ++ ([13, 10] ++ encode chunks zero headers)) := by
        simp [encode, Chunk.bytes]
      rcases line_or_cut _ chunk.line.not_mem_text (hstream.trans hbytes) with
        ⟨hmem, hmissing⟩ | ⟨after, rfl, hafter⟩
      · -- The line is cut. What it reads as does not matter, as nothing comes after it.
        refine .inl ⟨hmissing, ?_⟩
        rw [readline_of_not_mem hmem]
        cases py.int16 (stream.takeWhile (· ≠ 59)) with
        | none => exact ⟨_, rfl⟩
        | some =>
          refine read_empty hamount ?_
          have hpos := length_pos_iff.mpr chunk.nonempty
          simp only [hlength, payload, flatMap_cons, length_append]
          omega
      · rw [readline_append chunk.line.not_mem_text, chunk.line.int16_text]
        exact read_inside hamount chunk.nonempty rfl hlength hafter
  · rw [readline_of_not_mem not_mem_nil, takeWhile_nil, py.int16_nil]
    exact .inl ⟨hmissing, _, rfl⟩

/-- What a read returns. -/
theorem read_ahead (hamount : 0 < amount) {d : AwsChunkedDecoder}
    (h : Ahead missing zero headers d data chunks) :
    ReadsWell missing zero headers d amount (data ++ payload chunks) := by
  cases h with
  | start hlength hstream => exact read_next hcut hamount hlength (.inl hstream)
  | inside hdata hsize hlength hstream =>
    exact read_inside hamount hdata hsize hlength hstream
  | @ended length stream s3Object new set size chunks hlength hstream =>
    have hread : AwsChunkedDecoder.read py ⟨stream, length, s3Object, new, true, set, size,
        Dict.empty⟩ amount = AwsChunkedDecoder.read py
          ⟨stream.drop 2, length, s3Object, true, false, set, size, Dict.empty⟩ amount := by
      simp only [AwsChunkedDecoder.read, if_true, AwsChunkedDecoder.stripChunkNewLines,
        Bool.false_eq_true, if_false, if_neg hamount.ne']
    rw [ReadsWell, hread]
    refine read_next hcut hamount hlength ?_
    rcases append_eq_append_iff.mp hstream with ⟨a, ha, hmissing⟩ | ⟨a, rfl, hrest⟩
    · cases a with
      | nil =>
        rw [append_nil] at ha
        exact .inl (by rw [← ha, hmissing]; rfl)
      | cons =>
        -- The bytes end in the newline of the chunk.
        refine .inr ⟨?_, by simp [hmissing]⟩
        have hlen := congrArg List.length ha
        simp only [length_append, length_cons, length_nil] at hlen
        exact drop_eq_nil_of_le (by omega)
    · exact .inl hrest.symm
  | done hmissing => exact read_tail hamount hmissing rfl

/-! ### All reads -/

/-- What some reads return. -/
theorem reads_ahead {d : AwsChunkedDecoder} (sizes : List Nat)
    (hsizes : ∀ size ∈ sizes, 0 < size) (h : Ahead missing zero headers d data chunks) :
    (missing ≠ [] ∧ ∃ e, d.reads py sizes = .error e) ∨
      ∃ pieces d' rest, d.reads py sizes = .ok (pieces, d') ∧ pieces.length = sizes.length ∧
        data ++ payload chunks = pieces.flatten ++ rest ∧
        (∀ i, pieces[i]? = some [] → (pieces.take i).flatten = data ++ payload chunks) ∧
        ([] ∈ pieces → missing = [] ∧ d'.trailing = .ok (exposed headers)) := by
  induction sizes generalizing d data chunks with
  | nil => exact .inr ⟨[], d, _, rfl, rfl, rfl, by simp, by simp⟩
  | cons size sizes ih =>
    rw [AwsChunkedDecoder.reads]
    rcases read_ahead hcut (hsizes _ mem_cons_self) h with
      ⟨hmissing, e, he⟩ | ⟨piece, d', data', chunks', hread, hahead, hleft, hnil⟩
    · exact .inl ⟨hmissing, e, by rw [he]; rfl⟩
    · rw [hread]
      rcases ih (fun size hsize => hsizes _ (mem_cons_of_mem _ hsize)) hahead with
        ⟨hmissing, e, he⟩ | ⟨pieces, d'', rest, hreads, hlength, hrest, hat, htrailing⟩
      · exact .inl ⟨hmissing, e, by simp only [bind, Except.bind, he]⟩
      · refine .inr ⟨piece :: pieces, d'', rest, by simp only [bind, Except.bind, hreads]; rfl,
          by simp [hlength], by simp [hleft, hrest], fun i hi => ?_, fun hmem => ?_⟩
        · cases i with
          | zero => exact (hnil (Option.some.inj hi)).1.symm
          | succ i => rw [take_succ_cons, flatten_cons, hat i hi, hleft]
        · rcases mem_cons.mp hmem with hpiece | hmem
          · obtain ⟨hempty, hmissing, hdone⟩ := hnil hpiece.symm
            -- There is nothing left for the reads that follow.
            cases pieces with
            | nil =>
              cases sizes with
              | nil =>
                cases hreads
                exact ⟨hmissing, hdone⟩
              | cons => cases hlength
            | cons next =>
              rw [hrest] at hleft
              have hleft := hleft.symm.trans hempty
              have hnext : next = [] := by
                rw [flatten_cons, append_assoc] at hleft
                exact (append_eq_nil_iff.mp (append_eq_nil_iff.mp hleft).2).1
              exact htrailing (hnext ▸ mem_cons_self)
          · exact htrailing hmem

omit hcut

variable (chunks zero headers)

/-- Whatever the sizes of the reads, an encoding is decoded to its data and its headers, and
    one of which data is missing raises. -/
theorem chunks_decoded (s3Object : Option ChecksumHolder) (sizes : List Nat)
    (hsizes : ∀ size ∈ sizes, 0 < size) :
    (∃ pieces d, (AwsChunkedDecoder.new (encode chunks zero headers) (payload chunks).length
        s3Object).reads py sizes = .ok (pieces, d) ∧
      pieces.length = sizes.length ∧ pieces.flatten <+: payload chunks ∧
      (∀ i, pieces[i]? = some [] → (pieces.take i).flatten = payload chunks) ∧
      ([] ∈ pieces → d.trailing = .ok (exposed headers)) ∧
      ((payload chunks).length < sizes.length → [] ∈ pieces)) ∧
    ∀ k, k + 2 < (chunks.flatMap Chunk.bytes).length →
      (∀ pieces d, (AwsChunkedDecoder.new ((encode chunks zero headers).take k)
          (payload chunks).length s3Object).reads py sizes = .ok (pieces, d) →
        [] ∉ pieces ∧ pieces.flatten <+: payload chunks) ∧
      ((payload chunks).length < sizes.length → ∃ e, (AwsChunkedDecoder.new
        ((encode chunks zero headers).take k) (payload chunks).length s3Object).reads py sizes =
          .error e) := by
  -- Reads that all return something return no more than there is.
  have hlong (pieces : List Bytes) (rest : Bytes) (hmem : [] ∉ pieces)
      (hpieces : payload chunks = pieces.flatten ++ rest) :
      pieces.length ≤ (payload chunks).length := by
    have hsum := length_le_sum_of_one_le (pieces.map length) (by
      rw [forall_mem_map]
      exact fun piece hpiece => length_pos_iff.mpr fun hnil => hmem (hnil ▸ hpiece))
    rw [length_map] at hsum
    rw [hpieces, length_append, length_flatten]
    omega
  constructor
  · have hahead : Ahead [] zero headers (.new (encode chunks zero headers)
        (payload chunks).length s3Object) [] chunks :=
      .start rfl (append_nil _)
    rcases reads_ahead (.inl rfl) _ hsizes hahead with
      ⟨hnil, -⟩ | ⟨pieces, d, rest, hreads, hlength, hrest, hat, htrailing⟩
    · exact absurd rfl hnil
    · refine ⟨pieces, d, hreads, hlength, ⟨rest, hrest.symm⟩, hat, fun h => (htrailing h).2,
        fun hlt => ?_⟩
      by_contra hmem
      have hle := hlong _ _ hmem hrest
      omega
  · intro k hk
    have hmissing : (tailBytes zero headers).length + 2 <
        ((encode chunks zero headers).drop k).length := by
      rw [encode, length_drop, length_append]
      omega
    have hahead : Ahead ((encode chunks zero headers).drop k) zero headers
        (.new ((encode chunks zero headers).take k) (payload chunks).length s3Object) [] chunks :=
      .start rfl (take_append_drop k _)
    rcases reads_ahead (.inr hmissing) _ hsizes hahead with
      ⟨-, e, he⟩ | ⟨pieces, d, rest, hreads, hlength, hrest, -, htrailing⟩
    · rw [he]
      exact ⟨nofun, fun _ => ⟨e, rfl⟩⟩
    · have hmem : [] ∉ pieces := by
        intro hmem
        rw [(htrailing hmem).1] at hmissing
        cases hmissing
      rw [hreads]
      refine ⟨?_, fun hlt => ?_⟩
      · rintro _ _ ⟨⟩
        exact ⟨hmem, rest, hrest.symm⟩
      · have hle := hlong _ _ hmem hrest
        omega

def exampleLibrary : ChunkLibrary where
  int16 text :=
    match text.rdropWhile isSpaceByte with
    | [digit] => if 48 ≤ digit ∧ digit ≤ 57 then some (digit.toNat - 48) else none
    | _ => none
  int16_nil := rfl
  int16_line text := by
    have hline : text ++ [13, 10] = text ++ [13] ++ [10] := by simp
    rw [hline, rdropWhile_concat_pos _ _ _ rfl, rdropWhile_concat_pos _ _ _ rfl]
  decode text := some (text.map fun b => Char.ofNat b.toNat)
  lower text := text.map Char.toLower
  strip := id

def exampleChunk : Chunk exampleLibrary where
  data := [97, 98, 99]
  line := ⟨[51], none, rfl, by decide, by decide, nofun⟩
  nonempty := by decide

def exampleZero : SizeLine exampleLibrary 0 :=
  ⟨[48], some [120], rfl, by decide, by decide, by decide⟩

def exampleHeader : TrailingHeader exampleLibrary where
  line := [65, 58, 98]
  name := ['A']
  value := ['b']
  unbroken := by decide
  nonempty := by decide
  reads := rfl
  separate := by decide

theorem chunks_decoded_of_exampleChunk : ∃ pieces d,
    (AwsChunkedDecoder.new (encode [exampleChunk] exampleZero [exampleHeader]) 3 none).reads
      exampleLibrary [2, 5, 1, 1] = .ok (pieces, d) ∧ [] ∈ pieces ∧
      d.trailing = .ok (exposed [exampleHeader]) := by
  obtain ⟨pieces, d, hreads, -, -, -, htrailing, hmem⟩ := (chunks_decoded _
    [exampleHeader] [exampleChunk] _ [2, 5, 1, 1] (by decide)).1
  exact ⟨pieces, d, hreads, hmem (by decide), htrailing (hmem (by decide))⟩

end LocalEmu.S3
