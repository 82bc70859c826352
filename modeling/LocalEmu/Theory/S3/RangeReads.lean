import LocalEmu.Core.S3.Range

/-!
# What A Range Reads

Both parsers return a range inside the object, and the limited stream has the bytes of the
range, whatever the chunks are.
-/

namespace LocalEmu.S3.Range

open List Option

/-- The range lies in an object of the size, and its length is that of the interval. -/
structure ObjectRange.Inside (range : ObjectRange) (objectSize : Nat) : Prop where
  begin_nonneg : 0 ≤ range.begin
  begin_le : range.begin ≤ range.end
  end_le : range.end ≤ objectSize - 1
  length : range.contentLength = range.end - range.begin + 1

variable {py : Integers} {header : Text} {objectSize : Nat}

theorem not_mem_of_mem_splitOn (c : Char) (text part : Text) (h : part ∈ text.splitOn c) :
    c ∉ part := by
  induction text generalizing part with
  | nil =>
    rw [splitOn_nil, mem_singleton] at h
    simp [h]
  | cons x text ih =>
    rw [splitOn_cons_eq_if_modifyHead] at h
    cases hsplit : text.splitOn c with
    | nil => exact absurd hsplit (splitOn_ne_nil c _)
    | cons =>
      rw [hsplit] at h ih
      by_cases hx : (x == c) = true
      · rw [if_pos hx] at h
        rcases mem_cons.mp h with rfl | h
        · simp
        · exact ih _ h
      · rw [if_neg hx] at h
        rcases mem_cons.mp h with rfl | h
        · have hfirst := ih _ mem_cons_self
          have hne : c ≠ x := fun heq => hx (beq_iff_eq.mpr heq.symm)
          simp [hne, hfirst]
        · exact ih _ (mem_cons_of_mem _ h)

-- The numbers of a header are not negative, because the minus sign separates them.
theorem rangeBounds_nonneg {first last : Option Int}
    (h : rangeBounds py header = some (first, last)) :
    (∀ b ∈ first, 0 ≤ b) ∧ ∀ e ∈ last, 0 ≤ e := by
  have hbound : ∀ part value, '-' ∉ part → bound py part = some value → ∀ n ∈ value, 0 ≤ n := by
    intro part value hpart hvalue n hn
    rw [bound] at hvalue
    split at hvalue
    · cases hvalue
      cases hn
    · obtain ⟨m, hm, rfl⟩ := map_eq_some_iff.mp hvalue
      cases hn
      exact py.int_nonneg part n hpart hm
  rw [rangeBounds] at h
  split at h
  · next rspec _ =>
      split at h
      · cases h
      · split at h
        · next a b hparts =>
            obtain ⟨first', ha, h⟩ := bind_eq_some_iff.mp h
            obtain ⟨last', hb, h⟩ := map_eq_some_iff.mp h
            cases h
            exact ⟨hbound a _ (not_mem_of_mem_splitOn '-' rspec a (by simp [hparts])) ha,
              hbound b _ (not_mem_of_mem_splitOn '-' rspec b (by simp [hparts])) hb⟩
        · cases h
  · cases h

theorem objectRange_inside {b e : Int} (hb : 0 ≤ b) (hle : b ≤ e) (he : e ≤ objectSize - 1) :
    (objectRange b e objectSize).Inside objectSize :=
  ⟨hb, hle, he, rfl⟩

theorem parseRangeHeader_cases (range : ObjectRange)
    (h : parseRangeHeader py header objectSize = .ok (some range)) :
    range.Inside objectSize ∧ ∃ first last, rangeBounds py header = some (first, last) ∧
      ∀ b e, first = some b → last = some e →
        range = objectRange b (min e (objectSize - 1)) objectSize := by
  rw [parseRangeHeader] at h
  rcases hbounds : rangeBounds py header with _ | ⟨first, last⟩
  · simp [hbounds] at h
  · have hnonneg := rangeBounds_nonneg hbounds
    simp only [hbounds] at h
    split at h
    · cases h
    · next hsat =>
        obtain ⟨⟨b, e⟩, hfilled, h⟩ := bind_eq_some_iff.mp (Except.ok.inj h)
        split at h
        · cases h
        · next hle =>
            cases h
            have hle : b ≤ e ∧ b ≤ (objectSize : Int) - 1 := by omega
            -- which of the two numbers are there
            cases first with
            | none =>
              cases last with
              | none => cases hfilled
              | some last =>
                cases hfilled
                exact ⟨objectRange_inside (by omega) hle.1 (by omega), none, some last, rfl,
                  fun _ _ hfirst => by cases hfirst⟩
            | some =>
              have hfirst := hnonneg.1 _ rfl
              cases last with
              | none =>
                cases hfilled
                exact ⟨objectRange_inside hfirst hle.1 (by omega), some b, none, rfl,
                  fun _ _ _ hlast => by cases hlast⟩
              | some last =>
                cases hfilled
                refine ⟨objectRange_inside hfirst hle.1 (by omega), some b, some last, rfl, ?_⟩
                rintro _ _ ⟨⟩ ⟨⟩
                rfl

theorem parseCopySourceRangeHeader_cases (range : ObjectRange)
    (h : parseCopySourceRangeHeader py header objectSize = .ok range) :
    range.Inside objectSize ∧ ∃ b e, rangeBounds py header = some (some b, some e) ∧
      e ≤ objectSize - 1 ∧ range = objectRange b e objectSize := by
  rw [parseCopySourceRangeHeader] at h
  split at h
  · next b e hbounds =>
      have hnonneg := rangeBounds_nonneg hbounds
      split at h
      · cases h
      · split at h
        · cases h
        · split at h
          · cases h
          · cases h
            exact ⟨objectRange_inside (hnonneg.1 b rfl) (by omega) (by omega), b, e, hbounds,
              by omega, rfl⟩
  · cases h

/-- The body. -/
theorem flatten_limitedIterableStream (chunks : List (List UInt8)) (maxLength : Nat) :
    (limitedIterableStream chunks maxLength).flatten = chunks.flatten.take maxLength := by
  induction chunks generalizing maxLength with
  | nil => simp [limitedIterableStream]
  | cons chunk chunks ih =>
    rw [limitedIterableStream, flatten_cons, take_append]
    by_cases hle : chunk.length ≤ maxLength
    · rw [if_pos hle, flatten_cons, ih, take_of_length_le hle]
    · have hzero : maxLength - chunk.length = 0 := by omega
      rw [if_neg hle, hzero, take_zero, append_nil]
      by_cases hmax : maxLength = 0
      · rw [hmax]
        rfl
      · rw [if_neg hmax, flatten_singleton]

/-- A range that is parsed lies in the object, and the body has exactly its bytes, whatever
    the chunks are. Where both parsers return a range, they agree. -/
theorem range_reads_slice (py : Integers) (header : Text) (data : List UInt8) :
    (∀ range, parseRangeHeader py header data.length = .ok (some range) →
      range.Inside data.length ∧
      ∀ chunks, chunks.flatten = data.drop range.begin.toNat →
        (limitedIterableStream chunks range.contentLength.toNat).flatten =
          (data.take (range.end.toNat + 1)).drop range.begin.toNat) ∧
    (∀ range, parseCopySourceRangeHeader py header data.length = .ok range →
      range.Inside data.length) ∧
    ∀ range range', parseRangeHeader py header data.length = .ok (some range) →
      parseCopySourceRangeHeader py header data.length = .ok range' → range = range' := by
  refine ⟨fun range h => ?_, fun range h => (parseCopySourceRangeHeader_cases _ h).1,
    fun range range' h h' => ?_⟩
  · have hinside := (parseRangeHeader_cases _ h).1
    refine ⟨hinside, fun chunks hchunks => ?_⟩
    have hbegin := hinside.begin_nonneg
    have hle := hinside.begin_le
    have hlength : range.contentLength.toNat = range.end.toNat + 1 - range.begin.toNat := by
      rw [hinside.length]
      omega
    rw [flatten_limitedIterableStream, hchunks, take_drop]
    congr 2
    omega
  · obtain ⟨first, last, hbounds, hrange⟩ := (parseRangeHeader_cases _ h).2
    obtain ⟨b, e, hbounds', hle, rfl⟩ := (parseCopySourceRangeHeader_cases _ h').2
    cases hbounds.symm.trans hbounds'
    rw [hrange b e rfl rfl, Int.min_eq_left hle]

def exampleIntegers : Integers where
  int := fun text => if text.all Char.isDigit then some (Nat.ofDigitChars 10 text 0) else none
  int_nonneg := by
    intro text n _ h
    split at h
    · cases h
      omega
    · cases h

theorem range_reads_of_exampleIntegers :
    ∃ range, parseRangeHeader exampleIntegers "bytes=1-9".toList 5 = .ok (some range) ∧
      range.Inside 5 ∧
      (limitedIterableStream [[2, 3], [4, 5]] range.contentLength.toNat).flatten =
        [2, 3, 4, 5] := by
  have hparse : parseRangeHeader exampleIntegers "bytes=1-9".toList 5 =
      .ok (some (objectRange 1 4 5)) := by decide +kernel
  have h := (range_reads_slice _ "bytes=1-9".toList [1, 2, 3, 4, 5]).1 _ hparse
  exact ⟨_, hparse, h.1, h.2 [[2, 3], [4, 5]] rfl⟩

end LocalEmu.S3.Range
