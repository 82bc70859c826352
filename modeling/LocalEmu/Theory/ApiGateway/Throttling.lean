import LocalEmu.Core.ApiGateway.Throttle
import Mathlib.Tactic.Linarith
import Mathlib.Tactic.Ring

/-!
# Throttled Requests

A bucket admits no more requests in a time than its burst and what its rate adds, and it refuses
none that it could admit. What proves the first is the number of tokens together with what is added
until the end of the time; for the second it is the last time at which the bucket was full.

The handler keeps the requests of different stages apart. But the limits it applies are those of
the first request to a stage, and where a limit is zero it applies the default.
-/

namespace LocalEmu.ApiGateway

open List

/-! ### Buckets -/

namespace TokenBucket

/-- The times of requests, and which of them are admitted. -/
def log : TokenBucket → List ℚ → List (ℚ × Bool)
  | _, [] => []
  | bucket, now :: times => (now, (bucket.consume now).1) :: (bucket.consume now).2.log times

variable (bucket : TokenBucket) (times : List ℚ)

/-- A bucket after some requests. -/
def after : TokenBucket :=
  times.foldl (fun bucket now => (bucket.consume now).2) bucket

variable (log : List (ℚ × Bool))

/-- The requests that were admitted in a time. -/
def admitted (start stop : ℚ) : Nat :=
  log.countP fun entry => decide (start ≤ entry.1 ∧ entry.1 ≤ stop) && entry.2

/-- Times that do not go back, from the last refill of a bucket on. -/
def Ordered : Prop :=
  (bucket.lastRefill :: times).Pairwise (· ≤ ·)

/-- A bucket with limits that are not negative and tokens between zero and its burst. -/
structure Valid (bucket : TokenBucket) : Prop where
  rate : 0 ≤ bucket.rate
  burst : 0 ≤ bucket.burst
  nonneg : 0 ≤ bucket.tokens
  le_burst : bucket.tokens ≤ bucket.burst

/-- What one request does: the tokens and the request that was admitted make up what there was and
    what was added, if this is less than the burst. -/
structure Consumed (bucket : TokenBucket) (now : ℚ) (result : Bool × TokenBucket) : Prop where
  rate : result.2.rate = bucket.rate
  burst : result.2.burst = bucket.burst
  lastRefill : result.2.lastRefill = now
  tokens : result.2.tokens + (if result.1 then 1 else 0) =
    min bucket.burst (bucket.tokens + (now - bucket.lastRefill) * bucket.rate)
  admitted : result.1 = true ↔
    1 ≤ min bucket.burst (bucket.tokens + (now - bucket.lastRefill) * bucket.rate)

theorem consume_consumed (now : ℚ) : Consumed bucket now (bucket.consume now) := by
  unfold consume
  by_cases hone : 1 ≤ (bucket.refill now).tokens
  · rw [if_pos hone]
    refine ⟨rfl, rfl, rfl, ?_, iff_of_true rfl hone⟩
    simp [refill]
  · rw [if_neg hone]
    refine ⟨rfl, rfl, rfl, ?_, iff_of_false Bool.false_ne_true hone⟩
    simp [refill]

theorem Valid.consume {bucket : TokenBucket} (h : Valid bucket) (now : ℚ)
    (hnow : bucket.lastRefill ≤ now) : Valid (bucket.consume now).2 := by
  have hc := consume_consumed bucket now
  have hadded : 0 ≤ (now - bucket.lastRefill) * bucket.rate :=
    mul_nonneg (sub_nonneg.mpr hnow) h.rate
  have hfilled : 0 ≤ min bucket.burst (bucket.tokens + (now - bucket.lastRefill) * bucket.rate) :=
    le_min h.burst (add_nonneg h.nonneg hadded)
  refine ⟨hc.rate ▸ h.rate, hc.burst ▸ h.burst, ?_, ?_⟩
  · have htokens := hc.tokens
    by_cases hadmitted : (bucket.consume now).1 = true
    · have hone := hc.admitted.mp hadmitted
      rw [if_pos hadmitted] at htokens
      linarith
    · rw [if_neg hadmitted, add_zero] at htokens
      rw [htokens]
      exact hfilled
  · have htokens := hc.tokens
    have hle := min_le_left bucket.burst (bucket.tokens + (now - bucket.lastRefill) * bucket.rate)
    rw [hc.burst]
    split at htokens <;> linarith

theorem Ordered.head {bucket : TokenBucket} {now : ℚ} {times : List ℚ}
    (h : Ordered bucket (now :: times)) : bucket.lastRefill ≤ now :=
  (pairwise_cons.mp h).1 now mem_cons_self

theorem Ordered.tail {bucket : TokenBucket} {now : ℚ} {times : List ℚ}
    (h : Ordered bucket (now :: times)) : Ordered (bucket.consume now).2 times := by
  unfold Ordered
  rw [(consume_consumed _ _).lastRefill]
  exact (pairwise_cons.mp h).2

theorem Ordered.lt_of_head {bucket : TokenBucket} {now stop : ℚ} {times : List ℚ}
    (h : Ordered bucket (now :: times)) (hnow : stop < now) : ∀ t ∈ now :: times, stop < t := by
  intro t ht
  rcases mem_cons.mp ht with rfl | ht
  · exact hnow
  · exact lt_of_lt_of_le hnow ((pairwise_cons.mp (pairwise_cons.mp h).2).1 t ht)

theorem Valid.after {bucket : TokenBucket} (h : Valid bucket) (times : List ℚ)
    (hordered : Ordered bucket times) : Valid (bucket.after times) := by
  induction times generalizing bucket with
  | nil => exact h
  | cons now times ih => exact ih (h.consume _ hordered.head) hordered.tail

@[simp]
theorem admitted_cons (now : ℚ) (ok : Bool) (log : List (ℚ × Bool)) (start stop : ℚ) :
    admitted ((now, ok) :: log) start stop =
      admitted log start stop + if (start ≤ now ∧ now ≤ stop) ∧ ok = true then 1 else 0 := by
  rw [admitted, countP_cons]
  simp [admitted]

theorem admitted_append (log' : List (ℚ × Bool)) (start stop : ℚ) :
    admitted (log ++ log') start stop = admitted log start stop + admitted log' start stop :=
  countP_append

theorem admitted_log_of_lt (start stop : ℚ)
    (h : ∀ now ∈ times, stop < now) : admitted (bucket.log times) start stop = 0 := by
  induction times generalizing bucket with
  | nil => rfl
  | cons now times ih =>
    rw [log, admitted_cons, ih _ fun t ht => h t (mem_cons_of_mem _ ht)]
    have hnow := h _ mem_cons_self
    rw [if_neg fun hin => absurd hin.1.2 (not_le.mpr hnow)]

theorem counted_le (p : Prop) [Decidable p] (ok : Bool) :
    ((if p ∧ ok = true then 1 else 0 : Nat) : ℚ) ≤ if ok = true then 1 else 0 := by
  by_cases hok : ok = true
  · rw [if_pos hok]
    split <;> simp
  · rw [if_neg hok, if_neg fun hboth => hok hboth.2]
    exact le_of_eq Nat.cast_zero

theorem admitted_le_potential {bucket : TokenBucket} (h : Valid bucket) (times : List ℚ)
    (hordered : Ordered bucket times) (start stop : ℚ) (hstop : bucket.lastRefill ≤ stop) :
    (admitted (bucket.log times) start stop : ℚ) ≤
      bucket.tokens + bucket.rate * (stop - bucket.lastRefill) := by
  induction times generalizing bucket with
  | nil =>
    have hadded := mul_nonneg h.rate (sub_nonneg.mpr hstop)
    have hnonneg := h.nonneg
    simp only [log, admitted, countP_nil, Nat.cast_zero]
    linarith
  | cons now times ih =>
    have hc := consume_consumed bucket now
    by_cases hnow : now ≤ stop
    · have hrest := ih (h.consume now hordered.head) hordered.tail (by
        rw [hc.lastRefill]
        exact hnow)
      have htokens := hc.tokens
      have hle := min_le_right bucket.burst
        (bucket.tokens + (now - bucket.lastRefill) * bucket.rate)
      rw [hc.rate, hc.lastRefill] at hrest
      rw [log, admitted_cons, Nat.cast_add]
      have hcount := counted_le (start ≤ now ∧ now ≤ stop) (bucket.consume now).1
      linarith
    · rw [admitted_log_of_lt _ _ _ _ (hordered.lt_of_head (not_le.mp hnow))]
      exact add_nonneg h.nonneg (mul_nonneg h.rate (sub_nonneg.mpr hstop))

theorem admitted_le {bucket : TokenBucket} (h : Valid bucket) (times : List ℚ)
    (hordered : Ordered bucket times) (start length : ℚ) (hlength : 0 ≤ length) :
    (admitted (bucket.log times) start (start + length) : ℚ) ≤
      bucket.burst + bucket.rate * length := by
  induction times generalizing bucket with
  | nil =>
    have hadded := mul_nonneg h.rate hlength
    have hburst := h.burst
    simp only [log, admitted, countP_nil, Nat.cast_zero]
    linarith
  | cons now times ih =>
    have hc := consume_consumed bucket now
    by_cases hnow : start ≤ now
    · -- From here on all the requests are after the start, so the potential counts them.
      by_cases hstop : now ≤ start + length
      · have hrest := admitted_le_potential (h.consume _ hordered.head) _ hordered.tail start
          (start + length) (by rw [hc.lastRefill]; exact hstop)
        have htokens := hc.tokens
        have hle := min_le_left bucket.burst
          (bucket.tokens + (now - bucket.lastRefill) * bucket.rate)
        have hcount := counted_le (start ≤ now ∧ now ≤ start + length) (bucket.consume now).1
        have hadd : bucket.rate * (start + length - now) ≤ bucket.rate * length :=
          mul_le_mul_of_nonneg_left (by linarith) h.rate
        rw [hc.rate, hc.lastRefill] at hrest
        rw [log, admitted_cons, Nat.cast_add]
        linarith
      · rw [admitted_log_of_lt _ _ _ _ (hordered.lt_of_head (not_le.mp hstop))]
        exact add_nonneg h.burst (mul_nonneg h.rate hlength)
    · have hrest := ih (h.consume _ hordered.head) hordered.tail
      rw [log, admitted_cons, if_neg fun hin => hnow hin.1.1, ← hc.burst, ← hc.rate]
      exact hrest

theorem after_concat (now : ℚ) :
    bucket.after (times ++ [now]) = ((bucket.after times).consume now).2 := by
  rw [after, foldl_append]
  rfl

theorem log_append (times' : List ℚ) :
    bucket.log (times ++ times') = bucket.log times ++ (bucket.after times).log times' := by
  induction times generalizing bucket with
  | nil => rfl
  | cons now times ih =>
    rw [cons_append, log, ih, log]
    rfl

theorem lastRefill_after : (bucket.after times).lastRefill ∈ bucket.lastRefill :: times := by
  induction times using reverseRecOn with
  | nil => exact mem_cons_self
  | append_singleton =>
    rw [after_concat, (consume_consumed _ _).lastRefill]
    simp

theorem Ordered.concat {bucket : TokenBucket} {now : ℚ} {times : List ℚ}
    (h : Ordered bucket (times ++ [now])) :
    Ordered bucket times ∧ (bucket.after times).lastRefill ≤ now := by
  have happend : ((bucket.lastRefill :: times) ++ [now]).Pairwise (· ≤ ·) := h
  rw [pairwise_append] at happend
  exact ⟨happend.1, happend.2.2 _ (lastRefill_after _ _) now mem_cons_self⟩

theorem admitted_mono (start stop stop' : ℚ) (h : stop ≤ stop') :
    admitted log start stop ≤ admitted log start stop' := by
  refine countP_mono_left fun entry _ hin => ?_
  rw [Bool.and_eq_true, decide_eq_true_iff] at hin ⊢
  exact ⟨⟨hin.1.1, le_trans hin.1.2 h⟩, hin.2⟩

theorem admitted_concat (now start : ℚ) (hstart : start ≤ now) :
    (admitted (bucket.log (times ++ [now])) start now : ℚ) = admitted (bucket.log times) start now +
      if ((bucket.after times).consume now).1 = true then 1 else 0 := by
  rw [log_append, admitted_append, log, admitted_cons, Nat.cast_add]
  by_cases hok : ((bucket.after times).consume now).1 = true
  · rw [if_pos ⟨⟨hstart, le_refl _⟩, hok⟩, if_pos hok]
    simp [log, admitted]
  · rw [if_neg fun hin => hok hin.2, if_neg hok]
    simp [log, admitted]

/-- A bucket that was full at some time: what it lacks now was admitted since then. -/
def FullSince (start : ℚ) (log : List (ℚ × Bool)) (bucket : TokenBucket) : Prop :=
  ∃ full, start ≤ full ∧ full ≤ bucket.lastRefill ∧
    bucket.burst + bucket.rate * (bucket.lastRefill - full) ≤
      bucket.tokens + admitted log full bucket.lastRefill

theorem fullSince_after (rate burst start : ℚ) (times : List ℚ)
    (hordered : Ordered (.new rate burst start) times) :
    FullSince start ((TokenBucket.new rate burst start).log times)
      ((TokenBucket.new rate burst start).after times) := by
  induction times using reverseRecOn with
  | nil =>
    refine ⟨start, le_refl _, le_refl _, ?_⟩
    simp [after, new, log, admitted]
  | append_singleton times now ih =>
    rcases hordered.concat with ⟨hbefore, hnow⟩
    rcases ih hbefore with ⟨full, hstart, hfull, hlack⟩
    have hc := consume_consumed ((TokenBucket.new rate burst start).after times) now
    have htokens := hc.tokens
    rw [after_concat]
    rcases le_total ((TokenBucket.new rate burst start).after times).burst _ with hcapped | hfilled
    · refine ⟨now, le_trans hstart (le_trans hfull hnow), le_of_eq hc.lastRefill.symm, ?_⟩
      rw [min_eq_left hcapped] at htokens
      rw [hc.lastRefill, admitted_concat _ times _ _ (le_refl _), hc.burst, sub_self]
      linarith
    · have hfullnow := le_trans hfull hnow
      refine ⟨full, hstart, by rw [hc.lastRefill]; exact hfullnow, ?_⟩
      rw [min_eq_right hfilled] at htokens
      rw [hc.lastRefill, admitted_concat _ _ _ _ hfullnow, hc.burst, hc.rate]
      have hmono : (admitted ((TokenBucket.new rate burst start).log times) full
          ((TokenBucket.new rate burst start).after times).lastRefill : ℚ) ≤
          admitted ((TokenBucket.new rate burst start).log times) full now :=
        Nat.cast_le.mpr (admitted_mono _ _ _ _ hnow)
      linarith

theorem limits_after :
    (bucket.after times).rate = bucket.rate ∧ (bucket.after times).burst = bucket.burst := by
  induction times generalizing bucket with
  | nil => exact ⟨rfl, rfl⟩
  | cons now times ih =>
    have hc := consume_consumed bucket now
    rcases ih (bucket.consume now).2 with ⟨hrate, hburst⟩
    exact ⟨hrate.trans hc.rate, hburst.trans hc.burst⟩

theorem exists_length_of_refused (rate burst start : ℚ) (times : List ℚ) (now : ℚ)
    (hordered : Ordered (.new rate burst start) (times ++ [now]))
    (hrefused : (((TokenBucket.new rate burst start).after times).consume now).1 = false) :
    ∃ length, 0 ≤ length ∧ start ≤ now - length ∧ burst + rate * length <
      admitted ((TokenBucket.new rate burst start).log times) (now - length) now + 1 := by
  set bucket := (TokenBucket.new rate burst start).after times
  rcases fullSince_after _ _ _ _ hordered with ⟨full, hstart, hfull, hlack⟩
  have hc := consume_consumed bucket now
  have hlimits := limits_after (TokenBucket.new rate burst start) times
  have hempty : ¬1 ≤ min bucket.burst
      (bucket.tokens + (now - bucket.lastRefill) * bucket.rate) := by
    rw [← hc.admitted, hrefused]
    exact Bool.false_ne_true
  have htokens := hc.tokens
  rw [hrefused, if_neg Bool.false_ne_true] at htokens
  rw [after_concat, hc.lastRefill] at hfull hlack
  rw [admitted_concat _ _ _ _ hfull, hrefused, if_neg Bool.false_ne_true, hc.burst, hc.rate,
    hlimits.1, hlimits.2] at hlack
  refine ⟨now - full, sub_nonneg.mpr hfull, by rw [sub_sub_cancel]; exact hstart, ?_⟩
  rw [sub_sub_cancel]
  change burst + rate * (now - full) ≤ _ at hlack
  linarith [not_le.mp hempty]

end TokenBucket

/-- What a bucket should do with requests: what it admits is bounded in every time, its tokens are,
    and it refuses nothing that it could admit. -/
structure BucketLaw (rate burst start : ℚ) (times : List ℚ) : Prop where
  bounded : ∀ opening length, 0 ≤ length →
    (TokenBucket.admitted ((TokenBucket.new rate burst start).log times) opening
      (opening + length) :
      ℚ) ≤ burst + rate * length
  tokens : ∀ before rest, times = before ++ rest →
    0 ≤ ((TokenBucket.new rate burst start).after before).tokens ∧
      ((TokenBucket.new rate burst start).after before).tokens ≤ burst
  maximal : ∀ before now rest, times = before ++ now :: rest →
    (((TokenBucket.new rate burst start).after before).consume now).1 = false →
    ∃ length, 0 ≤ length ∧ start ≤ now - length ∧ burst + rate * length <
      TokenBucket.admitted ((TokenBucket.new rate burst start).log before) (now - length) now + 1

/-- Every bucket does what it should. -/
theorem bucketLaw {rate burst : ℚ} (hrate : 0 ≤ rate) (hburst : 0 ≤ burst) (start : ℚ)
    (times : List ℚ) (hordered : (start :: times).Pairwise (· ≤ ·)) :
    BucketLaw rate burst start times := by
  have hvalid : TokenBucket.Valid (.new rate burst start) := ⟨hrate, hburst, hburst, le_refl _⟩
  refine ⟨fun opening length hlength => ?_, fun before rest heq => ?_,
    fun before now rest heq hrefused => ?_⟩
  · exact TokenBucket.admitted_le hvalid _ hordered _ _ hlength
  · subst heq
    have hbefore := hvalid.after _
      (hordered.sublist (sublist_append_left (start :: before) rest))
    have hlimits := TokenBucket.limits_after (.new rate burst start) before
    exact ⟨hbefore.nonneg, hbefore.le_burst.trans (le_of_eq hlimits.2)⟩
  · have hsplit : start :: times = (start :: (before ++ [now])) ++ rest := by
      rw [heq]
      simp
    rw [hsplit] at hordered
    exact TokenBucket.exists_length_of_refused _ _ _ _ _
      (hordered.sublist (sublist_append_left _ rest)) hrefused

/-! ### The handler -/

/-- The limits that are configured for the stage when a request arrives. -/
def Invocation.limitsInForce (context : Invocation) : ℚ × ℚ :=
  (context.defaultSettings.throttlingRateLimit.getD defaultRateLimit,
    ((context.defaultSettings.throttlingBurstLimit.getD defaultBurstLimit : ℤ) : ℚ))

namespace ThrottleHandler

def decisions : ThrottleHandler → List Invocation → List (Invocation × Bool)
  | _, [] => []
  | buckets, context :: contexts =>
    (context, (ThrottleHandler.call buckets context).1) ::
      decisions (ThrottleHandler.call buckets context).2 contexts

/-- The buckets after some requests. -/
def after (buckets : ThrottleHandler) (contexts : List Invocation) : ThrottleHandler :=
  contexts.foldl (fun buckets context => (ThrottleHandler.call buckets context).2) buckets

def requestsTo (key : Text × Text) (contexts : List Invocation) : List Invocation :=
  contexts.filter fun context => decide (context.bucketKey = key)

/-- The requests to one stage, and which of them are admitted. -/
def decisionsTo (key : Text × Text) (contexts : List Invocation) : List (Invocation × Bool) :=
  (decisions .empty contexts).filter fun entry => decide (entry.1.bucketKey = key)

/-- The bucket that a request takes a token from. -/
def bucketOf (before : List Invocation) (context : Invocation) : TokenBucket :=
  getOrCreateBucket (after .empty before) context

end ThrottleHandler

open ThrottleHandler

/-- What the handler should do: its buckets do what they should, requests to other stages do not
    matter, and the limits are those that are configured. -/
structure ThrottleLaw (contexts : List Invocation) : Prop where
  buckets : ∀ (rate burst start : ℚ) (times : List ℚ), 0 ≤ rate → 0 ≤ burst →
    (start :: times).Pairwise (· ≤ ·) → BucketLaw rate burst start times
  isolated : ∀ key, decisionsTo key contexts = decisions .empty (requestsTo key contexts)
  lifted : ∀ key first rest, requestsTo key contexts = first :: rest →
    (decisionsTo key contexts).map (fun entry => (entry.1.now, entry.2)) =
      (TokenBucket.new first.limitsInForce.1 first.limitsInForce.2 first.now).log
        ((first :: rest).map Invocation.now)
  limits : ∀ before context rest, contexts = before ++ context :: rest →
    ((bucketOf before context).rate, (bucketOf before context).burst) = context.limitsInForce

/-- The limits in force for a request are those that were read for the first request to its
    stage. -/
def LimitsKept (contexts : List Invocation) : Prop :=
  ∀ before context rest, contexts = before ++ context :: rest →
    ∀ first more, requestsTo context.bucketKey (before ++ [context]) = first :: more →
      first.limits = context.limitsInForce

section Handler

variable (buckets : ThrottleHandler) (key : Text × Text)

variable (contexts : List Invocation) (context : Invocation)

theorem get?_call : (ThrottleHandler.call buckets context).2.get? key =
      if key = context.bucketKey then
        some ((getOrCreateBucket buckets context).consume context.now).2
      else buckets.get? key :=
  Dict.get?_set _ _ _ _

theorem decisions_eq_of_get? (buckets' : ThrottleHandler)
    (h : buckets.get? key = buckets'.get? key) :
    (decisions buckets contexts).filter (fun entry => decide (entry.1.bucketKey = key)) =
      decisions buckets' (requestsTo key contexts) := by
  induction contexts generalizing buckets buckets' with
  | nil => rfl
  | cons context contexts ih =>
    rw [decisions, requestsTo]
    by_cases hkey : context.bucketKey = key
    · have hbucket : getOrCreateBucket buckets context = getOrCreateBucket buckets' context := by
        rw [getOrCreateBucket, getOrCreateBucket, hkey, h]
      rw [filter_cons_of_pos (by simpa using hkey),
        filter_cons_of_pos (by simpa using hkey), decisions]
      have hrest := ih (ThrottleHandler.call buckets context).2
        (ThrottleHandler.call buckets' context).2 (by rw [get?_call, get?_call, hbucket, h])
      rw [requestsTo] at hrest
      rw [hrest]
      unfold ThrottleHandler.call
      rw [hbucket]
    · have hother : (ThrottleHandler.call buckets context).2.get? key = buckets'.get? key := by
        rw [get?_call, if_neg (Ne.symm hkey), h]
      rw [filter_cons_of_neg (by simpa using hkey),
        filter_cons_of_neg (by simpa using hkey)]
      exact ih _ _ hother

theorem decisionsTo_eq : decisionsTo key contexts = decisions .empty (requestsTo key contexts) :=
  decisions_eq_of_get? .empty _ _ .empty rfl

theorem decisions_eq_log (hkey : ∀ context ∈ contexts, context.bucketKey = key)
    (bucket : TokenBucket)
    (h : buckets.get? key = some bucket) :
    (decisions buckets contexts).map (fun entry => (entry.1.now, entry.2)) =
      bucket.log (contexts.map Invocation.now) := by
  induction contexts generalizing buckets bucket with
  | nil => rfl
  | cons context contexts ih =>
    have hfirst := hkey _ mem_cons_self
    have hbucket : getOrCreateBucket buckets context = bucket := by
      rw [getOrCreateBucket, hfirst, h, Option.getD_some]
    have hnext : (ThrottleHandler.call buckets context).2.get? key =
        some (bucket.consume context.now).2 := by
      rw [get?_call, if_pos hfirst.symm, hbucket]
    have hrest := ih _ (fun context' hmem => hkey _ (mem_cons_of_mem _ hmem)) _ hnext
    rw [decisions, map_cons, hrest, map_cons, TokenBucket.log]
    unfold ThrottleHandler.call
    rw [hbucket]

theorem decisions_first (first : Invocation) (rest : List Invocation)
    (hkey : ∀ context ∈ first :: rest, context.bucketKey = key) :
    (decisions .empty (first :: rest)).map (fun entry => (entry.1.now, entry.2)) =
      (TokenBucket.new first.limits.1 first.limits.2 first.now).log
        ((first :: rest).map Invocation.now) := by
  have hfirst := hkey _ mem_cons_self
  have hbucket : getOrCreateBucket .empty first =
      .new first.limits.1 first.limits.2 first.now := rfl
  have hnext : (ThrottleHandler.call .empty first).2.get? key =
      some ((TokenBucket.new first.limits.1 first.limits.2 first.now).consume first.now).2 := by
    rw [get?_call, if_pos hfirst.symm, hbucket]
  have hrest := decisions_eq_log (ThrottleHandler.call .empty first).2 _ _
    (fun context hmem => hkey _ (mem_cons_of_mem _ hmem)) _ hnext
  rw [decisions, map_cons, hrest]
  rfl

theorem requestsTo_concat : requestsTo key (contexts ++ [context]) =
      requestsTo key contexts ++ if context.bucketKey = key then [context] else [] := by
  rw [requestsTo, filter_append]
  by_cases hkey : context.bucketKey = key
  · rw [if_pos hkey, filter_cons_of_pos (by simpa using hkey)]
    rfl
  · rw [if_neg hkey, filter_cons_of_neg (by simpa using hkey)]
    rfl

theorem after_concat : after buckets (contexts ++ [context]) =
      (ThrottleHandler.call (after buckets contexts) context).2 := by
  rw [ThrottleHandler.after, foldl_append]
  rfl

/-- The bucket of a stage has the limits of the first request to it. -/
def HasLimitsOf (requests : List Invocation) (bucket : Option TokenBucket) : Prop :=
  match requests with
  | [] => bucket = none
  | first :: _ => ∃ b, bucket = some b ∧ (b.rate, b.burst) = first.limits

theorem hasLimitsOf_after :
    HasLimitsOf (requestsTo key contexts) ((after .empty contexts).get? key) := by
  induction contexts using reverseRecOn with
  | nil => rfl
  | append_singleton contexts context ih =>
    rw [requestsTo_concat, after_concat, get?_call]
    by_cases hkey : context.bucketKey = key
    · rw [if_pos hkey, if_pos hkey.symm]
      have hc := TokenBucket.consume_consumed
        (getOrCreateBucket (after .empty contexts) context) context.now
      cases hrequests : requestsTo key contexts with
      | nil =>
        rw [hrequests, ← hkey] at ih
        have hbucket : getOrCreateBucket (after .empty contexts) context =
            .new context.limits.1 context.limits.2 context.now := by
          rw [getOrCreateBucket, ih]
          rfl
        refine ⟨_, rfl, ?_⟩
        rw [hc.rate, hc.burst, hbucket]
        rfl
      | cons =>
        rw [hrequests] at ih
        rcases ih with ⟨bucket, hbucket, hlimits⟩
        have hfound : getOrCreateBucket (after .empty contexts) context = bucket := by
          rw [getOrCreateBucket, hkey, hbucket, Option.getD_some]
        refine ⟨_, rfl, ?_⟩
        rw [hc.rate, hc.burst, hfound]
        exact hlimits
    · rw [if_neg hkey, if_neg (Ne.symm hkey), append_nil]
      exact ih

theorem limits_bucketOf (before : List Invocation) (context : Invocation) :
    ∃ first more, requestsTo context.bucketKey (before ++ [context]) = first :: more ∧
      ((bucketOf before context).rate, (bucketOf before context).burst) = first.limits := by
  have hlimits := hasLimitsOf_after context.bucketKey before
  rw [requestsTo_concat, if_pos rfl, bucketOf, getOrCreateBucket]
  cases hrequests : requestsTo context.bucketKey before with
  | nil =>
    rw [hrequests] at hlimits
    rw [hlimits]
    exact ⟨context, [], rfl, rfl⟩
  | cons first more =>
    rw [hrequests] at hlimits
    rcases hlimits with ⟨bucket, hbucket, hlimits⟩
    rw [hbucket]
    exact ⟨first, more ++ [context], rfl, hlimits⟩

end Handler

/-- The handler does what it should exactly if the limits of a stage are always those that were
    read for the first request to it. -/
theorem throttle_iff (contexts : List Invocation) :
    ThrottleLaw contexts ↔ LimitsKept contexts := by
  constructor
  · intro hlaw before context rest heq first more hfirst
    rcases limits_bucketOf _ _ with ⟨first', more', hfirst', hlimits⟩
    rw [hfirst, cons.injEq] at hfirst'
    rw [hfirst'.1, ← hlimits]
    exact hlaw.limits _ _ _ heq
  · intro hkept
    refine ⟨fun rate burst start times hrate hburst hordered =>
      bucketLaw hrate hburst _ _ hordered, fun key => decisionsTo_eq _ _, ?_, ?_⟩
    · intro key first rest hfirst
      have hkey : ∀ context ∈ first :: rest, context.bucketKey = key := by
        intro context hmem
        rw [← hfirst] at hmem
        exact of_decide_eq_true (mem_filter.mp hmem).2
      rcases filter_eq_cons_iff.mp hfirst with ⟨before, later, heq, hbefore, -, -⟩
      have honly : requestsTo first.bucketKey (before ++ [first]) = [first] := by
        have hnone : requestsTo key before = [] :=
          filter_eq_nil_iff.mpr fun context hmem => hbefore _ hmem
        rw [hkey _ mem_cons_self, requestsTo_concat, hnone, if_pos (hkey _ mem_cons_self)]
        rfl
      rw [decisionsTo_eq, hfirst, decisions_first _ _ _ hkey, hkept _ _ _ heq _ [] honly]
    · intro before context rest heq
      rcases limits_bucketOf _ _ with ⟨first, more, hfirst, hlimits⟩
      rw [hlimits]
      exact hkept _ _ _ heq _ _ hfirst

/-! ### A limit of zero -/

/-- A request to a stage that admits nothing. -/
def blocked : Invocation :=
  ⟨some "api".toList, some "prod".toList,
    some (.ofEntries [("*/*".toList, ⟨some 1, some 0⟩)]), 0⟩

/-- A stage whose burst is zero has the default. -/
theorem zero_burst_ignored : ¬∀ contexts, ThrottleLaw contexts := by
  intro hall
  have hlimits := congrArg Prod.snd ((hall [blocked]).limits [] blocked [] rfl)
  exact absurd hlimits (by decide +kernel)

end LocalEmu.ApiGateway
