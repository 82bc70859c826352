import Mathlib.Algebra.Order.Ring.Rat

/-!
# Batchers

## The asynchronous batcher

Items are added to a buffer by any thread, and one thread, which runs `run`,
hands the buffer over to a handler, batch by batch. The buffer and the flag
`closed` are only written under the lock, but the handler is called outside of
it, and the loop of `run` reads `closed` outside of it too.

A step is one section under the lock, or one statement of `run` outside of it.
Waiting on the condition variable gives the lock back, so that it ends one
section and begins another.

## The batcher

Items are added and flushed by one caller, which asks whether the batch is
triggered. The clock is read by the calls, and the readings are their arguments.
A list of items is also cut into batches by the size of the items.
-/

namespace LocalEmu.Batching

/-- `AsyncBatcher`. The condition variable is `none` if `run` does not wait on
    it, and otherwise says whether `run` was notified. -/
structure AsyncBatcher (α : Type) where
  maxBatchSize : Int
  buffer : List α
  closed : Bool
  flushLock : Option Bool
  deriving DecidableEq

structure ValueError where
  message : String

namespace AsyncBatcher

variable {α : Type}

variable (b : AsyncBatcher α)

/-- `notify_all` of the condition variable. -/
def notifyAll : AsyncBatcher α :=
  { b with flushLock := b.flushLock.map fun _ => true }

def add (item : α) : Except ValueError (AsyncBatcher α) :=
  if b.closed then
    .error ⟨"Batcher is stopped, can no longer add items"⟩
  else
    let b := { b with buffer := b.buffer ++ [item] }
    .ok (if b.maxBatchSize ≤ b.buffer.length then b.notifyAll else b)

def close : AsyncBatcher α :=
  if b.closed then b else notifyAll { b with closed := true }

end AsyncBatcher

/-- Where `run` is. -/
inductive Control (α : Type)
  | notStarted
  /-- At the condition of the loop. -/
  | check
  /-- Past the condition, and not yet in possession of the lock. -/
  | acquire
  /-- In `wait`. -/
  | wait
  /-- Out of the lock, with a copy of the buffer. -/
  | flushed (batch : List α)
  /-- In the handler. -/
  | handling
  | returned
  deriving DecidableEq

/-- The batcher, the thread that runs it, and what happened so far: the batches
    the handler was called with, and the items whose `add` returned. -/
structure World (α : Type) where
  batcher : AsyncBatcher α
  control : Control α
  batches : List (List α)
  accepted : List α
  deriving DecidableEq

/-- A call of a client, or what `run` does next. -/
inductive Label (α : Type)
  | add (item : α)
  | close
  | start
  | check
  | acquire
  | wake
  | call
  | handled

namespace World

variable {α : Type}

def initial (maxBatchSize : Int) : World α :=
  ⟨⟨maxBatchSize, [], false, none⟩, .notStarted, [], []⟩

/-- `add`, and the item is among those accepted if the call returns. -/
def afterAdd (w : World α) (item : α) : World α :=
  match w.batcher.add item with
  | .ok b => { w with batcher := b, accepted := w.accepted ++ [item] }
  | .error _ => w

/-- The end of `wait`: the lock is held again, and the buffer is copied and
    cleared if there is anything in it. -/
def afterWake (w : World α) : World α :=
  if w.batcher.buffer = [] then
    { w with batcher := { w.batcher with flushLock := none }, control := .check }
  else
    { w with
      batcher := { w.batcher with flushLock := none, buffer := [] }
      control := .flushed w.batcher.buffer }

/-- One step. The handler may raise: `run` catches what it raises and goes on,
    so that there is no second way out of `handling`. -/
def step (w : World α) : Label α → Option (World α)
  | .add item => some (w.afterAdd item)
  | .close => some { w with batcher := w.batcher.close }
  | .start =>
    match w.control with
    | .notStarted => some { w with control := .check }
    | _ => none
  | .check =>
    match w.control with
    | .check => some { w with control := if w.batcher.closed then .returned else .acquire }
    | _ => none
  | .acquire =>
    match w.control with
    | .acquire => some { w with
        batcher := { w.batcher with flushLock := some false }, control := .wait }
    | _ => none
  | .wake =>
    -- A notification ends the wait, and so does the timeout.
    match w.control with
    | .wait => some w.afterWake
    | _ => none
  | .call =>
    match w.control with
    | .flushed batch => some { w with control := .handling, batches := w.batches ++ [batch] }
    | _ => none
  | .handled =>
    match w.control with
    | .handling => some { w with control := .check }
    | _ => none

end World

/-! ### The batcher -/

/-- The batcher that is called, with its calls. -/
structure Batcher (α : Type) where
  maxCount : Option Nat
  maxWindow : Option Rat
  triggered : Bool
  lastBatchTime : Rat
  batch : List α

/-- The argument of `add`: an item or a list of items. -/
inductive ItemOrItems (α : Type)
  | item (a : α)
  | items (l : List α)
  deriving DecidableEq

def ItemOrItems.toList {α : Type} : ItemOrItems α → List α
  | item a => [a]
  | items l => l

namespace Batcher

variable {α : Type}

def new (maxCount : Option Nat) (maxWindow : Option Rat) (start : Rat) : Batcher α :=
  ⟨maxCount, maxWindow, false, start, []⟩

variable (b : Batcher α)

/-- `_check_batch_policy`. A limit of zero is none. -/
def checkBatchPolicy (now : Rat) : Batcher α :=
  if b.maxCount.any fun n => n ≤ b.batch.length then { b with triggered := true }
  else if b.maxWindow.any fun w => w ≤ now - b.lastBatchTime then { b with triggered := true }
  else if b.maxCount.getD 0 = 0 ∧ b.maxWindow.getD 0 = 0 then { b with triggered := true }
  else b

/-- `is_triggered`. What it returns is the flag afterwards. -/
def isTriggered (now : Rat) : Batcher α :=
  if b.triggered then b else b.checkBatchPolicy now

/-- `add`. It returns the flag too. -/
def add (arg : ItemOrItems α) (now : Rat) : Batcher α :=
  isTriggered { b with batch := b.batch ++ arg.toList } now

/-- `flush`. The clock is read for the new window and for the check. -/
def flush (part : Bool) (now now' : Rat) : List α × Batcher α :=
  let size := if part = false ∨ b.maxCount.getD 0 = 0 then b.batch.length
    else min (b.maxCount.getD 0) b.batch.length
  (b.batch.take size, checkBatchPolicy
    { b with batch := b.batch.drop size, lastBatchTime := now, triggered := false } now')

/-- A call, with the readings of the clock. -/
inductive Call (α : Type)
  | add (arg : ItemOrItems α) (now : Rat)
  | flush (part : Bool) (now now' : Rat)
  | isTriggered (now : Rat)

def perform : Call α → List α × Batcher α
  | .add arg now => ([], b.add arg now)
  | .flush part now now' => b.flush part now now'
  | .isTriggered now => ([], b.isTriggered now)

/-- The batcher after some calls. -/
def after (calls : List (Call α)) : Batcher α :=
  calls.foldl (fun b call => (b.perform call).2) b

/-- The lists that some calls flush, one after the other. -/
def flushed (b : Batcher α) : List (Call α) → List α
  | [] => []
  | call :: calls => (b.perform call).1 ++ flushed (b.perform call).2 calls

end Batcher

/-! ### Batches by size -/

section Sizes

variable {α : Type} (size : α → Nat) (maxBytes : Nat)

/-- The inner loop of `batched_by_size`: the batch, and what the iterator still has. -/
def takeBatch (current : Nat) : List α → List α × List α
  | [] => ([], [])
  | item :: rest =>
    if current < maxBytes then
      -- The item is pushed back.
      if maxBytes < current + size item then ([], item :: rest)
      else
        (item :: (takeBatch (current + size item) rest).1,
          (takeBatch (current + size item) rest).2)
    else ([], item :: rest)

theorem takeBatch_append (current : Nat) (items : List α) :
    (takeBatch size maxBytes current items).1 ++ (takeBatch size maxBytes current items).2 =
      items := by
  induction items generalizing current with
  | nil => rfl
  | cons item rest ih =>
    rw [takeBatch]
    split
    · split
      · rfl
      · exact congrArg (item :: ·) (ih (current + size item))
    · rfl

/-- `batched_by_size`. An empty batch ends it. -/
def batchedBySize (items : List α) : List (List α) :=
  if _h : (takeBatch size maxBytes 0 items).1 = [] then []
  else (takeBatch size maxBytes 0 items).1 :: batchedBySize (takeBatch size maxBytes 0 items).2
termination_by items.length
decreasing_by
  have hlength := congrArg List.length (takeBatch_append size maxBytes 0 items)
  rw [List.length_append] at hlength
  have hpos := List.length_pos_iff.mpr _h
  omega

end Sizes

end LocalEmu.Batching
