import Mathlib.Algebra.Order.Ring.Int
import QuotaService.Lib.Channel

/-! The events that the server and its endpoints emit, and their producers. A producer refers to a
channel, and the zero value of a producer to none. -/
namespace QuotaService.Events

inductive EventType
  | tokensServed
  | timeoutServingTokens
  | tooManyTokensRequested
  | bucketMiss
  | bucketCreated
  | bucketRemoved
  | serverError
  | bucketError
deriving DecidableEq

structure Event where
  eventType : EventType
  «namespace» : String
  bucketName : String
  dynamic : Bool
  numTokens : ℤ := 0
  waitTime : ℤ := 0
deriving DecidableEq

section Constructors
variable («namespace» bucketName : String) (dynamic : Bool)

def newTokensServedEvent (numTokens waitTime : ℤ) : Event :=
  ⟨.tokensServed, «namespace», bucketName, dynamic, numTokens, waitTime⟩

def newTimedOutEvent (numTokens : ℤ) : Event :=
  ⟨.timeoutServingTokens, «namespace», bucketName, dynamic, numTokens, 0⟩

def newTooManyTokensRequestedEvent (numTokens : ℤ) : Event :=
  ⟨.tooManyTokensRequested, «namespace», bucketName, dynamic, numTokens, 0⟩

def newBucketMissedEvent : Event := ⟨.bucketMiss, «namespace», bucketName, dynamic, 0, 0⟩

def newServerErrorEvent : Event := ⟨.serverError, «namespace», bucketName, dynamic, 0, 0⟩

end Constructors

/-- The channels that there are, by their numbers. -/
abbrev Channels := ℕ → Channel Event

/-- `none` is the nil channel. -/
structure EventProducer where
  c : Option ℕ := none
deriving DecidableEq

/-- A send on the nil channel is never ready, so that the event is dropped. -/
def EventProducer.emit (e : EventProducer) (channels : Channels) (event : Event) : Channels :=
  match e.c with
  | none => channels
  | some c => fun i => if i = c then (channels c).trySend event else channels i

/-- The events that one `Emit`, if there was one, has offered to a channel. -/
def EventProducer.offered (e : EventProducer) (c : ℕ) (event : Option Event) : List Event :=
  if e.c = some c then event.toList else []

/-- A producer with a channel delivers what it is given whenever the channel is ready. -/
theorem EventProducer.sent_emit {e : EventProducer} {c : ℕ} (h : e.c = some c)
    (channels : Channels) (event : Event) (hready : (channels c).Ready) :
    (e.emit channels event c).sent = (channels c).sent ++ [event] := by
  simp only [emit, h, if_true]
  rw [Channel.sent_trySend, if_pos hready]

end QuotaService.Events
