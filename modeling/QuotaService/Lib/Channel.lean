import Mathlib.Data.List.Basic

/-! Channels with a buffer, one receiver, and senders that drop what they cannot send at once. -/

/-- A channel, with what has been received from it. The receiver waits only on an empty buffer. -/
structure Channel (α : Type*) where
  capacity : ℕ
  buffer : List α
  waiting : Bool
  received : List α
  fits : buffer.length ≤ capacity
  waits : waiting = true → buffer = []

namespace Channel
variable {α : Type*} (ch : Channel α)

def make (capacity : ℕ) : Channel α :=
  ⟨capacity, [], false, [], Nat.zero_le _, fun _ => rfl⟩

/-- A value can be sent at once. -/
def Ready : Prop := ch.waiting = true ∨ ch.buffer.length < ch.capacity

instance : Decidable ch.Ready := inferInstanceAs (Decidable (_ ∨ _))

/-- All that has been sent, in order. -/
def sent : List α := ch.received ++ ch.buffer

/-- A `select` with a default: the value is handed to a waiting receiver, or buffered, or dropped. -/
def trySend (x : α) : Channel α :=
  if hwaiting : ch.waiting = true then
    { ch with
      waiting := false
      received := ch.received ++ [x]
      waits := fun _ => ch.waits hwaiting }
  else if hroom : ch.buffer.length < ch.capacity then
    { ch with
      buffer := ch.buffer ++ [x]
      fits := by rw [List.length_append, List.length_singleton]; omega
      waits := fun h => absurd h hwaiting }
  else ch

/-- The receiver takes the first value, or begins to wait. -/
def receive : Channel α :=
  match h : ch.buffer with
  | [] => { ch with
      buffer := []
      waiting := true
      fits := Nat.zero_le _
      waits := fun _ => rfl }
  | x :: xs => { ch with
      buffer := xs
      received := ch.received ++ [x]
      fits := by
        have hfits := ch.fits
        rw [h, List.length_cons] at hfits
        omega
      waits := fun hwaiting => by
        rw [ch.waits hwaiting] at h
        cases h }

theorem sent_trySend (x : α) :
    (ch.trySend x).sent = if ch.Ready then ch.sent ++ [x] else ch.sent := by
  unfold trySend Ready sent
  by_cases hwaiting : ch.waiting = true
  · simp [hwaiting, ch.waits hwaiting]
  · by_cases hroom : ch.buffer.length < ch.capacity <;> simp [hwaiting, hroom]

/-- Receiving neither adds nor loses a value. -/
@[simp] theorem sent_receive : ch.receive.sent = ch.sent := by
  unfold receive sent
  split
  · rename_i hbuffer
    simp [hbuffer]
  · rename_i hbuffer
    simp [hbuffer]

theorem received_prefix_sent : ch.received <+: ch.sent := List.prefix_append _ _

theorem received_prefix_trySend (x : α) : ch.received <+: (ch.trySend x).received := by
  unfold trySend
  split_ifs
  · exact List.prefix_append _ _
  · exact List.prefix_rfl
  · exact List.prefix_rfl

theorem received_prefix_receive : ch.received <+: ch.receive.received := by
  unfold receive
  split
  · exact List.prefix_rfl
  · exact List.prefix_append _ _

end Channel
