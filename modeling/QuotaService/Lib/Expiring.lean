import Mathlib.Algebra.Order.Ring.Int
import Mathlib.Data.Int.ConditionallyCompleteOrder
import Mathlib.Data.List.AList

/-! Keys that expire, as those of Redis: what is written to a key keeps the time at which it expires, a
key that is not there is made without one, and a time that has passed removes the key. -/
namespace Expiring
variable {V : Type*}

structure Entry (V : Type*) where
  value : V
  expiry : Option ℤ

def Entry.LiveAt (e : Entry V) (now : ℤ) : Prop := ∀ d ∈ e.expiry, now < d

instance (e : Entry V) (now : ℤ) : Decidable (e.LiveAt now) :=
  inferInstanceAs (Decidable (∀ d ∈ e.expiry, now < d))

abbrev Store (V : Type*) := AList fun _ : String => Entry V

namespace Store
variable (db : Store V) (now : ℤ) (key : String)

/-- The entry of a key that has not expired. -/
def live : Option (Entry V) := (db.lookup key).filter fun e => e.LiveAt now

def write (f : Option V → V) : Store V :=
  db.insert key ⟨f ((db.live now key).map Entry.value), (db.live now key).bind Entry.expiry⟩

def expireAt (time : ℤ) : Store V :=
  match db.live now key with
  | none => db
  | some e => if now < time then db.insert key { e with expiry := some time } else db.erase key

variable {db now key} {e : Entry V}

theorem live_eq_some : db.live now key = some e ↔ db.lookup key = some e ∧ e.LiveAt now := by
  simp [live, Option.filter_eq_some_iff]

/-- Time removes entries, and changes none. -/
theorem live_later {now' : ℤ} (h : now ≤ now') :
    db.live now' key = (db.live now key).filter fun e => e.LiveAt now' := by
  have hearlier : ∀ e : Entry V, e.LiveAt now' → e.LiveAt now := fun e he d hd =>
    lt_of_le_of_lt h (he d hd)
  rw [live, live, Option.filter_filter]
  congr 1
  funext e
  by_cases he : e.LiveAt now'
  · simp [he, hearlier e he]
  · simp [he]

theorem live_write (f : Option V → V) :
    (db.write now key f).live now key =
      some ⟨f ((db.live now key).map Entry.value), (db.live now key).bind Entry.expiry⟩ := by
  refine live_eq_some.mpr ⟨AList.lookup_insert _, fun d hd => ?_⟩
  obtain ⟨e, he, hexpiry⟩ := Option.bind_eq_some_iff.mp hd
  exact (live_eq_some.mp he).2 d hexpiry

theorem live_write_of_ne (f : Option V → V) {key' : String} (h : key' ≠ key) :
    (db.write now key f).live now key' = db.live now key' := by
  rw [live, write, AList.lookup_insert_ne h]
  rfl

theorem live_expireAt (time : ℤ) :
    (db.expireAt now key time).live now key =
      if now < time then (db.live now key).map fun e => { e with expiry := some time } else none := by
  unfold expireAt
  cases hlive : db.live now key with
  | none => simp [hlive]
  | some e =>
    by_cases htime : now < time
    · simp [htime, live, Entry.LiveAt]
    · simp [htime, live]

theorem live_expireAt_of_ne (time : ℤ) {key' : String} (h : key' ≠ key) :
    (db.expireAt now key time).live now key' = db.live now key' := by
  unfold expireAt
  cases db.live now key with
  | none => rfl
  | some e =>
    by_cases htime : now < time
    · simp [htime, live, AList.lookup_insert_ne h]
    · simp [htime, live, AList.lookup_erase_ne h]

end Store

end Expiring
