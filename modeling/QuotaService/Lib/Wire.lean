import Mathlib.Algebra.Order.Ring.Nat
import Mathlib.Data.List.Basic
import Mathlib.Data.Nat.Size

/-! The wire format of protocol buffers. A message is a sequence of records: a tag, which holds the
number of a field and the kind of its value, and the value. Numbers are varints of at most ten bytes,
and what has no fixed length is preceded by it. A reader skips the records that it does not know. -/
namespace Wire

abbrev Bytes := List UInt8

section Varints

/-- Groups of seven bits, the lowest first, of which `n` more may follow. -/
def varint : ℕ → ℕ → Bytes
  | 0, v => [UInt8.ofNat v]
  | n + 1, v =>
    if v < 128 then [UInt8.ofNat v] else UInt8.ofNat (v % 128 + 128) :: varint n (v / 128)

/-- A `uint64`. -/
def appendVarint (v : ℕ) : Bytes := varint 9 v

def readVarint : ℕ → Bytes → Option (ℕ × Bytes)
  | _, [] => none
  | 0, y :: b => if y.toNat < 2 then some (y.toNat, b) else none
  | n + 1, y :: b =>
    if y.toNat < 128 then some (y.toNat, b)
    else (readVarint n b).map fun r => (y.toNat - 128 + 128 * r.1, r.2)

def consumeVarint (b : Bytes) : Option (ℕ × Bytes) := readVarint 9 b

/-- An approximation of the bits divided by seven. -/
def sizeVarint (v : ℕ) : ℕ := (9 * v.size + 64) / 64

def sizeBytes (n : ℕ) : ℕ := sizeVarint n + n

theorem toNat_ofNat {x : ℕ} (h : x < 256) : (UInt8.ofNat x).toNat = x := by
  rw [UInt8.toNat_ofNat']
  exact Nat.mod_eq_of_lt h

theorem readVarint_varint {n v : ℕ} (h : v < 2 ^ (7 * n + 1)) (rest : Bytes) :
    readVarint n (varint n v ++ rest) = some (v, rest) := by
  induction n generalizing v with
  | zero =>
    have hv : v < 2 := by simpa using h
    have hbyte : (UInt8.ofNat v).toNat = v := toNat_ofNat (by omega)
    simp [varint, readVarint, hbyte, hv]
  | succ n ih =>
    unfold varint
    split_ifs with hv
    · have hbyte : (UInt8.ofNat v).toNat = v := toNat_ofNat (by omega)
      simp only [List.singleton_append, readVarint, hbyte, if_pos hv]
    · have hbyte : (UInt8.ofNat (v % 128 + 128)).toNat = v % 128 + 128 := toNat_ofNat (by omega)
      have hpow : 2 ^ (7 * (n + 1) + 1) = 128 * 2 ^ (7 * n + 1) := by
        rw [show 7 * (n + 1) + 1 = 7 + (7 * n + 1) by omega, pow_add]
        rfl
      have hrest : v / 128 < 2 ^ (7 * n + 1) := by
        rw [Nat.div_lt_iff_lt_mul (by decide), mul_comm, ← hpow]
        exact h
      have hnot : ¬ v % 128 + 128 < 128 := by omega
      have hv' : v % 128 + 128 - 128 + 128 * (v / 128) = v := by omega
      simp only [List.cons_append, readVarint, hbyte, if_neg hnot, ih hrest, Option.map_some, hv']

theorem consumeVarint_append {v : ℕ} (h : v < 2 ^ 64) (rest : Bytes) :
    consumeVarint (appendVarint v ++ rest) = some (v, rest) :=
  readVarint_varint h rest

theorem readVarint_shortens {n : ℕ} {b rest : Bytes} {v : ℕ} (h : readVarint n b = some (v, rest)) :
    rest.length < b.length := by
  induction n generalizing b v with
  | zero =>
    cases b with
    | nil => cases h
    | cons y b =>
      simp only [readVarint] at h
      split_ifs at h
      cases h
      exact Nat.lt_succ_self _
  | succ n ih =>
    cases b with
    | nil => cases h
    | cons y b =>
      simp only [readVarint] at h
      split_ifs at h
      · cases h
        exact Nat.lt_succ_self _
      · obtain ⟨⟨v', rest'⟩, hread, heq⟩ := Option.map_eq_some_iff.mp h
        cases heq
        exact (ih hread).trans (Nat.lt_succ_self _)

theorem consumeVarint_shortens {b rest : Bytes} {v : ℕ} (h : consumeVarint b = some (v, rest)) :
    rest.length < b.length :=
  readVarint_shortens h

theorem size_div_128 (v : ℕ) : (v / 128).size = v.size - 7 := by
  apply le_antisymm
  · rw [Nat.size_le, Nat.div_lt_iff_lt_mul (by decide)]
    have hv : v < 2 ^ v.size := Nat.lt_size_self v
    have hpow : 2 ^ v.size ≤ 2 ^ (v.size - 7) * 128 := by
      rw [show (128 : ℕ) = 2 ^ 7 from rfl, ← pow_add]
      exact Nat.pow_le_pow_right (by decide) (by omega)
    exact hv.trans_le hpow
  · rw [Nat.sub_le_iff_le_add, Nat.size_le, pow_add]
    have hv : v / 128 < 2 ^ (v / 128).size := Nat.lt_size_self _
    omega

theorem length_varint {n v : ℕ} (h : v < 2 ^ (7 * n + 7)) :
    (varint n v).length = 1 + (v.size - 1) / 7 := by
  have hsmall : ∀ {v : ℕ}, v < 128 → v.size ≤ 7 := fun hv => Nat.size_le.mpr hv
  induction n generalizing v with
  | zero =>
    have hsize := hsmall h
    simp only [varint, List.length_singleton]
    omega
  | succ n ih =>
    unfold varint
    split_ifs with hv
    · have hsize := hsmall hv
      simp only [List.length_singleton]
      omega
    · have hsize : 7 < v.size := Nat.lt_size.mpr (not_lt.mp hv)
      have hrest : v / 128 < 2 ^ (7 * n + 7) := by
        rw [Nat.div_lt_iff_lt_mul (by decide), show (128 : ℕ) = 2 ^ 7 from rfl, ← pow_add]
        exact h
      simp only [List.length_cons, ih hrest, size_div_128]
      omega

/-- The approximation is exact for what a `uint64` can be. -/
theorem sizeVarint_eq {v : ℕ} (h : v < 2 ^ 64) : sizeVarint v = (appendVarint v).length := by
  have hsize : v.size ≤ 64 := Nat.size_le.mpr h
  have hlength : (appendVarint v).length = 1 + (v.size - 1) / 7 :=
    length_varint (h.trans (by decide))
  rw [hlength]
  unfold sizeVarint
  omega

end Varints

section Tags

inductive WireType
  | varint
  | fixed64
  | bytes
  | startGroup
  | endGroup
  | fixed32
  | reserved
deriving DecidableEq

def wireType : ℕ → WireType
  | 0 => .varint
  | 1 => .fixed64
  | 2 => .bytes
  | 3 => .startGroup
  | 4 => .endGroup
  | 5 => .fixed32
  | _ => .reserved

def maxValidNumber : ℕ := 2 ^ 29 - 1

def maxInt32 : ℕ := 2 ^ 31 - 1

/-- The tags of the two kinds of values that are written here. -/
def varintTag (num : ℕ) : ℕ := 8 * num

def bytesTag (num : ℕ) : ℕ := 8 * num + 2

/-- A tag whose number is not valid is an error. -/
def consumeTag (max : ℕ) (b : Bytes) : Option (ℕ × WireType × Bytes) :=
  (consumeVarint b).bind fun r =>
    if 1 ≤ r.1 / 8 ∧ r.1 / 8 ≤ max then some (r.1 / 8, wireType (r.1 % 8), r.2) else none

def consumeBytes (b : Bytes) : Option (Bytes × Bytes) :=
  (consumeVarint b).bind fun r =>
    if r.1 ≤ r.2.length then some (r.2.take r.1, r.2.drop r.1) else none

def consumeFixed (n : ℕ) (b : Bytes) : Option Bytes :=
  if n ≤ b.length then some (b.drop n) else none

theorem consumeTag_append {max num : ℕ} (hnum : 1 ≤ num ∧ num ≤ max) (hmax : max ≤ maxInt32)
    {k : ℕ} (hk : k < 8) (rest : Bytes) :
    consumeTag max (appendVarint (8 * num + k) ++ rest) = some (num, wireType k, rest) := by
  have hlt : 8 * num + k < 2 ^ 64 := by
    unfold maxInt32 at hmax
    omega
  have hdiv : (8 * num + k) / 8 = num := by omega
  have hmod : (8 * num + k) % 8 = k := by omega
  unfold consumeTag
  rw [consumeVarint_append hlt]
  simp only [Option.bind_some, hdiv, hmod, if_pos hnum]

theorem consumeBytes_append {v : Bytes} (h : v.length < 2 ^ 64) (rest : Bytes) :
    consumeBytes (appendVarint v.length ++ (v ++ rest)) = some (v, rest) := by
  unfold consumeBytes
  rw [consumeVarint_append h]
  simp

theorem consumeTag_shortens {max num : ℕ} {b rest : Bytes} {typ : WireType}
    (h : consumeTag max b = some (num, typ, rest)) : rest.length < b.length := by
  obtain ⟨r, hr, h⟩ := Option.bind_eq_some_iff.mp h
  split_ifs at h
  cases h
  exact consumeVarint_shortens hr

theorem consumeBytes_shortens {b v rest : Bytes} (h : consumeBytes b = some (v, rest)) :
    rest.length ≤ b.length := by
  obtain ⟨r, hr, h⟩ := Option.bind_eq_some_iff.mp h
  split_ifs at h
  cases h
  have hlt : r.2.length < b.length := consumeVarint_shortens hr
  rw [List.length_drop]
  omega

end Tags

section Skipping

/-- What is left after a value that is not a group. -/
def skipScalar (typ : WireType) (b : Bytes) : Option Bytes :=
  match typ with
  | .varint => (consumeVarint b).map Prod.snd
  | .fixed32 => consumeFixed 4 b
  | .fixed64 => consumeFixed 8 b
  | .bytes => (consumeBytes b).map Prod.snd
  | .startGroup | .endGroup | .reserved => none

/-- The records of a group are read until its end; `fuel` is for them. -/
def skipValue : ℕ → ℕ → WireType → Bytes → Option Bytes
  | 0, _, typ, b => skipScalar typ b
  | fuel + 1, num, typ, b =>
    if typ = .startGroup then
      (consumeTag maxInt32 b).bind fun r =>
        if r.2.1 = .endGroup then if num = r.1 then some r.2.2 else none
        else (skipValue fuel r.1 r.2.1 r.2.2).bind fun b => skipValue fuel num .startGroup b
    else skipScalar typ b

/-- Every record of a group takes a byte at least. -/
def consumeFieldValue (num : ℕ) (typ : WireType) (b : Bytes) : Option Bytes :=
  skipValue b.length num typ b

theorem skipScalar_shortens {typ : WireType} {b rest : Bytes} (h : skipScalar typ b = some rest) :
    rest.length ≤ b.length := by
  have hfixed : ∀ {n : ℕ}, consumeFixed n b = some rest → rest.length ≤ b.length := by
    intro n hfixed
    unfold consumeFixed at hfixed
    split_ifs at hfixed
    cases hfixed
    rw [List.length_drop]
    omega
  cases typ with
  | varint =>
    obtain ⟨r, hr, rfl⟩ := Option.map_eq_some_iff.mp h
    exact (consumeVarint_shortens hr).le
  | bytes =>
    obtain ⟨r, hr, rfl⟩ := Option.map_eq_some_iff.mp h
    exact consumeBytes_shortens hr
  | fixed64 | fixed32 => exact hfixed h
  | startGroup | endGroup | reserved => cases h

theorem skipValue_shortens {fuel num : ℕ} {typ : WireType} {b rest : Bytes}
    (h : skipValue fuel num typ b = some rest) : rest.length ≤ b.length := by
  induction fuel generalizing num typ b rest with
  | zero => exact skipScalar_shortens h
  | succ fuel ih =>
    simp only [skipValue] at h
    split_ifs at h
    · obtain ⟨r, hr, h⟩ := Option.bind_eq_some_iff.mp h
      have htag : r.2.2.length < b.length := consumeTag_shortens hr
      split_ifs at h
      · cases h
        exact htag.le
      · obtain ⟨b', hb', h⟩ := Option.bind_eq_some_iff.mp h
        exact (ih h).trans ((ih hb').trans htag.le)
    · exact skipScalar_shortens h

/-- More fuel than there are bytes makes no difference. -/
theorem skipValue_fuel {fuel fuel' num : ℕ} {typ : WireType} {b : Bytes} (h : b.length ≤ fuel)
    (h' : b.length ≤ fuel') : skipValue fuel num typ b = skipValue fuel' num typ b := by
  induction fuel generalizing fuel' num typ b with
  | zero =>
    obtain rfl := List.length_eq_zero_iff.mp (Nat.le_zero.mp h)
    cases fuel' with
    | zero => rfl
    | succ fuel' =>
      simp only [skipValue]
      split_ifs with htyp
      · subst htyp
        rfl
      · rfl
  | succ fuel ih =>
    cases fuel' with
    | zero =>
      obtain rfl := List.length_eq_zero_iff.mp (Nat.le_zero.mp h')
      simp only [skipValue]
      split_ifs with htyp
      · subst htyp
        rfl
      · rfl
    | succ fuel' =>
      simp only [skipValue]
      split_ifs with htyp
      · apply Option.bind_congr
        intro r hr
        have htag : r.2.2.length < b.length := consumeTag_shortens hr
        split_ifs
        · rfl
        · rfl
        · rw [ih (by omega) (show r.2.2.length ≤ fuel' by omega)]
          apply Option.bind_congr
          intro b' hb'
          have hle : b'.length ≤ r.2.2.length := skipValue_shortens hb'
          exact ih (by omega) (by omega)
      · rfl

theorem consumeFieldValue_scalar (num : ℕ) {typ : WireType} (h : typ ≠ .startGroup) (b : Bytes) :
    consumeFieldValue num typ b = skipScalar typ b := by
  unfold consumeFieldValue
  cases b with
  | nil => rfl
  | cons y b => rw [List.length_cons, skipValue, if_neg h]

/-- A group is its records and its end. -/
theorem consumeFieldValue_startGroup (num : ℕ) (b : Bytes) :
    consumeFieldValue num .startGroup b = (consumeTag maxInt32 b).bind fun r =>
      if r.2.1 = .endGroup then if num = r.1 then some r.2.2 else none
      else (consumeFieldValue r.1 r.2.1 r.2.2).bind fun b =>
        consumeFieldValue num .startGroup b := by
  unfold consumeFieldValue
  cases b with
  | nil => rfl
  | cons y b =>
    rw [List.length_cons, skipValue, if_pos rfl]
    apply Option.bind_congr
    intro r hr
    have htag : r.2.2.length < b.length + 1 := consumeTag_shortens hr
    split_ifs
    · rfl
    · rfl
    · rw [skipValue_fuel (Nat.lt_succ_iff.mp htag) le_rfl]
      apply Option.bind_congr
      intro b' hb'
      have hle : b'.length ≤ r.2.2.length := skipValue_shortens hb'
      exact skipValue_fuel (by omega) le_rfl

end Skipping

end Wire
