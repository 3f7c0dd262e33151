import Mathlib.Tactic.NormNum
import QuotaService.Lib.GoMap
import QuotaService.Lib.Wire

/-! Messages in the wire format. A message type has a coder for each of its fields, in the order of
their numbers. What precedes a value is a size that has been computed, not the length of what is
written, and a reader that fails leaves what it has read so far. -/
namespace Wire

/-- What a coder comes to: it has read a value, it leaves the record to be skipped, or it fails. -/
inductive Read (σ : Type*)
  | ok (s : σ) (rest : Bytes)
  | unknown (s : σ)
  | invalid (s : σ)

structure Coder (σ : Type*) where
  size : σ → ℕ
  marshal : σ → Bytes
  unmarshal : WireType → Bytes → σ → Read σ
  shortens : ∀ typ b s s' rest, unmarshal typ b s = .ok s' rest → rest.length ≤ b.length

/-- The coders by their numbers, and the fields that a message has kept without knowing them. -/
structure MessageInfo (σ : Type*) where
  coders : List (ℕ × Coder σ)
  unknown : σ → Bytes

namespace MessageInfo
variable {σ : Type*} (mi : MessageInfo σ)

def size (s : σ) : ℕ := (mi.coders.map fun f => f.2.size s).sum + (mi.unknown s).length

def marshal (s : σ) : Bytes := mi.coders.flatMap (fun f => f.2.marshal s) ++ mi.unknown s

def readField (num : ℕ) (typ : WireType) (b : Bytes) (s : σ) : Read σ :=
  match mi.coders.lookup num with
  | none => .unknown s
  | some c => c.unmarshal typ b s

/-- A record and what comes after it. A message is not a group, so none of its records ends one. -/
def readRecord (b : Bytes) (s : σ) : Except σ (σ × Bytes) :=
  match consumeTag maxValidNumber b with
  | none => .error s
  | some (num, typ, b) =>
    if typ = .endGroup then .error s
    else match mi.readField num typ b s with
      | .ok s rest => .ok (s, rest)
      | .invalid s => .error s
      | .unknown s => match consumeFieldValue num typ b with
        | none => .error s
        | some rest => .ok (s, rest)

/-- `fuel` is for the records. -/
def readRecords : ℕ → Bytes → σ → σ × Bool
  | _, [], s => (s, true)
  | 0, _ :: _, s => (s, false)
  | fuel + 1, y :: b, s =>
    match mi.readRecord (y :: b) s with
    | .error s => (s, false)
    | .ok (s, rest) => readRecords fuel rest s

/-- The message, and whether all of it could be read. -/
def unmarshal (b : Bytes) (s : σ) : σ × Bool := mi.readRecords b.length b s

section Records
variable {mi} {b rest : Bytes} {s s' : σ}

theorem readRecord_shortens (h : mi.readRecord b s = .ok (s', rest)) :
    rest.length < b.length := by
  unfold readRecord at h
  split at h
  · cases h
  · rename_i num typ b' htag
    have hlt : b'.length < b.length := consumeTag_shortens htag
    split_ifs at h
    split at h
    · rename_i s₁ rest₁ hfield
      cases h
      unfold readField at hfield
      split at hfield
      · cases hfield
      · rename_i c hc
        exact (c.shortens _ _ _ _ _ hfield).trans_lt hlt
    · cases h
    · split at h
      · cases h
      · rename_i rest₁ hskip
        cases h
        exact (skipValue_shortens hskip).trans_lt hlt

/-- Every record takes a byte at least, so that there is fuel for all of them. -/
theorem readRecords_fuel {fuel fuel' : ℕ} (h : b.length ≤ fuel) (h' : b.length ≤ fuel') :
    mi.readRecords fuel b s = mi.readRecords fuel' b s := by
  induction fuel generalizing fuel' b s with
  | zero =>
    obtain rfl := List.length_eq_zero_iff.mp (Nat.le_zero.mp h)
    cases fuel' <;> rfl
  | succ fuel ih =>
    cases b with
    | nil => cases fuel' <;> rfl
    | cons y b =>
      cases fuel' with
      | zero => cases h'
      | succ fuel' =>
        simp only [readRecords]
        split
        · rfl
        · rename_i s₁ rest hrecord
          have hlt : rest.length < b.length + 1 := readRecord_shortens hrecord
          have hle : b.length + 1 ≤ fuel + 1 := h
          have hle' : b.length + 1 ≤ fuel' + 1 := h'
          exact ih (by omega) (by omega)

@[simp] theorem unmarshal_nil (s : σ) : mi.unmarshal [] s = (s, true) := rfl

theorem unmarshal_of_record (h : mi.readRecord b s = .ok (s', rest)) :
    mi.unmarshal b s = mi.unmarshal rest s' := by
  have hlt : rest.length < b.length := readRecord_shortens h
  cases b with
  | nil => cases hlt
  | cons y b =>
    unfold unmarshal
    rw [List.length_cons, readRecords, h]
    exact readRecords_fuel (Nat.lt_succ_iff.mp hlt) le_rfl

/-- Whatever comes after them, these records take the one message to the other. -/
def Reads (mi : MessageInfo σ) (r : Bytes) (s s' : σ) : Prop :=
  ∀ rest, mi.unmarshal (r ++ rest) s = mi.unmarshal rest s'

theorem Reads.nil (s : σ) : mi.Reads [] s s := fun _ => rfl

theorem Reads.append {r r' : Bytes} {s'' : σ} (h : mi.Reads r s s') (h' : mi.Reads r' s' s'') :
    mi.Reads (r ++ r') s s'' := by
  intro rest
  rw [List.append_assoc, h (r' ++ rest), h' rest]

theorem Reads.unmarshal {r : Bytes} (h : mi.Reads r s s') : mi.unmarshal r s = (s', true) := by
  have hall := h []
  rwa [List.append_nil] at hall

/-- A value that its coder reads. -/
theorem reads_field {num k : ℕ} {c : Coder σ} {v : Bytes} (hc : mi.coders.lookup num = some c)
    (hnum : 1 ≤ num ∧ num ≤ maxValidNumber) (hk : k < 8) (hgroup : wireType k ≠ .endGroup)
    (hread : ∀ rest, c.unmarshal (wireType k) (v ++ rest) s = .ok s' rest) :
    mi.Reads (appendVarint (8 * num + k) ++ v) s s' := by
  intro rest
  apply unmarshal_of_record
  have htag := consumeTag_append hnum (by decide) hk (v ++ rest)
  unfold readRecord
  rw [List.append_assoc, htag]
  simp only [if_neg hgroup, readField, hc, hread]

/-- A value that has no coder is skipped. -/
theorem reads_unknown {num k : ℕ} {v : Bytes} (hc : mi.coders.lookup num = none)
    (hnum : 1 ≤ num ∧ num ≤ maxValidNumber) (hk : k < 8) (hgroup : wireType k ≠ .endGroup)
    (hskip : ∀ rest, consumeFieldValue num (wireType k) (v ++ rest) = some rest) (s : σ) :
    mi.Reads (appendVarint (8 * num + k) ++ v) s s := by
  intro rest
  apply unmarshal_of_record
  have htag := consumeTag_append hnum (by decide) hk (v ++ rest)
  unfold readRecord
  rw [List.append_assoc, htag]
  simp only [if_neg hgroup, readField, hc, hskip]

end Records

/-- Records of fields that are not among the known ones. -/
inductive Foreign (known : List ℕ) : Bytes → Prop
  | nil : Foreign known []
  | record {num k : ℕ} {v r : Bytes} (unknown : num ∉ known) (valid : 1 ≤ num ∧ num ≤ maxValidNumber)
      (kind : k < 8) (group : wireType k ≠ .endGroup)
      (value : ∀ rest, consumeFieldValue num (wireType k) (v ++ rest) = some rest)
      (more : Foreign known r) : Foreign known (appendVarint (8 * num + k) ++ v ++ r)

theorem Foreign.reads {mi : MessageInfo σ} {known : List ℕ} {r : Bytes} (h : Foreign known r)
    (hknown : mi.coders.map Prod.fst = known) (s : σ) : mi.Reads r s s := by
  subst hknown
  induction h with
  | nil => exact .nil s
  | @record num k v r unknown valid kind group value more ih =>
    have hnone : mi.coders.lookup num = none := by
      rw [List.lookup_eq_none_iff]
      intro p hp
      rw [bne_iff_ne]
      rintro rfl
      exact unknown (List.mem_map_of_mem hp)
    exact (reads_unknown hnone valid kind group value s).append ih

end MessageInfo

section Coders
variable {σ τ : Type*}

/-- The conversion of a signed number to `uint64`. -/
def uint64 (x : ℤ) : ℕ := (x % 2 ^ 64).toNat

/-- An `int64` or an `int32`; zero is not written. -/
def intCoder (bits num : ℕ) (get : σ → ℤ) (set : ℤ → σ → σ) : Coder σ where
  size s := if get s = 0 then 0 else sizeVarint (varintTag num) + sizeVarint (uint64 (get s))
  marshal s := if get s = 0 then []
    else appendVarint (varintTag num) ++ appendVarint (uint64 (get s))
  unmarshal typ b s :=
    if typ = .varint then
      match consumeVarint b with
      | none => .invalid s
      | some (v, rest) => .ok (set ((v : ℤ).bmod (2 ^ bits)) s) rest
    else .unknown s
  shortens typ b s s' rest h := by
    split_ifs at h
    split at h
    · cases h
    · rename_i v rest' hv
      cases h
      exact (consumeVarint_shortens hv).le

def toBytes (x : String) : Bytes := x.toUTF8.data.toList

def fromBytes (b : Bytes) : Option String := String.fromUTF8? ⟨b.toArray⟩

/-- A string, of which the empty one is not written. -/
def stringCoder (num : ℕ) (get : σ → String) (set : String → σ → σ) : Coder σ where
  size s := if (toBytes (get s)).length = 0 then 0
    else sizeVarint (bytesTag num) + sizeBytes (toBytes (get s)).length
  marshal s := if (toBytes (get s)).length = 0 then []
    else appendVarint (bytesTag num) ++
      (appendVarint (toBytes (get s)).length ++ toBytes (get s))
  unmarshal typ b s :=
    if typ = .bytes then
      match consumeBytes b with
      | none => .invalid s
      | some (v, rest) =>
        match fromBytes v with
        | none => .invalid s
        | some x => .ok (set x s) rest
    else .unknown s
  shortens typ b s s' rest h := by
    split_ifs at h
    split at h
    · cases h
    · rename_i v rest' hv
      split at h
      · cases h
      · cases h
        exact consumeBytes_shortens hv

/-- A message by its pointer. What a message has been read for a second time is merged into it. -/
def messageCoder (num : ℕ) (mi : MessageInfo τ) (zero : τ) (get : σ → Option τ)
    (set : Option τ → σ → σ) : Coder σ where
  size s := match get s with
    | none => 0
    | some m => sizeVarint (bytesTag num) + sizeBytes (mi.size m)
  marshal s := match get s with
    | none => []
    | some m => appendVarint (bytesTag num) ++ (appendVarint (mi.size m) ++ mi.marshal m)
  unmarshal typ b s :=
    if typ = .bytes then
      match consumeBytes b with
      | none => .invalid s
      | some (v, rest) =>
        match mi.unmarshal v ((get s).getD zero) with
        | (m, true) => .ok (set (some m) s) rest
        | (m, false) => .invalid (set (some m) s)
    else .unknown s
  shortens typ b s s' rest h := by
    split_ifs at h
    split at h
    · cases h
    · rename_i v rest' hv
      split at h
      · cases h
        exact consumeBytes_shortens hv
      · cases h

/-- How the entry of a map is read. -/
def entryInfo (mi : MessageInfo τ) (zero : τ) : MessageInfo (String × τ) where
  coders := [(1, stringCoder 1 Prod.fst fun key e => (key, e.2)),
    (2, messageCoder 2 mi zero (fun e => some e.2) fun m e => (e.1, m.getD zero))]
  unknown _ := []

def mapKeyTagSize : ℕ := 1

def mapValTagSize : ℕ := 1

def sizeMessage (mi : MessageInfo τ) : Option τ → ℕ
  | none => 0
  | some m => mi.size m

def marshalMessage (mi : MessageInfo τ) : Option τ → Bytes
  | none => []
  | some m => mi.marshal m

def sizeMapItem (mi : MessageInfo τ) (e : String × Option τ) : ℕ :=
  mapKeyTagSize + sizeBytes (toBytes e.1).length +
    (mapValTagSize + sizeBytes (sizeMessage mi e.2))

/-- Both the key and the value of an entry are always written. -/
def appendMapItem (mi : MessageInfo τ) (e : String × Option τ) : Bytes :=
  appendVarint (bytesTag 1) ++ (appendVarint (toBytes e.1).length ++ toBytes e.1) ++
    (appendVarint (bytesTag 2) ++ (appendVarint (sizeMessage mi e.2) ++ marshalMessage mi e.2))

/-- A map of messages, written in the order of a `range`. Reading makes the map first. -/
def mapCoder (num : ℕ) (mi : MessageInfo τ) (zero : τ) (get : σ → GoMap String (Option τ))
    (set : GoMap String (Option τ) → σ → σ) : Coder σ where
  size s := ((get s).range.map fun e =>
    sizeVarint (bytesTag num) + sizeBytes (sizeMapItem mi e)).sum
  marshal s := (get s).range.flatMap fun e =>
    appendVarint (bytesTag num) ++ (appendVarint (sizeMapItem mi e) ++ appendMapItem mi e)
  unmarshal typ b s :=
    if typ = .bytes then
      match consumeBytes b with
      | none => .invalid (set (.table (get s).alist) s)
      | some (v, rest) =>
        match (entryInfo mi zero).unmarshal v ("", zero) with
        | (e, true) => .ok (set (.table ((get s).alist.insert e.1 (some e.2))) s) rest
        | (_, false) => .invalid (set (.table (get s).alist) s)
    else .unknown (set (.table (get s).alist) s)
  shortens typ b s s' rest h := by
    split_ifs at h
    split at h
    · cases h
    · rename_i v rest' hv
      split at h
      · cases h
        exact consumeBytes_shortens hv
      · cases h

/-- The size that is computed is the length of what is written, if that is a length at all. -/
def Coder.Exact (c : Coder σ) (s : σ) : Prop :=
  (c.marshal s).length < 2 ^ 64 → c.size s = (c.marshal s).length

def MessageInfo.Exact (mi : MessageInfo σ) (s : σ) : Prop :=
  (mi.marshal s).length < 2 ^ 64 → mi.size s = (mi.marshal s).length

theorem MessageInfo.exact_of_coders {mi : MessageInfo σ} {s : σ}
    (h : ∀ f ∈ mi.coders, f.2.Exact s) : mi.Exact s := by
  have hall : ∀ l : List (ℕ × Coder σ), (∀ f ∈ l, f.2.Exact s) →
      (l.flatMap fun f => f.2.marshal s).length < 2 ^ 64 →
      (l.map fun f => f.2.size s).sum = (l.flatMap fun f => f.2.marshal s).length := by
    intro l hl hlt
    induction l with
    | nil => rfl
    | cons f l ih =>
      obtain ⟨hfirst, hrest⟩ := List.forall_mem_cons.mp hl
      rw [List.flatMap_cons, List.length_append] at hlt ⊢
      rw [List.map_cons, List.sum_cons, hfirst (by omega), ih hrest (by omega)]
  intro hlt
  unfold marshal at hlt ⊢
  rw [List.length_append] at hlt ⊢
  unfold size
  rw [hall mi.coders h (by omega)]

section Sizes
variable {num : ℕ} (hnum : num ≤ maxValidNumber)

include hnum

theorem sizeVarint_varintTag :
    sizeVarint (varintTag num) = (appendVarint (varintTag num)).length := by
  apply sizeVarint_eq
  unfold varintTag
  unfold maxValidNumber at hnum
  omega

theorem sizeVarint_bytesTag : sizeVarint (bytesTag num) = (appendVarint (bytesTag num)).length := by
  apply sizeVarint_eq
  unfold bytesTag
  unfold maxValidNumber at hnum
  omega

end Sizes

theorem uint64_lt (x : ℤ) : uint64 x < 2 ^ 64 := by
  unfold uint64
  omega

theorem sizeBytes_eq {b : Bytes} {n : ℕ} (hn : n = b.length) (h : b.length < 2 ^ 64) :
    sizeBytes n = (appendVarint n ++ b).length := by
  subst hn
  unfold sizeBytes
  rw [sizeVarint_eq h, List.length_append]

theorem intCoder_exact {bits num : ℕ} (hnum : num ≤ maxValidNumber) (get : σ → ℤ)
    (set : ℤ → σ → σ) (s : σ) : (intCoder bits num get set).Exact s := by
  intro _
  simp only [intCoder]
  split_ifs
  · rfl
  · rw [List.length_append, sizeVarint_varintTag hnum, sizeVarint_eq (uint64_lt _)]

theorem stringCoder_exact {num : ℕ} (hnum : num ≤ maxValidNumber) (get : σ → String)
    (set : String → σ → σ) (s : σ) : (stringCoder num get set).Exact s := by
  intro hlt
  simp only [stringCoder] at hlt ⊢
  split_ifs at hlt ⊢
  · rfl
  · rw [List.length_append, List.length_append] at hlt
    rw [List.length_append, sizeVarint_bytesTag hnum, sizeBytes_eq rfl (by omega)]

theorem messageCoder_exact {num : ℕ} (hnum : num ≤ maxValidNumber) {mi : MessageInfo τ} (zero : τ)
    {get : σ → Option τ} (set : Option τ → σ → σ) {s : σ} (hmi : ∀ m ∈ get s, mi.Exact m) :
    (messageCoder num mi zero get set).Exact s := by
  intro hlt
  simp only [messageCoder] at hlt ⊢
  cases hm : get s with
  | none => rfl
  | some m =>
    simp only [hm, List.length_append] at hlt
    dsimp only
    rw [List.length_append, sizeVarint_bytesTag hnum,
      sizeBytes_eq (hmi m hm (by omega)) (by omega)]

theorem sizeMessage_eq {mi : MessageInfo τ} {o : Option τ} (hmi : ∀ m ∈ o, mi.Exact m)
    (hlt : (marshalMessage mi o).length < 2 ^ 64) :
    sizeMessage mi o = (marshalMessage mi o).length := by
  cases o with
  | none => rfl
  | some m => exact hmi m rfl hlt

/-- The tags of the two fields of an entry are of one byte. -/
theorem sizeMapItem_eq {mi : MessageInfo τ} {e : String × Option τ} (hmi : ∀ m ∈ e.2, mi.Exact m)
    (hlt : (appendMapItem mi e).length < 2 ^ 64) :
    sizeMapItem mi e = (appendMapItem mi e).length := by
  have hkey : mapKeyTagSize = (appendVarint (bytesTag 1)).length := rfl
  have hvalue : mapValTagSize = (appendVarint (bytesTag 2)).length := rfl
  unfold appendMapItem sizeMapItem at *
  simp only [List.length_append] at hlt
  have hmessage := sizeMessage_eq hmi (by omega)
  rw [sizeBytes_eq rfl (show (toBytes e.1).length < 2 ^ 64 by omega),
    sizeBytes_eq hmessage (by omega), hkey, hvalue]
  simp only [List.length_append]

theorem mapCoder_exact {num : ℕ} (hnum : num ≤ maxValidNumber) {mi : MessageInfo τ} (zero : τ)
    {get : σ → GoMap String (Option τ)} (set : GoMap String (Option τ) → σ → σ) {s : σ}
    (hmi : ∀ e ∈ (get s).range, ∀ m ∈ e.2, mi.Exact m) :
    (mapCoder num mi zero get set).Exact s := by
  intro hlt
  simp only [mapCoder] at hlt ⊢
  generalize (get s).range = es at hmi hlt
  induction es with
  | nil => rfl
  | cons e es ih =>
    obtain ⟨hfirst, hrest⟩ := List.forall_mem_cons.mp hmi
    simp only [List.flatMap_cons, List.length_append] at hlt
    have hitem := sizeMapItem_eq hfirst (by omega)
    rw [List.map_cons, List.sum_cons, ih hrest (by omega), List.flatMap_cons, List.length_append,
      List.length_append, sizeVarint_bytesTag hnum, sizeBytes_eq hitem (by omega)]

theorem bmod_uint64 {bits : ℕ} (hbits : bits = 32 ∨ bits = 64) {x : ℤ}
    (h : -2 ^ (bits - 1) ≤ x ∧ x < 2 ^ (bits - 1)) : ((uint64 x : ℕ) : ℤ).bmod (2 ^ bits) = x := by
  have hcast : ((uint64 x : ℕ) : ℤ) = x % 2 ^ 64 := by
    unfold uint64
    omega
  rw [hcast, Int.bmod_def]
  rcases hbits with rfl | rfl
  · norm_num at h ⊢
    omega
  · norm_num at h ⊢
    omega

theorem fromBytes_toBytes (x : String) : fromBytes (toBytes x) = some x := by
  unfold fromBytes toBytes String.fromUTF8?
  simp only [String.toUTF8_eq_toByteArray, Array.toArray_toList]
  exact dif_pos x.isValidUTF8

theorem length_toBytes_eq_zero {x : String} : (toBytes x).length = 0 ↔ x = "" := by
  constructor
  · intro h
    have hx := fromBytes_toBytes x
    rw [List.length_eq_zero_iff.mp h, ← List.length_eq_zero_iff.mp (rfl : (toBytes "").length = 0),
      fromBytes_toBytes] at hx
    exact (Option.some_inj.mp hx).symm
  · rintro rfl
    rfl

section Values
variable {s : σ} (rest : Bytes)

theorem intCoder_reads {bits : ℕ} (hbits : bits = 32 ∨ bits = 64) (num : ℕ) (get : σ → ℤ)
    (set : ℤ → σ → σ) {x : ℤ} (h : -2 ^ (bits - 1) ≤ x ∧ x < 2 ^ (bits - 1)) :
    (intCoder bits num get set).unmarshal .varint (appendVarint (uint64 x) ++ rest) s =
      .ok (set x s) rest := by
  simp only [intCoder, if_true, consumeVarint_append (uint64_lt x), bmod_uint64 hbits h]

theorem stringCoder_reads (num : ℕ) (get : σ → String) (set : String → σ → σ) {x : String}
    (h : (toBytes x).length < 2 ^ 64) :
    (stringCoder num get set).unmarshal .bytes
      (appendVarint (toBytes x).length ++ toBytes x ++ rest) s = .ok (set x s) rest := by
  simp only [stringCoder, if_true, List.append_assoc, consumeBytes_append h, fromBytes_toBytes]

theorem messageCoder_reads (num : ℕ) {mi : MessageInfo τ} {zero m : τ} {get : σ → Option τ}
    (set : Option τ → σ → σ) {b : Bytes} (h : b.length < 2 ^ 64)
    (hm : mi.unmarshal b ((get s).getD zero) = (m, true)) :
    (messageCoder num mi zero get set).unmarshal .bytes (appendVarint b.length ++ b ++ rest) s =
      .ok (set (some m) s) rest := by
  simp only [messageCoder, if_true, List.append_assoc, consumeBytes_append h, hm]

theorem mapCoder_reads (num : ℕ) {mi : MessageInfo τ} {zero : τ}
    {get : σ → GoMap String (Option τ)} (set : GoMap String (Option τ) → σ → σ) {b : Bytes}
    (h : b.length < 2 ^ 64) {e : String × τ}
    (he : (entryInfo mi zero).unmarshal b ("", zero) = (e, true)) :
    (mapCoder num mi zero get set).unmarshal .bytes (appendVarint b.length ++ b ++ rest) s =
      .ok (set (.table ((get s).alist.insert e.1 (some e.2))) s) rest := by
  simp only [mapCoder, if_true, List.append_assoc, consumeBytes_append h, he]

end Values

/-- An entry is read as its key and its message; the message of a nil pointer is empty. -/
theorem entry_reads {mi mi' : MessageInfo τ} {zero m : τ} {e : String × Option τ}
    (hmi : ∀ m ∈ e.2, mi'.Exact m) (hlt : (appendMapItem mi' e).length < 2 ^ 64)
    (hm : mi.unmarshal (marshalMessage mi' e.2) zero = (m, true)) :
    (entryInfo mi zero).unmarshal (appendMapItem mi' e) ("", zero) = ((e.1, m), true) := by
  unfold appendMapItem at hlt ⊢
  simp only [List.length_append] at hlt
  have hkey : (entryInfo mi zero).Reads
      (appendVarint (bytesTag 1) ++ (appendVarint (toBytes e.1).length ++ toBytes e.1))
      ("", zero) (e.1, zero) :=
    MessageInfo.reads_field rfl (by decide) (by decide) (by decide)
      fun rest => stringCoder_reads rest 1 _ _ (by omega)
  have hsize : sizeMessage mi' e.2 = (marshalMessage mi' e.2).length :=
    sizeMessage_eq hmi (by omega)
  have hvalue : (entryInfo mi zero).Reads (appendVarint (bytesTag 2) ++
      (appendVarint (sizeMessage mi' e.2) ++ marshalMessage mi' e.2)) (e.1, zero) (e.1, m) := by
    rw [hsize]
    exact MessageInfo.reads_field rfl (by decide) (by decide) (by decide)
      fun rest => messageCoder_reads rest 2 _ (by omega) hm
  exact (hkey.append hvalue).unmarshal

namespace MessageInfo
variable {mi : MessageInfo σ} {s₀ s : σ} {num : ℕ}

section Fields
variable (hnum : 1 ≤ num ∧ num ≤ maxValidNumber)

include hnum

theorem reads_int {bits : ℕ} {get : σ → ℤ} {set : ℤ → σ → σ}
    (hc : mi.coders.lookup num = some (intCoder bits num get set)) (hbits : bits = 32 ∨ bits = 64)
    (hfits : -2 ^ (bits - 1) ≤ get s₀ ∧ get s₀ < 2 ^ (bits - 1)) (hzero : set 0 s = s) :
    mi.Reads ((intCoder bits num get set).marshal s₀) s (set (get s₀) s) := by
  simp only [intCoder]
  split_ifs with hget
  · rw [hget, hzero]
    exact .nil s
  · exact reads_field (k := 0) hc hnum (by decide) (by decide)
      fun rest => intCoder_reads rest hbits num get set hfits

theorem reads_string {get : σ → String} {set : String → σ → σ}
    (hc : mi.coders.lookup num = some (stringCoder num get set))
    (hlt : ((stringCoder num get set).marshal s₀).length < 2 ^ 64) (hempty : set "" s = s) :
    mi.Reads ((stringCoder num get set).marshal s₀) s (set (get s₀) s) := by
  simp only [stringCoder] at hlt ⊢
  split_ifs at hlt ⊢ with hget
  · rw [length_toBytes_eq_zero.mp hget, hempty]
    exact .nil s
  · simp only [List.length_append] at hlt
    exact reads_field (k := 2) hc hnum (by decide) (by decide)
      fun rest => stringCoder_reads rest num get set (by omega)

/-- A message, which may have been written by another version, is read into the empty one. -/
theorem reads_message {sub sub' : MessageInfo τ} {zero : τ} {get : σ → Option τ}
    {set : Option τ → σ → σ} (hc : mi.coders.lookup num = some (messageCoder num sub zero get set))
    (hlt : ((messageCoder num sub' zero get set).marshal s₀).length < 2 ^ 64)
    (hexact : ∀ m, sub'.Exact m)
    (hm : ∀ m ∈ get s₀, (sub'.marshal m).length < 2 ^ 64 →
      sub.unmarshal (sub'.marshal m) zero = (m, true))
    (hget : get s = none) (hnone : set none s = s) :
    mi.Reads ((messageCoder num sub' zero get set).marshal s₀) s (set (get s₀) s) := by
  simp only [messageCoder] at hlt ⊢
  cases heq : get s₀ with
  | none =>
    rw [hnone]
    exact .nil s
  | some m =>
    simp only [heq, List.length_append] at hlt
    dsimp only
    rw [hexact m (by omega)]
    refine reads_field (k := 2) hc hnum (by decide) (by decide)
      fun rest => messageCoder_reads rest num set (by omega) ?_
    rw [hget]
    exact hm m heq (by omega)

/-- A map is read entry by entry. -/
theorem reads_entries {sub sub' : MessageInfo τ} {zero : τ} {get : σ → GoMap String (Option τ)}
    {set : GoMap String (Option τ) → σ → σ} {R : τ → τ → Prop}
    (hc : mi.coders.lookup num = some (mapCoder num sub zero get set))
    (hgetset : ∀ m s, get (set m s) = m) (hsetget : ∀ s, set (get s) s = s)
    (hsetset : ∀ m m' s, set m' (set m s) = set m' s) (es : List (String × Option τ))
    (hdistinct : (es.map Prod.fst).Nodup)
    (hlt : (es.flatMap fun e => appendVarint (bytesTag num) ++
      (appendVarint (sizeMapItem sub' e) ++ appendMapItem sub' e)).length < 2 ^ 64)
    (hexact : ∀ e ∈ es, ∀ m ∈ e.2, sub'.Exact m)
    (hm : ∀ e ∈ es, (marshalMessage sub' e.2).length < 2 ^ 64 →
      ∃ m, sub.unmarshal (marshalMessage sub' e.2) zero = (m, true) ∧ R (e.2.getD zero) m) :
    ∃ m', mi.Reads (es.flatMap fun e => appendVarint (bytesTag num) ++
        (appendVarint (sizeMapItem sub' e) ++ appendMapItem sub' e)) s (set m' s) ∧
      (∀ e ∈ es, ∃ m, m'.get e.1 = some (some m) ∧ R (e.2.getD zero) m) ∧
      (∀ k, k ∉ es.map Prod.fst → m'.get k = (get s).get k) ∧ (es = [] → m' = get s) := by
  induction es generalizing s with
  | nil =>
    refine ⟨get s, ?_, List.forall_mem_nil _, fun k _ => rfl, fun _ => rfl⟩
    rw [hsetget]
    exact .nil s
  | cons e es ih =>
    obtain ⟨hfresh, hdistinct⟩ := List.nodup_cons.mp hdistinct
    obtain ⟨hexact₁, hexact⟩ := List.forall_mem_cons.mp hexact
    obtain ⟨hm₁, hm⟩ := List.forall_mem_cons.mp hm
    simp only [List.flatMap_cons, List.length_append] at hlt
    have hitem : (marshalMessage sub' e.2).length ≤ (appendMapItem sub' e).length := by
      unfold appendMapItem
      simp only [List.length_append]
      omega
    obtain ⟨m, hread, hR⟩ := hm₁ (by omega)
    have hfirst : mi.Reads (appendVarint (bytesTag num) ++
        (appendVarint (sizeMapItem sub' e) ++ appendMapItem sub' e)) s
        (set (.table ((get s).alist.insert e.1 (some m))) s) := by
      rw [sizeMapItem_eq hexact₁ (by omega)]
      exact reads_field (k := 2) hc hnum (by decide) (by decide) fun rest =>
        mapCoder_reads rest num set (by omega) (entry_reads hexact₁ (by omega) hread)
    obtain ⟨m', hreads, hin, hout, -⟩ := ih
      (s := set (.table ((get s).alist.insert e.1 (some m))) s) hdistinct (by omega) hexact hm
    rw [hsetset] at hreads
    rw [hgetset] at hout
    refine ⟨m', hfirst.append hreads, List.forall_mem_cons.mpr ⟨⟨m, ?_, hR⟩, hin⟩, fun k hk => ?_,
      fun hnil => absurd hnil (List.cons_ne_nil e es)⟩
    · rw [hout e.1 hfresh, GoMap.get_table, AList.lookup_insert]
    · have hne : k ≠ e.1 := fun heq => hk (by simp [heq])
      have hnot : k ∉ es.map Prod.fst := fun hmem => hk (by simp [hmem])
      rw [hout k hnot, GoMap.get_table, AList.lookup_insert_ne hne]
      rfl

end Fields

/-- A map, which may have been written by another version, is read into the empty one. -/
theorem reads_map (mi : MessageInfo σ) (num : ℕ) (s₀ s : σ) {sub sub' : MessageInfo τ} {zero : τ} {get : σ → GoMap String (Option τ)}
    {set : GoMap String (Option τ) → σ → σ} {R : τ → τ → Prop}
    (hnum : 1 ≤ num ∧ num ≤ maxValidNumber)
    (hc : mi.coders.lookup num = some (mapCoder num sub zero get set))
    (hgetset : ∀ m s, get (set m s) = m) (hsetget : ∀ s, set (get s) s = s)
    (hsetset : ∀ m m' s, set m' (set m s) = set m' s) (hzero : R zero zero)
    (hlt : ((mapCoder num sub' zero get set).marshal s₀).length < 2 ^ 64)
    (hexact : ∀ m, sub'.Exact m)
    (hm : ∀ k m, (get s₀).get k = some (some m) → (sub'.marshal m).length < 2 ^ 64 →
      ∃ m', sub.unmarshal (sub'.marshal m) zero = (m', true) ∧ R m m')
    (hempty : ∀ k, (get s).get k = none) :
    ∃ m', mi.Reads ((mapCoder num sub' zero get set).marshal s₀) s (set m' s) ∧
      (∀ k, Option.Rel (fun o o' => ∃ x, o' = some x ∧ R (o.getD zero) x) ((get s₀).get k)
        (m'.get k)) ∧ (m'.len = 0 → m' = get s) := by
  have hentry : ∀ e ∈ (get s₀).range, (marshalMessage sub' e.2).length < 2 ^ 64 →
      ∃ m, sub.unmarshal (marshalMessage sub' e.2) zero = (m, true) ∧ R (e.2.getD zero) m := by
    rintro ⟨k, o⟩ he hle
    cases o with
    | none => exact ⟨zero, rfl, hzero⟩
    | some m => exact hm k m (GoMap.mem_range_iff.mp he) hle
  obtain ⟨m', hreads, hin, hout, hnil⟩ := reads_entries hnum (s := s) hc hgetset hsetget hsetset
    (get s₀).range (get s₀).range_keys_nodup hlt (fun _ _ m _ => hexact m) hentry
  refine ⟨m', hreads, fun k => ?_, fun hlen => hnil ?_⟩
  swap
  · by_contra hne
    obtain ⟨e, he⟩ := List.exists_mem_of_ne_nil _ hne
    obtain ⟨x, hx, -⟩ := hin e he
    have hkey := GoMap.mem_keys_iff.mpr ⟨_, hx⟩
    simp [List.length_eq_zero_iff.mp hlen] at hkey
  cases hk : (get s₀).get k with
  | none =>
    have hnot : k ∉ (get s₀).range.map Prod.fst := by
      intro hmem
      obtain ⟨⟨k', v⟩, hmem', rfl⟩ := List.mem_map.mp hmem
      simp [GoMap.mem_range_iff.mp hmem'] at hk
    rw [hout k hnot, hempty k]
    exact .none
  | some o =>
    obtain ⟨x, hx, hR⟩ := hin (k, o) (GoMap.mem_range_iff.mpr hk)
    rw [hx]
    exact .some ⟨x, rfl, hR⟩

end MessageInfo

end Coders

end Wire
