import QuotaService.Buckets.Redis
import QuotaService.Lib.Separator

/-! The names under which buckets keep their state: the Redis keys of a bucket and the identifier of
its watcher. Both join the namespace and the name by a colon and escape nothing, and an endpoint
only checks that neither is empty. -/
namespace QuotaService.Buckets
open Config Redis

/-- What the gRPC endpoint turns down. -/
def invalid (ns bucketName : String) : Bool := bucketName == "" || ns == ""

/-- No other bucket that the endpoint admits has the identifier of this one, nor any key of it. -/
def Distinguished (ns bucketName : String) : Prop :=
  ∀ ns' bucketName', invalid ns' bucketName' = false → (ns', bucketName') ≠ (ns, bucketName) →
    fullyQualifiedName ns' bucketName' ≠ fullyQualifiedName ns bucketName ∧
    ∀ suffix ∈ [tokensNextAvblNanosSuffix, accumulatedTokensSuffix], ∀ version' version,
      toRedisKey ns' bucketName' suffix version' ≠ toRedisKey ns bucketName suffix version

theorem invalid_eq_false {ns bucketName : String} :
    invalid ns bucketName = false ↔ ns ≠ "" ∧ bucketName ≠ "" := by
  simp [invalid, and_comm]

theorem toList_fullyQualifiedName (ns bucketName : String) :
    (fullyQualifiedName ns bucketName).toList = ns.toList ++ ':' :: bucketName.toList := by
  simp [fullyQualifiedName]

/-- A printed integer consists of digits and a sign. -/
theorem brace_notMem_formatInt (x : ℤ) : '\x7d' ∉ (formatInt x).toList := by
  have hnat : ∀ n : ℕ, '\x7d' ∉ n.repr.toList := by
    intro n h
    have hdigit := Nat.isDigit_of_mem_toDigits (by decide) (by decide) (Nat.toList_repr ▸ h)
    revert hdigit
    decide
  unfold formatInt
  rw [Int.repr_eq_if]
  split_ifs
  · exact hnat _
  · rw [String.toList_append]
    intro h
    rcases List.mem_append.mp h with h | h
    · revert h
      decide
    · exact hnat _ h

theorem toList_toRedisKey (ns bucketName suffix : String) (version : ℤ) :
    (toRedisKey ns bucketName suffix version).toList =
      ('\x7b' :: (fullyQualifiedName ns bucketName).toList) ++
        '\x7d' :: (':' :: suffix.toList ++ ':' :: (formatInt version).toList) := by
  simp [toRedisKey, fullyQualifiedName]

/-- What stands between the braces of a key can be read back, because the closing brace is the
last one. -/
theorem fullyQualifiedName_of_toRedisKey {ns ns' bucketName bucketName' suffix : String}
    {version version' : ℤ} (hsuffix : '\x7d' ∉ suffix.toList)
    (h : toRedisKey ns' bucketName' suffix version' = toRedisKey ns bucketName suffix version) :
    fullyQualifiedName ns' bucketName' = fullyQualifiedName ns bucketName := by
  have hrest : ∀ v : ℤ, '\x7d' ∉ ':' :: suffix.toList ++ ':' :: (formatInt v).toList := by
    intro v
    simp [hsuffix, brace_notMem_formatInt]
  have hlist := congrArg String.toList h
  rw [toList_toRedisKey, toList_toRedisKey] at hlist
  obtain ⟨hnames, -⟩ := Separator.inj_of_notMem_right (hrest version') (hrest version) hlist
  exact String.toList_injective (List.cons.inj hnames).2

theorem brace_notMem_suffix :
    ∀ suffix ∈ [tokensNextAvblNanosSuffix, accumulatedTokensSuffix], '\x7d' ∉ suffix.toList := by
  decide

/-- The keys and the identifier tell buckets apart as far as the joined names do. -/
theorem distinguished_iff_unambiguous (ns bucketName : String) :
    Distinguished ns bucketName ↔ Separator.Unambiguous ':' ns.toList bucketName.toList := by
  constructor
  · intro h a b ha hb hjoin
    by_contra hne
    have hadmitted : invalid (String.ofList a) (String.ofList b) = false := by
      rw [invalid_eq_false]
      exact ⟨fun h => ha (by simpa using congrArg String.toList h),
        fun h => hb (by simpa using congrArg String.toList h)⟩
    have hpair : (String.ofList a, String.ofList b) ≠ (ns, bucketName) := by
      intro heq
      obtain ⟨rfl, rfl⟩ := Prod.mk.inj heq
      exact hne (by simp)
    refine (h _ _ hadmitted hpair).1 (String.toList_injective ?_)
    rw [toList_fullyQualifiedName, toList_fullyQualifiedName]
    simpa using hjoin
  · intro h ns' bucketName' hadmitted hpair
    obtain ⟨hns, hbucketName⟩ := invalid_eq_false.mp hadmitted
    have hname : fullyQualifiedName ns' bucketName' ≠ fullyQualifiedName ns bucketName := by
      intro heq
      have hlist := congrArg String.toList heq
      rw [toList_fullyQualifiedName, toList_fullyQualifiedName] at hlist
      obtain ⟨hns', hbucketName'⟩ := h ns'.toList bucketName'.toList (by simpa using hns)
        (by simpa using hbucketName) hlist
      exact hpair (Prod.ext (String.toList_injective hns') (String.toList_injective hbucketName'))
    exact ⟨hname, fun suffix hsuffix version' version heq =>
      hname (fullyQualifiedName_of_toRedisKey (brace_notMem_suffix suffix hsuffix) heq)⟩

/-- A bucket shares no key and no watcher with any other exactly when a colon stands nowhere but at
the beginning of its namespace or at the end of its name. -/
theorem distinguished_iff (ns bucketName : String) (h : invalid ns bucketName = false) :
    Distinguished ns bucketName ↔
      ':' ∉ ns.toList.tail ∧ ':' ∉ bucketName.toList.dropLast := by
  obtain ⟨hns, hbucketName⟩ := invalid_eq_false.mp h
  rw [distinguished_iff_unambiguous]
  exact Separator.unambiguous_iff (by simpa using hns) (by simpa using hbucketName)

theorem distinguished_iff_documented : Distinguished "test_namespace" "one" :=
  (distinguished_iff "test_namespace" "one" (by decide)).mpr (by decide)

/-- Two buckets that the endpoint admits, with the same keys and the same watcher. -/
theorem colon_collision :
    invalid "a:b" "c" = false ∧ invalid "a" "b:c" = false ∧
      toRedisKey "a:b" "c" tokensNextAvblNanosSuffix 1 =
        toRedisKey "a" "b:c" tokensNextAvblNanosSuffix 1 ∧
      fullyQualifiedName "a:b" "c" = fullyQualifiedName "a" "b:c" ∧ ¬ Distinguished "a" "b:c" := by
  have hname : fullyQualifiedName "a:b" "c" = fullyQualifiedName "a" "b:c" := by decide
  refine ⟨by decide, by decide, by decide, hname, fun h => ?_⟩
  exact (h "a:b" "c" (by decide) (by decide)).1 hname

end QuotaService.Buckets
