import QuotaService.Buckets.Expiry
import QuotaService.Buckets.Names
import QuotaService.Buckets.Renewal

/-! Servers that share a Redis. Their buckets of one name and version use the same two keys, which are
touched by no other bucket, so that together they are one bucket, whatever the interleaving of their
calls. That the keys expire goes unnoticed if they live for as long as the bucket takes to be full. -/
namespace QuotaService.Redis
open Config Memory Arith

/-- The buckets of the servers, as the factories of the servers make them, where servers that are at
the same version of the config have the same config. -/
structure Fleet (ι : Type) where
  factory : ι → BucketFactory
  «namespace» : ι → String
  bucketName : ι → String
  cfg : ι → BucketConfig
  dyn : ι → Bool
  shared : ∀ i, dyn i = true →
    ∀ attribs, (factory i).sharedAttributes.lookup («namespace» i) = some attribs →
      attribs = newConfigAttributes (cfg i) (idleOf (cfg i))
  agreed : ∀ i j,
    fullyQualifiedName («namespace» i) (bucketName i) =
      fullyQualifiedName («namespace» j) (bucketName j) →
    (factory i).cfg.version = (factory j).cfg.version → cfg i = cfg j
  admissible : ∀ i, Admissible (cfg i)
  debt_fits : ∀ i, int64.Fits ((cfg i).maxDebtMillis * 1000000)

/-- A call of `Take` on one of the buckets. -/
structure Taking (ι : Type) where
  object : ι
  request : Request

namespace Fleet
variable {ι : Type} (f : Fleet ι)

def object (i : ι) : RedisBucket :=
  ((f.factory i).newBucket (f.namespace i) (f.bucketName i) (f.cfg i) (f.dyn i)).2

/-- What the keys of a bucket are made of. -/
def quota (i : ι) : String × ℤ :=
  (fullyQualifiedName (f.namespace i) (f.bucketName i), (f.factory i).cfg.version)

def take (e : Expiry) (db : Keyspace) (x : Taking ι) : Keyspace × Except String (ℤ × Bool) :=
  (f.object x.object).take .exact e db x.request

/-- The calls on the buckets that have a quota in common with `i`. -/
def of (i : ι) (x : Taking ι) : Bool := f.quota x.object = f.quota i

/-- An in-memory bucket in the place of those that have a quota in common with `i`. -/
def memoryBucket (i : ι) : TokenBucket :=
  Memory.newBucket (f.namespace i) (f.bucketName i) (f.cfg i) (f.dyn i)

/-- Keys that expire do so when any bucket is full. -/
def Patient (e : Expiry) : Prop :=
  match e with
  | .never => True
  | .px => ∀ i, 0 < lifespanMillis (f.object i) → refillTime (f.cfg i) ≤ lifespanNanos (f.object i)

end Fleet

section Keys
variable {ns ns' bucketName bucketName' : String} {version version' : ℤ}

/-- The suffix of a key is read back from it. -/
theorem toRedisKey_ne :
    toRedisKey ns bucketName tokensNextAvblNanosSuffix version ≠
      toRedisKey ns' bucketName' accumulatedTokensSuffix version' := by
  have hrest : ∀ suffix ∈ [tokensNextAvblNanosSuffix, accumulatedTokensSuffix], ∀ v : ℤ,
      '\x7d' ∉ ':' :: suffix.toList ++ ':' :: (formatInt v).toList := by
    intro suffix hsuffix v
    have hbrace := Buckets.brace_notMem_suffix suffix hsuffix
    simp [hbrace, Buckets.brace_notMem_formatInt]
  intro h
  have hlist := congrArg String.toList h
  rw [Buckets.toList_toRedisKey, Buckets.toList_toRedisKey] at hlist
  obtain ⟨-, hsuffix⟩ := Separator.inj_of_notMem_right (hrest _ (by simp) version)
    (hrest _ (by simp) version') hlist
  simp [tokensNextAvblNanosSuffix, accumulatedTokensSuffix] at hsuffix

theorem toRedisKey_inj {suffix : String}
    (hsuffix : suffix ∈ [tokensNextAvblNanosSuffix, accumulatedTokensSuffix]) :
    toRedisKey ns bucketName suffix version = toRedisKey ns' bucketName' suffix version' ↔
      fullyQualifiedName ns bucketName = fullyQualifiedName ns' bucketName' ∧ version = version' := by
  have hparts : ∀ ns bucketName version, toRedisKey ns bucketName suffix version =
      "\x7b" ++ fullyQualifiedName ns bucketName ++ "\x7d:" ++ suffix ++ ":" ++ formatInt version := by
    intro ns bucketName version
    simp [toRedisKey, fullyQualifiedName, String.append_assoc]
  constructor
  · intro h
    have hname := Buckets.fullyQualifiedName_of_toRedisKey
      (Buckets.brace_notMem_suffix suffix hsuffix) h
    rw [hparts, hparts, hname] at h
    have hversion : formatInt version = formatInt version' := (String.append_right_inj _).mp h
    have hnumber := congrArg tonumber hversion
    rw [tonumber_formatInt, tonumber_formatInt] at hnumber
    exact ⟨hname, Option.some.inj hnumber⟩
  · rintro ⟨hname, rfl⟩
    rw [hparts, hparts, hname]

end Keys

namespace Fleet
variable {ι : Type} {f : Fleet ι} {i j : ι}

theorem serves (i : ι) : Serves (f.object i) (f.cfg i) :=
  ⟨newBucket_carries (f.factory i) (f.namespace i) (f.bucketName i) (f.cfg i) (f.dyn i) (f.shared i),
    f.debt_fits i⟩

theorem keys_eq (h : f.quota i = f.quota j) : (f.object i).keys = (f.object j).keys := by
  obtain ⟨hname, hversion⟩ := Prod.mk.inj h
  unfold object
  rw [BucketFactory.newBucket_keys, BucketFactory.newBucket_keys, Prod.mk.injEq]
  exact ⟨(toRedisKey_inj (by simp)).mpr ⟨hname, hversion⟩,
    (toRedisKey_inj (by simp)).mpr ⟨hname, hversion⟩⟩

theorem cfg_eq (h : f.quota i = f.quota j) : f.cfg i = f.cfg j := by
  obtain ⟨hname, hversion⟩ := Prod.mk.inj h
  exact f.agreed i j hname hversion

/-- Buckets that have no quota in common have no key in common. -/
theorem keys_ne (h : f.quota i ≠ f.quota j) (key : String)
    (hkey : key = (f.object i).keys.1 ∨ key = (f.object i).keys.2) :
    key ≠ (f.object j).keys.1 ∧ key ≠ (f.object j).keys.2 := by
  have hne : ∀ {suffix : String}, suffix ∈ [tokensNextAvblNanosSuffix, accumulatedTokensSuffix] →
      toRedisKey (f.namespace i) (f.bucketName i) suffix (f.factory i).cfg.version ≠
        toRedisKey (f.namespace j) (f.bucketName j) suffix (f.factory j).cfg.version := by
    intro suffix hsuffix heq
    obtain ⟨hname, hversion⟩ := (toRedisKey_inj hsuffix).mp heq
    exact h (Prod.ext hname hversion)
  unfold object at hkey ⊢
  rw [BucketFactory.newBucket_keys] at hkey ⊢
  rcases hkey with rfl | rfl
  · exact ⟨hne (by simp), toRedisKey_ne⟩
  · exact ⟨toRedisKey_ne.symm, hne (by simp)⟩

end Fleet

section Frame
variable {L : DivArith} {a : RedisBucket} {e : Expiry} {db : Keyspace} {r : Request} {key : String}

/-- A call touches the keys of its bucket only. -/
theorem take_frame (h1 : key ≠ a.keys.1) (h2 : key ≠ a.keys.2) :
    (a.take L e db r).1 key = (db.purge e r.time.nanos) key := by
  unfold RedisBucket.take
  dsimp only
  cases hscript : luaScript L a.keys (a.argv r) r.time (db.purge e r.time.nanos) with
  | none => rfl
  | some p =>
    have hwrites : p.1 key = (db.purge e r.time.nanos) key := by
      unfold luaScript at hscript
      simp only [Option.bind_eq_bind, Option.bind_eq_some_iff] at hscript
      obtain ⟨_, _, _, _, _, _, _, _, _, _, _, _, _, _, hscript⟩ := hscript
      split_ifs at hscript <;> cases hscript <;> simp [Keyspace.set, h1, h2]
    exact hwrites

end Frame

/-- What the store holds at `now` for a bucket that would be `m` if its keys did not expire. They are
as `m` is, or they are gone since `m` has been renewed. -/
structure Holds (a : RedisBucket) (cfg : BucketConfig) (init : TokenBucket) (e : Expiry) (now : ℤ)
    (db : Keyspace) (m m' : TokenBucket) : Prop where
  follows : Sharing.Follows init (Renewed cfg init) now m m'
  repayable : Repayable cfg init now m'
  simulates : Simulates a cfg m' db
  stamped : Absent a db ∨ ∃ v w expiresAt, db a.keys.1 = some ⟨v, expiresAt⟩ ∧
    db a.keys.2 = some ⟨w, expiresAt⟩ ∧ (e = .px → ∀ t ∈ expiresAt, Renewed cfg init t m')

section Holds
variable {a : RedisBucket} {cfg : BucketConfig} {e : Expiry} {now now' : ℤ} {db db' : Keyspace}
variable {ns bucketName : String} {dyn : Bool} {m m' : TokenBucket}

theorem Holds.congr {a' : RedisBucket} (h : Holds a cfg (Memory.newBucket ns bucketName cfg dyn) e now db m m')
    (hcfg : a'.cfg = a.cfg) (hkeys : a'.keys = a.keys) (h1 : db' a.keys.1 = db a.keys.1)
    (h2 : db' a.keys.2 = db a.keys.2) :
    Holds a' cfg (Memory.newBucket ns bucketName cfg dyn) e now db' m m' := by
  have hsim := simulates_congr h1 h2 h.simulates
  refine ⟨h.follows, h.repayable, ⟨hsim.cfg_eq, hsim.nanos_eq, ?_, ?_, ?_⟩, ?_⟩
  · rw [storedHorizon, hkeys]
    exact hsim.horizon_eq
  · rw [storedStock, hkeys, hcfg]
    exact hsim.stock_eq
  · rw [hkeys]
    exact hsim.stock_parses
  · unfold Absent
    rw [hkeys, h1, h2]
    exact h.stamped

/-- The keys that vanish are those of a bucket that has been renewed. -/
theorem Holds.purge (hcfg : Admissible cfg) (ha : Serves a cfg)
    (h : Holds a cfg (Memory.newBucket ns bucketName cfg dyn) e now db m m') (hle : now ≤ now') :
    ∃ m₁, Holds a cfg (Memory.newBucket ns bucketName cfg dyn) e now' (db.purge e now') m m₁ := by
  have hrenews := newBucket_renews hcfg.fills ns bucketName dyn
  have hfollows := hrenews.follows_later h.follows hle
  have hlater := h.repayable.later hle
  have hheld : (db.purge e now') a.keys.1 = db a.keys.1 → (db.purge e now') a.keys.2 = db a.keys.2 →
      ∃ m₁, Holds a cfg (Memory.newBucket ns bucketName cfg dyn) e now' (db.purge e now') m m₁ := by
    intro h1 h2
    have hsame : Holds a cfg (Memory.newBucket ns bucketName cfg dyn) e now' db m m' :=
      ⟨hfollows, hlater, h.simulates, h.stamped⟩
    exact ⟨m', hsame.congr rfl rfl h1 h2⟩
  cases e with
  | never => exact hheld rfl rfl
  | px =>
    rcases h.stamped with ⟨h1, h2⟩ | ⟨v, w, expiresAt, h1, h2, hrenewed⟩
    · exact hheld (by simp [purge_px_eq, h1]) (by simp [purge_px_eq, h2])
    · by_cases hlive : expiresAt.all fun t => now' < t
      · exact hheld (by simp [purge_px_eq, h1, hlive]) (by simp [purge_px_eq, h2, hlive])
      · obtain ⟨t, rfl, ht⟩ : ∃ t, expiresAt = some t ∧ t ≤ now' := by
          cases expiresAt with
          | none => simp at hlive
          | some t => exact ⟨t, rfl, by simpa using hlive⟩
        have habsent : Absent a (db.purge .px now') := by
          simp [Absent, purge_px_eq, h1, h2, ht]
        have hdue : Renewed cfg (Memory.newBucket ns bucketName cfg dyn) now' m' :=
          (hrenewed rfl t rfl).later hcfg.fills ht
        exact ⟨_, Sharing.follows_init hfollows hdue,
          newBucket_repayable hcfg.fills ns bucketName dyn hlater.past,
          simulates_absent ha.toCarries habsent ns bucketName dyn, Or.inl habsent⟩

/-- A call on the bucket. -/
theorem Holds.take (hcfg : Admissible cfg) (ha : Serves a cfg)
    (hlife : e = .px → 0 < lifespanMillis a → refillTime cfg ≤ lifespanNanos a)
    (h : Holds a cfg (Memory.newBucket ns bucketName cfg dyn) e now db m m') {r : Request}
    (hle : now ≤ r.time.nanos) (hr : 0 ≤ r.requested) :
    (∃ m₁, Holds a cfg (Memory.newBucket ns bucketName cfg dyn) e r.time.nanos (a.take .exact e db r).1
      (m.take .exact r.toCall).1 m₁) ∧
    (a.take .exact e db r).2 = .ok (m.take .exact r.toCall).2 := by
  obtain ⟨m₁, hlive⟩ := h.purge hcfg ha hle
  have hrenews := newBucket_renews hcfg.fills ns bucketName dyn
  obtain ⟨hsim, hout⟩ := take_simulates hcfg ha e r hlive.simulates
  obtain ⟨hfollows, hsame⟩ := hrenews.follows_step hlive.follows (i := r.toCall) (le_refl _)
  have hrepay : Repayable cfg (Memory.newBucket ns bucketName cfg dyn) r.time.nanos
      (m₁.take .exact r.toCall).1 :=
    hlive.repayable.take (c := r.toCall) hcfg (le_refl _) hr
  refine ⟨⟨_, hfollows, hrepay, hsim, ?_⟩, hout.trans (congrArg Except.ok hsame)⟩
  unfold RedisBucket.take
  dsimp only
  rw [luaScript_exact hcfg ha hlive.simulates, TokenBucket.take_exact]
  by_cases href : m₁.Refuses r.toCall
  · simp only [href, if_true]
    exact hlive.stamped
  · simp only [href, if_false]
    refine Or.inr ⟨formatInt (m₁.granted r.toCall).tokensNextAvailableNanos,
      formatInt (m₁.granted r.toCall).accumulatedTokens, expiryOf a r.time.nanos, ?_, ?_, ?_⟩
    · simp [written, Keyspace.set, ha.keys_ne, Request.toCall]
    · simp [written, Keyspace.set, Request.toCall]
    · intro he t ht
      rw [TokenBucket.take_exact, if_neg href] at hrepay
      unfold expiryOf at ht
      split_ifs at ht with hpos
      · cases ht
        exact (hrepay.renewed hcfg.fills).later hcfg.fills
          (add_le_add_right (hlife he hpos) _)
      · cases ht

end Holds

namespace Fleet
variable {ι : Type} {f : Fleet ι}

/-- Whatever the interleaving, the calls that have a quota in common are answered as those of one
in-memory bucket are. -/
theorem outputsOf_take {e : Expiry} (hpatient : f.Patient e) (i : ι) {db : Keyspace}
    (hdb : Absent (f.object i) db) {takes : List (Taking ι)}
    (hreq : ∀ x ∈ takes, 0 ≤ x.request.requested)
    (htimed : Sharing.Timed (fun x : Taking ι => x.request.time.nanos) 0 takes) :
    Sharing.outputsOf (f.take e) (f.of i) db takes =
      (Machine.outputs (TokenBucket.take .exact) (f.memoryBucket i)
        ((takes.filter (f.of i)).map fun x => x.request.toCall)).map .ok := by
  have hcfg := f.admissible i
  have hstart : Holds (f.object i) (f.cfg i) (f.memoryBucket i) e 0 db (f.memoryBucket i)
      (f.memoryBucket i) :=
    ⟨Or.inl rfl, newBucket_repayable hcfg.fills _ _ _ (le_refl 0),
      simulates_absent (serves i).toCarries hdb _ _ _, Or.inl hdb⟩
  refine Sharing.outputsOf_eq (fun x : Taking ι => x.request.toCall) Except.ok
    (fun now db m => ∃ m', Holds (f.object i) (f.cfg i) (f.memoryBucket i) e now db m m')
    (fun x => 0 ≤ x.request.requested) ?_ ?_ ⟨_, hstart⟩ hreq htimed
  · rintro now db m x ⟨m', h⟩ hx hle hmine
    have hquota : f.quota x.object = f.quota i := of_decide_eq_true hmine
    have hcfgs : f.cfg x.object = f.cfg i := cfg_eq hquota
    have hobject : (f.object x.object).cfg = (f.object i).cfg := by
      rw [(serves x.object).cfg_eq, (serves i).cfg_eq, hcfgs]
    have hserves : Serves (f.object x.object) (f.cfg i) := hcfgs ▸ serves x.object
    have hlife : e = .px → 0 < lifespanMillis (f.object x.object) →
        refillTime (f.cfg i) ≤ lifespanNanos (f.object x.object) := by
      rintro rfl
      exact hcfgs ▸ hpatient x.object
    have hother := h.congr hobject (keys_eq hquota) rfl rfl
    obtain ⟨⟨m₁, h₁⟩, hout⟩ := hother.take hcfg hserves hlife hle hx
    exact ⟨⟨m₁, h₁.congr hobject.symm (keys_eq hquota).symm rfl rfl⟩, hout⟩
  · rintro now db m x ⟨m', h⟩ hx hle hmine
    have hquota : f.quota i ≠ f.quota x.object := by
      intro heq
      have hdiff := of_decide_eq_false hmine
      exact hdiff heq.symm
    obtain ⟨m₁, h₁⟩ := h.purge hcfg (serves i) hle
    have hfirst := keys_ne hquota _ (Or.inl rfl)
    have hsecond := keys_ne hquota _ (Or.inr rfl)
    exact ⟨m₁, h₁.congr rfl rfl (take_frame hfirst.1 hfirst.2) (take_frame hsecond.1 hsecond.2)⟩

end Fleet

/-- Servers that share a Redis enforce one quota. In every interleaving of the calls of all servers on
all buckets, at times that do not decrease, those on one name and version are answered as by one
in-memory bucket, and get no more tokens than it would give out, as long as keys do not expire before
they have nothing to tell. -/
theorem fleet_enforces_one_quota {ι : Type} (f : Fleet ι) (e : Expiry) (hpatient : f.Patient e)
    (i : ι) (db : Keyspace) (hdb : Absent (f.object i) db) (takes : List (Taking ι))
    (hreq : ∀ x ∈ takes, 1 ≤ x.request.requested)
    (htimed : Sharing.Timed (fun x : Taking ι => x.request.time.nanos) 0 takes) :
    let calls := (takes.filter (f.of i)).map fun x => x.request.toCall
    let answers := Sharing.outputsOf (f.take e) (f.of i) db takes
    answers = (Machine.outputs (TokenBucket.take .exact) (f.memoryBucket i) calls).map .ok ∧
      WindowBound (f.cfg i) (served calls answers) := by
  intro calls answers
  have hcfg := f.admissible i
  have hnonneg : ∀ x ∈ takes, 0 ≤ x.request.requested := fun x hx =>
    zero_le_one.trans (hreq x hx)
  have hanswers : answers =
      (Machine.outputs (TokenBucket.take .exact) (f.memoryBucket i) calls).map .ok :=
    Fleet.outputsOf_take hpatient i hdb hnonneg htimed
  refine ⟨hanswers, ?_⟩
  rw [hanswers, served_memory]
  apply windowBound_grants hcfg (newBucket_sound hcfg.fills _ _ _)
  intro c hc
  obtain ⟨x, hx, rfl⟩ := List.mem_map.mp hc
  exact hnonneg x (List.mem_of_mem_filter hx)

/-- A bucket of three tokens on two servers, and another bucket between their calls: what is left of
the keys after a minute is what there is to be known. -/
def pair : Fleet Bool where
  factory _ := BucketFactory.new 0
  «namespace» _ := "ns"
  bucketName _ := "b"
  cfg _ := { size := 3, fillRate := 1, maxIdleMillis := 60000 }
  dyn _ := false
  shared _ h := nomatch h
  agreed _ _ _ _ := rfl
  admissible _ := ⟨by decide, by decide, by decide, by decide⟩
  debt_fits _ := by decide

theorem pair_patient : pair.Patient .px := by
  intro i _
  cases i <;> decide

theorem fleet_enforces_one_quota_pair :
    Sharing.outputsOf (pair.take .px) (pair.of true) (fun _ => none)
      [⟨true, ⟨1, 0⟩, 2, 0⟩, ⟨false, ⟨1, 500000⟩, 2, 0⟩, ⟨true, ⟨61, 500000⟩, 3, 0⟩] =
      [.ok (0, true), .ok (0, false), .ok (0, true)] := by
  have hone := (fleet_enforces_one_quota pair .px pair_patient true (fun _ => none) ⟨rfl, rfl⟩
    [⟨true, ⟨1, 0⟩, 2, 0⟩, ⟨false, ⟨1, 500000⟩, 2, 0⟩, ⟨true, ⟨61, 500000⟩, 3, 0⟩] (by decide)
    ⟨by decide, by decide⟩).1
  rw [hone]
  decide

section Lifetime
variable {cfg : BucketConfig}

/-- A burst that takes all that a bucket gives at once. -/
def burst (cfg : BucketConfig) : ℤ :=
  cfg.size + cfg.maxDebtMillis * 1000000 / nanosBetween cfg

/-- A new bucket grants the burst. -/
theorem burst_granted (hcfg : Admissible cfg) (ns bucketName : String) (dyn : Bool) {now : ℤ}
    (hnow : 0 ≤ now) (wait : ℤ) :
    ∃ b, (Memory.newBucket ns bucketName cfg dyn).take .exact ⟨now, burst cfg, wait⟩ =
        (b, (0, true)) ∧ Sound cfg b ∧ b.accumulatedTokens = 0 ∧
      b.tokensNextAvailableNanos =
        now + cfg.maxDebtMillis * 1000000 / nanosBetween cfg * nanosBetween cfg := by
  have hn := hcfg.one_le_nanosBetween
  obtain ⟨hhorizon, hstock⟩ := newBucket_full hcfg.fills ns bucketName dyn hnow
  have hdebt : 0 ≤ cfg.maxDebtMillis * 1000000 / nanosBetween cfg := by
    have hmax := hcfg.maxDebtMillis_nonneg
    exact Int.ediv_nonneg (by omega) (by omega)
  have hcost : cfg.maxDebtMillis * 1000000 / nanosBetween cfg * nanosBetween cfg ≤
      cfg.maxDebtMillis * 1000000 := Int.ediv_mul_le _ (by omega)
  have hstock' : (Memory.newBucket ns bucketName cfg dyn).stock now = cfg.size := hstock
  have hcfg' : (Memory.newBucket ns bucketName cfg dyn).cfg = cfg := rfl
  have hnanos : (Memory.newBucket ns bucketName cfg dyn).nanosBetweenTokens = nanosBetween cfg := rfl
  have hused : min cfg.size (burst cfg) = cfg.size := min_eq_left (by unfold burst; omega)
  have hwait : burst cfg - cfg.size = cfg.maxDebtMillis * 1000000 / nanosBetween cfg := by
    unfold burst
    omega
  have haccepted : ¬ (Memory.newBucket ns bucketName cfg dyn).Refuses ⟨now, burst cfg, wait⟩ := by
    simp only [TokenBucket.Refuses, hhorizon, hstock', hcfg', hnanos, hused, hwait]
    omega
  refine ⟨(Memory.newBucket ns bucketName cfg dyn).granted ⟨now, burst cfg, wait⟩, ?_, ?_, ?_, ?_⟩
  · rw [TokenBucket.take_exact, if_neg haccepted, hhorizon, sub_self]
  · refine ⟨rfl, rfl, ?_, ?_⟩
    · simp only [TokenBucket.granted, hstock', hused, sub_self, le_refl]
    · simp only [TokenBucket.granted, hstock', hused, sub_self, hcfg.size_nonneg]
  · simp only [TokenBucket.granted, hstock', hused, sub_self]
  · simp only [TokenBucket.granted, hstock', hhorizon, hnanos, hused, hwait]

/-- A bucket that has granted the burst refuses it until it is renewed. -/
theorem burst_refused (hcfg : Admissible cfg) {b : TokenBucket} (hb : Sound cfg b) {start now : ℤ}
    (hstock : b.accumulatedTokens = 0)
    (hhorizon : b.tokensNextAvailableNanos =
      start + cfg.maxDebtMillis * 1000000 / nanosBetween cfg * nanosBetween cfg)
    (hearly : now < start + nanosBetween cfg * burst cfg) :
    b.Refuses ⟨now, burst cfg, 0⟩ := by
  have hn := hcfg.one_le_nanosBetween
  have hmax := TokenBucket.horizon_eq_max b now
  have hbound : cfg.maxDebtMillis * 1000000 <
      (cfg.maxDebtMillis * 1000000 / nanosBetween cfg + 1) * nanosBetween cfg :=
    Int.lt_ediv_add_one_mul_self _ (by omega)
  unfold burst at hearly ⊢
  generalize cfg.maxDebtMillis * 1000000 / nanosBetween cfg = owed at hhorizon hearly hbound ⊢
  rw [mul_add, mul_comm _ owed] at hearly
  unfold TokenBucket.Refuses
  dsimp only
  by_cases hdebt : now < b.tokensNextAvailableNanos
  · right
    omega
  · left
    -- the tokens that have come since the debt was paid do not fill the bucket
    have hless : b.stock now < cfg.size := by
      rcases lt_or_eq_of_le (not_lt.mp hdebt) with hlt | heq
      · have hfew : (now - b.tokensNextAvailableNanos) / nanosBetween cfg < cfg.size := by
          rw [Int.ediv_lt_iff_lt_mul (by omega), mul_comm]
          omega
        rw [stock_eq_of_lt b hlt, hstock, hb.cfg_eq, hb.nanos_eq,
          Int.tdiv_eq_ediv_of_nonneg (by omega)]
        omega
      · have hpos : 0 < nanosBetween cfg * cfg.size := by omega
        have hsize := pos_of_mul_pos_right hpos (by omega)
        rw [stock_eq_of_le b heq.ge, hstock]
        exact hsize
    have hcost : (owed + 1) * nanosBetween cfg ≤
        (cfg.size + owed - min (b.stock now) (cfg.size + owed)) * nanosBetween cfg :=
      mul_le_mul_of_nonneg_right (by omega) (by omega)
    rw [hb.cfg_eq, hb.nanos_eq]
    omega

end Lifetime

section Alone
variable {a : RedisBucket} {cfg : BucketConfig} {db : Keyspace} {requests : List Request}

/-- A bucket that no other call comes between. -/
theorem outputs_take (hcfg : Admissible cfg) (ha : Serves a cfg)
    (hlife : refillTime cfg ≤ lifespanNanos a) (hdb : Absent a db) (ns bucketName : String)
    (dyn : Bool) (hreq : ∀ r ∈ requests, 0 ≤ r.requested)
    (htimed : Sharing.Timed (fun r : Request => r.time.nanos) 0 requests) :
    Machine.outputs (a.take .exact .px) db requests =
      (Machine.outputs (TokenBucket.take .exact) (Memory.newBucket ns bucketName cfg dyn)
        (requests.map Request.toCall)).map .ok := by
  have hstart : Holds a cfg (Memory.newBucket ns bucketName cfg dyn) .px 0 db
      (Memory.newBucket ns bucketName cfg dyn) (Memory.newBucket ns bucketName cfg dyn) :=
    ⟨Or.inl rfl, newBucket_repayable hcfg.fills _ _ _ (le_refl 0), simulates_absent ha.toCarries hdb _ _ _,
      Or.inl hdb⟩
  have hall : Sharing.outputsOf (a.take .exact .px) (fun _ => true) db requests =
      (Machine.outputs (TokenBucket.take .exact) (Memory.newBucket ns bucketName cfg dyn)
        ((requests.filter fun _ => true).map Request.toCall)).map Except.ok :=
    Sharing.outputsOf_eq Request.toCall Except.ok
      (fun now db m => ∃ m', Holds a cfg (Memory.newBucket ns bucketName cfg dyn) .px now db m m')
      (fun r => 0 ≤ r.requested)
      (fun now db m r ⟨m', h⟩ hr hle _ => h.take hcfg ha (fun _ _ => hlife) hle hr)
      (fun now db m r _ _ _ hnone => absurd hnone Bool.noConfusion) ⟨_, hstart⟩ hreq htimed
  simpa [Sharing.outputsOf, Machine.outputs] using hall

/-- The time at which keys vanish that are written a second after midnight. -/
def vanishing (a : RedisBucket) : Time :=
  ⟨1 + lifespanMillis a / 1000, lifespanMillis a % 1000 * 1000⟩

theorem vanishing_nanos (a : RedisBucket) : (vanishing a).nanos = 1000000000 + lifespanNanos a := by
  unfold vanishing Time.nanos lifespanNanos
  dsimp only
  omega

/-- The burst is granted again when the keys are gone, and refused if they are still there. -/
theorem burst_twice (hcfg : Admissible cfg) (ha : Serves a cfg) (hlife : 0 < lifespanNanos a)
    (hearly : lifespanNanos a < nanosBetween cfg * burst cfg) :
    let requests : List Request := [⟨⟨1, 0⟩, burst cfg, 0⟩, ⟨vanishing a, burst cfg, 0⟩]
    Machine.outputs (a.take .exact .px) (fun _ => none) requests = [.ok (0, true), .ok (0, true)] ∧
      Machine.outputs (a.take .exact .never) (fun _ => none) requests = [.ok (0, true), .ok (0, false)] := by
  intro requests
  have hdb : Absent a fun _ => none := ⟨rfl, rfl⟩
  have hstamp : Stamped a none fun _ => none := hdb
  have hm : Simulates a cfg (Memory.newBucket "" "" cfg false) fun _ => none :=
    simulates_absent ha.toCarries hdb "" "" false
  have hvanish := vanishing_nanos a
  let first : Request := ⟨⟨1, 0⟩, burst cfg, 0⟩
  let second : Request := ⟨vanishing a, burst cfg, 0⟩
  have hstart : first.time.nanos = 1000000000 := rfl
  have hlater : first.time.nanos + lifespanNanos a = second.time.nanos := hvanish.symm
  obtain ⟨b, hfirst, hsound, hstock, hhorizon⟩ :
      ∃ b, (Memory.newBucket "" "" cfg false).take .exact first.toCall = (b, (0, true)) ∧ _ :=
    burst_granted hcfg "" "" false (show 0 ≤ first.time.nanos by omega) 0
  obtain ⟨_, hsecond, -⟩ :
      ∃ b, (Memory.newBucket "" "" cfg false).take .exact second.toCall = (b, (0, true)) ∧ _ :=
    burst_granted hcfg "" "" false (show 0 ≤ second.time.nanos by omega) 0
  constructor
  · have haccepted : ¬ (Memory.newBucket "" "" cfg false).Refuses first.toCall := by
      intro hr
      rw [TokenBucket.take_exact, if_pos hr] at hfirst
      simp at hfirst
    let new : TokenBucket := Memory.newBucket "" "" cfg false
    have hlate : ¬ second.time.nanos < first.time.nanos + lifespanNanos a := by omega
    have hfresh : found (lifespanNanos a) new (new, none) first.time.nanos = (new, none) := ite_self _
    have hexpired : found (lifespanNanos a) new (b, some first.time.nanos) second.time.nanos =
        (new, none) := if_neg (by simpa using hlate)
    have hgranted : takeExpiring (lifespanNanos a) new (new, none) first =
        ((b, some first.time.nanos), .ok (0, true)) := by
      simp only [takeExpiring, hfresh, new, hfirst, if_neg haccepted]
    have hagain : (takeExpiring (lifespanNanos a) new (b, some first.time.nanos) second).2 =
        .ok (0, true) := by
      simp only [takeExpiring, hexpired, new, hsecond]
    have hexpiring : Machine.outputs (a.take .exact .px) (fun _ => none) requests = _ :=
      outputs_expiring hcfg ha hlife (DivArith.exact_fits _) hm hstamp "" "" false
        fun _ _ => precise_exact _ _
    rw [hexpiring]
    simp only [requests, Machine.outputs_cons, Machine.outputs_nil]
    rw [hgranted, hagain]
  · have hrefused : b.Refuses second.toCall :=
      burst_refused hcfg hsound hstock hhorizon (show second.time.nanos < _ by omega)
    have hlast := b.take_exact second.toCall
    rw [if_pos hrefused] at hlast
    rw [(run_simulates hcfg ha hm requests).2]
    simp only [requests, List.map_cons, List.map_nil, Machine.outputs_cons, Machine.outputs_nil]
    rw [hfirst, hlast]

end Alone

/-- That the keys of a bucket expire is not to be noticed, whatever it is asked for and when, if they
live for its refill time; and if it is not to be noticed, they live for as long as it takes to refill
what the bucket gives at once, which falls short of the refill time by less than one token. -/
theorem expiry_unnoticed {cfg : BucketConfig} (hcfg : Admissible cfg) (bf : BucketFactory)
    (ns bucketName : String) (dyn : Bool)
    (hshared : dyn = true → ∀ attribs, bf.sharedAttributes.lookup ns = some attribs →
      attribs = newConfigAttributes cfg (idleOf cfg))
    (hdebt : int64.Fits (cfg.maxDebtMillis * 1000000))
    (hlife : 0 < lifespanNanos (bf.newBucket ns bucketName cfg dyn).2) :
    let a := (bf.newBucket ns bucketName cfg dyn).2
    let unnoticed := ∀ requests : List Request, (∀ r ∈ requests, 1 ≤ r.requested) →
      Sharing.Timed (fun r : Request => r.time.nanos) 0 requests →
      Machine.outputs (a.take .exact .px) (fun _ => none) requests =
        Machine.outputs (a.take .exact .never) (fun _ => none) requests
    (refillTime cfg ≤ lifespanNanos a → unnoticed) ∧
      (unnoticed → nanosBetween cfg * burst cfg ≤ lifespanNanos a) ∧
      refillTime cfg - nanosBetween cfg * burst cfg < nanosBetween cfg := by
  intro a unnoticed
  have ha : Serves a cfg := ⟨newBucket_carries bf ns bucketName cfg dyn hshared, hdebt⟩
  have hpos : 0 < lifespanNanos a := hlife
  have hn := hcfg.one_le_nanosBetween
  have hdb : Absent a fun _ => none := ⟨rfl, rfl⟩
  refine ⟨fun hlong requests hreq htimed => ?_, fun hsame => ?_, ?_⟩
  · have hnonneg : ∀ r ∈ requests, 0 ≤ r.requested := fun r hr => zero_le_one.trans (hreq r hr)
    rw [outputs_take hcfg ha hlong hdb ns bucketName dyn hnonneg htimed]
    exact (run_simulates hcfg ha (simulates_absent ha.toCarries hdb ns bucketName dyn)
      requests).2.symm
  · by_contra hshort
    obtain ⟨hpx, hnever⟩ := burst_twice hcfg ha hlife (not_le.mp hshort)
    have hone : 1 ≤ burst cfg := by
      have hpos : 0 < nanosBetween cfg * burst cfg := hlife.trans (not_le.mp hshort)
      exact pos_of_mul_pos_right hpos (by omega)
    have hequal := hsame [⟨⟨1, 0⟩, burst cfg, 0⟩, ⟨vanishing a, burst cfg, 0⟩]
      (by simpa using hone) (by
        have hlater : (vanishing a).nanos = 1000000000 + lifespanNanos a := vanishing_nanos a
        have hstart : (⟨1, 0⟩ : Time).nanos = 1000000000 := rfl
        rw [Sharing.timed_cons, Sharing.timed_cons]
        refine ⟨by dsimp only; omega, ?_, by simp [Sharing.Timed]⟩
        dsimp only
        omega)
    rw [hpx, hnever] at hequal
    simp at hequal
  · have hmod := Int.emod_lt_of_pos (cfg.maxDebtMillis * 1000000) (show 0 < nanosBetween cfg by omega)
    have hdiv := Int.mul_ediv_add_emod (cfg.maxDebtMillis * 1000000) (nanosBetween cfg)
    have hmax := hcfg.maxDebtMillis_nonneg
    have hdebt : 0 ≤ nanosBetween cfg * (cfg.maxDebtMillis * 1000000 / nanosBetween cfg) :=
      mul_nonneg (by omega) (Int.ediv_nonneg (by omega) (by omega))
    unfold refillTime farthestDebt burst
    rw [mul_add]
    split_ifs <;> omega

/-- A bucket of three tokens, one a second, whose keys live for a minute. -/
theorem expiry_unnoticed_minute :
    let cfg : BucketConfig := { size := 3, fillRate := 1, maxIdleMillis := 60000 }
    let a := ((BucketFactory.new 0).newBucket "ns" "b" cfg false).2
    ∀ requests : List Request, (∀ r ∈ requests, 1 ≤ r.requested) →
      Sharing.Timed (fun r : Request => r.time.nanos) 0 requests →
      Machine.outputs (a.take .exact .px) (fun _ => none) requests =
        Machine.outputs (a.take .exact .never) (fun _ => none) requests :=
  (expiry_unnoticed ⟨by decide, by decide, by decide, by decide⟩ (BucketFactory.new 0) "ns" "b" false
    nofun (by decide) (by decide)).1 (by decide)

end QuotaService.Redis
