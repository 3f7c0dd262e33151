import QuotaService.Server.Cli

/-! The writes of the REST endpoints. What a write addresses is in its path, but a name in its body
comes before the one in the path, so that the write may change a part of the config that its path
does not name. -/
namespace QuotaService.Rest
open Config Server Admin Cli

/-- What the path of a write names. -/
inductive Target
  | «namespace» (ns : String)
  | bucket (ns name : String)

def Target.path : Target → String
  | .namespace ns => "/api/" ++ ns
  | bucket ns name => "/api/" ++ (ns ++ ("/" ++ name))

/-- The part of the config that goes by this name; the buckets of the global namespace are the
global default bucket. -/
def Target.slot : Target → Place
  | .namespace ns => .namespace ns
  | bucket ns name => placeOf ns name

def Target.Proper : Target → Prop
  | .namespace ns => IsSegment ns
  | bucket ns name => IsSegment ns ∧ IsSegment name

/-- What is persisted differs from the current config at most in the slot. -/
def Confined (slot : Place) (o : Operation) (body : Option Json) : Prop :=
  ∀ change, o.change body = some change → ∀ user date cfgs cfg,
    updatedConfig change.updater user date (cloneConfig cfgs) = some (.ok cfg) →
      Unchanged slot (cloneConfig cfgs) cfg

/-- The name in the body is that of the path or empty, or not used: for a bucket of the global
namespace, on the endpoints of the statistics and of the historical configs, and for a namespace
that `ApplyDefaults` panics on. -/
def Condition (body : Option Json) : Target → Prop
  | .namespace ns => ns ∉ endpoints → ∀ c, getNamespaceConfig body = some c →
      acceptsDefaults (some c) = true → c.name = "" ∨ c.name = ns
  | .bucket ns bucket => ns ∉ endpoints → ns ≠ globalNamespace →
      ∀ c, getBucketConfig body = some c → c.name = "" ∨ c.name = bucket

section Roomy
variable {ns bucket name : String}

/-- A config in which every write of another bucket of the namespace goes through. -/
def roomy (ns bucket : String) : ServiceConfig where
  namespaces := .table (AList.singleton ns (some
    { name := ns, buckets := .table (AList.singleton bucket (some {})) }))

theorem clone_roomy (ns bucket : String) : cloneConfig (roomy ns bucket) = roomy ns bucket := rfl

theorem occupant_clearIn (hns : ns ≠ globalNamespace) (hname : name ≠ bucket)
    (n : NamespaceConfig) : occupant ((placeOf ns bucket).clearIn ns n) name = occupant n name := by
  unfold placeOf occupant
  rw [if_neg hns]
  by_cases hdefault : bucket = defaultBucketName
  · have hname' : name ≠ defaultBucketName := hdefault ▸ hname
    simp [hdefault, hname', Place.clearIn]
  · by_cases htemplate : bucket = dynamicBucketTemplateName
    · have hname' : name ≠ dynamicBucketTemplateName := htemplate ▸ hname
      simp [htemplate, hname', Place.clearIn, template_ne_default]
    · simp [hdefault, htemplate, Place.clearIn, GoMap.get_delete_ne _ hname]

theorem occupant_applyNamespaceDefaults (k : String) (n : NamespaceConfig) :
    (occupant (applyNamespaceDefaults k n) name).isSome = (occupant n name).isSome := by
  unfold occupant
  split_ifs
  · simp [applyNamespaceDefaults]
  · simp [applyNamespaceDefaults]
  · rw [get_applyNamespaceDefaults]
    cases n.buckets.get name with
    | none => rfl
    | some b => cases b <;> rfl

theorem occupant_eq_of_same (name : String) {n n' : NamespaceConfig} (h : SameNamespace n n') :
    occupant n name = occupant n' name := by
  unfold occupant
  rw [h.defaultBucket, h.dynamicBucketTemplate, h.buckets name]

/-- The namespace with a bucket that has its place outside of the slot. -/
def housed (ns bucket : String) (b : BucketConfig) : NamespaceConfig :=
  if b.name = defaultBucketName then
    { name := ns, buckets := .table (AList.singleton bucket (some {})), defaultBucket := some b }
  else if b.name = dynamicBucketTemplateName then
    { name := ns, buckets := .table (AList.singleton bucket (some {})),
      dynamicBucketTemplate := some b }
  else { name := ns, buckets := .table ((AList.singleton bucket (some {})).insert b.name (some b)) }

theorem occupant_housed (b : BucketConfig) : occupant (housed ns bucket b) b.name = some b := by
  unfold occupant housed
  split_ifs <;> simp

theorem acceptsDefaults_housed (b : BucketConfig) :
    acceptsDefaults (some (housed ns bucket b)) = true := by
  have hset : ∀ n x, (AList.singleton bucket (some {}) :
      AList fun _ : String => Option BucketConfig).lookup n = some x → x ≠ none := by
    intro n x hx
    rw [GoMap.lookup_singleton] at hx
    split_ifs at hx
    cases hx
    exact Option.some_ne_none _
  rw [acceptsDefaults_iff]
  unfold housed Exclusive
  split_ifs
  · exact ⟨Or.inr rfl, hset⟩
  · exact ⟨Or.inl rfl, hset⟩
  · refine ⟨Or.inl rfl, fun n x hx => ?_⟩
    by_cases hn : n = b.name
    · subst hn
      rw [GoMap.get_table, AList.lookup_insert] at hx
      cases hx
      exact Option.some_ne_none _
    · rw [GoMap.get_table, AList.lookup_insert_ne hn] at hx
      exact hset n x hx

theorem findNamespace_roomy (ns bucket : String) : findNamespace (roomy ns bucket) ns =
    some { name := ns, buckets := .table (AList.singleton bucket (some {})) } := by
  rw [findNamespace, roomy, GoMap.get_table, GoMap.lookup_singleton, if_pos rfl]
  rfl

/-- Both writes of a bucket go through. -/
theorem edit_roomy (hns : ns ≠ globalNamespace) {b : BucketConfig} (hname : b.name ≠ bucket)
    {op : Op} (hop : op = .addBucket ns b ∨ op = .updateBucket ns b) :
    op.edit (roomy ns bucket) = putNamespace (roomy ns bucket) ns (housed ns bucket b) := by
  have hfind := findNamespace_roomy ns bucket
  have habsent : ((GoMap.table (AList.singleton bucket (some ({} : BucketConfig)))).get
      b.name).join = none := by
    rw [GoMap.get_table, GoMap.lookup_singleton, if_neg hname]
    rfl
  rcases hop with rfl | rfl
  · simp only [Op.edit, createBucket, hns, hfind, if_false, housed, habsent, Option.isSome_none,
      Bool.false_eq_true]
    split_ifs <;> rfl
  · simp only [Op.edit, Config.updateBucket, hns, hfind, if_false, housed]
    split_ifs <;> rfl

/-- What filling in the defaults makes of a namespace, seen outside of the slot. -/
theorem occupied_of_sameBut (hns : ns ≠ globalNamespace) (hname : name ≠ bucket)
    {c1 c2 : ServiceConfig} {n1 n2 : NamespaceConfig}
    (h : SameBut (placeOf ns bucket) (withDefaults c1) (withDefaults c2))
    (h1 : c1.namespaces.get ns = some (some n1)) (h2 : c2.namespaces.get ns = some (some n2)) :
    (occupant n1 name).isSome = (occupant n2 name).isSome := by
  have hplace : placeOf ns bucket ≠ .namespace ns := by
    unfold placeOf
    rw [if_neg hns]
    split_ifs <;> simp
  have hrel := h.namespaces ns
  simp only [get_clear, if_neg hplace, withDefaults, GoMap.get_map, h1, h2, Option.map_some] at hrel
  cases hrel with
  | some hrel =>
    cases hrel with
    | some hsame =>
      have hocc := occupant_eq_of_same name hsame
      rw [occupant_clearIn hns hname, occupant_clearIn hns hname] at hocc
      rw [← occupant_applyNamespaceDefaults ns n1, ← occupant_applyNamespaceDefaults ns n2, hocc]

/-- What is persisted of an edit that goes through. -/
theorem updatedConfig_of_edit {op : Op} {clonedCfg edited : ServiceConfig}
    (hedit : op.edit clonedCfg = some (.ok edited)) (haccepts : (applyDefaults edited).isSome = true) :
    ∃ cfg, updatedConfig op.edit "" 0 clonedCfg = some (.ok cfg) ∧
      SameConfig cfg (withDefaults edited) := by
  obtain ⟨applied, happlied⟩ := Option.isSome_iff_exists.mp haccepts
  refine ⟨{ applied with user := "", date := 0, version := nextVersion clonedCfg.version }, ?_, ?_⟩
  · rw [updatedConfig, hedit]
    simp only [happlied, Option.map_some]
  · obtain rfl := applyDefaults_eq happlied
    have hsame := SameConfig.refl (withDefaults edited)
    exact ⟨hsame.globalDefaultBucket, hsame.namespaces⟩

/-- A write of a bucket of another name is seen outside of the slot. -/
theorem roomy_changed (hns : ns ≠ globalNamespace) {b : BucketConfig} (hname : b.name ≠ bucket)
    {op : Op} (hop : op = .addBucket ns b ∨ op = .updateBucket ns b) :
    ∃ cfg, updatedConfig op.edit "" 0 (cloneConfig (roomy ns bucket)) = some (.ok cfg) ∧
      ¬ Unchanged (placeOf ns bucket) (cloneConfig (roomy ns bucket)) cfg := by
  obtain ⟨m, hm⟩ : ∃ m, (roomy ns bucket).namespaces.set ns (some (housed ns bucket b)) = some m :=
    ⟨_, rfl⟩
  have hself : m.get ns = some (some (housed ns bucket b)) := GoMap.get_set_self hm
  have hroomy : (roomy ns bucket).namespaces.get ns = some (some
      { name := ns, buckets := .table (AList.singleton bucket (some {})) }) :=
    Option.join_eq_some_iff.mp (findNamespace_roomy ns bucket)
  have hedit : op.edit (cloneConfig (roomy ns bucket)) =
      some (.ok { roomy ns bucket with namespaces := m }) := by
    rw [clone_roomy, edit_roomy hns hname hop, putNamespace, hm]
    rfl
  have haccepts : (applyDefaults { roomy ns bucket with namespaces := m }).isSome = true := by
    rw [applyDefaults_isSome_iff]
    intro k x hx
    by_cases hk : k = ns
    · subst hk
      cases hself.symm.trans hx
      exact acceptsDefaults_housed b
    · have hx' := (GoMap.get_set_ne hm hk).symm.trans hx
      rw [roomy, GoMap.get_table, GoMap.lookup_singleton, if_neg hk] at hx'
      cases hx'
  obtain ⟨cfg, hcfg, hsame⟩ := updatedConfig_of_edit hedit haccepts
  refine ⟨cfg, hcfg, fun hunchanged => ?_⟩
  have hfilled := (hsame.clear (placeOf ns bucket)).symm.trans hunchanged.1
  have hocc := occupied_of_sameBut hns hname hfilled hself hroomy
  rw [occupant_housed] at hocc
  -- the bucket is there now, and was not there before
  have habsent : occupant { name := ns, buckets := .table (AList.singleton bucket (some {})) }
      b.name = none := by
    unfold occupant
    rw [GoMap.get_table, GoMap.lookup_singleton, if_neg hname]
    split_ifs <;> rfl
  rw [habsent] at hocc
  cases hocc

/-- A write of another namespace is seen outside of the addressed one. -/
theorem empty_changed {c : NamespaceConfig} (hname : c.name ≠ ns)
    (haccepts : acceptsDefaults (some c) = true) {op : Op}
    (hop : op = .addNamespace c ∨ op = .updateNamespace c) :
    ∃ cfg, updatedConfig op.edit "" 0 (cloneConfig {}) = some (.ok cfg) ∧
      ¬ Unchanged (.namespace ns) (cloneConfig {}) cfg := by
  obtain ⟨m, hm⟩ : ∃ m, (GoMap.make : GoMap String (Option NamespaceConfig)).set c.name (some c) =
      some m := ⟨_, rfl⟩
  have hself : m.get c.name = some (some c) := GoMap.get_set_self hm
  have hedit : op.edit (cloneConfig {}) = some (.ok { namespaces := m }) := by
    have hput : Config.updateNamespace (cloneConfig {}) c = some (.ok { namespaces := m }) := by
      cases hm
      rfl
    rcases hop with rfl | rfl
    · exact hput
    · exact hput
  have hdefaults : (applyDefaults { namespaces := m }).isSome = true := by
    rw [applyDefaults_isSome_iff]
    intro k x hx
    by_cases hk : k = c.name
    · subst hk
      cases hself.symm.trans hx
      exact haccepts
    · have hx' := (GoMap.get_set_ne hm hk).symm.trans hx
      rw [GoMap.get_make] at hx'
      cases hx'
  obtain ⟨cfg, hcfg, hsame⟩ := updatedConfig_of_edit hedit hdefaults
  refine ⟨cfg, hcfg, fun hunchanged => ?_⟩
  have hrel := ((hsame.clear (.namespace ns)).symm.trans hunchanged.1).namespaces c.name
  have hplace : Place.namespace ns ≠ .namespace c.name := by simp [Ne.symm hname]
  simp only [get_clear, if_neg hplace, withDefaults, GoMap.get_map, hself] at hrel
  cases hrel

end Roomy

section Targets
variable {ns bucket : String} {body : Option Json}

/-- An operation whose changes are edits is confined if their target is the slot. -/
theorem confined_of_target {slot : Place} {o : Operation} {ops : Option Op}
    (hops : o.change body = ops.map .op) (h : ∀ op ∈ ops, target op = slot) :
    Confined slot o body := by
  intro change hchange user date cfgs cfg hcfg
  rw [hops] at hchange
  obtain ⟨op, hop, rfl⟩ := Option.map_eq_some_iff.mp hchange
  rw [← h op hop]
  exact updatedConfig_unchanged hcfg

/-- What goes wrong on some config goes wrong. -/
theorem not_confined {slot : Place} {o : Operation} {op : Op} {cfgs : ServiceConfig}
    (hop : o.change body = some (.op op))
    (h : ∃ cfg, updatedConfig op.edit "" 0 (cloneConfig cfgs) = some (.ok cfg) ∧
      ¬ Unchanged slot (cloneConfig cfgs) cfg) : ¬ Confined slot o body := by
  intro hconfined
  obtain ⟨cfg, hcfg, hnot⟩ := h
  exact hnot (hconfined _ hop "" 0 cfgs cfg hcfg)

theorem bucket_confined_iff {o : Operation} {op : BucketConfig → Op}
    (hop : ∀ b, op b = .addBucket ns b ∨ op b = .updateBucket ns b)
    (hchange : o.change body = (changeBucket bucket body).map fun c => .op (op c)) :
    Confined (placeOf ns bucket) o body ↔ (ns ≠ globalNamespace →
      ∀ c, getBucketConfig body = some c → c.name = "" ∨ c.name = bucket) := by
  have htarget : ∀ b, target (op b) = placeOf ns b.name := by
    intro b
    rcases hop b with h | h <;> rw [h] <;> rfl
  rw [← changeBucket_name_iff]
  constructor
  · intro hconfined hns c hc
    by_contra hname
    have hop' : o.change body = some (.op (op c)) := by rw [hchange, hc, Option.map_some]
    exact not_confined hop' (roomy_changed hns hname (hop c)) hconfined
  · intro hnames
    have hops : o.change body = ((changeBucket bucket body).map op).map .op := by
      rw [hchange, Option.map_map]
      rfl
    apply confined_of_target hops
    intro o' ho'
    obtain ⟨c, hc, rfl⟩ := Option.map_eq_some_iff.mp ho'
    rw [htarget]
    by_cases hns : ns = globalNamespace
    · rw [placeOf, placeOf, if_pos hns, if_pos hns]
    · rw [hnames hns c hc]

/-- What is persisted of a namespace is a namespace that `ApplyDefaults` does not panic on. -/
theorem accepts_of_updatedConfig {c : NamespaceConfig} {op : Op}
    (hop : op = .addNamespace c ∨ op = .updateNamespace c) {user : String} {date : ℤ}
    {clonedCfg cfg : ServiceConfig}
    (h : updatedConfig op.edit user date clonedCfg = some (.ok cfg)) :
    acceptsDefaults (some c) = true := by
  obtain ⟨edited, filled, hedit, hfilled, -⟩ := updatedConfig_ok h
  have hput : Config.updateNamespace clonedCfg c = some (.ok edited) := by
    rcases hop with rfl | rfl
    · simp only [Op.edit, createNamespace] at hedit
      split_ifs at hedit
      · cases hedit
      · exact hedit
    · exact hedit
  obtain ⟨m, hm, heq⟩ := Option.map_eq_some_iff.mp hput
  cases heq
  exact acceptsDefaults_of_applyDefaults hfilled (GoMap.get_set_self hm)

theorem changeNamespace_accepts_iff :
    (∀ c ∈ changeNamespace ns body, acceptsDefaults (some c) = true → c.name = ns) ↔
      ∀ c, getNamespaceConfig body = some c → acceptsDefaults (some c) = true →
        c.name = "" ∨ c.name = ns := by
  unfold changeNamespace
  cases getNamespaceConfig body with
  | none => simp
  | some c =>
    by_cases hc : c.name = ""
    · simp [hc]
    · simp [hc]

theorem namespace_confined_iff {o : Operation} {op : NamespaceConfig → Op}
    (hop : ∀ c, op c = .addNamespace c ∨ op c = .updateNamespace c)
    (hchange : o.change body = (changeNamespace ns body).map fun c => .op (op c)) :
    Confined (.namespace ns) o body ↔ ∀ c, getNamespaceConfig body = some c →
      acceptsDefaults (some c) = true → c.name = "" ∨ c.name = ns := by
  have htarget : ∀ c, target (op c) = .namespace c.name := by
    intro c
    rcases hop c with h | h <;> rw [h] <;> rfl
  rw [← changeNamespace_accepts_iff]
  constructor
  · intro hconfined c hc haccepts
    by_contra hname
    have hop' : o.change body = some (.op (op c)) := by rw [hchange, hc, Option.map_some]
    exact not_confined hop' (empty_changed hname haccepts (hop c)) hconfined
  · intro hnames change h user date cfgs cfg hcfg
    rw [hchange] at h
    obtain ⟨c, hc, rfl⟩ := Option.map_eq_some_iff.mp h
    have hname := hnames c hc (accepts_of_updatedConfig (hop c) hcfg)
    rw [← hname, ← htarget]
    exact updatedConfig_unchanged hcfg

/-- The endpoints of the statistics and of the historical configs persist nothing. -/
theorem confined_other (slot : Place) (h : Handler) : Confined slot (.other h) body := by
  intro change hchange
  cases hchange

theorem confined_of_endpoint (hend : ns ∈ endpoints) (slot : Place) (o : Operation) :
    Confined slot (if ns = "stats" then .other .stats else if ns = "configs" then .other .configs
      else o) body := by
  rcases List.mem_pair.mp hend with rfl | rfl
  · exact confined_other _ _
  · exact confined_other _ _

end Targets

/-- A write changes nothing but what its path names, whatever the config, if and only if the name in
its body is that of the path, or empty, or not used. -/
theorem confined_iff (assetsDirectory : Bool) (method : Method)
    (hmethod : method = .put ∨ method = .post) (t : Target) (ht : t.Proper) (body : Option Json) :
    Confined t.slot (serveHTTP assetsDirectory ⟨method, t.path, body⟩) body ↔
      Condition body t := by
  cases t with
  | «namespace» ns =>
    simp only [Target.path, Target.slot, serveHTTP_namespace ht, Condition]
    by_cases hend : ns ∈ endpoints
    · exact iff_of_true (confined_of_endpoint hend _ _) fun h => absurd hend h
    · have hne : ns ≠ "stats" ∧ ns ≠ "configs" := by simpa [endpoints] using hend
      simp only [hne.1, hne.2, if_false, hend, not_false_eq_true, forall_const]
      rcases hmethod with rfl | rfl
      · exact namespace_confined_iff (fun c => Or.inr rfl) rfl
      · exact namespace_confined_iff (fun c => Or.inl rfl) rfl
  | bucket ns name =>
    simp only [Target.path, Target.slot, serveHTTP_bucket ht.1 ht.2, Condition]
    by_cases hend : ns ∈ endpoints
    · exact iff_of_true (confined_of_endpoint hend _ _) fun h => absurd hend h
    · have hne : ns ≠ "stats" ∧ ns ≠ "configs" := by simpa [endpoints] using hend
      simp only [hne.1, hne.2, if_false, hend, not_false_eq_true, forall_const, bucketsAPIHandler]
      rcases hmethod with rfl | rfl
      · exact bucket_confined_iff (fun b => Or.inr rfl) rfl
      · exact bucket_confined_iff (fun b => Or.inl rfl) rfl

theorem confined_iff_resize :
    let body : Option Json := some (.obj [("size", .num 5)])
    Confined (.bucket "a" "b") (serveHTTP true ⟨.put, "/api/a/b", body⟩) body := by
  intro body
  refine (confined_iff true .put (Or.inl rfl) (.bucket "a" "b")
    ⟨⟨by decide, by decide⟩, by decide, by decide⟩ body).mpr ?_
  intro _ _ c hc
  cases hc
  exact Or.inl rfl

/-- A request for the bucket `b` whose body has the name `c` overwrites the bucket `c`. -/
theorem write_renamed :
    let body : Option Json := some (.obj [("name", .str "c"), ("size", .num 5)])
    let cfgs : ServiceConfig := { namespaces := .table (AList.singleton "a" (some
      (applyNamespaceDefaults "a" { buckets := .table (AList.singleton "c" (some {})) }))) }
    let size (cfg : ServiceConfig) : Option ℤ :=
      (findNamespace cfg "a").bind fun ns => (ns.buckets.get "c").join.map (·.size)
    ¬ Confined (Target.bucket "a" "b").slot (serveHTTP true ⟨.put, "/api/a/b", body⟩) body ∧
      Normalised cfgs ∧ size cfgs = some 100 ∧
      ∃ change cfg, (serveHTTP true ⟨.put, "/api/a/b", body⟩).change body = some change ∧
        updatedConfig change.updater "user" 0 (cloneConfig cfgs) = some (.ok cfg) ∧
        size cfg = some 5 := by
  intro body cfgs size
  have hserve : serveHTTP true ⟨.put, "/api/a/b", body⟩ = .updateBucket "a" "b" := by decide
  have hchange : (Operation.updateBucket "a" "b").change body =
      some (.op (.updateBucket "a" { applyBucketDefaults {} with name := "c", size := 5 })) := rfl
  rw [hserve]
  refine ⟨?_, ⟨cfgs, cfgs, rfl, Or.inl rfl⟩, rfl, _, _, hchange, rfl, rfl⟩
  exact not_confined hchange (roomy_changed (by decide) (by decide) (Or.inr rfl))

end QuotaService.Rest
