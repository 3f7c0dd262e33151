import QuotaService.Config.Defaults

/-! The edits of `config/mutable.go` that the admin calls make on a clone of the config. Each
touches one namespace, or the global default bucket in the place of the global namespace. -/
namespace QuotaService.Config

/-- What an edit comes to; `none` is a panic. -/
abbrev Outcome := Option (Except String ServiceConfig)

def findNamespace (cfg : ServiceConfig) (name : String) : Option NamespaceConfig :=
  (cfg.namespaces.get name).join

/-- Writing a namespace back under its name. -/
def putNamespace (cfg : ServiceConfig) (name : String) (ns : NamespaceConfig) : Outcome :=
  (cfg.namespaces.set name (some ns)).map fun m => .ok { cfg with namespaces := m }

/-- The map itself, or an empty one in the place of nil. -/
def made {α : Type} : GoMap String α → GoMap String α
  | .null => .make
  | .table t => .table t

def createBucket (cfg : ServiceConfig) («namespace» : String) (b : BucketConfig) : Outcome :=
  if «namespace» = globalNamespace then
    if cfg.globalDefaultBucket.isSome then some (.error "GlobalDefaultBucket already exists")
    else some (.ok { cfg with globalDefaultBucket := some b })
  else match findNamespace cfg «namespace» with
    | none => some (.error "Namespace doesn't exist")
    | some ns =>
      if b.name = defaultBucketName then
        if ns.defaultBucket.isSome then some (.error "DefaultBucket already exists")
        else putNamespace cfg «namespace» { ns with defaultBucket := some b }
      else if b.name = dynamicBucketTemplateName then
        if ns.dynamicBucketTemplate.isSome then some (.error "DynamicBucketTemplate already exists")
        else putNamespace cfg «namespace» { ns with dynamicBucketTemplate := some b }
      else if (ns.buckets.get b.name).join.isSome then
        some (.error ("Bucket " ++ b.name ++ " already exists"))
      else do
        let buckets ← (made ns.buckets).set b.name (some b)
        putNamespace cfg «namespace» { ns with buckets := buckets }

def updateBucket (cfg : ServiceConfig) («namespace» : String) (b : BucketConfig) : Outcome :=
  if «namespace» = globalNamespace then
    some (.ok { cfg with globalDefaultBucket := some b })
  else match findNamespace cfg «namespace» with
    | none => some (.error "Namespace doesn't exist")
    | some ns =>
      if b.name = defaultBucketName then
        putNamespace cfg «namespace» { ns with defaultBucket := some b }
      else if b.name = dynamicBucketTemplateName then
        putNamespace cfg «namespace» { ns with dynamicBucketTemplate := some b }
      else do
        let buckets ← ns.buckets.set b.name (some b)
        putNamespace cfg «namespace» { ns with buckets := buckets }

def deleteBucket (cfg : ServiceConfig) («namespace» name : String) : Outcome :=
  if «namespace» = globalNamespace then
    some (.ok { cfg with globalDefaultBucket := none })
  else match findNamespace cfg «namespace» with
    | none => some (.error ("No such namespace " ++ «namespace» ++ "."))
    | some ns =>
      if name = defaultBucketName then
        putNamespace cfg «namespace» { ns with defaultBucket := none }
      else if name = dynamicBucketTemplateName then
        putNamespace cfg «namespace» { ns with dynamicBucketTemplate := none }
      else putNamespace cfg «namespace» { ns with buckets := ns.buckets.delete name }

def deleteNamespace (cfg : ServiceConfig) (n : String) : Outcome :=
  if (findNamespace cfg n).isNone then some (.error ("No such namespace " ++ n))
  else some (.ok { cfg with namespaces := cfg.namespaces.delete n })

def updateNamespace (cfg : ServiceConfig) (nsCfg : NamespaceConfig) : Outcome :=
  putNamespace { cfg with namespaces := made cfg.namespaces } nsCfg.name nsCfg

def createNamespace (cfg : ServiceConfig) (nsCfg : NamespaceConfig) : Outcome :=
  if (findNamespace cfg nsCfg.name).isSome then
    some (.error ("Namespace " ++ nsCfg.name ++ " already exists."))
  else updateNamespace cfg nsCfg

/-- The edited config differs from the config at most in one namespace, and in the global default
bucket if that is the global one. -/
structure TouchesOnly (name : String) (cfg cfg' : ServiceConfig) : Prop where
  namespaces : ∀ k, k ≠ name → cfg'.namespaces.get k = cfg.namespaces.get k
  globalDefaultBucket : name ≠ globalNamespace → cfg'.globalDefaultBucket = cfg.globalDefaultBucket

@[simp] theorem get_made {α : Type} (m : GoMap String α) (k : String) :
    (made m).get k = m.get k := by
  cases m <;> simp [made]

theorem putNamespace_touchesOnly {cfg cfg' : ServiceConfig} {name : String} {ns : NamespaceConfig}
    (h : putNamespace cfg name ns = some (.ok cfg')) : TouchesOnly name cfg cfg' := by
  obtain ⟨m, hm, heq⟩ := Option.map_eq_some_iff.mp h
  cases heq
  exact ⟨fun k hk => GoMap.get_set_ne hm hk, fun _ => rfl⟩

section BucketEdits

/-- What an edit of the bucket `name` makes of its namespace. -/
inductive NamespaceEdit (name : String) (old : NamespaceConfig) : NamespaceConfig → Prop
  | defaultBucket (b : Option BucketConfig) (isDefault : name = defaultBucketName) :
    NamespaceEdit name old { old with defaultBucket := b }
  | dynamicBucketTemplate (b : Option BucketConfig) (notDefault : name ≠ defaultBucketName)
    (isTemplate : name = dynamicBucketTemplateName) :
    NamespaceEdit name old { old with dynamicBucketTemplate := b }
  | buckets (m : GoMap String (Option BucketConfig)) (notDefault : name ≠ defaultBucketName)
    (notTemplate : name ≠ dynamicBucketTemplateName)
    (others : ∀ n, n ≠ name → m.get n = old.buckets.get n) :
    NamespaceEdit name old { old with buckets := m }

/-- What an edit of a bucket makes of the config: it has another global default bucket, or another
namespace in the place of the one that has been found. -/
inductive BucketEdit (k name : String) (cfg : ServiceConfig) : ServiceConfig → Prop
  | globalDefault (b : Option BucketConfig) (isGlobal : k = globalNamespace) :
    BucketEdit k name cfg { cfg with globalDefaultBucket := b }
  | put {old ns : NamespaceConfig} {cfg' : ServiceConfig} (notGlobal : k ≠ globalNamespace)
    (found : findNamespace cfg k = some old) (edited : NamespaceEdit name old ns)
    (written : putNamespace cfg k ns = some (.ok cfg')) : BucketEdit k name cfg cfg'

/-- An edit of a bucket with what it writes in the place of the bucket: the new bucket, or none. -/
inductive BucketWrite (k name : String) (b : Option BucketConfig) (cfg : ServiceConfig) :
    ServiceConfig → Prop
  | globalDefault (isGlobal : k = globalNamespace) :
    BucketWrite k name b cfg { cfg with globalDefaultBucket := b }
  | defaultBucket {old : NamespaceConfig} {cfg' : ServiceConfig} (notGlobal : k ≠ globalNamespace)
    (found : findNamespace cfg k = some old) (isDefault : name = defaultBucketName)
    (written : putNamespace cfg k { old with defaultBucket := b } = some (.ok cfg')) :
    BucketWrite k name b cfg cfg'
  | dynamicBucketTemplate {old : NamespaceConfig} {cfg' : ServiceConfig}
    (notGlobal : k ≠ globalNamespace) (found : findNamespace cfg k = some old)
    (notDefault : name ≠ defaultBucketName) (isTemplate : name = dynamicBucketTemplateName)
    (written : putNamespace cfg k { old with dynamicBucketTemplate := b } = some (.ok cfg')) :
    BucketWrite k name b cfg cfg'
  | buckets {old : NamespaceConfig} {m : GoMap String (Option BucketConfig)} {cfg' : ServiceConfig}
    (notGlobal : k ≠ globalNamespace) (found : findNamespace cfg k = some old)
    (notDefault : name ≠ defaultBucketName) (notTemplate : name ≠ dynamicBucketTemplateName)
    (own : m.get name = b.map some) (others : ∀ n, n ≠ name → m.get n = old.buckets.get n)
    (written : putNamespace cfg k { old with buckets := m } = some (.ok cfg')) :
    BucketWrite k name b cfg cfg'

variable {cfg cfg' : ServiceConfig} {k : String}

theorem createBucket_write {b : BucketConfig} (h : createBucket cfg k b = some (.ok cfg')) :
    BucketWrite k b.name (some b) cfg cfg' := by
  unfold createBucket at h
  by_cases hglobal : k = globalNamespace
  · rw [if_pos hglobal] at h
    split_ifs at h
    · cases h
    · cases h
      exact .globalDefault hglobal
  · rw [if_neg hglobal] at h
    cases hns : findNamespace cfg k with
    | none => simp [hns] at h
    | some ns =>
      simp only [hns] at h
      split_ifs at h with hdefault _ htemplate
      · cases h
      · exact .defaultBucket hglobal hns hdefault h
      · cases h
      · exact .dynamicBucketTemplate hglobal hns hdefault htemplate h
      · cases h
      · obtain ⟨m, hm, hput⟩ := Option.bind_eq_some_iff.mp h
        have hothers : ∀ n, n ≠ b.name → m.get n = ns.buckets.get n := fun n hn =>
          (GoMap.get_set_ne hm hn).trans (get_made _ _)
        exact .buckets hglobal hns hdefault htemplate (GoMap.get_set_self hm) hothers hput

theorem updateBucket_write {b : BucketConfig} (h : updateBucket cfg k b = some (.ok cfg')) :
    BucketWrite k b.name (some b) cfg cfg' := by
  unfold updateBucket at h
  by_cases hglobal : k = globalNamespace
  · rw [if_pos hglobal] at h
    cases h
    exact .globalDefault hglobal
  · rw [if_neg hglobal] at h
    cases hns : findNamespace cfg k with
    | none => simp [hns] at h
    | some ns =>
      simp only [hns] at h
      split_ifs at h with hdefault htemplate
      · exact .defaultBucket hglobal hns hdefault h
      · exact .dynamicBucketTemplate hglobal hns hdefault htemplate h
      · obtain ⟨m, hm, hput⟩ := Option.bind_eq_some_iff.mp h
        have hothers : ∀ n, n ≠ b.name → m.get n = ns.buckets.get n := fun n hn =>
          GoMap.get_set_ne hm hn
        exact .buckets hglobal hns hdefault htemplate (GoMap.get_set_self hm) hothers hput

theorem deleteBucket_write {name : String} (h : deleteBucket cfg k name = some (.ok cfg')) :
    BucketWrite k name none cfg cfg' := by
  unfold deleteBucket at h
  by_cases hglobal : k = globalNamespace
  · rw [if_pos hglobal] at h
    cases h
    exact .globalDefault hglobal
  · rw [if_neg hglobal] at h
    cases hns : findNamespace cfg k with
    | none => simp [hns] at h
    | some ns =>
      simp only [hns] at h
      split_ifs at h with hdefault htemplate
      · exact .defaultBucket hglobal hns hdefault h
      · exact .dynamicBucketTemplate hglobal hns hdefault htemplate h
      · have hothers : ∀ n, n ≠ name → (ns.buckets.delete name).get n = ns.buckets.get n :=
          fun n hn => GoMap.get_delete_ne _ hn
        exact .buckets hglobal hns hdefault htemplate (GoMap.get_delete_self _ _) hothers h

theorem BucketWrite.edit {name : String} {b : Option BucketConfig}
    (h : BucketWrite k name b cfg cfg') : BucketEdit k name cfg cfg' := by
  cases h with
  | globalDefault isGlobal => exact .globalDefault b isGlobal
  | defaultBucket notGlobal found isDefault written =>
    exact .put notGlobal found (.defaultBucket b isDefault) written
  | dynamicBucketTemplate notGlobal found notDefault isTemplate written =>
    exact .put notGlobal found (.dynamicBucketTemplate b notDefault isTemplate) written
  | @buckets old m _ notGlobal found notDefault notTemplate own others written =>
    exact .put notGlobal found (.buckets m notDefault notTemplate others) written

theorem createBucket_edit {b : BucketConfig} (h : createBucket cfg k b = some (.ok cfg')) :
    BucketEdit k b.name cfg cfg' := (createBucket_write h).edit

theorem updateBucket_edit {b : BucketConfig} (h : updateBucket cfg k b = some (.ok cfg')) :
    BucketEdit k b.name cfg cfg' := (updateBucket_write h).edit

theorem deleteBucket_edit {name : String} (h : deleteBucket cfg k name = some (.ok cfg')) :
    BucketEdit k name cfg cfg' := (deleteBucket_write h).edit

theorem BucketEdit.touchesOnly {name : String} (h : BucketEdit k name cfg cfg') :
    TouchesOnly k cfg cfg' := by
  cases h with
  | globalDefault b isGlobal => exact ⟨fun _ _ => rfl, fun hne => absurd isGlobal hne⟩
  | put notGlobal found edited written => exact putNamespace_touchesOnly written

end BucketEdits

theorem deleteNamespace_touchesOnly {cfg cfg' : ServiceConfig} {name : String}
    (h : deleteNamespace cfg name = some (.ok cfg')) : TouchesOnly name cfg cfg' := by
  unfold deleteNamespace at h
  split_ifs at h
  · cases h
  · cases h
    exact ⟨fun k hk => GoMap.get_delete_ne _ hk, fun _ => rfl⟩

theorem updateNamespace_touchesOnly {cfg cfg' : ServiceConfig} {nsCfg : NamespaceConfig}
    (h : updateNamespace cfg nsCfg = some (.ok cfg')) : TouchesOnly nsCfg.name cfg cfg' := by
  obtain ⟨hns, hglobal⟩ := putNamespace_touchesOnly h
  exact ⟨fun k hk => (hns k hk).trans (get_made _ _), hglobal⟩

theorem createNamespace_touchesOnly {cfg cfg' : ServiceConfig} {nsCfg : NamespaceConfig}
    (h : createNamespace cfg nsCfg = some (.ok cfg')) : TouchesOnly nsCfg.name cfg cfg' := by
  unfold createNamespace at h
  split_ifs at h
  · cases h
  · exact updateNamespace_touchesOnly h

end QuotaService.Config
