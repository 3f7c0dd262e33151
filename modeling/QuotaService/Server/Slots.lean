import QuotaService.Config.Places
import QuotaService.Server.Cli

/-! The calls of `config/mutable.go` as updates of slots: what they write to the config that they are
given, statement by statement, and that they leave everything else as it is. -/
namespace QuotaService.Config
open Server

/-- A call on a config in memory. It returns its error, and leaves the config as it is by then; `none`
is a panic. -/
abbrev InPlace := StateT ServiceConfig Option (Option String)

namespace InPlace

/-- An assignment through the pointer to a namespace. -/
def putNamespace (name : String) (ns : NamespaceConfig) : InPlace := do
  let cfg ← get
  let namespaces ← cfg.namespaces.set name (some ns)
  set { cfg with namespaces := namespaces }
  pure none

def putGlobalDefaultBucket (b : Option BucketConfig) : InPlace := do
  modify fun cfg => { cfg with globalDefaultBucket := b }
  pure none

def createBucket («namespace» : String) (b : BucketConfig) : InPlace := do
  let cfg ← get
  if «namespace» = globalNamespace then
    if cfg.globalDefaultBucket.isSome then pure (some "GlobalDefaultBucket already exists")
    else putGlobalDefaultBucket (some b)
  else match findNamespace cfg «namespace» with
    | none => pure (some "Namespace doesn't exist")
    | some ns =>
      if b.name = defaultBucketName then
        if ns.defaultBucket.isSome then pure (some "DefaultBucket already exists")
        else putNamespace «namespace» { ns with defaultBucket := some b }
      else if b.name = dynamicBucketTemplateName then
        if ns.dynamicBucketTemplate.isSome then pure (some "DynamicBucketTemplate already exists")
        else putNamespace «namespace» { ns with dynamicBucketTemplate := some b }
      else if (ns.buckets.get b.name).join.isSome then
        pure (some ("Bucket " ++ b.name ++ " already exists"))
      else do
        let buckets ← (made ns.buckets).set b.name (some b)
        putNamespace «namespace» { ns with buckets := buckets }

def updateBucket («namespace» : String) (b : BucketConfig) : InPlace := do
  let cfg ← get
  if «namespace» = globalNamespace then putGlobalDefaultBucket (some b)
  else match findNamespace cfg «namespace» with
    | none => pure (some "Namespace doesn't exist")
    | some ns =>
      if b.name = defaultBucketName then
        putNamespace «namespace» { ns with defaultBucket := some b }
      else if b.name = dynamicBucketTemplateName then
        putNamespace «namespace» { ns with dynamicBucketTemplate := some b }
      else do
        let buckets ← ns.buckets.set b.name (some b)
        putNamespace «namespace» { ns with buckets := buckets }

def deleteBucket («namespace» name : String) : InPlace := do
  let cfg ← get
  if «namespace» = globalNamespace then putGlobalDefaultBucket none
  else match findNamespace cfg «namespace» with
    | none => pure (some ("No such namespace " ++ «namespace» ++ "."))
    | some ns =>
      if name = defaultBucketName then putNamespace «namespace» { ns with defaultBucket := none }
      else if name = dynamicBucketTemplateName then
        putNamespace «namespace» { ns with dynamicBucketTemplate := none }
      else putNamespace «namespace» { ns with buckets := ns.buckets.delete name }

def deleteNamespace (n : String) : InPlace := do
  let cfg ← get
  if (findNamespace cfg n).isNone then pure (some ("No such namespace " ++ n))
  else do
    set { cfg with namespaces := cfg.namespaces.delete n }
    pure none

def updateNamespace (nsCfg : NamespaceConfig) : InPlace := do
  modify fun cfg => { cfg with namespaces := made cfg.namespaces }
  putNamespace nsCfg.name nsCfg

def createNamespace (nsCfg : NamespaceConfig) : InPlace := do
  let cfg ← get
  if (findNamespace cfg nsCfg.name).isSome then
    pure (some ("Namespace " ++ nsCfg.name ++ " already exists."))
  else updateNamespace nsCfg

/-- What a call of `updateConfig` runs on its clone. -/
def ofOp : Op → InPlace
  | .addBucket ns b => createBucket ns b
  | .updateBucket ns b => updateBucket ns b
  | .deleteBucket ns name => deleteBucket ns name
  | .addNamespace n => createNamespace n
  | .updateNamespace n => updateNamespace n
  | .deleteNamespace n => deleteNamespace n

end InPlace

/-- The error and the config that an outcome stands for. -/
def leaves (cfg : ServiceConfig) : Except String ServiceConfig → Option String × ServiceConfig
  | .error e => (some e, cfg)
  | .ok cfg' => (none, cfg')

section Runs
variable (cfg : ServiceConfig)

theorem run_putNamespace (name : String) (ns : NamespaceConfig) :
    (InPlace.putNamespace name ns).run cfg = (putNamespace cfg name ns).map (leaves cfg) := by
  unfold InPlace.putNamespace putNamespace
  cases h : cfg.namespaces.set name (some ns) <;> simp [h, leaves]

theorem run_putGlobalDefaultBucket (b : Option BucketConfig) :
    (InPlace.putGlobalDefaultBucket b).run cfg =
      some (none, { cfg with globalDefaultBucket := b }) := rfl

theorem run_createBucket (ns : String) (b : BucketConfig) :
    (InPlace.createBucket ns b).run cfg = (createBucket cfg ns b).map (leaves cfg) := by
  unfold InPlace.createBucket createBucket
  simp only [StateT.run_bind, StateT.run_get, pure_bind]
  by_cases hglobal : ns = globalNamespace
  · simp only [hglobal, if_true]
    by_cases hset : cfg.globalDefaultBucket.isSome = true
    · simp [hset, leaves]
    · simp [hset, leaves, run_putGlobalDefaultBucket]
  · simp only [hglobal, if_false]
    cases findNamespace cfg ns with
    | none => simp [leaves]
    | some n =>
      by_cases hdefault : b.name = defaultBucketName
      · simp only [hdefault, if_true]
        by_cases hset : n.defaultBucket.isSome = true <;> simp [hset, leaves, run_putNamespace]
      · simp only [hdefault, if_false]
        by_cases htemplate : b.name = dynamicBucketTemplateName
        · simp only [htemplate, if_true]
          by_cases hset : n.dynamicBucketTemplate.isSome = true <;>
            simp [hset, leaves, run_putNamespace]
        · simp only [htemplate, if_false]
          by_cases hset : (n.buckets.get b.name).join.isSome = true
          · simp [hset, leaves]
          · cases (made n.buckets).set b.name (some b) <;> simp [hset, run_putNamespace]

theorem run_updateBucket (ns : String) (b : BucketConfig) :
    (InPlace.updateBucket ns b).run cfg = (updateBucket cfg ns b).map (leaves cfg) := by
  unfold InPlace.updateBucket updateBucket
  simp only [StateT.run_bind, StateT.run_get, pure_bind]
  by_cases hglobal : ns = globalNamespace
  · simp [hglobal, leaves, run_putGlobalDefaultBucket]
  · simp only [hglobal, if_false]
    cases findNamespace cfg ns with
    | none => simp [leaves]
    | some n =>
      by_cases hdefault : b.name = defaultBucketName
      · simp [hdefault, run_putNamespace]
      · by_cases htemplate : b.name = dynamicBucketTemplateName
        · simp [htemplate, Admin.template_ne_default, run_putNamespace]
        · cases hm : n.buckets.set b.name (some b) <;>
            simp [hdefault, htemplate, hm, run_putNamespace]

theorem run_deleteBucket (ns name : String) :
    (InPlace.deleteBucket ns name).run cfg = (deleteBucket cfg ns name).map (leaves cfg) := by
  unfold InPlace.deleteBucket deleteBucket
  simp only [StateT.run_bind, StateT.run_get, pure_bind]
  by_cases hglobal : ns = globalNamespace
  · simp [hglobal, leaves, run_putGlobalDefaultBucket]
  · simp only [hglobal, if_false]
    cases findNamespace cfg ns with
    | none => simp [leaves]
    | some n =>
      by_cases hdefault : name = defaultBucketName
      · simp [hdefault, run_putNamespace]
      · by_cases htemplate : name = dynamicBucketTemplateName
        · simp [htemplate, Admin.template_ne_default, run_putNamespace]
        · simp [hdefault, htemplate, run_putNamespace]

theorem run_deleteNamespace (n : String) :
    (InPlace.deleteNamespace n).run cfg = (deleteNamespace cfg n).map (leaves cfg) := by
  unfold InPlace.deleteNamespace deleteNamespace
  simp only [StateT.run_bind, StateT.run_get, pure_bind]
  by_cases hmissing : (findNamespace cfg n).isNone = true <;> simp [hmissing, leaves]

theorem run_updateNamespace (nsCfg : NamespaceConfig) :
    (InPlace.updateNamespace nsCfg).run cfg = (updateNamespace cfg nsCfg).map (leaves cfg) := by
  unfold InPlace.updateNamespace updateNamespace
  simp only [StateT.run_bind, StateT.run_modify, pure_bind, run_putNamespace]
  unfold putNamespace
  cases (made cfg.namespaces).set nsCfg.name (some nsCfg) <;> rfl

theorem run_createNamespace (nsCfg : NamespaceConfig) :
    (InPlace.createNamespace nsCfg).run cfg = (createNamespace cfg nsCfg).map (leaves cfg) := by
  unfold InPlace.createNamespace createNamespace
  simp only [StateT.run_bind, StateT.run_get, pure_bind]
  by_cases hset : (findNamespace cfg nsCfg.name).isSome = true <;>
    simp [hset, leaves, run_updateNamespace]

/-- A call that fails leaves the config alone; this is what the edits of a clone rely on. -/
theorem run_ofOp (op : Op) : (InPlace.ofOp op).run cfg = (op.edit cfg).map (leaves cfg) := by
  cases op with
  | addBucket ns b => exact run_createBucket cfg ns b
  | updateBucket ns b => exact run_updateBucket cfg ns b
  | deleteBucket ns name => exact run_deleteBucket cfg ns name
  | addNamespace n => exact run_createNamespace cfg n
  | updateNamespace n => exact run_updateNamespace cfg n
  | deleteNamespace n => exact run_deleteNamespace cfg n

end Runs

/-- A config without nil namespaces and nil buckets, as a copy or a decoded message is. -/
structure Decoded (cfg : ServiceConfig) : Prop where
  set : ∀ k x, cfg.namespaces.get k = some x → x ≠ none
  buckets_set : ∀ k ns, cfg.namespaces.get k = some (some ns) →
    ∀ n b, ns.buckets.get n = some b → b ≠ none

/-- What a slot holds. -/
inductive Content
  | bucket (b : Option BucketConfig)
  | «namespace» (ns : Option NamespaceConfig)

/-- The slot of a bucket in its namespace. -/
def Place.slotIn (ns : NamespaceConfig) : Place → Option Content
  | defaultBucket _ => ns.defaultBucket.map fun b => .bucket (some b)
  | dynamicBucketTemplate _ => ns.dynamicBucketTemplate.map fun b => .bucket (some b)
  | bucket _ n => (ns.buckets.get n).map .bucket
  | _ => none

/-- The namespace that a slot is in. -/
def Place.parent : Place → Option String
  | defaultBucket k | dynamicBucketTemplate k | bucket k _ => some k
  | _ => none

/-- What is in a slot; none if it is empty. -/
def Place.slot (cfg : ServiceConfig) (p : Place) : Option Content :=
  match p with
  | globalDefaultBucket => cfg.globalDefaultBucket.map fun b => .bucket (some b)
  | .namespace name => (cfg.namespaces.get name).map .namespace
  | p => p.parent.bind fun k => (findNamespace cfg k).bind p.slotIn

/-- The slot has a new content, and all else is as it was. -/
structure SlotUpdate (p : Place) (content : Option Content) (cfg cfg' : ServiceConfig) : Prop where
  slot : p.slot cfg' = content
  others : SameBut p cfg' cfg
  version : cfg'.version = cfg.version
  user : cfg'.user = cfg.user
  date : cfg'.date = cfg.date

/-- The content that a call is to put into its slot. -/
def written : Op → Option Content
  | .addBucket _ b | .updateBucket _ b => some (.bucket (some b))
  | .addNamespace n | .updateNamespace n => some (.namespace (some n))
  | .deleteBucket _ _ | .deleteNamespace _ => none

/-- The call that deletes what a call creates. -/
def undo : Op → Option Op
  | .addBucket ns b => some (.deleteBucket ns b.name)
  | .addNamespace n => some (.deleteNamespace n.name)
  | _ => none

/-- A call is an exact update of its slot. -/
structure ExactUpdate (op : Op) (cfg : ServiceConfig) : Prop where
  total : (InPlace.ofOp op).run cfg ≠ none
  failed : ∀ e cfg', (InPlace.ofOp op).run cfg = some (some e, cfg') → cfg' = cfg
  updated : ∀ cfg', (InPlace.ofOp op).run cfg = some (none, cfg') →
    SlotUpdate (Cli.target op) (written op) cfg cfg'
  create_fails : (undo op).isSome = true →
    ((∃ e cfg', (InPlace.ofOp op).run cfg = some (some e, cfg')) ↔
      (Cli.target op).slot cfg ≠ none ∨
        ∃ k ∈ (Cli.target op).parent, findNamespace cfg k = none)
  restored : ∀ delete ∈ undo op, ∀ cfg', (InPlace.ofOp op).run cfg = some (none, cfg') →
    ∃ cfg'', (InPlace.ofOp delete).run cfg' = some (none, cfg'') ∧ SameConfig cfg'' cfg ∧
      cfg''.version = cfg.version ∧ cfg''.user = cfg.user ∧ cfg''.date = cfg.date

/-- A namespace in which a named bucket is updated has a map of buckets. -/
def Writable (cfg : ServiceConfig) : Op → Prop
  | .updateBucket ns b => ns ≠ globalNamespace → b.name ≠ defaultBucketName →
      b.name ≠ dynamicBucketTemplateName → ∀ n, findNamespace cfg ns = some n → n.buckets ≠ .null
  | _ => True

section Slots
variable {p : Place} {c1 c2 cfg cfg' : ServiceConfig} {k name : String} {ns : NamespaceConfig}

theorem slot_of_parent (hp : p.parent = some k) (cfg : ServiceConfig) :
    p.slot cfg = (findNamespace cfg k).bind p.slotIn := by
  cases p <;> cases hp <;> rfl

theorem same_of_clearIn {ns1 ns2 : NamespaceConfig}
    (h : SameNamespace (p.clearIn name ns1) (p.clearIn name ns2))
    (hslot : p.parent = some name → p.slotIn ns1 = p.slotIn ns2) : SameNamespace ns1 ns2 := by
  have hbucket : ∀ b b' : BucketConfig, Content.bucket (some b) = .bucket (some b') → b = b' :=
    fun b b' heq => by cases heq; rfl
  cases p with
  | globalDefaultBucket => exact h
  | «namespace» k => exact h
  | defaultBucket k =>
    by_cases hk : name = k
    · subst hk
      simp only [Place.clearIn, if_true] at h
      exact ⟨h.name, h.maxDynamicBuckets, Option.map_injective hbucket (hslot rfl),
        h.dynamicBucketTemplate, h.buckets⟩
    · simpa [Place.clearIn, hk] using h
  | dynamicBucketTemplate k =>
    by_cases hk : name = k
    · subst hk
      simp only [Place.clearIn, if_true] at h
      exact ⟨h.name, h.maxDynamicBuckets, h.defaultBucket,
        Option.map_injective hbucket (hslot rfl), h.buckets⟩
    · simpa [Place.clearIn, hk] using h
  | bucket k n =>
    by_cases hk : name = k
    · subst hk
      simp only [Place.clearIn, if_true] at h
      refine ⟨h.name, h.maxDynamicBuckets, h.defaultBucket, h.dynamicBucketTemplate, fun n' => ?_⟩
      by_cases hn : n' = n
      · subst hn
        exact Option.map_injective (fun b b' heq => by cases heq; rfl) (hslot rfl)
      · have hn' := h.buckets n'
        simpa only [GoMap.get_delete_ne _ hn] using hn'
    · simpa [Place.clearIn, hk] using h

/-- Configs that are the same outside of a slot, and in it, are the same. -/
theorem SameBut.same (h : SameBut p c1 c2) (hslot : p.slot c1 = p.slot c2) : SameConfig c1 c2 := by
  constructor
  · have hglobal := h.globalDefaultBucket
    rw [globalDefaultBucket_clear, globalDefaultBucket_clear] at hglobal
    by_cases hp : p = .globalDefaultBucket
    · subst hp
      exact Option.map_injective (fun b b' heq => by cases heq; rfl) hslot
    · simpa [hp] using hglobal
  · intro name
    have hname := h.namespaces name
    rw [get_clear, get_clear] at hname
    by_cases hp : p = .namespace name
    · subst hp
      have hget : c1.namespaces.get name = c2.namespaces.get name :=
        Option.map_injective (fun n n' heq => by cases heq; rfl) hslot
      rw [hget]
      exact GoMap.rel_refl (GoMap.rel_refl SameNamespace.refl) _
    · rw [if_neg hp, if_neg hp] at hname
      cases h1 : c1.namespaces.get name with
      | none =>
        cases h2 : c2.namespaces.get name with
        | none => exact .none
        | some n2 => simp [h1, h2] at hname
      | some n1 =>
        cases h2 : c2.namespaces.get name with
        | none => simp [h1, h2] at hname
        | some n2 =>
          rw [h1, h2] at hname
          cases n1 with
          | none =>
            cases n2 with
            | none => exact .some .none
            | some n2 => simp at hname
          | some n1 =>
            cases n2 with
            | none => simp at hname
            | some n2 =>
              simp only [Option.map_some, Option.rel_some_some] at hname
              refine .some (.some (same_of_clearIn hname fun hparent => ?_))
              rw [slot_of_parent hparent, slot_of_parent hparent] at hslot
              simpa [findNamespace, h1, h2] using hslot

theorem placeOf_parent (hk : k ≠ globalNamespace) (name : String) :
    (placeOf k name).parent = some k := by
  unfold placeOf
  rw [if_neg hk]
  split_ifs <;> rfl

theorem slot_put (h : putNamespace cfg k ns = some (.ok cfg')) (hp : p.parent = some k) :
    p.slot cfg' = p.slotIn ns := by
  obtain ⟨m, hm, heq⟩ := Option.map_eq_some_iff.mp h
  cases heq
  rw [slot_of_parent hp]
  simp [findNamespace, GoMap.get_set_self hm]

/-- Writing back a namespace that was found does not panic. -/
theorem exists_put (h : findNamespace cfg k ≠ none) (ns : NamespaceConfig) :
    ∃ cfg', putNamespace cfg k ns = some (.ok cfg') := by
  unfold putNamespace
  cases hm : cfg.namespaces with
  | null => simp [findNamespace, hm] at h
  | table t => exact ⟨_, rfl⟩

theorem header_put (h : putNamespace cfg k ns = some (.ok cfg')) :
    cfg'.version = cfg.version ∧ cfg'.user = cfg.user ∧ cfg'.date = cfg.date := by
  obtain ⟨m, -, heq⟩ := Option.map_eq_some_iff.mp h
  cases heq
  exact ⟨rfl, rfl, rfl⟩

theorem BucketEdit.header (h : BucketEdit k name cfg cfg') :
    cfg'.version = cfg.version ∧ cfg'.user = cfg.user ∧ cfg'.date = cfg.date := by
  cases h with
  | globalDefault b isGlobal => exact ⟨rfl, rfl, rfl⟩
  | put notGlobal found edited written => exact header_put written

/-- What an edit of a bucket has written is in the slot of the bucket. -/
theorem BucketWrite.slot {b : Option BucketConfig} (h : BucketWrite k name b cfg cfg') :
    (placeOf k name).slot cfg' = b.map fun b => .bucket (some b) := by
  cases h with
  | globalDefault isGlobal => simp [placeOf, isGlobal, Place.slot]
  | defaultBucket notGlobal found isDefault written =>
    rw [slot_put written (placeOf_parent notGlobal name)]
    simp [placeOf, notGlobal, isDefault, Place.slotIn]
  | dynamicBucketTemplate notGlobal found notDefault isTemplate written =>
    rw [slot_put written (placeOf_parent notGlobal name)]
    simp [placeOf, notGlobal, isTemplate, Admin.template_ne_default, Place.slotIn]
  | @buckets old m _ notGlobal found notDefault notTemplate own others written =>
    rw [slot_put written (placeOf_parent notGlobal name)]
    have hplace : placeOf k name = .bucket k name := by
      simp [placeOf, notGlobal, notDefault, notTemplate]
    rw [hplace, Place.slotIn, own, Option.map_map]
    rfl

theorem BucketWrite.slotUpdate {b : Option BucketConfig} (h : BucketWrite k name b cfg cfg') :
    SlotUpdate (placeOf k name) (b.map fun b => .bucket (some b)) cfg cfg' := by
  obtain ⟨hversion, huser, hdate⟩ := h.edit.header
  exact ⟨h.slot, h.edit.sameBut, hversion, huser, hdate⟩

theorem slotUpdate_createBucket {b : BucketConfig} (h : createBucket cfg k b = some (.ok cfg')) :
    SlotUpdate (placeOf k b.name) (some (.bucket (some b))) cfg cfg' :=
  (createBucket_write h).slotUpdate

theorem slotUpdate_updateBucket {b : BucketConfig} (h : updateBucket cfg k b = some (.ok cfg')) :
    SlotUpdate (placeOf k b.name) (some (.bucket (some b))) cfg cfg' :=
  (updateBucket_write h).slotUpdate

theorem slotUpdate_deleteBucket (h : deleteBucket cfg k name = some (.ok cfg')) :
    SlotUpdate (placeOf k name) none cfg cfg' :=
  (deleteBucket_write h).slotUpdate

theorem slotUpdate_updateNamespace (h : updateNamespace cfg ns = some (.ok cfg')) :
    SlotUpdate (.namespace ns.name) (some (.namespace (some ns))) cfg cfg' := by
  have hsame := updateNamespace_sameBut h
  obtain ⟨m, hm, heq⟩ := Option.map_eq_some_iff.mp h
  cases heq
  exact ⟨by simp [Place.slot, GoMap.get_set_self hm], hsame, rfl, rfl, rfl⟩

theorem slotUpdate_deleteNamespace (h : deleteNamespace cfg name = some (.ok cfg')) :
    SlotUpdate (.namespace name) none cfg cfg' := by
  have hsame := deleteNamespace_sameBut h
  unfold deleteNamespace at h
  split_ifs at h
  · cases h
  · cases h
    exact ⟨by simp [Place.slot], hsame, rfl, rfl, rfl⟩

/-- A call that succeeds updates its slot. -/
theorem slotUpdate_edit {op : Op} (h : op.edit cfg = some (.ok cfg')) :
    SlotUpdate (Cli.target op) (written op) cfg cfg' := by
  cases op with
  | addBucket ns b => exact slotUpdate_createBucket h
  | updateBucket ns b => exact slotUpdate_updateBucket h
  | deleteBucket ns name => exact slotUpdate_deleteBucket h
  | addNamespace n =>
    simp only [Op.edit, createNamespace] at h
    split_ifs at h
    · cases h
    · exact slotUpdate_updateNamespace h
  | updateNamespace n => exact slotUpdate_updateNamespace h
  | deleteNamespace n => exact slotUpdate_deleteNamespace h

theorem isSome_bucket_iff (h : Decoded cfg) (hns : findNamespace cfg k = some ns) (name : String) :
    (ns.buckets.get name).join.isSome = true ↔ ns.buckets.get name ≠ none := by
  have hset := h.buckets_set k ns (Admin.findNamespace_eq_some.mp hns) name
  cases hb : ns.buckets.get name with
  | none => simp
  | some b => simp [Option.isSome_iff_ne_none, hset b hb]

/-- `CreateBucket` fails on a slot that is taken, or without the namespace of the slot. -/
theorem createBucket_cases (h : Decoded cfg) (k : String) (b : BucketConfig) :
    (∃ e, createBucket cfg k b = some (.error e)) ∧ ((placeOf k b.name).slot cfg ≠ none ∨
        ∃ k' ∈ (placeOf k b.name).parent, findNamespace cfg k' = none) ∨
      (∃ cfg', createBucket cfg k b = some (.ok cfg')) ∧ (placeOf k b.name).slot cfg = none ∧
        ∀ k' ∈ (placeOf k b.name).parent, findNamespace cfg k' ≠ none := by
  unfold createBucket
  by_cases hglobal : k = globalNamespace
  · rw [if_pos hglobal]
    cases hb : cfg.globalDefaultBucket <;> simp [placeOf, hglobal, Place.slot, Place.parent, hb]
  · rw [if_neg hglobal]
    have hparent := placeOf_parent hglobal b.name
    rw [slot_of_parent hparent, hparent]
    cases hns : findNamespace cfg k with
    | none => simp [hns]
    | some ns =>
      have hfound : findNamespace cfg k ≠ none := by simp [hns]
      have hput := exists_put hfound
      simp only [Option.bind_some, Option.mem_some_iff, exists_eq_left', forall_eq', hns]
      by_cases hdefault : b.name = defaultBucketName
      · cases hb : ns.defaultBucket <;> simp [placeOf, hglobal, hdefault, Place.slotIn, hb, hput]
      · by_cases htemplate : b.name = dynamicBucketTemplateName
        · cases hb : ns.dynamicBucketTemplate <;>
            simp [placeOf, hglobal, htemplate, Admin.template_ne_default, Place.slotIn, hb, hput]
        · have htaken := isSome_bucket_iff h hns b.name
          by_cases hb : ns.buckets.get b.name = none
          · obtain ⟨m, hm⟩ : ∃ m, (made ns.buckets).set b.name (some b) = some m := by
              cases ns.buckets <;> exact ⟨_, rfl⟩
            simp [placeOf, hglobal, hdefault, htemplate, Place.slotIn, hb, hm, hput]
          · simp [placeOf, hglobal, hdefault, htemplate, Place.slotIn, hb, htaken]

/-- `CreateNamespace` fails on a name that is taken. -/
theorem createNamespace_cases (h : Decoded cfg) (ns : NamespaceConfig) :
    (∃ e, createNamespace cfg ns = some (.error e)) ∧
        (Place.namespace ns.name).slot cfg ≠ none ∨
      (∃ cfg', createNamespace cfg ns = some (.ok cfg')) ∧
        (Place.namespace ns.name).slot cfg = none := by
  have htaken : (findNamespace cfg ns.name).isSome = true ↔ cfg.namespaces.get ns.name ≠ none := by
    have hset := h.set ns.name
    unfold findNamespace
    cases hget : cfg.namespaces.get ns.name with
    | none => simp
    | some n => simp [Option.isSome_iff_ne_none, hset n hget]
  have hupdate : ∃ cfg', updateNamespace cfg ns = some (.ok cfg') := by
    unfold updateNamespace putNamespace
    cases cfg.namespaces <;> exact ⟨_, rfl⟩
  unfold createNamespace
  by_cases hget : cfg.namespaces.get ns.name = none
  · simp [Place.slot, htaken, hget, hupdate]
  · simp [Place.slot, htaken, hget]

/-- Whether a call that creates something fails. -/
theorem create_cases (h : Decoded cfg) {op : Op} (hop : (undo op).isSome = true) :
    (∃ e, op.edit cfg = some (.error e)) ∧ ((Cli.target op).slot cfg ≠ none ∨
        ∃ k ∈ (Cli.target op).parent, findNamespace cfg k = none) ∨
      (∃ cfg', op.edit cfg = some (.ok cfg')) ∧ (Cli.target op).slot cfg = none ∧
        ∀ k ∈ (Cli.target op).parent, findNamespace cfg k ≠ none := by
  cases op with
  | addBucket ns b => exact createBucket_cases h ns b
  | addNamespace n =>
    rcases createNamespace_cases h n with ⟨herror, hslot⟩ | ⟨hok, hslot⟩
    · exact Or.inl ⟨herror, Or.inl hslot⟩
    · exact Or.inr ⟨hok, hslot, fun k hk => by cases hk⟩
  | _ => cases hop

/-- `DeleteBucket` succeeds where there is a namespace, and does not panic elsewhere. -/
theorem deleteBucket_cases (cfg : ServiceConfig) (k name : String) :
    (∃ e, deleteBucket cfg k name = some (.error e)) ∧
        (∃ k' ∈ (placeOf k name).parent, findNamespace cfg k' = none) ∨
      ∃ cfg', deleteBucket cfg k name = some (.ok cfg') := by
  unfold deleteBucket
  by_cases hglobal : k = globalNamespace
  · simp [hglobal]
  · rw [if_neg hglobal, placeOf_parent hglobal]
    cases hns : findNamespace cfg k with
    | none => simp [hns]
    | some ns =>
      apply Or.inr
      have hfound : findNamespace cfg k ≠ none := by simp [hns]
      have hput := exists_put hfound
      by_cases hdefault : name = defaultBucketName
      · simp [hdefault, hput]
      · by_cases htemplate : name = dynamicBucketTemplateName
        · simp [htemplate, Admin.template_ne_default, hput]
        · simp [hdefault, htemplate, hput]

/-- What was put into a slot can be deleted from it. -/
theorem delete_created {op delete : Op} (hop : delete ∈ undo op)
    (hslot : (Cli.target op).slot cfg = written op) :
    Cli.target delete = Cli.target op ∧ written delete = none ∧
      ∃ cfg', delete.edit cfg = some (.ok cfg') := by
  cases op with
  | addBucket ns b =>
    cases hop
    refine ⟨rfl, rfl, ?_⟩
    rcases deleteBucket_cases cfg ns b.name with ⟨-, k, hk, hmissing⟩ | hok
    · have hempty := slot_of_parent hk cfg
      rw [hmissing, Option.bind_none] at hempty
      cases hempty.symm.trans hslot
    · exact hok
  | addNamespace n =>
    cases hop
    have hfound : (findNamespace cfg n.name).isNone = false := by
      obtain ⟨x, hget, hx⟩ := Option.map_eq_some_iff.mp hslot
      cases hx
      simp [findNamespace, hget]
    refine ⟨rfl, rfl, { cfg with namespaces := cfg.namespaces.delete n.name }, ?_⟩
    simp [Op.edit, deleteNamespace, hfound]
  | _ => cases hop

/-- The only panic is the write to a nil map of buckets. -/
theorem edit_eq_none_iff (h : Decoded cfg) (op : Op) : op.edit cfg = none ↔ ¬Writable cfg op := by
  have hcreates : (undo op).isSome = true → op.edit cfg ≠ none := by
    intro hop
    rcases create_cases h hop with ⟨⟨e, he⟩, -⟩ | ⟨⟨cfg', hok⟩, -⟩
    · simp [he]
    · simp [hok]
  cases op with
  | addBucket k b => simpa [Writable] using hcreates rfl
  | updateBucket k b =>
    simp only [Op.edit, Writable]
    unfold updateBucket
    by_cases hglobal : k = globalNamespace
    · simp [hglobal]
    · rw [if_neg hglobal]
      cases hns : findNamespace cfg k with
      | none => simp
      | some ns =>
        have hfound : findNamespace cfg k ≠ none := by simp [hns]
        have hput : ∀ ns', putNamespace cfg k ns' ≠ none := by
          intro ns'
          obtain ⟨cfg', hput⟩ := exists_put hfound ns'
          simp [hput]
        by_cases hdefault : b.name = defaultBucketName
        · simp [hdefault, hput]
        · by_cases htemplate : b.name = dynamicBucketTemplateName
          · simp [htemplate, Admin.template_ne_default, hput]
          · cases hbuckets : ns.buckets <;>
              simp [hglobal, hdefault, htemplate, hbuckets, GoMap.set, hput]
  | deleteBucket k name =>
    simp only [Op.edit, Writable, not_true_eq_false, iff_false]
    rcases deleteBucket_cases cfg k name with ⟨⟨e, he⟩, -⟩ | ⟨cfg', hok⟩
    · simp [he]
    · simp [hok]
  | addNamespace n => simpa [Writable] using hcreates rfl
  | updateNamespace n =>
    simp only [Op.edit, Writable, not_true_eq_false, iff_false]
    unfold updateNamespace putNamespace
    cases cfg.namespaces <;> simp [made, GoMap.set, GoMap.make]
  | deleteNamespace n =>
    simp only [Op.edit, Writable, not_true_eq_false, iff_false]
    unfold deleteNamespace
    split_ifs <;> simp

/-- The calls are exact updates of their slots, but for the update of a named bucket where the map of
buckets is nil. -/
theorem exactUpdate_iff (h : Decoded cfg) (op : Op) : ExactUpdate op cfg ↔ Writable cfg op := by
  have hrun := run_ofOp cfg op
  constructor
  · intro hexact
    have htotal := hexact.total
    rw [hrun, ne_eq, Option.map_eq_none_iff, edit_eq_none_iff h, not_not] at htotal
    exact htotal
  · intro hwritable
    have hok : ∀ cfg', (InPlace.ofOp op).run cfg = some (none, cfg') →
        op.edit cfg = some (.ok cfg') := by
      intro cfg' hnil
      rw [hrun] at hnil
      obtain ⟨outcome, hedit, hleaves⟩ := Option.map_eq_some_iff.mp hnil
      cases outcome <;> cases hleaves
      exact hedit
    have herror : ∀ e cfg', (InPlace.ofOp op).run cfg = some (some e, cfg') ↔
        op.edit cfg = some (.error e) ∧ cfg' = cfg := by
      intro e cfg'
      rw [hrun, Option.map_eq_some_iff]
      constructor
      · rintro ⟨outcome, hedit, hleaves⟩
        cases outcome <;> cases hleaves
        exact ⟨hedit, rfl⟩
      · rintro ⟨hedit, rfl⟩
        exact ⟨_, hedit, rfl⟩
    constructor
    · rw [hrun, ne_eq, Option.map_eq_none_iff, edit_eq_none_iff h, not_not]
      exact hwritable
    · intro e cfg' hfailed
      exact ((herror e cfg').mp hfailed).2
    · intro cfg' hnil
      exact slotUpdate_edit (hok cfg' hnil)
    · intro hcreates
      simp only [herror, exists_and_left, exists_eq, and_true]
      rcases create_cases h hcreates with ⟨hfails, hslot⟩ | ⟨⟨cfg', hedit⟩, hempty, hfound⟩
      · exact iff_of_true hfails hslot
      · apply iff_of_false
        · simp [hedit]
        · rintro (hslot | ⟨k, hk, hmissing⟩)
          · exact hslot hempty
          · exact hfound k hk hmissing
    · intro delete hdelete cfg' hnil
      have hcreated := slotUpdate_edit (hok cfg' hnil)
      have hempty : (Cli.target op).slot cfg = none := by
        have hcreates : (undo op).isSome = true := by
          rw [hdelete]
          rfl
        rcases create_cases h hcreates with ⟨⟨e, he⟩, -⟩ | ⟨-, hempty, -⟩
        · rw [hok cfg' hnil] at he
          cases he
        · exact hempty
      obtain ⟨htarget, hwritten, cfg'', hedit⟩ := delete_created hdelete hcreated.slot
      have hdeleted := slotUpdate_edit hedit
      rw [htarget, hwritten] at hdeleted
      refine ⟨cfg'', by rw [run_ofOp, hedit]; rfl, ?_, hdeleted.version.trans hcreated.version,
        hdeleted.user.trans hcreated.user, hdeleted.date.trans hcreated.date⟩
      have hothers : SameBut (Cli.target op) cfg'' cfg :=
        SameConfig.trans hdeleted.others hcreated.others
      exact hothers.same (hdeleted.slot.trans hempty.symm)

end Slots

theorem decoded_clone (cfg : ServiceConfig) : Decoded (cloneConfig cfg) := by
  constructor
  · intro k x hx
    simp only [cloneConfig, get_cloneMap, Option.map_eq_some_iff] at hx
    obtain ⟨_, -, rfl⟩ := hx
    exact Option.some_ne_none _
  · intro k ns hns n b hb
    simp only [cloneConfig, get_cloneMap, Option.map_eq_some_iff] at hns
    obtain ⟨_, -, hns⟩ := hns
    cases hns
    simp only [cloneNamespaceConfig, get_cloneMap, Option.map_eq_some_iff] at hb
    obtain ⟨_, -, rfl⟩ := hb
    exact Option.some_ne_none _

/-- A namespace with a bucket, or with none. -/
def oneNamespace (buckets : GoMap String (Option BucketConfig)) : ServiceConfig :=
  { namespaces := .table (AList.singleton "ns" (some { name := "ns", buckets := buckets })) }

theorem exactUpdate_iff_bucket :
    let cfg := cloneConfig (oneNamespace (.table (AList.singleton "b" (some { name := "b" }))))
    let op : Op := .updateBucket "ns" { name := "b", size := 7 }
    Decoded cfg ∧ (ExactUpdate op cfg ↔ Writable cfg op) :=
  ⟨decoded_clone _, exactUpdate_iff (decoded_clone _) _⟩

/-- The update of a bucket of a namespace without buckets panics; `CreateBucket` makes the map. -/
theorem updateBucket_without_buckets :
    let cfg := cloneConfig (oneNamespace .make)
    let op : Op := .updateBucket "ns" { name := "b" }
    Decoded cfg ∧ (InPlace.ofOp op).run cfg = none ∧ ¬ExactUpdate op cfg := by
  intro cfg op
  have hpanic : (InPlace.ofOp op).run cfg = none := rfl
  exact ⟨decoded_clone _, hpanic, fun hexact => hexact.total hpanic⟩

end QuotaService.Config
