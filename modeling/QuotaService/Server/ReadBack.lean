import QuotaService.Server.Rest
import QuotaService.Server.Slots

/-! What a bucket that was written over REST looks like when it is read. A write dispatches over the
four kinds of places of a bucket; the read looks among the named buckets of the namespace only. -/
namespace QuotaService.Rest
open Config Server Admin Cli

/-- The request succeeds, and this is the config that it leads to. -/
def Persists (o : Operation) (body : Option Json) (cfgs cfg : ServiceConfig) : Prop :=
  ∃ change user date, o.change body = some change ∧
    updatedConfig change.updater user date (cloneConfig cfgs) = some (.ok cfg)

/-- A bucket that is written is read on the same path, and one that is deleted is not found there. -/
structure ReadsBack (assetsDirectory : Bool) (path ns bucket : String) (cfgs : ServiceConfig) :
    Prop where
  written : ∀ method, method = .put ∨ method = .post → ∀ body,
    (∀ c, getBucketConfig body = some c → c.name = "" ∨ c.name = bucket) →
    ∀ cfg, Persists (serveHTTP assetsDirectory ⟨method, path, body⟩) body cfgs cfg →
    ∀ applied, SameConfig applied cfg → ∃ stored, (placeOf ns bucket).content cfg = some stored ∧
      (serveHTTP assetsDirectory ⟨.get, path, none⟩).answer applied = some stored
  deleted : ∀ cfg, Persists (serveHTTP assetsDirectory ⟨.delete, path, none⟩) none cfgs cfg →
    ∀ applied, SameConfig applied cfg → ∃ e, writeBucket applied ns bucket = some (.error e)

section Read
variable {ns bucket : String} {edited cfg : ServiceConfig}

/-- A path on which a bucket is read is one on which it is written and deleted. -/
theorem serveHTTP_of_get {assetsDirectory : Bool} {path : String}
    (h : serveHTTP assetsDirectory ⟨.get, path, none⟩ = .writeBucket ns bucket) (method : Method)
    (body : Option Json) :
    serveHTTP assetsDirectory ⟨method, path, body⟩ = bucketsAPIHandler method ns bucket := by
  unfold serveHTTP at h ⊢
  cases hhandler : handler assetsDirectory path with
  | none => simp [hhandler] at h
  | some handler =>
    cases handler with
    | api =>
      simp only [hhandler] at h ⊢
      unfold apiRequestHandler at h ⊢
      split at h
      · rename_i hparams
        cases h
        rfl
      · cases h
    | _ => simp [hhandler] at h

/-- What is persisted of a bucket is read. -/
theorem content_of_slot {b : BucketConfig}
    (hslot : (Place.bucket ns bucket).slot edited = some (.bucket (some b)))
    (h : SameConfig cfg (withDefaults edited)) :
    (Place.bucket ns bucket).content cfg = some (marshalBucket (applyNamedDefaults ns bucket b)) := by
  obtain ⟨n, hn, hb⟩ := Option.bind_eq_some_iff.mp hslot
  obtain ⟨x, hb, hx⟩ := Option.map_eq_some_iff.mp hb
  cases hx
  have hrel := h.namespaces ns
  simp only [withDefaults, GoMap.get_map, findNamespace_eq_some.mp hn, Option.map_some] at hrel
  cases hget : cfg.namespaces.get ns with
  | none => simp [hget] at hrel
  | some y =>
    rw [hget] at hrel
    cases y with
    | none => simp at hrel
    | some n' =>
      simp only [Option.rel_some_some] at hrel
      simp [Place.content, findNamespace, hget, hrel.buckets bucket, get_applyNamespaceDefaults, hb]

/-- What is not there is not found. -/
theorem writeBucket_of_slot (hbucket : bucket ≠ "")
    (hslot : (Place.bucket ns bucket).slot edited = none)
    (haccepts : (applyDefaults edited).isSome = true) (h : SameConfig cfg (withDefaults edited)) :
    ∃ e, writeBucket cfg ns bucket = some (.error e) := by
  have hrel := h.namespaces ns
  simp only [withDefaults, GoMap.get_map] at hrel
  unfold writeBucket
  cases hget : cfg.namespaces.get ns with
  | none => exact ⟨_, rfl⟩
  | some y =>
    rw [hget] at hrel
    cases hedited : edited.namespaces.get ns with
    | none => simp [hedited] at hrel
    | some x =>
      have hx := applyDefaults_isSome_iff.mp haccepts ns x hedited
      cases x with
      | none => cases hx
      | some n =>
        cases y with
        | none => simp [hedited] at hrel
        | some n' =>
          simp only [hedited, Option.map_some, Option.rel_some_some] at hrel
          have hnone : n.buckets.get bucket = none := by
            simpa [Place.slot, Place.parent, Place.slotIn, findNamespace, hedited] using hslot
          simp [hbucket, hrel.buckets bucket, get_applyNamespaceDefaults, hnone]

/-- What is persisted of a change is the changed config with its defaults. -/
theorem persists_change {o : Operation} {body : Option Json} {cfgs : ServiceConfig}
    (h : Persists o body cfgs cfg) :
    ∃ change edited, o.change body = some change ∧
      change.updater (cloneConfig cfgs) = some (.ok edited) ∧
      (applyDefaults edited).isSome = true ∧ SameConfig cfg (withDefaults edited) := by
  obtain ⟨change, user, date, hchange, hupdated⟩ := h
  obtain ⟨edited, filled, hedit, hfilled, rfl⟩ := updatedConfig_ok hupdated
  refine ⟨change, edited, hchange, hedit, by simp [hfilled], ?_⟩
  have hsame := SameConfig.refl filled
  rw [applyDefaults_eq hfilled] at hsame ⊢
  exact ⟨hsame.globalDefaultBucket, hsame.namespaces⟩

/-- A call that is written has its content in its slot. -/
theorem persists_op {α : Type} {o : Operation} {body : Option Json} {x : Option α} (op : α → Op)
    {cfgs : ServiceConfig} (hchange : o.change body = x.map fun a => .op (op a))
    (h : Persists o body cfgs cfg) :
    ∃ a ∈ x, ∃ edited, (target (op a)).slot edited = written (op a) ∧
      (applyDefaults edited).isSome = true ∧ SameConfig cfg (withDefaults edited) := by
  obtain ⟨change, edited, hop, hedit, haccepts, hsame⟩ := persists_change h
  rw [hchange] at hop
  obtain ⟨a, ha, rfl⟩ := Option.map_eq_some_iff.mp hop
  exact ⟨a, ha, edited, (slotUpdate_edit hedit).slot, haccepts, hsame⟩

/-- A bucket that is written is in its slot. -/
theorem slot_of_persists {method : Method} (hmethod : method = .put ∨ method = .post)
    {body : Option Json} {cfgs : ServiceConfig}
    (h : Persists (bucketsAPIHandler method ns bucket) body cfgs cfg) :
    ∃ c, changeBucket bucket body = some c ∧ ∃ edited,
      (placeOf ns c.name).slot edited = some (.bucket (some c)) ∧
        SameConfig cfg (withDefaults edited) := by
  rcases hmethod with rfl | rfl
  · obtain ⟨c, hc, edited, hslot, -, hsame⟩ := persists_op (.updateBucket ns) rfl h
    exact ⟨c, hc, edited, hslot, hsame⟩
  · obtain ⟨c, hc, edited, hslot, -, hsame⟩ := persists_op (.addBucket ns) rfl h
    exact ⟨c, hc, edited, hslot, hsame⟩

theorem placeOf_ordinary (hns : ns ≠ globalNamespace) (hdefault : bucket ≠ defaultBucketName)
    (htemplate : bucket ≠ dynamicBucketTemplateName) : placeOf ns bucket = .bucket ns bucket := by
  simp [placeOf, hns, hdefault, htemplate]

/-- Named buckets of ordinary namespaces are read back. -/
theorem readsBack_ordinary {assetsDirectory : Bool} {path : String} (hbucket : bucket ≠ "")
    (hpath : serveHTTP assetsDirectory ⟨.get, path, none⟩ = .writeBucket ns bucket)
    (hplace : placeOf ns bucket = .bucket ns bucket) (cfgs : ServiceConfig) :
    ReadsBack assetsDirectory path ns bucket cfgs := by
  constructor
  · intro method hmethod body hnames cfg hpersists applied happlied
    rw [serveHTTP_of_get hpath] at hpersists
    rw [hpath, answer_writeBucket hbucket, hplace]
    have hname := changeBucket_name_iff.mpr hnames
    obtain ⟨c, hc, edited, hslot, hsame⟩ := slot_of_persists hmethod hpersists
    rw [hname c hc, hplace] at hslot
    exact ⟨_, content_of_slot hslot hsame, content_of_slot hslot (happlied.trans hsame)⟩
  · intro cfg hpersists applied happlied
    rw [serveHTTP_of_get hpath] at hpersists
    have hchange : (bucketsAPIHandler .delete ns bucket).change none =
        (some bucket).map fun name => .op (.deleteBucket ns name) := rfl
    obtain ⟨name, hname, edited, hslot, haccepts, hsame⟩ :=
      persists_op (.deleteBucket ns) hchange hpersists
    cases hname
    rw [target, hplace] at hslot
    exact writeBucket_of_slot hbucket hslot haccepts (happlied.trans hsame)

end Read

section Reserved
variable {ns bucket : String}

/-- A config in which the bucket of a reserved name can be written. -/
def empty (ns : String) : ServiceConfig :=
  if ns = globalNamespace then {}
  else { namespaces := .table (AList.singleton ns (some { name := ns })) }

theorem clone_empty (ns : String) : cloneConfig (empty ns) = empty ns := by
  unfold empty
  split_ifs <;> rfl

theorem put_empty (hns : ns ≠ globalNamespace) (name : String) {n : NamespaceConfig}
    (haccepts : acceptsDefaults (some n) = true) (hbuckets : n.buckets = .null) :
    ∃ edited, putNamespace (empty ns) ns n = some (.ok edited) ∧
      (applyDefaults edited).isSome = true ∧ (Place.bucket ns name).slot edited = none := by
  have hfind : findNamespace (empty ns) ns = some { name := ns } := by
    simp [findNamespace, empty, hns, GoMap.lookup_singleton]
  have hfound : findNamespace (empty ns) ns ≠ none := by simp [hfind]
  obtain ⟨edited, hput⟩ := exists_put hfound n
  refine ⟨edited, hput, ?_, ?_⟩
  · obtain ⟨m, hm, heq⟩ := Option.map_eq_some_iff.mp hput
    cases heq
    rw [applyDefaults_isSome_iff]
    intro k x hx
    by_cases hk : k = ns
    · subst hk
      cases (GoMap.get_set_self hm).symm.trans hx
      exact haccepts
    · have hx' := (GoMap.get_set_ne hm hk).symm.trans hx
      simp [empty, hns, GoMap.lookup_singleton, hk] at hx'
  · rw [slot_put hput rfl]
    simp [Place.slotIn, hbuckets]

/-- A bucket of a reserved name is written, and there are no named buckets then. -/
theorem write_reserved {b : BucketConfig} (hplace : placeOf ns b.name ≠ .bucket ns b.name) :
    ∃ edited, (Op.addBucket ns b).edit (empty ns) = some (.ok edited) ∧
      (applyDefaults edited).isSome = true ∧ (Place.bucket ns b.name).slot edited = none := by
  simp only [Op.edit, createBucket]
  by_cases hglobal : ns = globalNamespace
  · subst hglobal
    exact ⟨_, rfl, rfl, rfl⟩
  · have hfind : findNamespace (empty ns) ns = some { name := ns } := by
      simp [findNamespace, empty, hglobal, GoMap.lookup_singleton]
    simp only [hglobal, if_false, hfind]
    by_cases hdefault : b.name = defaultBucketName
    · simp only [hdefault, if_true]
      exact put_empty hglobal _ rfl rfl
    · by_cases htemplate : b.name = dynamicBucketTemplateName
      · simp only [htemplate, template_ne_default, if_true, if_false]
        exact put_empty hglobal _ rfl rfl
      · exact absurd (placeOf_ordinary hglobal hdefault htemplate) hplace

/-- The write of a bucket of a reserved name is not read back. -/
theorem not_readsBack {assetsDirectory : Bool} {path : String} (hbucket : bucket ≠ "")
    (hpath : serveHTTP assetsDirectory ⟨.get, path, none⟩ = .writeBucket ns bucket)
    (hplace : placeOf ns bucket ≠ .bucket ns bucket) :
    ¬ReadsBack assetsDirectory path ns bucket (empty ns) := by
  intro h
  let b : BucketConfig := { applyBucketDefaults {} with name := bucket }
  have hb : changeBucket bucket none = some b := rfl
  obtain ⟨edited, hedit, haccepts, hslot⟩ := write_reserved (b := b) hplace
  obtain ⟨cfg, hcfg, hsame⟩ := updatedConfig_of_edit hedit haccepts
  have hpersists : Persists (serveHTTP assetsDirectory ⟨.post, path, none⟩) none (empty ns) cfg := by
    rw [serveHTTP_of_get hpath]
    refine ⟨.op (.addBucket ns b), "", 0, ?_, ?_⟩
    · simp [bucketsAPIHandler, Operation.change, hb]
    · rw [clone_empty]
      exact hcfg
  obtain ⟨stored, -, hread⟩ := h.written .post (Or.inr rfl) none
    (fun c hc => by cases hc; exact Or.inl rfl) cfg hpersists cfg (SameConfig.refl cfg)
  obtain ⟨e, he⟩ := writeBucket_of_slot hbucket hslot haccepts hsame
  rw [hpath] at hread
  simp [Operation.answer, he, Except.toOption] at hread

end Reserved

/-- Whatever the config, what is written to a bucket is read back and what is deleted is gone, if and
only if the bucket is a named one: not in the global namespace, and not of a reserved name. -/
theorem readsBack_iff (assetsDirectory : Bool) {path ns bucket : String} (hbucket : bucket ≠ "")
    (hpath : serveHTTP assetsDirectory ⟨.get, path, none⟩ = .writeBucket ns bucket) :
    (∀ cfgs, ReadsBack assetsDirectory path ns bucket cfgs) ↔
      ns ≠ globalNamespace ∧ bucket ≠ defaultBucketName ∧ bucket ≠ dynamicBucketTemplateName := by
  have hordinary : placeOf ns bucket = .bucket ns bucket ↔
      ns ≠ globalNamespace ∧ bucket ≠ defaultBucketName ∧ bucket ≠ dynamicBucketTemplateName := by
    constructor
    · intro hplace
      unfold placeOf at hplace
      split_ifs at hplace with hglobal hdefault htemplate
      exact ⟨hglobal, hdefault, htemplate⟩
    · rintro ⟨hglobal, hdefault, htemplate⟩
      exact placeOf_ordinary hglobal hdefault htemplate
  rw [← hordinary]
  constructor
  · intro h
    by_contra hplace
    exact not_readsBack hbucket hpath hplace (h (empty ns))
  · intro hplace cfgs
    exact readsBack_ordinary hbucket hpath hplace cfgs

theorem readsBack_iff_named :
    "b" ≠ "" ∧ serveHTTP true ⟨.get, "/api/a/b", none⟩ = .writeBucket "a" "b" ∧
      ((∀ cfgs, ReadsBack true "/api/a/b" "a" "b" cfgs) ↔ "a" ≠ globalNamespace ∧
        "b" ≠ defaultBucketName ∧ "b" ≠ dynamicBucketTemplateName) := by
  have hpath : serveHTTP true ⟨.get, "/api/a/b", none⟩ = .writeBucket "a" "b" := by decide
  exact ⟨by decide, hpath, readsBack_iff true (by decide) hpath⟩

/-- The global default bucket is created under `/api/___GLOBAL___/b`, where it is not found. -/
theorem globalDefaultBucket_unread :
    let path := "/api/___GLOBAL___/b"
    let cfg : ServiceConfig := { globalDefaultBucket := some { applyBucketDefaults {} with
      name := defaultBucketName }, version := 1 }
    serveHTTP true ⟨.get, path, none⟩ = .writeBucket globalNamespace "b" ∧
      Persists (serveHTTP true ⟨.post, path, none⟩) none {} cfg ∧
      writeBucket cfg globalNamespace "b" =
        some (.error "Unable to locate namespace ___GLOBAL___") ∧
      ¬ReadsBack true path globalNamespace "b" {} := by
  intro path cfg
  have hpath : serveHTTP true ⟨.get, path, none⟩ = .writeBucket globalNamespace "b" := by decide
  refine ⟨hpath, ?_, rfl, not_readsBack (by decide) hpath (by decide)⟩
  rw [serveHTTP_of_get hpath]
  exact ⟨_, "", 0, rfl, rfl⟩

end QuotaService.Rest
