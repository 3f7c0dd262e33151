import QuotaService.Config.Formats
import QuotaService.Server.ReadBack

/-! What becomes of a bucket that is submitted with some of its fields: on its own over REST, inside a
namespace or a whole config over REST, or in a YAML file. On its own it is read over a bucket that has
defaults already, otherwise over an empty one; the defaults are filled in after that. -/
namespace QuotaService.Rest
open Config Server Admin Cli

/-- The value of a field of a bucket. -/
inductive FieldValue
  | int (n : ℤ)
  | str (s : String)

def intNames : List String :=
  ["size", "fill_rate", "wait_timeout_millis", "max_idle_millis", "max_debt_millis",
    "max_tokens_per_request"]

/-- The field is one of a bucket, and the value has its type. -/
def FieldValue.Suits (name : String) : FieldValue → Prop
  | int n => name ∈ intNames ∧ -2 ^ 63 ≤ n ∧ n < 2 ^ 63
  | str _ => name ∈ ["name", "namespace"]

/-- Some fields of a bucket, in some order. -/
structure BucketObject where
  fields : List (String × FieldValue)
  nodup : (fields.map Prod.fst).Nodup
  suits : ∀ e ∈ fields, e.2.Suits e.1

def FieldValue.json : FieldValue → Json
  | int n => .num n
  | str s => .str s

/-- Strings are quoted. -/
def FieldValue.yaml : FieldValue → Yaml
  | int n => .scalar (toString n) (.int n)
  | str s => .scalar s .other

def BucketObject.json (o : BucketObject) : List (String × Json) :=
  o.fields.map fun e => (e.1, e.2.json)

def BucketObject.yaml (o : BucketObject) : List (String × Yaml) :=
  o.fields.map fun e => (e.1, e.2.yaml)

/-- The field of this name if it is there, or else the old value. -/
def intOr (fields : List (String × FieldValue)) (name : String) (old : ℤ) : ℤ :=
  match fields.lookup name with
  | some (.int n) => n
  | _ => old

def strOr (fields : List (String × FieldValue)) (name : String) (old : String) : String :=
  match fields.lookup name with
  | some (.str s) => s
  | _ => old

/-- A bucket in which some fields are replaced. -/
def overlay (fields : List (String × FieldValue)) (b : BucketConfig) : BucketConfig where
  name := strOr fields "name" b.name
  «namespace» := strOr fields "namespace" b.namespace
  size := intOr fields "size" b.size
  fillRate := intOr fields "fill_rate" b.fillRate
  waitTimeoutMillis := intOr fields "wait_timeout_millis" b.waitTimeoutMillis
  maxIdleMillis := intOr fields "max_idle_millis" b.maxIdleMillis
  maxDebtMillis := intOr fields "max_debt_millis" b.maxDebtMillis
  maxTokensPerRequest := intOr fields "max_tokens_per_request" b.maxTokensPerRequest

/-- The name that the object is filed under if it is submitted on its own. -/
def BucketObject.nameOr (o : BucketObject) (bucket : String) : String :=
  if strOr o.fields "name" "" = "" then bucket else strOr o.fields "name" ""

section Places
variable {ν : Type} (F : Format ν)

/-- Where an object for a bucket of a namespace stands in an object for the namespace. -/
def InNamespace (p : Place) (fields : List (String × ν)) (kvs : List (String × ν)) : Prop :=
  match p with
  | .defaultBucket _ => Single (fun e => F.namespaceKey e.1 = some "default_bucket")
      ("default_bucket", F.object fields) kvs
  | .dynamicBucketTemplate _ =>
    Single (fun e => F.namespaceKey e.1 = some "dynamic_bucket_template")
      ("dynamic_bucket_template", F.object fields) kvs
  | .bucket _ name => ∃ entries,
      Single (fun e => F.namespaceKey e.1 = some "buckets") ("buckets", F.object entries) kvs ∧
        Single (fun e => e.1 = name) (name, F.object fields) entries
  | _ => False

/-- Where it stands in an object for a whole config. -/
def InConfig (p : Place) (fields : List (String × ν)) (kvs : List (String × ν)) : Prop :=
  match p with
  | .globalDefaultBucket => Single (fun e => F.serviceKey e.1 = some "global_default_bucket")
      ("global_default_bucket", F.object fields) kvs
  | p => ∃ ns ∈ p.parent, ∃ entries inner,
      Single (fun e => F.serviceKey e.1 = some "namespaces") ("namespaces", F.object entries) kvs ∧
        Single (fun e => e.1 = ns) (ns, F.object inner) entries ∧ InNamespace F p fields inner

end Places

/-- The configs that come of submitting an object for a place inside of something else. -/
inductive Submitted (assetsDirectory : Bool) (o : BucketObject) (p : Place) : ServiceConfig → Prop
  | «namespace» {method : Method} {path k ns : String} {kvs : List (String × Json)}
      {cfgs cfg : ServiceConfig} (parent : p.parent = some ns)
      (operation : serveHTTP assetsDirectory ⟨method, path, some (.obj kvs)⟩ = .addNamespace k ∨
        serveHTTP assetsDirectory ⟨method, path, some (.obj kvs)⟩ = .updateNamespace k)
      (named : ∀ c, changeNamespace k (some (.obj kvs)) = some c → c.name = ns)
      (contains : InNamespace jsonFormat p o.json kvs)
      (persists : Persists (serveHTTP assetsDirectory ⟨method, path, some (.obj kvs)⟩)
        (some (.obj kvs)) cfgs cfg) : Submitted assetsDirectory o p cfg
  | config {method : Method} {path : String} {kvs : List (String × Json)}
      {cfgs cfg : ServiceConfig}
      (operation : serveHTTP assetsDirectory ⟨method, path, some (.obj kvs)⟩ = .updateConfig)
      (contains : InConfig jsonFormat p o.json kvs)
      (persists : Persists (serveHTTP assetsDirectory ⟨method, path, some (.obj kvs)⟩)
        (some (.obj kvs)) cfgs cfg) : Submitted assetsDirectory o p cfg
  | yaml {now : ℤ} {kvs : List (String × Yaml)} {cfg : ServiceConfig}
      (contains : InConfig yamlFormat p o.yaml kvs)
      (read : readConfigFromBytes now (some (.mapping kvs)) = some cfg) :
      Submitted assetsDirectory o p cfg

/-- What is stored of an object that is submitted on its own is what is stored of it otherwise, and an
absent maximum of tokens per request is the fill rate. -/
structure SubmittedAlike (assetsDirectory : Bool) (path ns bucket : String) (o : BucketObject) :
    Prop where
  alike : ∀ method, method = .put ∨ method = .post → ∀ cfgs cfg,
    Persists (serveHTTP assetsDirectory ⟨method, path, some (.obj o.json)⟩) (some (.obj o.json))
      cfgs cfg →
    ∀ cfg', Submitted assetsDirectory o (placeOf ns (o.nameOr bucket)) cfg' →
      (placeOf ns (o.nameOr bucket)).slot cfg' = (placeOf ns (o.nameOr bucket)).slot cfg
  absent : "max_tokens_per_request" ∉ o.fields.map Prod.fst →
    ∀ method, method = .put ∨ method = .post → ∀ cfgs cfg,
      Persists (serveHTTP assetsDirectory ⟨method, path, some (.obj o.json)⟩) (some (.obj o.json))
        cfgs cfg →
      ∃ b, (placeOf ns (o.nameOr bucket)).slot cfg = some (.bucket (some b)) ∧
        b.maxTokensPerRequest = b.fillRate

section Objects
variable {fields : List (String × FieldValue)} {e : String × FieldValue} {name : String}

/-- A field is looked up in the first entry or in the others. -/
theorem lookup_cons_cases (hname : e.1 ∉ fields.map Prod.fst) (name : String) :
    (e :: fields).lookup name = [e].lookup name ∧ fields.lookup name = none ∨
      (e :: fields).lookup name = fields.lookup name ∧ [e].lookup name = none := by
  obtain ⟨key, v⟩ := e
  by_cases heq : name = key
  · subst heq
    left
    refine ⟨by simp, List.lookup_eq_none_iff.mpr fun e' he' => ?_⟩
    have hne : name ≠ e'.1 := fun h => hname (List.mem_map.mpr ⟨e', he', h.symm⟩)
    simpa using hne
  · right
    have hne : (name == key) = false := by simpa using heq
    simp [List.lookup_cons, hne]

/-- Fields are replaced one after the other. -/
theorem overlay_cons (hname : e.1 ∉ fields.map Prod.fst) (b : BucketConfig) :
    overlay (e :: fields) b = overlay fields (overlay [e] b) := by
  have hint : ∀ name old, intOr (e :: fields) name old = intOr fields name (intOr [e] name old) := by
    intro name old
    unfold intOr
    rcases lookup_cons_cases hname name with ⟨h, hnone⟩ | ⟨h, hnone⟩ <;> rw [h, hnone]
  have hstr : ∀ name old, strOr (e :: fields) name old = strOr fields name (strOr [e] name old) := by
    intro name old
    unfold strOr
    rcases lookup_cons_cases hname name with ⟨h, hnone⟩ | ⟨h, hnone⟩ <;> rw [h, hnone]
  simp only [overlay, hint, hstr]

/-- One field is read, in either format. -/
theorem readKey_field (hsuits : e.2.Suits e.1) (b : BucketConfig) :
    Json.readKey bucketFields b (e.1, e.2.json) = some (overlay [e] b) ∧
      Yaml.readKey bucketKeys b (e.1, e.2.yaml) = some (overlay [e] b) := by
  obtain ⟨key, v⟩ := e
  cases v with
  | int n =>
    obtain ⟨hkey, hn⟩ := hsuits
    have hjson : ∀ old, Json.readInt 64 (.num n) old = some n := fun old => if_pos hn
    have hyaml : Yaml.readInt 64 (.scalar (toString n) (.int n)) = some n := if_pos hn
    simp only [intNames, List.mem_cons, List.not_mem_nil, or_false] at hkey
    rcases hkey with rfl | rfl | rfl | rfl | rfl | rfl <;>
      exact ⟨congrArg (Option.map _) (hjson _), congrArg (Option.map _) hyaml⟩
  | str s =>
    have hkey : key = "name" ∨ key = "namespace" := by simpa [FieldValue.Suits] using hsuits
    rcases hkey with rfl | rfl <;> exact ⟨rfl, rfl⟩

/-- Reading an object of fields over a bucket replaces them in it. -/
theorem read_object (o : BucketObject) (b : BucketConfig) :
    unmarshalBucket (.obj o.json) b = some (overlay o.fields b) ∧
      bucketOfYaml (.mapping o.yaml) b = some (overlay o.fields b) := by
  obtain ⟨fields, hnodup, hsuits⟩ := o
  simp only [unmarshalBucket, bucketOfYaml, Json.readStruct, Yaml.readStruct, BucketObject.json,
    BucketObject.yaml]
  -- the induction is on the fields; those before have been replaced in `b`
  induction fields generalizing b with
  | nil => exact ⟨rfl, rfl⟩
  | cons e fields ih =>
    rw [List.map_cons, List.nodup_cons] at hnodup
    obtain ⟨hjson, hyaml⟩ := readKey_field (hsuits e List.mem_cons_self) b
    obtain ⟨ihjson, ihyaml⟩ := ih (overlay [e] b) hnodup.2
      fun e' he' => hsuits e' (List.mem_cons_of_mem e he')
    rw [overlay_cons hnodup.1, List.map_cons, List.map_cons, List.foldlM_cons, List.foldlM_cons, hjson,
      hyaml]
    exact ⟨ihjson, ihyaml⟩

end Objects

section Slots
variable {p : Place} {cfg cfg' edited : ServiceConfig}

/-- What `ApplyDefaults` makes of a bucket in a place. -/
def filled (p : Place) (b : BucketConfig) : BucketConfig :=
  match p with
  | .defaultBucket ns => applyNamedDefaults ns defaultBucketName b
  | .dynamicBucketTemplate ns => applyNamedDefaults ns dynamicBucketTemplateName b
  | .bucket ns name => applyNamedDefaults ns name b
  | _ => { applyBucketDefaults b with name := defaultBucketName }

theorem slotIn_of_same {n n' : NamespaceConfig} (h : SameNamespace n n') :
    p.slotIn n = p.slotIn n' := by
  cases p with
  | defaultBucket k => simp only [Place.slotIn, h.defaultBucket]
  | dynamicBucketTemplate k => simp only [Place.slotIn, h.dynamicBucketTemplate]
  | bucket k name => simp only [Place.slotIn, h.buckets name]
  | _ => rfl

/-- A bucket of a config that is then applied. -/
theorem slot_of_same {b : BucketConfig} (hslot : p.slot edited = some (.bucket (some b)))
    (h : SameConfig cfg (withDefaults edited)) :
    p.slot cfg = some (.bucket (some (filled p b))) := by
  cases hparent : p.parent with
  | none =>
    cases p with
    | globalDefaultBucket =>
      obtain ⟨x, hx, hb⟩ := Option.map_eq_some_iff.mp hslot
      cases hb
      simp [Place.slot, h.globalDefaultBucket, withDefaults, hx, filled]
    | «namespace» k =>
      obtain ⟨x, -, hb⟩ := Option.map_eq_some_iff.mp hslot
      cases hb
    | _ => cases hparent
  | some k =>
    rw [slot_of_parent hparent] at hslot ⊢
    obtain ⟨n, hn, hb⟩ := Option.bind_eq_some_iff.mp hslot
    have hrel := h.namespaces k
    simp only [withDefaults, GoMap.get_map, findNamespace_eq_some.mp hn, Option.map_some] at hrel
    obtain ⟨n', hn', hsame⟩ : ∃ n', findNamespace cfg k = some n' ∧
        SameNamespace n' (applyNamespaceDefaults k n) := by
      cases hget : cfg.namespaces.get k with
      | none => simp [hget] at hrel
      | some y =>
        rw [hget] at hrel
        cases y with
        | none => simp at hrel
        | some n' => exact ⟨n', by simp [findNamespace, hget], by simpa using hrel⟩
    rw [hn', Option.bind_some, slotIn_of_same hsame]
    cases p with
    | defaultBucket ns =>
      cases hparent
      obtain ⟨x, hx, hxb⟩ := Option.map_eq_some_iff.mp hb
      cases hxb
      simp [Place.slotIn, applyNamespaceDefaults, hx, filled]
    | dynamicBucketTemplate ns =>
      cases hparent
      obtain ⟨x, hx, hxb⟩ := Option.map_eq_some_iff.mp hb
      cases hxb
      simp [Place.slotIn, applyNamespaceDefaults, hx, filled]
    | bucket ns name =>
      cases hparent
      obtain ⟨x, hx, hxb⟩ := Option.map_eq_some_iff.mp hb
      cases hxb
      simp [Place.slotIn, get_applyNamespaceDefaults, hx, filled]
    | _ => cases hparent

end Slots

section Stored
variable {ν : Type} {F : Format ν} {p : Place} {fields kvs : List (String × ν)}
  {assetsDirectory : Bool} {path ns bucket : String} {o : BucketObject} {cfgs cfg : ServiceConfig}

theorem slotIn_of_inNamespace (h : InNamespace F p fields kvs) {n : NamespaceConfig}
    (hread : F.readNamespace (F.object kvs) {} = some n) :
    ∃ b, F.readBucket (F.object fields) {} = some b ∧ p.slotIn n = some (.bucket (some b)) := by
  cases p with
  | defaultBucket k =>
    obtain ⟨b, hb, hn⟩ := F.defaultBucket h hread
    exact ⟨b, hb, by simp [Place.slotIn, hn]⟩
  | dynamicBucketTemplate k =>
    obtain ⟨b, hb, hn⟩ := F.dynamicBucketTemplate h hread
    exact ⟨b, hb, by simp [Place.slotIn, hn]⟩
  | bucket k name =>
    obtain ⟨entries, hkvs, hentries⟩ := h
    obtain ⟨b, hb, hn⟩ := F.bucket hkvs hentries hread
    exact ⟨b, hb, by simp [Place.slotIn, hn]⟩
  | globalDefaultBucket => exact h.elim
  | «namespace» k => exact h.elim

theorem slot_of_inConfig (h : InConfig F p fields kvs) {c c' : ServiceConfig}
    (hread : F.readService (F.object kvs) c = some c') (hnone : c.globalDefaultBucket = none) :
    ∃ b, F.readBucket (F.object fields) {} = some b ∧ p.slot c' = some (.bucket (some b)) := by
  have hinner : p ≠ .globalDefaultBucket → (∃ k ∈ p.parent, ∃ entries inner,
      Single (fun e => F.serviceKey e.1 = some "namespaces") ("namespaces", F.object entries) kvs ∧
        Single (fun e => e.1 = k) (k, F.object inner) entries ∧ InNamespace F p fields inner) →
      ∃ b, F.readBucket (F.object fields) {} = some b ∧ p.slot c' = some (.bucket (some b)) := by
    rintro - ⟨k, hparent, entries, inner, hkvs, hentries, hin⟩
    obtain ⟨n, hn, hget⟩ := F.namespace hkvs hentries hread
    obtain ⟨b, hb, hslot⟩ := slotIn_of_inNamespace hin hn
    refine ⟨b, hb, ?_⟩
    rw [slot_of_parent hparent, findNamespace, hget]
    exact hslot
  cases p with
  | globalDefaultBucket =>
    obtain ⟨b, hb, hc'⟩ := F.globalDefaultBucket h hread hnone
    exact ⟨b, hb, by simp [Place.slot, hc']⟩
  | _ => exact hinner (by simp) h

/-- The name of a bucket does not matter for what it is filed as. -/
theorem filled_named (p : Place) (b : BucketConfig) (name : String) :
    filled p { b with name := name } = filled p b := by
  cases p <;> rfl

/-- What is stored of an object inside of something else. -/
theorem slot_submitted (h : Submitted assetsDirectory o p cfg) :
    p.slot cfg = some (.bucket (some (filled p (overlay o.fields {})))) := by
  obtain ⟨hjson, hyaml⟩ := read_object o {}
  cases h with
  | @«namespace» method path k ns kvs cfgs _ parent operation named contains persists =>
    obtain ⟨c, hc, edited, hslot, hsame⟩ :
        ∃ c, changeNamespace k (some (.obj kvs)) = some c ∧ ∃ edited,
          (Place.namespace c.name).slot edited = some (.namespace (some c)) ∧
            SameConfig cfg (withDefaults edited) := by
      rcases operation with heq | heq
      · obtain ⟨c, hc, edited, hslot, -, hsame⟩ :=
          persists_op .addNamespace (by rw [heq]; rfl) persists
        exact ⟨c, hc, edited, hslot, hsame⟩
      · obtain ⟨c, hc, edited, hslot, -, hsame⟩ :=
          persists_op .updateNamespace (by rw [heq]; rfl) persists
        exact ⟨c, hc, edited, hslot, hsame⟩
    rw [named c hc] at hslot
    obtain ⟨x, hget, hx⟩ := Option.map_eq_some_iff.mp hslot
    cases hx
    obtain ⟨n, hn, hnc⟩ := Option.map_eq_some_iff.mp hc
    obtain ⟨b, hb, hin⟩ := slotIn_of_inNamespace contains hn
    cases hjson.symm.trans hb
    have hin' : p.slotIn c = p.slotIn n := by
      rw [← hnc]
      split_ifs
      · cases p <;> rfl
      · rfl
    refine slot_of_same ?_ hsame
    rw [slot_of_parent parent, findNamespace, hget]
    exact hin'.trans hin
  | @config method path kvs cfgs _ operation contains persists =>
    obtain ⟨change, edited, hchange, hedit, -, hsame⟩ := persists_change persists
    rw [operation] at hchange
    obtain ⟨c, hc, rfl⟩ := Option.map_eq_some_iff.mp hchange
    cases hedit
    obtain ⟨b, hb, hslot⟩ := slot_of_inConfig contains hc rfl
    cases hjson.symm.trans hb
    exact slot_of_same hslot hsame
  | @yaml now kvs _ contains read =>
    obtain ⟨c, hc, happlied⟩ := Option.bind_eq_some_iff.mp read
    obtain ⟨b, hb, hslot⟩ := slot_of_inConfig contains hc rfl
    cases hyaml.symm.trans hb
    rw [applyDefaults_eq happlied]
    exact slot_of_same hslot (SameConfig.refl _)

/-- What is handed on of an object on its own: a bucket with defaults, in which the fields of the
object are replaced. -/
theorem changeBucket_object (o : BucketObject) (bucket : String) :
    changeBucket bucket (some (.obj o.json)) =
      some { overlay o.fields (applyBucketDefaults {}) with name := o.nameOr bucket } := by
  have hread : getBucketConfig (some (.obj o.json)) =
      some (overlay o.fields (applyBucketDefaults {})) := (read_object o _).1
  rw [changeBucket, hread, Option.map_some]
  unfold BucketObject.nameOr
  by_cases hname : strOr o.fields "name" "" = ""
  · rw [if_pos hname, if_pos (show (overlay o.fields (applyBucketDefaults {})).name = "" from hname)]
  · rw [if_neg hname, if_neg (show ¬(overlay o.fields (applyBucketDefaults {})).name = "" from hname)]
    rfl

/-- What is stored of an object on its own. -/
theorem slot_persists (hpath : serveHTTP assetsDirectory ⟨.get, path, none⟩ = .writeBucket ns bucket)
    {method : Method} (hmethod : method = .put ∨ method = .post)
    (h : Persists (serveHTTP assetsDirectory ⟨method, path, some (.obj o.json)⟩)
      (some (.obj o.json)) cfgs cfg) :
    (placeOf ns (o.nameOr bucket)).slot cfg = some (.bucket (some
      (filled (placeOf ns (o.nameOr bucket)) (overlay o.fields (applyBucketDefaults {}))))) := by
  rw [serveHTTP_of_get hpath] at h
  obtain ⟨c, hc, edited, hslot, hsame⟩ := slot_of_persists hmethod h
  rw [changeBucket_object] at hc
  cases hc
  rw [slot_of_same hslot hsame, filled_named]

end Stored

section Defaults
variable {fields : List (String × FieldValue)}

/-- The condition: the maximum of tokens per request is given, or the fill rate is the default one. -/
def Independent (o : BucketObject) : Prop :=
  "max_tokens_per_request" ∈ o.fields.map Prod.fst ∨
    ∀ n, ("fill_rate", .int n) ∈ o.fields → n = 0 ∨ n = 50

/-- A field that is there does not depend on the old value, and one that is not is the old value. -/
theorem intOr_cases (o : BucketObject) {name : String} (hname : name ∈ intNames) :
    (∃ n, (name, .int n) ∈ o.fields ∧ ∀ old, intOr o.fields name old = n) ∨
      name ∉ o.fields.map Prod.fst ∧ ∀ old, intOr o.fields name old = old := by
  unfold intOr
  cases hlookup : o.fields.lookup name with
  | none =>
    right
    refine ⟨fun hmem => ?_, fun _ => rfl⟩
    obtain ⟨e, he, rfl⟩ := List.mem_map.mp hmem
    simpa using List.lookup_eq_none_iff.mp hlookup e he
  | some v =>
    left
    obtain ⟨pre, post, hfields, -⟩ := List.lookup_eq_some_iff.mp hlookup
    have hmem : (name, v) ∈ o.fields := by simp [hfields]
    cases v with
    | int n => exact ⟨n, hmem, fun _ => rfl⟩
    | str s =>
      -- no string is given for the name of an integer
      have hstr : name ∈ ["name", "namespace"] := o.suits _ hmem
      simp only [intNames, List.mem_cons, List.not_mem_nil, or_false] at hname hstr
      rcases hstr with rfl | rfl <;> simp at hname

theorem mem_fields_unique (o : BucketObject) {name : String} {v v' : FieldValue}
    (h : (name, v) ∈ o.fields) (h' : (name, v') ∈ o.fields) : v = v' := by
  have heq := List.inj_on_of_nodup_map o.nodup h h' rfl
  exact congrArg Prod.snd heq

/-- A default that is filled in before or after is the same. -/
theorem defaulted_intOr (o : BucketObject) {name : String} (hname : name ∈ intNames) (d : ℤ) :
    defaulted (intOr o.fields name d) d = defaulted (intOr o.fields name 0) d := by
  rcases intOr_cases o hname with ⟨n, -, hn⟩ | ⟨-, habsent⟩
  · rw [hn, hn]
  · rw [habsent, habsent]
    simp [defaulted]

/-- The fill rate that is stored is the default one. -/
theorem defaulted_fillRate_iff (o : BucketObject) :
    defaulted (intOr o.fields "fill_rate" 0) 50 = 50 ↔
      ∀ n, ("fill_rate", .int n) ∈ o.fields → n = 0 ∨ n = 50 := by
  have hdefaulted : ∀ n : ℤ, defaulted n 50 = 50 ↔ n = 0 ∨ n = 50 := by
    intro n
    unfold defaulted
    split_ifs with h
    · simp [h]
    · simp [h]
  rw [hdefaulted]
  rcases intOr_cases o (show "fill_rate" ∈ intNames by decide) with ⟨n, hmem, hn⟩ | ⟨habsent, hold⟩
  · rw [hn]
    constructor
    · intro h n' hmem'
      cases mem_fields_unique o hmem hmem'
      exact h
    · intro h
      exact h n hmem
  · rw [hold]
    simp only [true_or, true_iff]
    intro n hmem
    exact absurd (List.mem_map.mpr ⟨_, hmem, rfl⟩) habsent

/-- The maximum of tokens per request is the field whose default depends on another one. -/
theorem defaulted_maxTokens_iff (o : BucketObject) :
    defaulted (intOr o.fields "max_tokens_per_request" 50)
        (defaulted (intOr o.fields "fill_rate" 0) 50) =
      defaulted (intOr o.fields "max_tokens_per_request" 0)
        (defaulted (intOr o.fields "fill_rate" 0) 50) ↔ Independent o := by
  unfold Independent
  rcases intOr_cases o (show "max_tokens_per_request" ∈ intNames by decide) with
    ⟨n, hmem, hn⟩ | ⟨habsent, hold⟩
  · rw [hn, hn]
    exact iff_of_true rfl (Or.inl (List.mem_map.mpr ⟨_, hmem, rfl⟩))
  · rw [hold, hold, ← defaulted_fillRate_iff]
    simp only [habsent, false_or]
    simp [defaulted, eq_comm]

theorem filled_eq_iff (p : Place) (o : BucketObject) :
    filled p (overlay o.fields (applyBucketDefaults {})) = filled p (overlay o.fields {}) ↔
      Independent o := by
  rw [← defaulted_maxTokens_iff]
  have hrate := defaulted_intOr o (show "fill_rate" ∈ intNames by decide) 50
  constructor
  · intro h
    have hmax := congrArg BucketConfig.maxTokensPerRequest h
    rw [← hrate]
    nth_rewrite 2 [hrate]
    cases p <;> exact hmax
  · intro hmax
    have hdefaults : applyBucketDefaults (overlay o.fields (applyBucketDefaults {})) =
        applyBucketDefaults (overlay o.fields {}) := by
      have hint : ∀ name ∈ intNames, ∀ d, defaulted (intOr o.fields name d) d =
          defaulted (intOr o.fields name 0) d := fun name hname d => defaulted_intOr o hname d
      simp only [applyBucketDefaults, overlay, BucketConfig.mk.injEq, true_and]
      refine ⟨hint _ (by decide) 100, hrate, hint _ (by decide) 1000, hint _ (by decide) (-1),
        hint _ (by decide) 10000, ?_⟩
      exact (congrArg (defaulted _) hrate).trans hmax
    cases p <;> simp only [filled, applyNamedDefaults, hdefaults]

theorem filled_absent (p : Place) {o : BucketObject}
    (habsent : "max_tokens_per_request" ∉ o.fields.map Prod.fst) :
    (filled p (overlay o.fields {})).maxTokensPerRequest =
      (filled p (overlay o.fields {})).fillRate := by
  have hold : intOr o.fields "max_tokens_per_request" 0 = 0 := by
    rcases intOr_cases o (show "max_tokens_per_request" ∈ intNames by decide) with
      ⟨n, hmem, -⟩ | ⟨-, hold⟩
    · exact absurd (List.mem_map.mpr ⟨_, hmem, rfl⟩) habsent
    · exact hold 0
  have hmax : (applyBucketDefaults (overlay o.fields {})).maxTokensPerRequest =
      (applyBucketDefaults (overlay o.fields {})).fillRate := by
    simp [applyBucketDefaults, overlay, hold, defaulted]
  cases p <;> exact hmax

end Defaults

section Runs
variable {ns : String} {p : Place}

/-- A YAML file with nothing but the object in its place. -/
def onlyBucket (o : BucketObject) : Place → List (String × Yaml)
  | .globalDefaultBucket => [("global_default_bucket", .mapping o.yaml)]
  | .defaultBucket ns =>
    [("namespaces", .mapping [(ns, .mapping [("default_bucket", .mapping o.yaml)])])]
  | .dynamicBucketTemplate ns =>
    [("namespaces", .mapping [(ns, .mapping [("dynamic_bucket_template", .mapping o.yaml)])])]
  | .bucket ns name =>
    [("namespaces", .mapping [(ns, .mapping [("buckets", .mapping [(name, .mapping o.yaml)])])])]
  | .namespace _ => []

theorem inConfig_onlyBucket (o : BucketObject) (hp : ∀ k, p ≠ .namespace k) :
    InConfig yamlFormat p o.yaml (onlyBucket o p) := by
  cases p with
  | globalDefaultBucket => exact single_singleton _ _
  | «namespace» k => exact absurd rfl (hp k)
  | defaultBucket k =>
    exact ⟨k, rfl, _, _, single_singleton _ _, single_singleton _ _, single_singleton _ _⟩
  | dynamicBucketTemplate k =>
    exact ⟨k, rfl, _, _, single_singleton _ _, single_singleton _ _, single_singleton _ _⟩
  | bucket k name =>
    exact ⟨k, rfl, _, _, single_singleton _ _, single_singleton _ _, _, single_singleton _ _,
      single_singleton _ _⟩

theorem exists_config {k : String} {inner : List (String × Yaml)} {n : NamespaceConfig}
    (hn : namespaceOfYaml (.mapping inner) {} = some n)
    (haccepts : acceptsDefaults (some n) = true) :
    ∃ cfg, readConfigFromBytes 0
      (some (.mapping [("namespaces", .mapping [(k, .mapping inner)])])) = some cfg := by
  have hread : configOfYaml (.mapping [("namespaces", .mapping [(k, .mapping inner)])])
      (newDefaultServiceConfig 0) = some { newDefaultServiceConfig 0 with
        namespaces := .table ((∅ : AList _).insert k (some n)) } := by
    unfold configOfYaml
    rw [Yaml.readStruct_one rfl, Yaml.tableField]
    simp only [Yaml.readTable_one hn]
    rfl
  have hdefaults : (applyDefaults { newDefaultServiceConfig 0 with
      namespaces := .table ((∅ : AList _).insert k (some n)) }).isSome = true := by
    rw [applyDefaults_isSome_iff]
    intro k' x hx
    rw [AList.insert_empty, GoMap.get_table, GoMap.lookup_singleton] at hx
    split_ifs at hx
    cases hx
    exact haccepts
  obtain ⟨cfg, hcfg⟩ := Option.isSome_iff_exists.mp hdefaults
  refine ⟨cfg, ?_⟩
  simp only [readConfigFromBytes, Option.map_some, Option.getD_some, hread, Option.bind_some]
  exact hcfg

theorem exists_submitted (assetsDirectory : Bool) (o : BucketObject) (hp : ∀ k, p ≠ .namespace k) :
    ∃ cfg, Submitted assetsDirectory o p cfg := by
  have hyaml := (read_object o {}).2
  have hpointer : Yaml.readPointer bucketOfYaml {} (.mapping o.yaml) none =
      some (some (overlay o.fields {})) := Yaml.readPointer_mapping hyaml
  obtain ⟨cfg, hcfg⟩ :
      ∃ cfg, readConfigFromBytes 0 (some (.mapping (onlyBucket o p))) = some cfg := by
    cases p with
    | globalDefaultBucket =>
      have hread : configOfYaml (.mapping (onlyBucket o .globalDefaultBucket))
          (newDefaultServiceConfig 0) = some { newDefaultServiceConfig 0 with
            globalDefaultBucket := some (overlay o.fields {}) } := by
        unfold configOfYaml onlyBucket
        rw [Yaml.readStruct_one rfl]
        exact congrArg (Option.map _) hpointer
      simp only [readConfigFromBytes, Option.map_some, Option.getD_some, hread, Option.bind_some]
      exact ⟨_, rfl⟩
    | «namespace» k => exact absurd rfl (hp k)
    | defaultBucket k =>
      have hread : namespaceOfYaml (.mapping [("default_bucket", .mapping o.yaml)]) {} =
          some { defaultBucket := some (overlay o.fields {}) } := by
        unfold namespaceOfYaml
        rw [Yaml.readStruct_one rfl]
        exact congrArg (Option.map _) hpointer
      exact exists_config hread rfl
    | dynamicBucketTemplate k =>
      have hread : namespaceOfYaml (.mapping [("dynamic_bucket_template", .mapping o.yaml)]) {} =
          some { dynamicBucketTemplate := some (overlay o.fields {}) } := by
        unfold namespaceOfYaml
        rw [Yaml.readStruct_one rfl]
        exact congrArg (Option.map _) hpointer
      exact exists_config hread rfl
    | bucket k name =>
      have hread : namespaceOfYaml (.mapping [("buckets", .mapping [(name, .mapping o.yaml)])]) {} =
          some { buckets := .table ((∅ : AList _).insert name (some (overlay o.fields {}))) } := by
        unfold namespaceOfYaml
        rw [Yaml.readStruct_one rfl]
        exact congrArg (Option.map _) (Yaml.readTable_one hyaml _)
      exact exists_config hread rfl
  exact ⟨cfg, .yaml (inConfig_onlyBucket o hp) hcfg⟩

theorem exists_persists {assetsDirectory : Bool} {path bucket : String}
    (hpath : serveHTTP assetsDirectory ⟨.get, path, none⟩ = .writeBucket ns bucket)
    {body : Option Json} {c : BucketConfig} (hc : changeBucket bucket body = some c) :
    ∃ cfgs cfg, Persists (serveHTTP assetsDirectory ⟨.post, path, body⟩) body cfgs cfg := by
  have hchange : (serveHTTP assetsDirectory ⟨.post, path, body⟩).change body =
      some (.op (.addBucket ns c)) := by
    rw [serveHTTP_of_get hpath]
    simp [bucketsAPIHandler, Operation.change, hc]
  by_cases hglobal : ns = globalNamespace
  · subst hglobal
    exact ⟨{}, _, _, "", 0, hchange, rfl⟩
  · have hne : c.name ≠ c.name ++ "x" := by
      intro h
      simpa using congrArg String.length h
    obtain ⟨cfg, hcfg, -⟩ := roomy_changed hglobal hne (Or.inl rfl)
    exact ⟨_, cfg, _, "", 0, hchange, hcfg⟩

end Runs

/-- Whatever else is submitted with it, what is stored of an object for a bucket does not depend on how
it is submitted if and only if it has a maximum of tokens per request, or no fill rate but the default
one. -/
theorem submittedAlike_iff (assetsDirectory : Bool) {path ns bucket : String}
    (hpath : serveHTTP assetsDirectory ⟨.get, path, none⟩ = .writeBucket ns bucket)
    (o : BucketObject) :
    SubmittedAlike assetsDirectory path ns bucket o ↔ Independent o := by
  rw [← filled_eq_iff (placeOf ns (o.nameOr bucket))]
  constructor
  · intro h
    have hplace : ∀ k, placeOf ns (o.nameOr bucket) ≠ .namespace k := by
      intro k
      unfold placeOf
      split_ifs <;> simp
    obtain ⟨cfg', hcfg'⟩ := exists_submitted assetsDirectory o hplace
    obtain ⟨cfgs, cfg, hcfg⟩ := exists_persists hpath (changeBucket_object o bucket)
    have heq := h.alike .post (Or.inr rfl) cfgs cfg hcfg cfg' hcfg'
    rw [slot_submitted hcfg', slot_persists hpath (Or.inr rfl) hcfg] at heq
    simp only [Option.some.injEq, Content.bucket.injEq] at heq
    exact heq.symm
  · intro h
    constructor
    · intro method hmethod cfgs cfg hcfg cfg' hcfg'
      rw [slot_submitted hcfg', slot_persists hpath hmethod hcfg, h]
    · intro habsent method hmethod cfgs cfg hcfg
      refine ⟨_, slot_persists hpath hmethod hcfg, ?_⟩
      rw [h]
      exact filled_absent _ habsent

/-- A fill rate that is not the default one. -/
def fastBucket : BucketObject where
  fields := [("fill_rate", .int 10)]
  nodup := List.nodup_singleton _
  suits e he := by
    rw [List.mem_singleton.mp he]
    exact ⟨by decide, by decide, by decide⟩

/-- A bucket with a maximum of tokens per request. -/
def boundedBucket : BucketObject where
  fields := [("max_tokens_per_request", .int 20)]
  nodup := List.nodup_singleton _
  suits e he := by
    rw [List.mem_singleton.mp he]
    exact ⟨by decide, by decide, by decide⟩

theorem submittedAlike_iff_maximum :
    serveHTTP true ⟨.get, "/api/a/b", none⟩ = .writeBucket "a" "b" ∧
      SubmittedAlike true "/api/a/b" "a" "b" boundedBucket := by
  have hpath : serveHTTP true ⟨.get, "/api/a/b", none⟩ = .writeBucket "a" "b" := by decide
  exact ⟨hpath, (submittedAlike_iff true hpath boundedBucket).mpr (Or.inl (by decide))⟩

/-- A fill rate of 10 is stored with a maximum of 50 tokens per request if it is posted as a bucket,
and with one of 10 if it is read from YAML. -/
theorem fillRate_alone :
    let o := fastBucket
    let stored (n : ℤ) : BucketConfig := { applyBucketDefaults {} with
      name := "b", «namespace» := "a", fillRate := 10, maxTokensPerRequest := n }
    (∃ cfgs cfg, Persists (serveHTTP true ⟨.post, "/api/a/b", some (.obj o.json)⟩)
        (some (.obj o.json)) cfgs cfg ∧
        (Place.bucket "a" "b").slot cfg = some (.bucket (some (stored 50)))) ∧
      (∃ cfg, Submitted true o (.bucket "a" "b") cfg ∧
        (Place.bucket "a" "b").slot cfg = some (.bucket (some (stored 10)))) ∧
      ¬SubmittedAlike true "/api/a/b" "a" "b" o := by
  intro o stored
  have hpath : serveHTTP true ⟨.get, "/api/a/b", none⟩ = .writeBucket "a" "b" := by decide
  obtain ⟨cfgs, cfg, hcfg⟩ := exists_persists hpath (changeBucket_object o "b")
  obtain ⟨cfg', hcfg'⟩ := exists_submitted true o
    (show ∀ k, Place.bucket "a" "b" ≠ .namespace k by simp)
  have hslot : (Place.bucket "a" "b").slot cfg = some (.bucket (some (stored 50))) :=
    slot_persists hpath (Or.inr rfl) hcfg
  have hslot' : (Place.bucket "a" "b").slot cfg' = some (.bucket (some (stored 10))) :=
    slot_submitted hcfg'
  refine ⟨⟨cfgs, cfg, hcfg, hslot⟩, ⟨cfg', hcfg', hslot'⟩, fun h => ?_⟩
  have halike := h.alike .post (Or.inr rfl) cfgs cfg hcfg cfg' hcfg'
  have hne : some (Content.bucket (some (stored 10))) = some (.bucket (some (stored 50))) :=
    hslot'.symm.trans (halike.trans hslot)
  cases hne

end QuotaService.Rest
