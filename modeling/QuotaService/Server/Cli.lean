import QuotaService.Config.Places
import QuotaService.Lib.Separator
import QuotaService.Server.Admin
import Mathlib.Data.List.MinMax

/-! The command line client and the REST endpoints. The client makes a method and a path of a command
and its arguments; the mux and the handlers take the path apart, and a handler asks the server for a
change of a part of its config. The two agree if this is the part that the arguments address. -/
namespace QuotaService.Cli
open Config Server

section Client

/-- The methods that the client uses; the handlers turn all others down. -/
inductive Method
  | get
  | post
  | delete
  | put
deriving DecidableEq

/-- The arguments of a command; one that is not given is empty. -/
structure Arguments where
  gdb : Bool := false
  «namespace» : String := ""
  bucket : String := ""

/-- The commands, with the config that they read. -/
inductive Command
  | doShow
  | doAdd (cfg : Json)
  | doRemove
  | doUpdate (cfg : Json)

structure Request where
  method : Method
  path : String
  body : Option Json

def validate (args : Arguments) : Bool :=
  !(args.gdb && (args.namespace != "" || args.bucket != "")) &&
    !(args.namespace == "" && args.bucket != "")

/-- Of several values of a field the last one is looked at. -/
def checkField (field expected : String) (js : List (String × Json)) : Bool :=
  match js.reverse.find? fun e => e.1 = field with
  | none => true
  | some (_, .str val) => val == expected || val == ""
  | some _ => false

def validateJSON («namespace» bucket : String) : Json → Bool
  | .null => true
  | .obj js =>
    if «namespace» = "" then
      checkField "name" defaultBucketName js && checkField "namespace" globalNamespace js
    else if bucket = "" then checkField "name" «namespace» js
    else checkField "name" bucket js && checkField "namespace" «namespace» js
  | _ => false

/-- The path of the URL. -/
def createUrl (args : Arguments) : String :=
  let uri := if args.gdb then "" else
    (if args.namespace = "" then "" else args.namespace) ++
      (if args.bucket = "" then "" else "/" ++ args.bucket)
  "/api/" ++ uri

/-- What is sent, with the config that was read; nothing if the client exits before. -/
def send (args : Arguments) (method : Method) (cfg : Option Json) : Option Request :=
  if validate args && cfg.all (validateJSON args.namespace args.bucket) then
    some ⟨method, createUrl args, cfg⟩
  else none

def Command.request (args : Arguments) : Command → Option Request
  | doShow => send args .get none
  | doAdd cfg => send args .post (some cfg)
  | doRemove => send args .delete none
  | doUpdate cfg => send args .put (some cfg)

end Client

section Router

inductive Handler
  | redirect
  | ui
  | files
  | notFound
  | api
  | stats
  | configs
deriving DecidableEq

/-- The patterns that `ServeAdminConsole` registers, with or without a directory of assets. -/
def routes (assetsDirectory : Bool) : List (String × Handler) :=
  (if assetsDirectory then
    [("/", .redirect), ("/admin/", .ui), ("/js/", .files), ("/favicon.ico", .notFound)]
  else [("/", .notFound)]) ++
  [("/api", .api), ("/api/", .api), ("/api/stats", .stats), ("/api/stats/", .stats),
    ("/api/configs", .configs), ("/api/configs/", .configs)]

/-- A pattern that ends in a slash stands for all paths that begin with it. -/
def matchesPath (path pattern : String) : Bool :=
  if pattern.toList.getLast? = some '/' then pattern.toList.isPrefixOf path.toList
  else decide (pattern = path)

/-- The longest pattern wins. -/
def handler (assetsDirectory : Bool) (path : String) : Option Handler :=
  (((routes assetsDirectory).filter fun r => matchesPath path r.1).argmax
    fun r => r.1.length).map Prod.snd

/-- What the handlers do with a request, in the words of the calls that they make. -/
inductive Operation
  | other (handler : Handler)
  | notFound
  | updateConfig
  | writeNamespace («namespace» : String)
  | addNamespace («namespace» : String)
  | deleteNamespace («namespace» : String)
  | updateNamespace («namespace» : String)
  | writeBucket («namespace» bucket : String)
  | addBucket («namespace» bucket : String)
  | deleteBucket («namespace» bucket : String)
  | updateBucket («namespace» bucket : String)
deriving DecidableEq

def trimPrefix (path pre : String) : List Char :=
  if pre.toList.isPrefixOf path.toList then path.toList.drop pre.length else path.toList

def namespacesAPIHandler (method : Method) (path : String) : Operation :=
  let ns := String.ofList (Separator.trim '/' (trimPrefix path "/api"))
  match method with
  | .get => .writeNamespace ns
  | .delete => if ns = "" then .notFound else .deleteNamespace ns
  | .put => if ns = "" then .notFound else .updateNamespace ns
  | .post => if ns = "" then .updateConfig else .addNamespace ns

def bucketsAPIHandler (method : Method) («namespace» bucket : String) : Operation :=
  match method with
  | .get => .writeBucket «namespace» bucket
  | .delete => .deleteBucket «namespace» bucket
  | .put => .updateBucket «namespace» bucket
  | .post => .addBucket «namespace» bucket

def params (path : String) : List String :=
  (Separator.splitN '/' 3 (Separator.trim '/' path.toList)).map String.ofList

def apiRequestHandler (method : Method) (path : String) : Operation :=
  match params path with
  | [_, «namespace», bucket] => bucketsAPIHandler method «namespace» bucket
  | _ => namespacesAPIHandler method path

def serveHTTP (assetsDirectory : Bool) (r : Request) : Operation :=
  match handler assetsDirectory r.path with
  | some .api => apiRequestHandler r.method r.path
  | some h => .other h
  | none => .notFound

end Router

section Operations

/-- A body is read over an object, which it leaves as it is if it is empty. -/
def unmarshalJSON {α : Type} (read : Json → α → Option α) (body : Option Json) (object : α) :
    Option α :=
  match body with
  | none => some object
  | some v => read v object

def getNamespaceConfig (body : Option Json) : Option NamespaceConfig :=
  unmarshalJSON unmarshalNamespace body {}

def getBucketConfig (body : Option Json) : Option BucketConfig :=
  unmarshalJSON unmarshalBucket body (applyBucketDefaults {})

/-- What is handed to the updater: a body without a name is named after the path. -/
def changeNamespace («namespace» : String) (body : Option Json) : Option NamespaceConfig :=
  (getNamespaceConfig body).map fun c => if c.name = "" then { c with name := «namespace» } else c

def changeBucket (bucket : String) (body : Option Json) : Option BucketConfig :=
  (getBucketConfig body).map fun c => if c.name = "" then { c with name := bucket } else c

/-- The change that is asked of the server; there is none if the body cannot be read. -/
def Operation.change (body : Option Json) : Operation → Option Admin.Change
  | updateConfig => (unmarshalJSON unmarshalConfig body {}).map .updateConfig
  | addNamespace ns => (changeNamespace ns body).map fun c => .op (.addNamespace c)
  | updateNamespace ns => (changeNamespace ns body).map fun c => .op (.updateNamespace c)
  | deleteNamespace ns => some (.op (.deleteNamespace ns))
  | addBucket ns bucket => (changeBucket bucket body).map fun c => .op (.addBucket ns c)
  | updateBucket ns bucket => (changeBucket bucket body).map fun c => .op (.updateBucket ns c)
  | deleteBucket ns bucket => some (.op (.deleteBucket ns bucket))
  | _ => none

def writeNamespace (cfgs : ServiceConfig) («namespace» : String) : Except String Json :=
  if «namespace» = "" ∨ «namespace» = globalNamespace then .ok (marshalConfig cfgs)
  else match cfgs.namespaces.get «namespace» with
    | none => .error ("Unable to locate namespace " ++ «namespace»)
    | some object => .ok ((object.map marshalNamespace).getD .null)

/-- `none` is the panic on a nil namespace. -/
def writeBucket (cfgs : ServiceConfig) («namespace» bucket : String) :
    Option (Except String Json) :=
  match cfgs.namespaces.get «namespace» with
  | none => some (.error ("Unable to locate namespace " ++ «namespace»))
  | some namespaceConfig =>
    if bucket = "" then some (.error "No bucket given")
    else namespaceConfig.map fun ns => match ns.buckets.get bucket with
      | none => .error ("Unable to locate bucket " ++ bucket ++ " in namespace " ++ «namespace»)
      | some b => .ok ((b.map marshalBucket).getD .null)

/-- The part of the config that a server with this config answers with. -/
def Operation.answer (cfgs : ServiceConfig) : Operation → Option Json
  | writeNamespace ns => (Cli.writeNamespace cfgs ns).toOption
  | writeBucket ns bucket => (Cli.writeBucket cfgs ns bucket).bind Except.toOption
  | _ => none

end Operations

section Agreement

/-- What the arguments of a command address. -/
inductive Entity
  | globalDefaultBucket
  | «namespace» (name : String)
  | bucket (ns name : String)
deriving DecidableEq

def Arguments.entity (args : Arguments) : Option Entity :=
  if args.gdb then some .globalDefaultBucket
  else if args.namespace = "" then none
  else if args.bucket = "" then some (.namespace args.namespace)
  else some (.bucket args.namespace args.bucket)

/-- Where it is kept. The default buckets and the template go by names of their own. -/
def Entity.place : Entity → Place
  | globalDefaultBucket => .globalDefaultBucket
  | .namespace name => .namespace name
  | bucket ns name =>
    if name = defaultBucketName then
      if ns = globalNamespace then .globalDefaultBucket else .defaultBucket ns
    else if name = dynamicBucketTemplateName then .dynamicBucketTemplate ns
    else .bucket ns name

/-- The names that the documentation allows. -/
def IsName (name : String) : Prop := name ≠ "" ∧ ∀ c ∈ name.toList, c.isAlphanum ∨ c = '_'

/-- What stands between two slashes of a path. -/
def IsSegment (s : String) : Prop := s ≠ "" ∧ '/' ∉ s.toList

/-- The names that are given are names. -/
def Arguments.Named (args : Arguments) : Prop :=
  (args.namespace ≠ "" → IsName args.namespace) ∧ (args.bucket ≠ "" → IsName args.bucket)

inductive Verb
  | shows
  | adds
  | removes
  | updates
deriving DecidableEq

def Command.verb : Command → Verb
  | doShow => .shows
  | doAdd _ => .adds
  | doRemove => .removes
  | doUpdate _ => .updates

def Operation.verb : Operation → Option Verb
  | writeNamespace _ | writeBucket _ _ => some .shows
  | addNamespace _ | addBucket _ _ => some .adds
  | deleteNamespace _ | deleteBucket _ _ => some .removes
  | updateNamespace _ | updateBucket _ _ => some .updates
  | _ => none

/-- The place that the path of a request comes down to; none if it is the whole config. -/
def Operation.place : Operation → Option Place
  | writeNamespace ns => if ns = "" ∨ ns = globalNamespace then none else some (.namespace ns)
  | addNamespace ns | deleteNamespace ns | updateNamespace ns => some (.namespace ns)
  | writeBucket ns bucket => some (.bucket ns bucket)
  | addBucket ns bucket | deleteBucket ns bucket | updateBucket ns bucket =>
    some (placeOf ns bucket)
  | _ => none

/-- The place that an edit goes to. -/
def target : Op → Place
  | .addBucket ns b | .updateBucket ns b => placeOf ns b.name
  | .deleteBucket ns name => placeOf ns name
  | .addNamespace n | .updateNamespace n => .namespace n.name
  | .deleteNamespace n => .namespace n

/-- The request of a command reaches the operation on the entity: it shows what the entity is, and
what the server persists is unchanged outside of it. -/
structure Agrees (cmd : Command) (e : Entity) (o : Operation) (body : Option Json) : Prop where
  verb : o.verb = some cmd.verb
  place : o.place = some e.place
  shown : cmd.verb = .shows → ∀ cfgs, o.answer cfgs = e.place.content cfgs
  changed : ∀ change, o.change body = some change →
    (∃ op, change = .op op ∧ target op = e.place) ∧ ∀ user date clonedCfg cfg,
      Admin.updatedConfig change.updater user date clonedCfg = some (.ok cfg) →
        Unchanged e.place clonedCfg cfg

def Command.body : Command → Option Json
  | doAdd cfg | doUpdate cfg => some cfg
  | _ => none

/-- What the router makes of a command. -/
def Command.operation (cmd : Command) : Entity → Operation
  | .globalDefaultBucket =>
    match cmd with
    | doShow => .writeNamespace ""
    | doAdd _ => .updateConfig
    | _ => .notFound
  | .namespace ns =>
    if ns = "stats" then .other .stats
    else if ns = "configs" then .other .configs
    else match cmd with
      | doShow => .writeNamespace ns
      | doAdd _ => .addNamespace ns
      | doRemove => .deleteNamespace ns
      | doUpdate _ => .updateNamespace ns
  | .bucket ns bucket =>
    if ns = "stats" then .other .stats
    else if ns = "configs" then .other .configs
    else match cmd with
      | doShow => .writeBucket ns bucket
      | doAdd _ => .addBucket ns bucket
      | doRemove => .deleteBucket ns bucket
      | doUpdate _ => .updateBucket ns bucket

/-- The names that are taken by other endpoints. -/
def endpoints : List String := ["stats", "configs"]

/-- The condition on a command under which it reaches what it addresses. -/
def Condition (cmd : Command) : Entity → Prop
  | .globalDefaultBucket => False
  | .namespace ns => ns ∉ endpoints ∧
    match cmd with
    | .doShow => ns ≠ globalNamespace
    | .doRemove => True
    | .doAdd cfg | .doUpdate cfg =>
      ∀ c, getNamespaceConfig (some cfg) = some c → c.name = "" ∨ c.name = ns
  | .bucket ns bucket => ns ∉ endpoints ∧
    match cmd with
    | .doShow => bucket ≠ defaultBucketName ∧ bucket ≠ dynamicBucketTemplateName
    | .doRemove => ns = globalNamespace → bucket = defaultBucketName
    | .doAdd cfg | .doUpdate cfg =>
      if ns = globalNamespace then bucket = defaultBucketName
      else ∀ c, getBucketConfig (some cfg) = some c → c.name = "" ∨ c.name = bucket

end Agreement

section Routing

theorem matchesPath_exact {path pattern : String} (h : pattern.toList.getLast? ≠ some '/') :
    matchesPath path pattern = true ↔ path.toList = pattern.toList := by
  rw [matchesPath, if_neg h, decide_eq_true_iff, String.toList_inj, eq_comm]

theorem matchesPath_subtree {path pattern : String} (h : pattern.toList.getLast? = some '/') :
    matchesPath path pattern = true ↔ pattern.toList <+: path.toList := by
  rw [matchesPath, if_pos h, List.isPrefixOf_iff_prefix]

theorem matchesPath_api {path : String} {rest : List Char}
    (h : path.toList = "/api/".toList ++ rest) (assetsDirectory : Bool) :
    (routes assetsDirectory).filter (fun r => matchesPath path r.1) =
      ("/", if assetsDirectory then .redirect else .notFound) :: ("/api/", .api) ::
        [("/api/stats", Handler.stats), ("/api/stats/", .stats), ("/api/configs", .configs),
          ("/api/configs/", .configs)].filter fun r => matchesPath path r.1 := by
  have hmatch : matchesPath path "/" = true ∧ matchesPath path "/admin/" = false ∧
      matchesPath path "/js/" = false ∧ matchesPath path "/favicon.ico" = false ∧
      matchesPath path "/api" = false ∧ matchesPath path "/api/" = true := by
    simp [matchesPath, ← String.toList_inj, h, List.isPrefixOf]
  obtain ⟨hroot, hadmin, hjs, hfavicon, hbare, hapi⟩ := hmatch
  cases assetsDirectory <;>
    simp only [routes, List.filter_cons, List.filter_append] <;> simp [*]

/-- The part of a path between `/api/` and the next slash decides on the endpoint. -/
theorem handler_api {path : String} {ns tail : List Char} (hns : '/' ∉ ns)
    (h : path.toList = "/api/".toList ++ (ns ++ tail)) (htail : tail = [] ∨ ∃ b, tail = '/' :: b)
    (assetsDirectory : Bool) :
    handler assetsDirectory path = some (if ns = "stats".toList then .stats
      else if ns = "configs".toList then .configs else .api) := by
  have hname : ∀ name : List Char, '/' ∉ name →
      (ns ++ tail = name ↔ ns = name ∧ tail = []) ∧
      (name ++ ['/'] <+: ns ++ tail ↔ ns = name ∧ tail ≠ []) := by
    intro name hname
    rcases htail with rfl | ⟨b, rfl⟩
    · have hstart : ¬ name ++ ['/'] <+: ns := fun hp => hns (hp.subset (by simp))
      simp [hstart]
    · have happend : ns ++ '/' :: b ≠ name := fun heq => hname (heq ▸ by simp)
      rw [Separator.append_prefix_iff hns hname]
      simp [happend, eq_comm]
  have hmatch : ∀ name exact subtree : String, '/' ∉ name.toList → exact.toList.getLast? ≠ some '/' →
      exact.toList = "/api/".toList ++ name.toList →
      subtree.toList = "/api/".toList ++ (name.toList ++ ['/']) →
      (matchesPath path exact = true ↔ ns = name.toList ∧ tail = []) ∧
        (matchesPath path subtree = true ↔ ns = name.toList ∧ tail ≠ []) := by
    intro name exact subtree hslash hlast hexact hsubtree
    have hlast' : subtree.toList.getLast? = some '/' := by
      rw [hsubtree, ← List.append_assoc, List.getLast?_concat]
    rw [matchesPath_exact hlast, matchesPath_subtree hlast', h, hexact, hsubtree,
      List.append_cancel_left_eq, List.prefix_append_right_inj]
    exact hname _ hslash
  obtain ⟨hstats, hstats'⟩ := hmatch "stats" "/api/stats" "/api/stats/" (by decide) (by decide) (by decide) (by decide)
  obtain ⟨hconfigs, hconfigs'⟩ := hmatch "configs" "/api/configs" "/api/configs/" (by decide) (by decide) (by decide) (by decide)
  have hne : "stats".toList ≠ "configs".toList := by decide
  rw [handler, matchesPath_api h]
  simp only [List.filter_cons, hstats, hstats', hconfigs, hconfigs', List.filter_nil]
  by_cases hs : ns = "stats".toList
  · by_cases htail : tail = [] <;>
      simp only [hs, htail, hne, and_true, and_false, if_true, if_false, ne_eq, not_true_eq_false,
        not_false_eq_true] <;>
      cases assetsDirectory <;> decide
  · by_cases hc : ns = "configs".toList
    · by_cases htail : tail = [] <;>
        simp only [hc, hne.symm, htail, and_true, and_false, if_true, if_false, ne_eq,
          not_true_eq_false, not_false_eq_true] <;>
        cases assetsDirectory <;> decide
    · simp only [hs, hc, if_false, false_and]
      cases assetsDirectory <;> decide

variable {ns bucket : String}

theorem IsName.slash_notMem (h : IsName ns) : '/' ∉ ns.toList := by
  intro hmem
  rcases h.2 _ hmem with hc | hc
  · exact absurd hc (by decide)
  · exact absurd hc (by decide)

theorem IsName.isSegment (h : IsName ns) : IsSegment ns := ⟨h.1, h.slash_notMem⟩

theorem IsSegment.getLast (h : IsSegment ns) (l : List Char) :
    ∀ c ∈ (l ++ ns.toList).getLast?, c ≠ '/' := by
  intro c hc
  have hne : ns.toList ≠ [] := by simpa using h.1
  rw [List.getLast?_append_of_ne_nil _ hne] at hc
  rintro rfl
  exact h.2 (List.mem_of_getLast? hc)

theorem params_namespace (h : IsSegment ns) : params ("/api/" ++ ns) = ["api", ns] := by
  have htrim : Separator.trim '/' ("/api/" ++ ns).toList = "api".toList ++ '/' :: ns.toList := by
    have hpath : ("/api/" ++ ns).toList = '/' :: ("api/".toList ++ ns.toList) := by simp
    rw [hpath, Separator.trim_cons, Separator.trim_eq_self _ (h.getLast _)]
    · simp
    · simp
  rw [params, htrim, Separator.splitN_append 1 (by decide),
    Separator.splitN_of_notMem 1 h.2]
  simp

theorem params_bucket (h : IsSegment ns) (h' : IsSegment bucket) :
    params ("/api/" ++ (ns ++ ("/" ++ bucket))) = ["api", ns, bucket] := by
  have htrim : Separator.trim '/' ("/api/" ++ (ns ++ ("/" ++ bucket))).toList =
      "api".toList ++ '/' :: (ns.toList ++ '/' :: bucket.toList) := by
    have hpath : ("/api/" ++ (ns ++ ("/" ++ bucket))).toList =
        '/' :: (("api/" ++ ns ++ "/").toList ++ bucket.toList) := by simp
    rw [hpath, Separator.trim_cons, Separator.trim_eq_self _ (h'.getLast _)]
    · simp
    · simp
  rw [params, htrim, Separator.splitN_append 1 (by decide),
    Separator.splitN_append 0 h.2, Separator.splitN_of_notMem 0 h'.2]
  simp

theorem namespacesAPIHandler_namespace (h : IsSegment ns) (method : Method) :
    namespacesAPIHandler method ("/api/" ++ ns) = match method with
      | .get => .writeNamespace ns
      | .delete => .deleteNamespace ns
      | .put => .updateNamespace ns
      | .post => .addNamespace ns := by
  have htrim : String.ofList (Separator.trim '/' (trimPrefix ("/api/" ++ ns) "/api")) = ns := by
    have hstart : trimPrefix ("/api/" ++ ns) "/api" = '/' :: ns.toList := by
      simp [trimPrefix, List.isPrefixOf, show "/api".length = 4 from rfl]
    have hhead : ∀ c ∈ ns.toList.head?, c ≠ '/' := by
      intro c hc heq
      exact h.2 (heq ▸ List.mem_of_head? hc)
    rw [hstart, Separator.trim_cons, Separator.trim_eq_self hhead (h.getLast [])]
    simp
  unfold namespacesAPIHandler
  rw [htrim]
  cases method <;> simp [h.1]

theorem send_eq_some {args : Arguments} {method : Method} {cfg : Option Json} {r : Request}
    (h : send args method cfg = some r) : r = ⟨method, createUrl args, cfg⟩ := by
  unfold send at h
  split_ifs at h
  exact (Option.some.inj h).symm

/-- The path that a command is sent to. -/
def Entity.path : Entity → String
  | .globalDefaultBucket => "/api/"
  | .namespace ns => "/api/" ++ ns
  | .bucket ns name => "/api/" ++ (ns ++ ("/" ++ name))

theorem createUrl_eq {args : Arguments} {e : Entity} (h : args.entity = some e) :
    createUrl args = e.path := by
  unfold Arguments.entity at h
  unfold createUrl
  split_ifs at h with hgdb hns hbucket
  · cases h
    simp [hgdb, Entity.path]
  · cases h
    simp [hgdb, hns, hbucket, Entity.path]
  · cases h
    simp [hgdb, hns, hbucket, Entity.path]

theorem request_body {cmd : Command} {args : Arguments} {r : Request}
    (h : cmd.request args = some r) : r.body = cmd.body := by
  cases cmd <;> rw [send_eq_some h] <;> rfl

theorem serveHTTP_global (method : Method) (body : Option Json) (assetsDirectory : Bool) :
    serveHTTP assetsDirectory ⟨method, "/api/", body⟩ = match method with
      | .get => .writeNamespace ""
      | .post => .updateConfig
      | _ => .notFound := by
  have hhandler : handler assetsDirectory "/api/" = some .api := by
    cases assetsDirectory <;> decide
  have hparams : params "/api/" = ["api"] := by decide
  have htrim : String.ofList (Separator.trim '/' (trimPrefix "/api/" "/api")) = "" := by decide
  simp only [serveHTTP, hhandler, apiRequestHandler, hparams, namespacesAPIHandler, htrim, if_true]
  cases method <;> rfl

theorem serveHTTP_namespace (h : IsSegment ns) (method : Method) (body : Option Json)
    (assetsDirectory : Bool) : serveHTTP assetsDirectory ⟨method, "/api/" ++ ns, body⟩ =
      if ns = "stats" then .other .stats
      else if ns = "configs" then .other .configs
      else match method with
        | .get => .writeNamespace ns
        | .delete => .deleteNamespace ns
        | .put => .updateNamespace ns
        | .post => .addNamespace ns := by
  have hpath : ("/api/" ++ ns).toList = "/api/".toList ++ (ns.toList ++ []) := by simp
  have hhandler := handler_api h.2 hpath (Or.inl rfl) assetsDirectory
  simp only [String.toList_inj] at hhandler
  unfold serveHTTP
  rw [hhandler]
  split_ifs
  · rfl
  · rfl
  · dsimp only
    rw [apiRequestHandler, params_namespace h, namespacesAPIHandler_namespace h]

theorem serveHTTP_bucket (h : IsSegment ns) (h' : IsSegment bucket) (method : Method)
    (body : Option Json) (assetsDirectory : Bool) :
    serveHTTP assetsDirectory ⟨method, "/api/" ++ (ns ++ ("/" ++ bucket)), body⟩ =
      if ns = "stats" then .other .stats
      else if ns = "configs" then .other .configs
      else bucketsAPIHandler method ns bucket := by
  have hpath : ("/api/" ++ (ns ++ ("/" ++ bucket))).toList =
      "/api/".toList ++ (ns.toList ++ '/' :: bucket.toList) := by simp
  have hhandler := handler_api h.2 hpath (Or.inr ⟨_, rfl⟩) assetsDirectory
  simp only [String.toList_inj] at hhandler
  unfold serveHTTP
  rw [hhandler]
  split_ifs
  · rfl
  · rfl
  · dsimp only
    rw [apiRequestHandler, params_bucket h h']

theorem serveHTTP_request {cmd : Command} {args : Arguments} {r : Request} {e : Entity}
    (hnamed : args.Named) (he : args.entity = some e) (hr : cmd.request args = some r)
    (assetsDirectory : Bool) : serveHTTP assetsDirectory r = cmd.operation e := by
  have hurl := createUrl_eq he
  cases e with
  | globalDefaultBucket =>
    cases cmd <;> rw [send_eq_some hr, hurl, Entity.path, serveHTTP_global] <;> rfl
  | «namespace» name =>
    have hname : IsName name := by
      unfold Arguments.entity at he
      split_ifs at he with _ hns _ <;> cases he
      exact hnamed.1 hns
    cases cmd <;> rw [send_eq_some hr, hurl, Entity.path, serveHTTP_namespace hname.isSegment] <;> rfl
  | bucket ns name =>
    have hname : IsName ns ∧ IsName name := by
      unfold Arguments.entity at he
      split_ifs at he with _ hns hbucket <;> cases he
      exact ⟨hnamed.1 hns, hnamed.2 hbucket⟩
    cases cmd <;> rw [send_eq_some hr, hurl, Entity.path, serveHTTP_bucket hname.1.isSegment hname.2.isSegment] <;> rfl

end Routing

section Edits
variable {cmd : Command} {e : Entity} {o : Operation} {body : Option Json} {ns bucket : String}

theorem edit_sameBut {op : Op} {cfg cfg' : ServiceConfig} (h : op.edit cfg = some (.ok cfg')) :
    SameBut (target op) cfg' cfg := by
  cases op with
  | addBucket ns b => exact (createBucket_edit h).sameBut
  | updateBucket ns b => exact (updateBucket_edit h).sameBut
  | deleteBucket ns name => exact (deleteBucket_edit h).sameBut
  | addNamespace n => exact createNamespace_sameBut h
  | updateNamespace n => exact updateNamespace_sameBut h
  | deleteNamespace n => exact deleteNamespace_sameBut h

theorem updatedConfig_unchanged {op : Op} {user : String} {date : ℤ}
    {clonedCfg cfg : ServiceConfig}
    (h : Admin.updatedConfig op.edit user date clonedCfg = some (.ok cfg)) :
    Unchanged (target op) clonedCfg cfg := by
  obtain ⟨edited, filled, hedit, hfilled, rfl⟩ := Admin.updatedConfig_ok h
  obtain rfl := applyDefaults_eq hfilled
  have hsame := SameConfig.refl (withDefaults edited)
  exact (edit_sameBut hedit).unchanged ⟨hsame.globalDefaultBucket, hsame.namespaces⟩

/-- A command that changes the config agrees if its path and its body come down to the entity. -/
theorem agrees_change_iff {ops : Option Op} {p : Place} (hverb : o.verb = some cmd.verb)
    (hshows : cmd.verb ≠ .shows) (hplace : o.place = some p)
    (hops : o.change body = ops.map .op) :
    Agrees cmd e o body ↔ p = e.place ∧ ∀ op ∈ ops, target op = e.place := by
  constructor
  · intro h
    refine ⟨Option.some.inj (hplace.symm.trans h.place), ?_⟩
    intro op hop
    have hchange : o.change body = some (.op op) := by rw [hops, hop, Option.map_some]
    obtain ⟨⟨op', heq, htarget⟩, -⟩ := h.changed _ hchange
    cases heq
    exact htarget
  · rintro ⟨rfl, htarget⟩
    refine ⟨hverb, hplace, fun h => absurd h hshows, ?_⟩
    intro change hchange
    rw [hops] at hchange
    obtain ⟨op, hop, rfl⟩ := Option.map_eq_some_iff.mp hchange
    refine ⟨⟨op, rfl, htarget op hop⟩, ?_⟩
    intro user date clonedCfg cfg hcfg
    rw [← htarget op hop]
    exact updatedConfig_unchanged hcfg

theorem agrees_show_iff (hverb : o.verb = some .shows) (hchange : o.change body = none) :
    Agrees .doShow e o body ↔
      o.place = some e.place ∧ ∀ cfgs, o.answer cfgs = e.place.content cfgs := by
  constructor
  · intro h
    exact ⟨h.place, h.shown rfl⟩
  · rintro ⟨hplace, hanswer⟩
    refine ⟨hverb, hplace, fun _ => hanswer, ?_⟩
    intro change h
    rw [hchange] at h
    cases h

/-- The name in a body is empty, or that of the path. -/
theorem changeNamespace_name_iff : (∀ c ∈ changeNamespace ns body, c.name = ns) ↔
    ∀ c, getNamespaceConfig body = some c → c.name = "" ∨ c.name = ns := by
  unfold changeNamespace
  cases getNamespaceConfig body with
  | none => simp
  | some c =>
    by_cases hc : c.name = ""
    · simp [hc]
    · simp [hc]

theorem changeBucket_name_iff : (∀ c ∈ changeBucket bucket body, c.name = bucket) ↔
    ∀ c, getBucketConfig body = some c → c.name = "" ∨ c.name = bucket := by
  unfold changeBucket
  cases getBucketConfig body with
  | none => simp
  | some c =>
    by_cases hc : c.name = ""
    · simp [hc]
    · simp [hc]

theorem placeOf_eq_place_iff : placeOf ns bucket = (Entity.bucket ns bucket).place ↔
    (ns = globalNamespace → bucket = defaultBucketName) := by
  simp only [placeOf, Entity.place]
  by_cases hns : ns = globalNamespace
  · by_cases hdefault : bucket = defaultBucketName
    · simp [hns, hdefault]
    · by_cases htemplate : bucket = dynamicBucketTemplateName
      · simp [hns, htemplate, Admin.template_ne_default]
      · simp [hns, hdefault, htemplate]
  · simp [hns]

/-- In a namespace that is not the global one each name has a place of its own. -/
theorem placeOf_inj (hns : ns ≠ globalNamespace) {name : String} :
    placeOf ns name = placeOf ns bucket ↔ name = bucket := by
  constructor
  · intro h
    unfold placeOf at h
    rw [if_neg hns, if_neg hns] at h
    split_ifs at h <;> cases h
    · exact Eq.trans ‹name = defaultBucketName› (Eq.symm ‹bucket = defaultBucketName›)
    · exact Eq.trans ‹name = dynamicBucketTemplateName›
        (Eq.symm ‹bucket = dynamicBucketTemplateName›)
    · rfl
  · rintro rfl
    rfl

theorem answer_writeNamespace (hns : ns ≠ "") (hglobal : ns ≠ globalNamespace)
    (cfgs : ServiceConfig) :
    (Operation.writeNamespace ns).answer cfgs = (Place.namespace ns).content cfgs := by
  simp only [Operation.answer, writeNamespace, hns, hglobal, or_self, if_false, Place.content]
  cases cfgs.namespaces.get ns <;> rfl

theorem answer_writeBucket (hbucket : bucket ≠ "") (cfgs : ServiceConfig) :
    (Operation.writeBucket ns bucket).answer cfgs = (Place.bucket ns bucket).content cfgs := by
  simp only [Operation.answer, writeBucket, hbucket, if_false, Place.content, findNamespace]
  cases cfgs.namespaces.get ns with
  | none => rfl
  | some namespaceConfig =>
    cases namespaceConfig with
    | none => rfl
    | some n =>
      simp only [Option.map_some, Option.bind_some, Option.join_some]
      cases n.buckets.get bucket <;> rfl

end Edits

section Conditions
variable {ns bucket : String}

/-- A namespace that another endpoint takes is out of reach. -/
theorem not_agrees_of_endpoint (cmd : Command) {e : Entity} (hns : ns ∈ endpoints)
    (he : e = .namespace ns ∨ ∃ name, e = .bucket ns name) :
    ¬ Agrees cmd e (cmd.operation e) cmd.body := by
  have hne : "configs" ≠ "stats" := by decide
  have hverb : (cmd.operation e).verb = none := by
    rcases List.mem_pair.mp hns with rfl | rfl <;> rcases he with rfl | ⟨name, rfl⟩ <;>
      simp [Command.operation, Operation.verb, hne]
  intro h
  cases hverb.symm.trans h.verb

theorem namespace_agrees_iff (cmd : Command) (hns : ns ≠ "") :
    Agrees cmd (.namespace ns) (cmd.operation (.namespace ns)) cmd.body ↔
      Condition cmd (.namespace ns) := by
  by_cases hend : ns ∈ endpoints
  · exact iff_of_false (not_agrees_of_endpoint cmd hend (Or.inl rfl)) fun h => h.1 hend
  · have hne : ns ≠ "stats" ∧ ns ≠ "configs" := by simpa [endpoints] using hend
    simp only [Condition, hend, not_false_eq_true, true_and, Command.operation, hne.1, hne.2,
      if_false]
    cases cmd with
    | doShow =>
      rw [agrees_show_iff rfl rfl]
      by_cases hglobal : ns = globalNamespace
      · simp [Operation.place, hglobal]
      · simp only [Operation.place, hns, hglobal, or_self, if_false, Entity.place, ne_eq,
          not_false_eq_true, true_and, iff_true]
        exact answer_writeNamespace hns hglobal
    | doRemove =>
      have hops : (Operation.deleteNamespace ns).change none =
          (some (Op.deleteNamespace ns)).map .op := rfl
      apply (agrees_change_iff rfl (by decide) rfl hops).trans
      simp [Entity.place, target]
    | doAdd cfg =>
      have hops : (Operation.addNamespace ns).change (some cfg) =
          ((changeNamespace ns (some cfg)).map .addNamespace).map .op :=
        (Option.map_map _ _ _).symm
      apply (agrees_change_iff rfl (by simp [Command.verb]) rfl hops).trans
      simp [Entity.place, target, ← changeNamespace_name_iff]
    | doUpdate cfg =>
      have hops : (Operation.updateNamespace ns).change (some cfg) =
          ((changeNamespace ns (some cfg)).map .updateNamespace).map .op :=
        (Option.map_map _ _ _).symm
      apply (agrees_change_iff rfl (by simp [Command.verb]) rfl hops).trans
      simp [Entity.place, target, ← changeNamespace_name_iff]

/-- The edits of a bucket that go under the name in the body. -/
theorem bucket_change_iff {cfg : Json} {op : BucketConfig → Op}
    (htarget : ∀ b, target (op b) = placeOf ns b.name) :
    (placeOf ns bucket = (Entity.bucket ns bucket).place ∧
        ∀ o ∈ (changeBucket bucket (some cfg)).map op, target o = (Entity.bucket ns bucket).place) ↔
      if ns = globalNamespace then bucket = defaultBucketName
      else ∀ c, getBucketConfig (some cfg) = some c → c.name = "" ∨ c.name = bucket := by
  rw [placeOf_eq_place_iff, ← changeBucket_name_iff]
  by_cases hglobal : ns = globalNamespace
  · rw [if_pos hglobal]
    constructor
    · intro h
      exact h.1 hglobal
    · intro hdefault
      refine ⟨fun _ => hdefault, fun o ho => ?_⟩
      obtain ⟨c, -, rfl⟩ := Option.map_eq_some_iff.mp ho
      rw [htarget, placeOf, if_pos hglobal, Entity.place, if_pos hdefault, if_pos hglobal]
  · have hplace : placeOf ns bucket = (Entity.bucket ns bucket).place :=
      placeOf_eq_place_iff.mpr fun h => absurd h hglobal
    rw [if_neg hglobal, ← hplace]
    simp [hglobal, htarget, placeOf_inj hglobal]

theorem bucket_agrees_iff (cmd : Command) (hbucket : bucket ≠ "") :
    Agrees cmd (.bucket ns bucket) (cmd.operation (.bucket ns bucket)) cmd.body ↔
      Condition cmd (.bucket ns bucket) := by
  by_cases hend : ns ∈ endpoints
  · exact iff_of_false (not_agrees_of_endpoint cmd hend (Or.inr ⟨bucket, rfl⟩)) fun h => h.1 hend
  · have hne : ns ≠ "stats" ∧ ns ≠ "configs" := by simpa [endpoints] using hend
    simp only [Condition, hend, not_false_eq_true, true_and, Command.operation, hne.1, hne.2,
      if_false]
    cases cmd with
    | doShow =>
      rw [agrees_show_iff rfl rfl]
      by_cases hdefault : bucket = defaultBucketName
      · refine iff_of_false (fun h => ?_) fun h => h.1 hdefault
        have hplace := Option.some.inj h.1
        simp only [Entity.place, hdefault, if_true] at hplace
        split_ifs at hplace
      · by_cases htemplate : bucket = dynamicBucketTemplateName
        · refine iff_of_false (fun h => ?_) fun h => h.2 htemplate
          have hplace := Option.some.inj h.1
          simp [Entity.place, htemplate, Admin.template_ne_default] at hplace
        · have hplace : (Entity.bucket ns bucket).place = .bucket ns bucket := by
            simp [Entity.place, hdefault, htemplate]
          rw [hplace]
          refine iff_of_true ⟨rfl, answer_writeBucket hbucket⟩ ⟨hdefault, htemplate⟩
    | doRemove =>
      have hops : (Operation.deleteBucket ns bucket).change none =
          (some (Op.deleteBucket ns bucket)).map .op := rfl
      apply (agrees_change_iff rfl (by decide) rfl hops).trans
      simp [target, placeOf_eq_place_iff]
    | doAdd cfg =>
      have hops : (Operation.addBucket ns bucket).change (some cfg) =
          ((changeBucket bucket (some cfg)).map (.addBucket ns)).map .op :=
        (Option.map_map _ _ _).symm
      exact (agrees_change_iff rfl (by simp [Command.verb]) rfl hops).trans
        (bucket_change_iff fun b => rfl)
    | doUpdate cfg =>
      have hops : (Operation.updateBucket ns bucket).change (some cfg) =
          ((changeBucket bucket (some cfg)).map (.updateBucket ns)).map .op :=
        (Option.map_map _ _ _).symm
      exact (agrees_change_iff rfl (by simp [Command.verb]) rfl hops).trans
        (bucket_change_iff fun b => rfl)

end Conditions

/-- A command reaches the operation on what its arguments address, and the config stays the same
outside of it, if and only if the condition holds. -/
theorem agrees_iff (assetsDirectory : Bool) (cmd : Command) (args : Arguments) (r : Request)
    (e : Entity) (hnamed : args.Named) (he : args.entity = some e)
    (hr : cmd.request args = some r) :
    Agrees cmd e (serveHTTP assetsDirectory r) r.body ↔ Condition cmd e := by
  rw [serveHTTP_request hnamed he hr, request_body hr]
  cases e with
  | globalDefaultBucket =>
    refine iff_of_false (fun h => ?_) not_false
    have hplace := h.place
    cases cmd <;> simp [Command.operation, Operation.place] at hplace
  | «namespace» ns =>
    have hns : ns ≠ "" := by
      unfold Arguments.entity at he
      split_ifs at he with _ hns _ <;> cases he
      exact hns
    exact namespace_agrees_iff cmd hns
  | bucket ns bucket =>
    have hbucket : bucket ≠ "" := by
      unfold Arguments.entity at he
      split_ifs at he with _ _ hbucket <;> cases he
      exact hbucket
    exact bucket_agrees_iff cmd hbucket

theorem agrees_iff_update :
    let cfg : Json := .obj [("size", .num 5)]
    let args : Arguments := { «namespace» := "a", bucket := "b" }
    Agrees (.doUpdate cfg) (.bucket "a" "b") (serveHTTP true ⟨.put, createUrl args, some cfg⟩)
      (some cfg) := by
  intro cfg args
  have hletter : ∀ (name : String) (c : Char), name.toList = [c] → c.isAlphanum = true →
      IsName name := by
    intro name c hname hc
    constructor
    · rintro rfl
      cases hname
    · intro c' hc'
      rw [hname, List.mem_singleton] at hc'
      exact Or.inl (hc' ▸ hc)
  have hnamed : args.Named :=
    ⟨fun _ => hletter "a" 'a' rfl (by decide), fun _ => hletter "b" 'b' rfl (by decide)⟩
  have hsent : (Command.doUpdate cfg).request args = some ⟨.put, createUrl args, some cfg⟩ := by
    simp [Command.request, send, validate, validateJSON, checkField, args, cfg]
  refine (agrees_iff true _ args _ (.bucket "a" "b") hnamed (by decide) hsent).mpr ⟨by decide, ?_⟩
  have hns : "a" ≠ globalNamespace := by decide
  simp only [hns, if_false]
  intro c hc
  cases hc
  exact Or.inl rfl

/-- The config of a global default bucket is posted to the endpoint that replaces the whole config, in
which its fields mean nothing; a namespace goes to the endpoint of the statistics. -/
theorem global_default_bucket_replaces_config :
    let cfg : Json := .obj [("size", .num 5)]
    let clonedCfg : ServiceConfig :=
      { namespaces := .table (AList.singleton "a" (some { name := "a" })) }
    (∃ r, (Command.doAdd cfg).request { gdb := true } = some r ∧
      serveHTTP true r = .updateConfig ∧
      (∃ change persisted, (serveHTTP true r).change r.body = some change ∧
        Admin.updatedConfig change.updater "user" 0 clonedCfg = some (.ok persisted) ∧
        persisted.globalDefaultBucket = none ∧ persisted.namespaces.get "a" = none ∧
        ¬ Unchanged .globalDefaultBucket clonedCfg persisted) ∧
      ¬ Agrees (.doAdd cfg) .globalDefaultBucket (serveHTTP true r) r.body) ∧
    ∃ r, Command.doRemove.request { «namespace» := "stats" } = some r ∧
      serveHTTP true r = .other .stats ∧
      ¬ Agrees .doRemove (.namespace "stats") (serveHTTP true r) r.body := by
  intro cfg clonedCfg
  constructor
  · have hserve : serveHTTP true ⟨.post, "/api/", some cfg⟩ = .updateConfig :=
      serveHTTP_global .post (some cfg) true
    refine ⟨⟨.post, "/api/", some cfg⟩, ?_, hserve, ?_, ?_⟩
    · simp [Command.request, send, validate, validateJSON, checkField, createUrl, cfg]
    · rw [hserve]
      refine ⟨.updateConfig {}, { user := "user", version := 1 }, rfl, rfl, rfl, rfl, ?_⟩
      intro h
      have hrel := h.1.namespaces "a"
      rw [get_clear, get_clear] at hrel
      nomatch hrel
    · intro h
      have hplace := h.place
      rw [hserve] at hplace
      cases hplace
  · have hserve : serveHTTP true ⟨.delete, "/api/stats", none⟩ = .other .stats := by decide
    refine ⟨⟨.delete, "/api/stats", none⟩, ?_, hserve, fun h => ?_⟩
    · simp [Command.request, send, validate, createUrl]
    · have hverb := h.verb
      rw [hserve] at hverb
      cases hverb

end QuotaService.Cli
