import QuotaService.Server.ZkWatch

/-! `PersistAndNotify` of the Zookeeper persister, when its remote calls fail. It creates a node for
the bytes of the config, in which the entries of maps come in an order that is another one in each
call, and then sets the root; but the listeners take any node into account. Once a node is there that
is the newest, a failure to set the root leaves a config that is selected later, and cannot be written
again with the same bytes. -/
namespace QuotaService.ZkWatch
open Config Server

/-- How a remote call ends. The error of a connection may mean that the call was not made, or only that
the reply was lost. -/
inductive Reply
  | ok
  | failed
  | lost
deriving DecidableEq

def Reply.error : Reply → Option String
  | .ok => none
  | _ => some "zk: connection closed"

section Persist
variable {O D : Type} (marshal : O → ServiceConfig → Option D) (hash : D → String)

/-- `Create`, of a node that may be there. -/
def archiveConfig (log : List (Event D)) (key : String) (config : D) (reply : Reply) :
    List (Event D) × Option String :=
  match reply with
  | .failed => (log, reply.error)
  | _ =>
    if key ∈ children log then (log, some "zk: node already exists")
    else (log ++ [.create key config], reply.error)

/-- `Set` of the root, whatever its version is. -/
def setRoot (log : List (Event D)) (reply : Reply) : List (Event D) × Option String :=
  match reply with
  | .failed => (log, reply.error)
  | _ => (log ++ [.set], reply.error)

/-- `config` is the hash of the persister's current config, and `o` the order in which this call
marshals maps. The result is the log after the call, and the error. -/
def persistAndNotify (log : List (Event D)) (config : String) (o : O) (cfg : ServiceConfig)
    (create set : Reply) : List (Event D) × Option String :=
  match marshal o cfg with
  | none => (log, some "proto: invalid UTF-8")
  | some b =>
    let key := hash b
    if key = config then (log, none)
    else
      match archiveConfig log key b create with
      | (log', some err) => (log', some err)
      | (log', none) => setRoot log' set

/-- The hash of the config, in some order of its maps. -/
def Encodes (cfg : ServiceConfig) (key : String) : Prop :=
  ∃ o b, marshal o cfg = some b ∧ hash b = key

/-- The listener of a server has made the config of this hash the current one. -/
def Selects (key : String) (z : ZkConfigPersister) : Prop := z.config = key ∧ z.current ≠ none

/-- A listener runs on what it sees of a log: it lists the nodes of a prefix, in some order, and gets
them later. -/
def Listens (unmarshal : D → ServiceConfig) (log : List (Event D)) (z : ZkConfigPersister) : Prop :=
  ∃ seen order before, order.Perm (children (log.take seen)) ∧
    currentConfigEventListener unmarshal (get log) order before = some z

/-- A call that returns an error has no effect, whatever other writers do after it that do not write the
same config: no server selects the config, and a call of the same, with no failures, can succeed. -/
structure FailsWithoutEffect (unmarshal : D → ServiceConfig) (log : List (Event D)) (config : String)
    (o : O) (cfg : ServiceConfig) (create set : Reply) : Prop where
  unselected : (persistAndNotify marshal hash log config o cfg create set).2 ≠ none →
    ∀ rest, (∀ key, Encodes marshal hash cfg key → key ∉ children rest) →
      ∀ z, Listens unmarshal ((persistAndNotify marshal hash log config o cfg create set).1 ++ rest) z →
        ∀ key, Encodes marshal hash cfg key → ¬ Selects key z
  retried : (persistAndNotify marshal hash log config o cfg create set).2 ≠ none →
    ∀ rest, (∀ key, Encodes marshal hash cfg key → key ∉ children rest) →
      ∃ o', ∀ config', (persistAndNotify marshal hash
        ((persistAndNotify marshal hash log config o cfg create set).1 ++ rest) config' o' cfg .ok
          .ok).2 = none

/-- The node was the newest one when it was created. -/
def Newest (unmarshal : D → ServiceConfig) (log : List (Event D)) (key : String) : Prop :=
  ∃ pre d post, log = pre ++ .create key d :: post ∧ key ∉ children pre ∧
    0 ≤ (unmarshal d).version ∧
      ∀ key' ∈ children pre, (node unmarshal (get pre) key').version ≤ (unmarshal d).version

/-- No node of the config was the newest when it was created, and some order of its maps has no node. -/
structure Unnoticed (unmarshal : D → ServiceConfig) (log : List (Event D)) (cfg : ServiceConfig) :
    Prop where
  not_newest : ∀ key, Encodes marshal hash cfg key → ¬ Newest unmarshal log key
  free : ∃ key, Encodes marshal hash cfg key ∧ key ∉ children log

/-- The nodes with that of the call, if it makes one. -/
def withNode (log : List (Event D)) (b : D) (create : Reply) : List (Event D) :=
  if create = .failed ∨ hash b ∈ children log then log else log ++ [.create (hash b) b]

/-- The config is current, or its node is not there and both remote calls go through, or all that the
call leaves goes unnoticed. -/
def Clean (unmarshal : D → ServiceConfig) (log : List (Event D)) (config : String) (o : O)
    (cfg : ServiceConfig) (create set : Reply) : Prop :=
  match marshal o cfg with
  | none => Unnoticed marshal hash unmarshal log cfg
  | some b => hash b = config ∨ (hash b ∉ children log ∧ create = .ok ∧ set = .ok) ∨
      Unnoticed marshal hash unmarshal (withNode hash log b create) cfg

end Persist

section Effects
variable {O D : Type} {marshal : O → ServiceConfig → Option D} {hash : D → String}
  {unmarshal : D → ServiceConfig} {log rest : List (Event D)} {config key : String} {o : O} {b : D}
  {cfg : ServiceConfig} {create set : Reply}

/-- A scan that ends has got every node. -/
theorem exists_of_foldlM {get : String → Option D} {order : List String} {scan scan' : Scan}
    (h : order.foldlM (scanChild unmarshal get) scan = some scan') :
    ∀ key ∈ order, ∃ d, get key = some d := by
  induction order generalizing scan with
  | nil => simp
  | cons key order ih =>
    rw [List.foldlM_cons] at h
    obtain ⟨scan₁, hscan₁, h⟩ := Option.bind_eq_some_iff.mp h
    obtain ⟨d, hd, -⟩ := Option.map_eq_some_iff.mp hscan₁
    intro key' hkey'
    rcases List.mem_cons.mp hkey' with rfl | hkey'
    · exact ⟨d, hd⟩
    · exact ih h key' hkey'

/-- The servers of the watch protocol have listened. -/
theorem listens_of_waiting {srv : ZkServer} {watch : ℕ} (h : LoopInv unmarshal log srv)
    (hloop : srv.loop = .waiting watch) : Listens unmarshal log srv.persister := by
  simp only [LoopInv, hloop] at h
  obtain ⟨seen, order, z, -, -, horder, hz⟩ := h
  exact ⟨seen, order, z, horder, hz⟩

/-- The first time that a node is created. -/
theorem exists_first (h : key ∈ children log) :
    ∃ pre d post, log = pre ++ .create key d :: post ∧ key ∉ children pre := by
  induction log with
  | nil => cases h
  | cons e log ih =>
    by_cases hfirst : key ∈ children [e]
    · cases e with
      | create key' d =>
        obtain rfl : key = key' := by simpa [children, nodes] using hfirst
        exact ⟨[], d, log, rfl, List.not_mem_nil⟩
      | set => cases hfirst
    · rw [← List.singleton_append, children_append] at h
      obtain ⟨pre, d, post, rfl, hpre⟩ := ih ((List.mem_append.mp h).resolve_left hfirst)
      refine ⟨e :: pre, d, post, rfl, ?_⟩
      rw [← List.singleton_append, children_append]
      exact fun hmem => (List.mem_append.mp hmem).elim hfirst hpre

theorem get_first {pre post : List (Event D)} {d : D} (h : key ∉ children pre) :
    get (pre ++ .create key d :: post) key = some d := by
  have hnone : (nodes pre).find? (fun e => e.1 = key) = none := by
    rw [List.find?_eq_none]
    intro e he heq
    exact h (List.mem_map.mpr ⟨e, he, of_decide_eq_true heq⟩)
  rw [get, nodes_append, List.find?_append, hnone]
  simp [nodes]

theorem node_first {pre post : List (Event D)} {d : D} (h : key ∉ children pre) :
    node unmarshal (get (pre ++ .create key d :: post)) key = unmarshal d := by
  rw [node, get_first h]
  rfl

theorem node_append_of_mem (h : key ∈ children log) (log' : List (Event D)) :
    node unmarshal (get (log ++ log')) key = node unmarshal (get log) key := by
  rw [node, node, get_append_of_mem h]

/-- What a listener selects was the newest node when it was created: the listener has seen what was
there then. -/
theorem Listens.newest {z : ZkConfigPersister} (h : Listens unmarshal log z) (hsel : Selects key z)
    (hkey : key ≠ "") : Newest unmarshal log key := by
  obtain ⟨seen, order, before, horder, hz⟩ := h
  obtain ⟨scan, hscan, rfl⟩ := Option.map_eq_some_iff.mp hz
  obtain ⟨configs, -, hfold⟩ := foldlM_scanChild unmarshal (exists_of_foldlM hscan)
  cases hscan.symm.trans hfold
  have hselect : Selection.select (fun h => (node unmarshal (get log) h).version) 0 order =
      some key := by
    have hconfig := hsel.1
    cases hlast : Selection.select (fun h => (node unmarshal (get log) h).version) 0 order with
    | none =>
      rw [hlast] at hconfig
      exact absurd hconfig.symm hkey
    | some key' =>
      rw [hlast] at hconfig
      exact congrArg some hconfig
  obtain ⟨hnonneg, hmem, hle⟩ := Selection.select_largest hselect
  obtain ⟨pre, d, post, hseen, hpre⟩ := exists_first (horder.mem_iff.mp hmem)
  have hlog : log = pre ++ .create key d :: (post ++ log.drop seen) := by
    conv_lhs => rw [← List.take_append_drop seen log, hseen]
    rw [List.append_assoc, List.cons_append]
  have hnode : node unmarshal (get log) key = unmarshal d := by
    rw [hlog]
    exact node_first hpre
  refine ⟨pre, d, post ++ log.drop seen, hlog, hpre, hnode ▸ hnonneg, fun key' hkey' => ?_⟩
  have hbefore : key' ∈ children (log.take seen) := by
    rw [hseen, children_append]
    exact List.mem_append_left _ hkey'
  have hsame : node unmarshal (get log) key' = node unmarshal (get pre) key' := by
    rw [hlog]
    exact node_append_of_mem hkey' _
  rw [← hnode, ← hsame]
  exact hle key' (horder.mem_iff.mpr hbefore)

/-- And the newest node is selected by some listener, whether the call that made it has failed or not. -/
theorem exists_listens (h : Newest unmarshal log key) :
    ∃ z, Listens unmarshal log z ∧ Selects key z := by
  obtain ⟨pre, d, post, rfl, hpre, hnonneg, hle⟩ := h
  let log := pre ++ .create key d :: post
  have hchildren : children (log.take (pre.length + 1)) = children pre ++ [key] := by
    have htake : log.take (pre.length + 1) = pre ++ [.create key d] := by
      simp [log, List.take_append]
    rw [htake, children_append]
    rfl
  have hnode : node unmarshal (get log) key = unmarshal d := node_first hpre
  have hlo : 0 ≤ (node unmarshal (get log) key).version := hnode ▸ hnonneg
  have hlargest : Selection.Largest (fun h => (node unmarshal (get log) h).version)
      (children pre ++ [key]) key := by
    refine ⟨by simp, fun key' hkey' => ?_⟩
    rcases List.mem_append.mp hkey' with hkey' | hkey'
    · have hsame : node unmarshal (get log) key' = node unmarshal (get pre) key' :=
        node_append_of_mem hkey' _
      show (node unmarshal (get log) key').version ≤ (node unmarshal (get log) key).version
      rw [hsame, hnode]
      exact hle key' hkey'
    · rw [List.mem_singleton.mp hkey']
  obtain ⟨order, horder, hsel⟩ : ∃ order, order.Perm (children pre ++ [key]) ∧
      Selection.select (fun h => (node unmarshal (get log) h).version) 0 order = some key := by
    refine Selection.exists_perm_select_iff.mpr ⟨?_, hlargest⟩
    exact hlo
  have hget : ∀ key' ∈ order, ∃ d, get log key' = some d := by
    intro key' hkey'
    have hseen : key' ∈ children (log.take (pre.length + 1)) := by
      rw [hchildren]
      exact horder.mem_iff.mp hkey'
    rw [← get_take_of_mem hseen]
    exact (exists_get hseen).imp fun _ => And.left
  obtain ⟨configs, hlookup, hfold⟩ := foldlM_scanChild unmarshal hget
  let z : ZkConfigPersister := ⟨true, key, configs, true⟩
  have hz : currentConfigEventListener unmarshal (get log) order ⟨false, "", ∅, false⟩ = some z := by
    rw [currentConfigEventListener, hfold, hsel]
    rfl
  have hcurrent : z.current ≠ none := by
    have hmem : key ∈ order := Selection.mem_of_select hsel
    simp [z, ZkConfigPersister.current, hlookup, hmem]
  exact ⟨z, ⟨pre.length + 1, order, _, by rwa [hchildren], hz⟩, rfl, hcurrent⟩

/-- What others write does not make an older node the newest. -/
theorem newest_append (h : key ∉ children rest) :
    Newest unmarshal (log ++ rest) key ↔ Newest unmarshal log key := by
  constructor
  · rintro ⟨pre, d, post, hlog, hpre⟩
    rcases List.append_eq_append_iff.mp hlog with ⟨more, rfl, hrest⟩ | ⟨more, hmore, hpost⟩
    · exact absurd (by rw [hrest, children_append]; simp [children, nodes]) h
    · cases more with
      | nil => exact absurd (by rw [← List.nil_append rest, ← hpost]; simp [children, nodes]) h
      | cons e more =>
        cases hpost
        exact ⟨pre, d, more, hmore, hpre⟩
  · rintro ⟨pre, d, post, rfl, hpre⟩
    exact ⟨pre, d, post ++ rest, by rw [List.append_assoc, List.cons_append], hpre⟩

theorem archiveConfig_of_mem (h : key ∈ children log) (b : D) (reply : Reply) :
    ∃ err, archiveConfig log key b reply = (log, some err) := by
  cases reply <;> simp [archiveConfig, h, Reply.error]

theorem archiveConfig_ok (h : key ∉ children log) (b : D) :
    archiveConfig log key b .ok = (log ++ [.create key b], none) := by
  simp [archiveConfig, h, Reply.error]

theorem archiveConfig_lost (h : key ∉ children log) (b : D) :
    ∃ err, archiveConfig log key b .lost = (log ++ [.create key b], some err) := by
  simp [archiveConfig, h, Reply.error]

theorem setRoot_error_iff (log : List (Event D)) (reply : Reply) :
    (setRoot log reply).2 = none ↔ reply = .ok := by
  cases reply <;> simp [setRoot, Reply.error]

theorem setRoot_log (log : List (Event D)) (reply : Reply) :
    ∃ sets, (setRoot log reply).1 = log ++ sets ∧ children sets = [] := by
  cases reply with
  | failed => exact ⟨[], (List.append_nil log).symm, rfl⟩
  | ok | lost => exact ⟨[.set], rfl, rfl⟩

/-- What a call leaves are the nodes with its own, and its error tells whether both remote calls went
through. -/
theorem persistAndNotify_spec (hb : marshal o cfg = some b) (hcurrent : hash b ≠ config)
    (log : List (Event D)) (create set : Reply) :
    (∃ sets, (persistAndNotify marshal hash log config o cfg create set).1 =
        withNode hash log b create ++ sets ∧ children sets = []) ∧
      ((persistAndNotify marshal hash log config o cfg create set).2 = none ↔
        hash b ∉ children log ∧ create = .ok ∧ set = .ok) := by
  have hnothing : ∃ sets : List (Event D), log = log ++ sets ∧ children sets = [] :=
    ⟨[], (List.append_nil log).symm, rfl⟩
  by_cases hmem : hash b ∈ children log
  · obtain ⟨err, herr⟩ := archiveConfig_of_mem hmem b create
    simpa [persistAndNotify, hb, hcurrent, herr, withNode, hmem] using hnothing
  · cases create with
    | failed =>
      simpa [persistAndNotify, hb, hcurrent, archiveConfig, Reply.error, withNode] using hnothing
    | ok =>
      obtain ⟨sets, hsets, hnone⟩ := setRoot_log (log ++ [.create (hash b) b]) set
      refine ⟨⟨sets, ?_, hnone⟩, ?_⟩
      · simp [persistAndNotify, hb, hcurrent, archiveConfig_ok hmem, withNode, hmem, hsets]
      · simp [persistAndNotify, hb, hcurrent, archiveConfig_ok hmem, hmem, setRoot_error_iff]
    | lost =>
      obtain ⟨err, herr⟩ := archiveConfig_lost hmem b
      have hnone : ∃ sets : List (Event D), sets = [] ∧ children sets = [] := ⟨[], rfl, rfl⟩
      simpa [persistAndNotify, hb, hcurrent, herr, withNode, hmem] using hnone

/-- No listener ever selects the config if none of its nodes was the newest. -/
theorem unselected_iff (hhash : ∀ d, hash d ≠ "") :
    (∀ rest, (∀ key, Encodes marshal hash cfg key → key ∉ children rest) →
        ∀ z, Listens unmarshal (log ++ rest) z → ∀ key, Encodes marshal hash cfg key → ¬ Selects key z) ↔
      ∀ key, Encodes marshal hash cfg key → ¬ Newest unmarshal log key := by
  constructor
  · intro h key hkey hnewest
    obtain ⟨z, hz, hsel⟩ := exists_listens hnewest
    exact h [] (fun _ _ => List.not_mem_nil) z (by rwa [List.append_nil]) key hkey hsel
  · intro h rest hrest z hz key hkey hsel
    have hnonempty : key ≠ "" := by
      obtain ⟨o, b, -, rfl⟩ := hkey
      exact hhash b
    exact h key hkey ((newest_append (hrest key hkey)).mp (hz.newest hsel hnonempty))

/-- A call can be made again with an order of the maps that has no node. -/
theorem retried_iff (hhash : ∀ d, hash d ≠ "") :
    (∀ rest, (∀ key, Encodes marshal hash cfg key → key ∉ children rest) → ∃ o', ∀ config',
        (persistAndNotify marshal hash (log ++ rest) config' o' cfg .ok .ok).2 = none) ↔
      ∃ key, Encodes marshal hash cfg key ∧ key ∉ children log := by
  constructor
  · intro h
    obtain ⟨o', ho'⟩ := h [] fun _ _ => List.not_mem_nil
    have hdone := ho' ""
    rw [List.append_nil] at hdone
    cases hb : marshal o' cfg with
    | none => simp [persistAndNotify, hb] at hdone
    | some b =>
      obtain ⟨-, herror⟩ := persistAndNotify_spec hb (hhash b) log .ok .ok
      exact ⟨hash b, ⟨o', b, hb, rfl⟩, (herror.mp hdone).1⟩
  · rintro ⟨key, ⟨o', b, hb, rfl⟩, hfree⟩ rest hrest
    refine ⟨o', fun config' => ?_⟩
    by_cases hcurrent : hash b = config'
    · simp [persistAndNotify, hb, hcurrent]
    · obtain ⟨-, herror⟩ := persistAndNotify_spec hb hcurrent (log ++ rest) .ok .ok
      rw [herror, children_append]
      have hkey : Encodes marshal hash cfg (hash b) := ⟨o', b, hb, rfl⟩
      exact ⟨fun hmem => (List.mem_append.mp hmem).elim hfree (hrest _ hkey), rfl, rfl⟩

/-- Sets of the root are not noticed. -/
theorem unnoticed_append {sets : List (Event D)} (hsets : children sets = []) :
    Unnoticed marshal hash unmarshal (log ++ sets) cfg ↔ Unnoticed marshal hash unmarshal log cfg := by
  have hnone : ∀ key, key ∉ children sets := by simp [hsets]
  constructor
  · rintro ⟨hnewest, key, hkey, hfree⟩
    refine ⟨fun key hkey h => hnewest key hkey ((newest_append (hnone key)).mpr h), key, hkey, ?_⟩
    exact fun hmem => hfree (by rw [children_append]; exact List.mem_append_left _ hmem)
  · rintro ⟨hnewest, key, hkey, hfree⟩
    refine ⟨fun key hkey h => hnewest key hkey ((newest_append (hnone key)).mp h), key, hkey, ?_⟩
    rw [children_append, hsets, List.append_nil]
    exact hfree

/-- Of a config with one encoding, such as one with no two entries in a map, all goes unnoticed only if
there is no node and the call does not make it. -/
theorem unnoticed_withNode_iff (hb : marshal o cfg = some b)
    (hone : ∀ o' b', marshal o' cfg = some b' → b' = b) :
    Unnoticed marshal hash unmarshal (withNode hash log b create) cfg ↔
      hash b ∉ children log ∧ create = .failed := by
  have hkeys : ∀ key, Encodes marshal hash cfg key ↔ key = hash b := by
    intro key
    constructor
    · rintro ⟨o', b', hb', rfl⟩
      rw [hone o' b' hb']
    · rintro rfl
      exact ⟨o, b, hb, rfl⟩
  constructor
  · rintro ⟨-, key, hkey, hfree⟩
    rw [(hkeys key).mp hkey, withNode] at hfree
    split_ifs at hfree with hmade
    · exact ⟨hfree, hmade.resolve_right hfree⟩
    · exact absurd (by rw [children_append]; simp [children, nodes]) hfree
  · rintro ⟨hnew, rfl⟩
    rw [withNode, if_pos (Or.inl rfl)]
    refine ⟨fun key hkey hnewest => ?_, hash b, (hkeys _).mpr rfl, hnew⟩
    obtain ⟨pre, d, post, rfl, -⟩ := hnewest
    apply hnew
    rw [← (hkeys key).mp hkey, children_append]
    simp [children, nodes]

end Effects

/-- Whatever the nodes, the config, the orders of its maps and the failures, a call that fails has no
effect if and only if it is clean. -/
theorem failsWithoutEffect_iff {O D : Type} (marshal : O → ServiceConfig → Option D)
    (hash : D → String) (hhash : ∀ d, hash d ≠ "") (unmarshal : D → ServiceConfig)
    (log : List (Event D)) (config : String) (o : O) (cfg : ServiceConfig) (create set : Reply) :
    FailsWithoutEffect marshal hash unmarshal log config o cfg create set ↔
      Clean marshal hash unmarshal log config o cfg create set := by
  have hfails : FailsWithoutEffect marshal hash unmarshal log config o cfg create set ↔
      (persistAndNotify marshal hash log config o cfg create set).2 = none ∨
        Unnoticed marshal hash unmarshal
          (persistAndNotify marshal hash log config o cfg create set).1 cfg := by
    by_cases herr : (persistAndNotify marshal hash log config o cfg create set).2 = none
    · exact iff_of_true ⟨fun h => absurd herr h, fun h => absurd herr h⟩ (Or.inl herr)
    · constructor
      · intro h
        exact Or.inr ⟨(unselected_iff hhash).mp (h.unselected herr),
          (retried_iff hhash).mp (h.retried herr)⟩
      · intro h
        obtain ⟨hnewest, hfree⟩ := h.resolve_left herr
        exact ⟨fun _ => (unselected_iff hhash).mpr hnewest, fun _ => (retried_iff hhash).mpr hfree⟩
  rw [hfails, Clean]
  cases hb : marshal o cfg with
  | none => simp [persistAndNotify, hb]
  | some b =>
    by_cases hcurrent : hash b = config
    · simp [persistAndNotify, hb, hcurrent]
    · obtain ⟨⟨sets, hlog, hsets⟩, herror⟩ := persistAndNotify_spec hb hcurrent log create set
      rw [hlog, unnoticed_append hsets, herror]
      simp [hcurrent]

/-- A config of an old version, whose two orders have two hashes: the reply to its node is lost, and the
call can be made again with the other order. -/
theorem failsWithoutEffect_iff_reordered :
    let marshal (o : Bool) (cfg : ServiceConfig) : Option (Bool × ServiceConfig) := some (o, cfg)
    let hash (d : Bool × ServiceConfig) : String :=
      if d.2.version = 2 then "h2" else if d.1 = true then "h1" else "h1'"
    let log : List (Event (Bool × ServiceConfig)) := [.create "h2" (true, { version := 2 }), .set]
    (persistAndNotify marshal hash log "h2" true { version := 1 } .lost .ok).2 =
        some "zk: connection closed" ∧
      FailsWithoutEffect marshal hash Prod.snd log "h2" true { version := 1 } .lost .ok := by
  intro marshal hash log
  have hhash : ∀ d, hash d ≠ "" := by
    intro d
    simp only [hash]
    split_ifs <;> decide
  refine ⟨rfl, (failsWithoutEffect_iff marshal hash hhash Prod.snd log "h2" true { version := 1 } .lost
    .ok).mpr (Or.inr (Or.inr ⟨?_, "h1'", ⟨false, _, rfl, rfl⟩, by decide⟩))⟩
  intro key hkey hnewest
  obtain ⟨o, b, hb, rfl⟩ := hkey
  cases hb
  have hother : hash (o, { version := 1 }) ≠ "h2" := by cases o <;> decide
  obtain ⟨pre, d, post, hlog, -, -, hle⟩ := hnewest
  have hlog' : [.create "h2" (true, { version := 2 }), .set, .create "h1" (true, { version := 1 })] =
      pre ++ .create (hash (o, { version := 1 })) d :: post := hlog
  -- the node comes after that of version 2
  obtain ⟨rfl, rfl⟩ : pre = log ∧ d = (true, { version := 1 }) := by
    rcases pre with _ | ⟨e₁, _ | ⟨e₂, _ | ⟨e₃, pre⟩⟩⟩
    all_goals simp at hlog'
    · exact absurd hlog'.1.1.symm hother
    · obtain ⟨rfl, rfl, ⟨-, rfl⟩, -⟩ := hlog'
      exact ⟨rfl, rfl⟩
  exact absurd (hle "h2" (by decide)) (by decide)

/-- The root of a new config with one encoding is not set. The next server to list the nodes enforces the
config all the same, and the writer cannot write it any more. -/
theorem unset_root_selected :
    let marshal (_ : Unit) (cfg : ServiceConfig) : Option ServiceConfig := some cfg
    let hash (cfg : ServiceConfig) : String := if cfg.version = 1 then "h1" else "h2"
    let log : List (Event ServiceConfig) := [.create "h1" { version := 1 }, .set]
    let called := persistAndNotify marshal hash log "h1" () { version := 2 } .ok .failed
    called.2 = some "zk: connection closed" ∧
      (∃ z, Listens id (called.1 ++ [.set]) z ∧ Selects "h2" z) ∧
      (persistAndNotify marshal hash called.1 "h1" () { version := 2 } .ok .ok).2 =
        some "zk: node already exists" ∧
      ¬ FailsWithoutEffect marshal hash id log "h1" () { version := 2 } .ok .failed := by
  intro marshal hash log called
  have hselects : ∃ z, Listens id (called.1 ++ [.set]) z ∧ Selects "h2" z :=
    exists_listens ⟨log, { version := 2 }, [.set], rfl, by decide, by decide, by decide⟩
  refine ⟨rfl, hselects, rfl, fun h => ?_⟩
  obtain ⟨z, hz, hsel⟩ := hselects
  exact h.unselected (by decide) [.set] (fun _ _ => List.not_mem_nil) z hz "h2" ⟨(), _, rfl, rfl⟩ hsel

end QuotaService.ZkWatch
