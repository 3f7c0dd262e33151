import QuotaService.Server.Admin
import QuotaService.Server.Notifications
import Mathlib.Data.List.Sort

/-! Servers that share a MySQL table of configs. Each server polls for rows that are newer than the
last one it has seen, and applies the newest with a delay; an update is a row with the version after
that of the config that its server has cloned, and fails if the table has a row of this version. -/
namespace QuotaService.Mysql
open Config Server Admin Notifications

/-- The wire format of configs that all marshal, in one way. A config that has been written and read is a
copy. -/
structure Codec (D : Type) where
  marshal : ServiceConfig → D
  unmarshal : D → Option ServiceConfig
  unmarshal_marshal : ∀ c, unmarshal (marshal c) = some (cloneConfig c)

/-- The wire format as `proto.Marshal` writes it: the entries of maps come in any order `o`, and there is
an error for a config with a string that is not UTF-8. `empty` are no bytes. -/
structure Protobuf (O D : Type) where
  marshal : O → ServiceConfig → Option D
  unmarshal : D → Option ServiceConfig
  empty : D
  unmarshal_marshal : ∀ o c d, marshal o c = some d → unmarshal d = some (cloneConfig c)

/-- The table, whose `Version` column is unique. -/
abbrev Table (D : Type) := AList fun _ : ℤ => D

/-- Where `pullConfigs` is, and the notification that comes after it. -/
inductive Pull (D : Type)
  | idle
  | scanning (rows : List (ℤ × D)) (rowCount : ℕ) (maxVersion : ℤ)
  | notifying

structure MysqlPersister (D : Type) where
  latestVersion : ℤ
  configs : AList fun _ : ℤ => ServiceConfig
  watcher : Bool
  /-- Whether `New` has pulled the first configs. -/
  running : Bool
  pull : Pull D

def newPersister {D : Type} : MysqlPersister D := ⟨-1, ∅, false, false, .idle⟩

def MysqlPersister.readPersistedConfig {D : Type} (mp : MysqlPersister D) : Option ServiceConfig :=
  (mp.configs.lookup mp.latestVersion).map cloneConfig

/-- The rows that `pullConfigs` asks for. -/
def newerRows {D : Type} (table : Table D) (latestVersion : ℤ) : List (ℤ × D) :=
  ((table.entries.map fun e => (e.1, e.2)).filter fun e => latestVersion < e.1).insertionSort
    fun a b => a.1 ≤ b.1

/-- A call of `updateConfig`, with its clone of the config. -/
structure Update where
  updater : ServiceConfig → Outcome
  user : String
  clonedCfg : ServiceConfig

structure MysqlServer (D : Type) where
  persister : MysqlPersister D
  progress : Progress
  cfgs : Option ServiceConfig
  updates : List Update

/-- What a server does by itself: the steps of the poll, of the config listener, and the clone with
which an update begins. -/
inductive Move
  | query
  | scan
  | finish
  | abort
  | notify
  | receive
  | read
  | apply
  | begin (updater : ServiceConfig → Outcome) (user : String)

/-- An update that has been acknowledged, with the config that it has built. -/
structure Acked where
  server : ℕ
  update : Update
  date : ℤ
  cfg : ServiceConfig

structure State (D : Type) where
  table : Table D
  servers : ℕ → MysqlServer D
  acked : List Acked

inductive Action (O : Type)
  | move (i : ℕ) (m : Move)
  | persist (o : O) (i n : ℕ) (date : ℤ)

section Steps
variable {O D : Type} (k : Protobuf O D) (unmarshal : D → Option ServiceConfig)

/-- One row is stored in the map of configs, unless it cannot be decoded. -/
def MysqlPersister.scanRow (mp : MysqlPersister D) (row : ℤ × D) (rows : List (ℤ × D))
    (rowCount : ℕ) (maxVersion : ℤ) : MysqlPersister D :=
  match unmarshal row.2 with
  | none => { mp with pull := .scanning rows (rowCount + 1) maxVersion }
  | some c => { mp with
      configs := mp.configs.insert row.1 c
      pull := .scanning rows (rowCount + 1) row.1 }

def MysqlPersister.pullStep (table : Table D) (mp : MysqlPersister D) :
    Move → Option (MysqlPersister D)
  | .query =>
    match mp.pull with
    | .idle => some { mp with pull := .scanning (newerRows table mp.latestVersion) 0 (-1) }
    | _ => none
  | .scan =>
    match mp.pull with
    | .scanning (row :: rows) rowCount maxVersion =>
      some (mp.scanRow unmarshal row rows rowCount maxVersion)
    | _ => none
  | .finish =>
    -- a connection that breaks ends the rows early, which `pullConfigs` does not notice
    match mp.pull with
    | .scanning _ rowCount maxVersion =>
      if rowCount = 0 then some { mp with pull := if mp.running = true then .idle else .notifying }
      else some { mp with latestVersion := maxVersion, pull := .notifying }
    | _ => none
  | .abort =>
    -- in `New` the error is returned, and there is no persister
    match mp.pull with
    | .scanning _ _ _ => some (if mp.running = true then { mp with pull := .idle } else newPersister)
    | _ => none
  | .notify =>
    match mp.pull with
    | .notifying => some { mp with watcher := true, running := true, pull := .idle }
    | _ => none
  | _ => none

def MysqlServer.step (table : Table D) (srv : MysqlServer D) : Move → Option (MysqlServer D)
  | .receive =>
    if (srv.progress = .starting ∨ srv.progress = .listening) ∧ srv.persister.watcher = true then
      some { srv with
        persister := { srv.persister with watcher := false }
        progress := .received }
    else none
  | .read =>
    if srv.progress = .received then
      match srv.persister.readPersistedConfig with
      | none => some { srv with progress := .listening }
      | some newConfig => some { srv with progress := .holding newConfig }
    else none
  | .apply =>
    match srv.progress with
    | .holding newConfig => some { srv with
        progress := .listening
        cfgs := some (appliedConfig srv.cfgs newConfig) }
    | _ => none
  | .begin updater user =>
    -- on a server without a config the call panics
    srv.cfgs.map fun cfgs => { srv with
      updates := ⟨updater, user, cloneConfig cfgs⟩ :: srv.updates }
  | m => (srv.persister.pullStep unmarshal table m).map fun mp => { srv with persister := mp }

def State.withServer (s : State D) (i : ℕ) (srv : MysqlServer D) : State D :=
  { s with servers := Function.update s.servers i srv }

def step (s : State D) : Action O → Option (State D)
  | .move i m => ((s.servers i).step k.unmarshal s.table m).map (s.withServer i)
  | .persist o i n date =>
    match (s.servers i).updates[n]? with
    | none => none
    | some u =>
      let s' := s.withServer i { s.servers i with updates := (s.servers i).updates.eraseIdx n }
      match updatedConfig u.updater u.user date u.clonedCfg with
      | some (.ok cfg) =>
        if cfg.version ∈ s.table then some s'
        -- the error of `Marshal` is overwritten, and its bytes are inserted
        else some { s' with
          table := s.table.insert cfg.version ((k.marshal o cfg).getD k.empty)
          acked := ⟨i, u, date, cfg⟩ :: s.acked }
      | _ => some s'

end Steps

/-- A table with one row, and servers that have not started. -/
def launched {D : Type} (version : ℤ) (d : D) : State D where
  table := AList.singleton version d
  servers := fun _ => ⟨newPersister, .starting, none, []⟩
  acked := []

/-- The config that the table has under a version. -/
def row {D : Type} (unmarshal : D → Option ServiceConfig) (table : Table D) (version : ℤ) :
    Option ServiceConfig :=
  ((table.lookup version).bind unmarshal).map cloneConfig

/-- What a server makes of a row: the row of the initial version, which was not written by an
update, may have nameless namespaces, and these get their names. -/
def served (initial version : ℤ) (c : ServiceConfig) : ServiceConfig :=
  if version = initial then nameNamespaces c else c

/-- No version is so large that its successor overflows. -/
def Bounded {D : Type} (s : State D) : Prop := ∀ version ∈ s.table.keys, version < 2147483647

/-- The config of a new row marshals. -/
def Marshals {O D : Type} (k : Protobuf O D) (s : State D) : Action O → Prop
  | .persist o i n date => ∀ u ∈ (s.servers i).updates[n]?,
      ∀ cfg ∈ (updatedConfig u.updater u.user date u.clonedCfg).bind Except.toOption,
        cfg.version ∉ s.table → (k.marshal o cfg).isSome = true
  | .move _ _ => True

instance {O D : Type} (k : Protobuf O D) (s : State D) : ∀ a, Decidable (Marshals k s a)
  | .persist _ i n _ => inferInstanceAs (Decidable (∀ u ∈ (s.servers i).updates[n]?, _))
  | .move _ _ => isTrue trivial

/-- The row after the one of `version` was written by the update that cloned this one, as `seen` says
that a server has it. -/
def BuiltBy {D : Type} (unmarshal : D → Option ServiceConfig) (seen : ℤ → ServiceConfig → ServiceConfig)
    (table : Table D) (version : ℤ) (x : Acked) : Prop :=
  ∃ r, row unmarshal table version = some r ∧ x.update.clonedCfg = seen version r ∧
    updatedConfig x.update.updater x.update.user x.date x.update.clonedCfg = some (.ok x.cfg) ∧
    row unmarshal table (version + 1) = some (cloneConfig x.cfg)

/-- The rows are one history from the initial version on, and the servers have rows of it, as `seen`
says. -/
structure OneHistory {D : Type} (unmarshal : D → Option ServiceConfig)
    (seen : ℤ → ServiceConfig → ServiceConfig) (initial : ℤ) (s : State D) : Prop where
  built : ∀ version, initial ≤ version → version + 1 ∈ s.table →
    ∃ x ∈ s.acked, BuiltBy unmarshal seen s.table version x
  acked_once : (s.acked.map (·.update.clonedCfg.version)).Nodup
  interval : ∃ top, ∀ version, version ∈ s.table ↔ initial ≤ version ∧ version ≤ top
  cfgs : ∀ i, ∀ c ∈ (s.servers i).cfgs,
    ∃ r, row unmarshal s.table c.version = some r ∧ c = seen c.version r

section Rows
variable {D : Type} {unmarshal : D → Option ServiceConfig} {table table' : Table D}

/-- The namespaces of a copy are set, so that naming them keeps it a copy. -/
theorem clone_nameNamespaces (cfg : ServiceConfig) :
    cloneConfig (nameNamespaces (cloneConfig cfg)) = nameNamespaces (cloneConfig cfg) := by
  simp only [cloneConfig, nameNamespaces, cloneMap]
  by_cases hlen : cfg.namespaces.len = 0
  · simp only [hlen, if_true]
    rfl
  · simp only [hlen, if_false, GoMap.len_map, GoMap.map_map, Option.map_some, Option.getD_some]
    congr 2
    funext name ns
    have hclone : ∀ c, cloneNamespaceConfig (nameNamespace name (cloneNamespaceConfig c)) =
        nameNamespace name (cloneNamespaceConfig c) := by
      intro c
      have hidem := cloneMap_idem {} (show ∀ b : BucketConfig, id (id b) = id b from fun _ => rfl)
        c.buckets
      unfold nameNamespace cloneNamespaceConfig
      dsimp only
      split_ifs <;> simp only [hidem]
    rw [hclone]

/-- What an update writes has the next version, and no nameless namespaces. -/
theorem updatedConfig_spec {updater : ServiceConfig → Outcome} {user : String} {date : ℤ}
    {base cfg : ServiceConfig} (h : updatedConfig updater user date base = some (.ok cfg)) :
    cfg.version = nextVersion base.version ∧
      nameNamespaces (cloneConfig cfg) = cloneConfig cfg := by
  obtain ⟨edited, filled, -, hfilled, rfl⟩ := updatedConfig_ok h
  refine ⟨rfl, nameNamespaces_eq fun name ns hns => ?_⟩
  have hnormal : Normalised (cloneConfig filled) := ⟨edited, filled, hfilled, Or.inr rfl⟩
  obtain ⟨c, hc, hnormalised⟩ := hnormal.namespace_get hns
  cases hc
  exact hnormalised.name_eq

theorem row_eq_some {version : ℤ} {c : ServiceConfig} : row unmarshal table version = some c ↔
    ∃ d c', table.lookup version = some d ∧ unmarshal d = some c' ∧ cloneConfig c' = c := by
  simp only [row, Option.map_eq_some_iff, Option.bind_eq_some_iff]
  constructor
  · rintro ⟨c', ⟨d, hd, hc'⟩, hc⟩
    exact ⟨d, c', hd, hc', hc⟩
  · rintro ⟨d, c', hd, hc', hc⟩
    exact ⟨c', ⟨d, hd, hc'⟩, hc⟩

/-- Rows are never changed or deleted. -/
def Extends (table table' : Table D) : Prop :=
  ∀ version d, table.lookup version = some d → table'.lookup version = some d

theorem Extends.row (h : Extends table table') {version : ℤ} {c : ServiceConfig}
    (hc : row unmarshal table version = some c) : row unmarshal table' version = some c := by
  obtain ⟨d, c', hd, hc', heq⟩ := row_eq_some.mp hc
  exact row_eq_some.mpr ⟨d, c', h version d hd, hc', heq⟩

theorem extends_insert {version : ℤ} {d : D} (h : version ∉ table) :
    Extends table (table.insert version d) := by
  intro v e he
  have hne : v ≠ version := by
    rintro rfl
    exact h (AList.lookup_isSome.mp (by simp [he]))
  rwa [AList.lookup_insert_ne hne]

theorem mem_newerRows {latestVersion : ℤ} {e : ℤ × D} (h : e ∈ newerRows table latestVersion) :
    table.lookup e.1 = some e.2 := by
  have hmem := (List.mem_filter.mp ((List.mem_insertionSort _).mp h)).1
  obtain ⟨⟨v, d⟩, hentry, rfl⟩ := List.mem_map.mp hmem
  exact AList.mem_lookup_iff.mpr hentry

end Rows

section Invariant
variable {O D : Type} {k : Protobuf O D} {unmarshal : D → Option ServiceConfig} {v₀ : ℤ} {d₀ : D}
  {table table' : Table D} {s s' : State D}

/-- A config that is served as the row of its version. -/
def Served (unmarshal : D → Option ServiceConfig) (v₀ : ℤ) (table : Table D) (c : ServiceConfig) :
    Prop :=
  ∃ r, row unmarshal table c.version = some r ∧ c = served v₀ c.version r

/-- Everything that a server has comes out of the table. -/
structure ServerInv (unmarshal : D → Option ServiceConfig) (v₀ : ℤ) (table : Table D)
    (srv : MysqlServer D) : Prop where
  configs : ∀ version c, srv.persister.configs.lookup version = some c →
    (table.lookup version).bind unmarshal = some c
  rows : ∀ rows rowCount maxVersion, srv.persister.pull = .scanning rows rowCount maxVersion →
    ∀ e ∈ rows, table.lookup e.1 = some e.2
  holding : ∀ c, srv.progress = .holding c → row unmarshal table c.version = some c
  cfgs : ∀ c, srv.cfgs = some c → Served unmarshal v₀ table c
  updates : ∀ u ∈ srv.updates, Served unmarshal v₀ table u.clonedCfg

structure Inv (unmarshal : D → Option ServiceConfig) (v₀ : ℤ) (d₀ : D) (s : State D) : Prop where
  interval : ∃ top, v₀ ≤ top ∧ ∀ version, version ∈ s.table ↔ v₀ ≤ version ∧ version ≤ top
  decodes : ∀ version d, s.table.lookup version = some d →
    ∃ c, unmarshal d = some c ∧ c.version = version
  initial : s.table.lookup v₀ = some d₀
  /-- Updates name all namespaces. -/
  named : ∀ version c, version ≠ v₀ → row unmarshal s.table version = some c → nameNamespaces c = c
  servers : ∀ i, ServerInv unmarshal v₀ s.table (s.servers i)
  built : ∀ version, v₀ ≤ version → version + 1 ∈ s.table →
    ∃ x ∈ s.acked, BuiltBy unmarshal (served v₀) s.table version x
  /-- An acknowledged update has written the row after that of its clone. -/
  acked : ∀ x ∈ s.acked, x.update.clonedCfg.version + 1 ∈ s.table
  nodup : (s.acked.map (·.update.clonedCfg.version)).Nodup

theorem Served.extends {c : ServiceConfig} (h : Served unmarshal v₀ table c)
    (hext : Extends table table') : Served unmarshal v₀ table' c := by
  obtain ⟨r, hr, hc⟩ := h
  exact ⟨r, hext.row hr, hc⟩

theorem BuiltBy.extends {version : ℤ} {x : Acked} (h : BuiltBy unmarshal (served v₀) table version x)
    (hext : Extends table table') : BuiltBy unmarshal (served v₀) table' version x := by
  obtain ⟨r, hr, hcloned, hupdated, hwritten⟩ := h
  exact ⟨r, hext.row hr, hcloned, hupdated, hext.row hwritten⟩

theorem ServerInv.extends {srv : MysqlServer D} (h : ServerInv unmarshal v₀ table srv)
    (hext : Extends table table') : ServerInv unmarshal v₀ table' srv := by
  refine ⟨fun version c hc => ?_, fun rows n m hpull e he => hext _ _ (h.rows rows n m hpull e he),
    fun c hc => hext.row (h.holding c hc), fun c hc => (h.cfgs c hc).extends hext,
    fun u hu => (h.updates u hu).extends hext⟩
  obtain ⟨d, hd, hcd⟩ := Option.bind_eq_some_iff.mp (h.configs version c hc)
  exact Option.bind_eq_some_iff.mpr ⟨d, hext _ _ hd, hcd⟩

/-- The copy of a config that is served is the config itself. -/
theorem Served.clone {c : ServiceConfig} (h : Served unmarshal v₀ table c) : cloneConfig c = c := by
  obtain ⟨r, hr, hc⟩ := h
  obtain ⟨d, c', -, -, rfl⟩ := row_eq_some.mp hr
  rw [hc, served]
  split_ifs
  · exact clone_nameNamespaces c'
  · exact cloneConfig_idem c'

theorem launched_inv {d₀ : D} {c₀ : ServiceConfig} (h₀ : unmarshal d₀ = some c₀) :
    Inv unmarshal c₀.version d₀ (launched c₀.version d₀) := by
  have hlookup : ∀ version d, (launched c₀.version d₀).table.lookup version = some d →
      version = c₀.version ∧ d = d₀ := by
    intro version d hd
    have hentry := List.mem_singleton.mp (AList.mem_lookup_iff.mp hd)
    exact ⟨congrArg Sigma.fst hentry, eq_of_heq (Sigma.mk.inj hentry).2⟩
  have hmem : ∀ version, version ∈ (launched c₀.version d₀).table ↔ version = c₀.version := by
    intro version
    simp [AList.mem_keys, launched]
  constructor
  · refine ⟨c₀.version, le_rfl, fun version => ?_⟩
    rw [hmem]
    exact ⟨fun h => ⟨h.ge, h.le⟩, fun h => le_antisymm h.2 h.1⟩
  · intro version d hd
    obtain ⟨rfl, rfl⟩ := hlookup version d hd
    exact ⟨c₀, h₀, rfl⟩
  · exact AList.lookup_insert ∅
  · intro version c hne hc
    obtain ⟨d, c', hd, -, -⟩ := row_eq_some.mp hc
    exact absurd (hlookup version d hd).1 hne
  · intro i
    constructor <;> simp [launched, newPersister]
  · intro version hle hmem'
    have heq := (hmem _).mp hmem'
    omega
  · exact List.forall_mem_nil _
  · exact List.nodup_nil

theorem withPersister_inv {srv : MysqlServer D} (h : ServerInv unmarshal v₀ table srv)
    (mp : MysqlPersister D)
    (hconfigs : ∀ version c, mp.configs.lookup version = some c →
      (table.lookup version).bind unmarshal = some c)
    (hrows : ∀ rows rowCount maxVersion, mp.pull = .scanning rows rowCount maxVersion →
      ∀ e ∈ rows, table.lookup e.1 = some e.2) :
    ServerInv unmarshal v₀ table { srv with persister := mp } :=
  ⟨hconfigs, hrows, h.holding, h.cfgs, h.updates⟩

theorem scanRow_inv {srv : MysqlServer D} (h : ServerInv unmarshal v₀ table srv) {e : ℤ × D}
    {rows : List (ℤ × D)} {n : ℕ} {maxVersion : ℤ}
    (hpull : srv.persister.pull = .scanning (e :: rows) n maxVersion) :
    ServerInv unmarshal v₀ table
      { srv with persister := srv.persister.scanRow unmarshal e rows n maxVersion } := by
  have hscanned := h.rows _ _ _ hpull
  unfold MysqlPersister.scanRow
  cases hc : unmarshal e.2 with
  | none =>
    refine withPersister_inv h _ h.configs ?_
    intro rows' n' max' heq
    cases heq
    exact fun e' he' => hscanned e' (List.mem_cons_of_mem _ he')
  | some c =>
    apply withPersister_inv h _
    · intro version c' hc'
      by_cases hv : version = e.1
      · subst hv
        rw [AList.lookup_insert] at hc'
        cases hc'
        rw [hscanned e List.mem_cons_self]
        exact hc
      · rw [AList.lookup_insert_ne hv] at hc'
        exact h.configs version c' hc'
    · intro rows' n' max' heq
      cases heq
      exact fun e' he' => hscanned e' (List.mem_cons_of_mem _ he')

/-- The steps of the poll keep what has been scanned in the table. -/
theorem pullStep_inv {srv : MysqlServer D} (h : ServerInv unmarshal v₀ table srv) {m : Move}
    {mp : MysqlPersister D} (hs : srv.persister.pullStep unmarshal table m = some mp) :
    ServerInv unmarshal v₀ table { srv with persister := mp } := by
  cases m with
  | query =>
    simp only [MysqlPersister.pullStep] at hs
    split at hs
    · cases hs
      refine withPersister_inv h _ h.configs ?_
      intro rows n maxVersion heq
      cases heq
      exact fun e he => mem_newerRows he
    · cases hs
  | scan =>
    simp only [MysqlPersister.pullStep] at hs
    split at hs
    · rename_i hpull
      cases hs
      exact scanRow_inv h hpull
    · cases hs
  | finish =>
    simp only [MysqlPersister.pullStep] at hs
    split at hs
    · split_ifs at hs <;> cases hs <;>
        exact withPersister_inv h _ h.configs fun _ _ _ heq => nomatch heq
    · cases hs
  | abort =>
    simp only [MysqlPersister.pullStep] at hs
    split at hs
    · split_ifs at hs <;> cases hs
      · exact withPersister_inv h _ h.configs fun _ _ _ heq => nomatch heq
      · apply withPersister_inv h _
        · intro version c hc
          simp [newPersister] at hc
        · intro rows n maxVersion heq
          simp [newPersister] at heq
    · cases hs
  | notify =>
    simp only [MysqlPersister.pullStep] at hs
    split at hs
    · cases hs
      exact withPersister_inv h _ h.configs fun _ _ _ heq => nomatch heq
    · cases hs
  | receive | read | apply | begin updater user => cases hs

/-- What the persister reads is a row. -/
theorem readPersistedConfig_row (hinv : Inv unmarshal v₀ d₀ s) {i : ℕ} {c : ServiceConfig}
    (hc : (s.servers i).persister.readPersistedConfig = some c) :
    row unmarshal s.table c.version = some c := by
  obtain ⟨c', hc', rfl⟩ := Option.map_eq_some_iff.mp hc
  obtain ⟨d, hd, hcd⟩ := Option.bind_eq_some_iff.mp ((hinv.servers i).configs _ _ hc')
  obtain ⟨c'', hc'', hversion⟩ := hinv.decodes _ _ hd
  cases hcd.symm.trans hc''
  refine row_eq_some.mpr ⟨d, c', ?_, hcd, rfl⟩
  rw [show (cloneConfig c').version = c'.version from rfl, hversion]
  exact hd

/-- A config with a row of its own is applied as this row. -/
theorem appliedConfig_served (hinv : Inv unmarshal v₀ d₀ s) {cfgs : Option ServiceConfig}
    (hcfgs : ∀ c, cfgs = some c → Served unmarshal v₀ s.table c) {newConfig : ServiceConfig}
    (hnew : row unmarshal s.table newConfig.version = some newConfig) :
    Served unmarshal v₀ s.table (appliedConfig cfgs newConfig) := by
  cases cfgs with
  | none =>
    refine ⟨newConfig, hnew, ?_⟩
    by_cases hversion : newConfig.version = v₀
    · exact (if_pos hversion).symm
    · exact (hinv.named _ _ hversion hnew).trans (if_neg hversion).symm
  | some c =>
    have hc := hcfgs c rfl
    simp only [appliedConfig]
    split_ifs with hle
    · exact hc
    · -- the initial version is the smallest of the table
      obtain ⟨top, -, hinterval⟩ := hinv.interval
      obtain ⟨r, hr, -⟩ := hc
      obtain ⟨d, -, hd, -, -⟩ := row_eq_some.mp hr
      have hmem : c.version ∈ s.table := AList.lookup_isSome.mp (by simp [hd])
      have hne : newConfig.version ≠ v₀ := by
        have hlow := ((hinterval _).mp hmem).1
        omega
      exact ⟨newConfig, hnew, by rw [served, if_neg hne]⟩

theorem server_step_inv (hinv : Inv unmarshal v₀ d₀ s) {i : ℕ} {m : Move} {srv : MysqlServer D}
    (hs : (s.servers i).step unmarshal s.table m = some srv) : ServerInv unmarshal v₀ s.table srv := by
  have h := hinv.servers i
  have hpull : ∀ {m}, ((s.servers i).persister.pullStep unmarshal s.table m).map
      (fun mp => { s.servers i with persister := mp }) = some srv →
        ServerInv unmarshal v₀ s.table srv := by
    intro m hs
    obtain ⟨mp, hmp, rfl⟩ := Option.map_eq_some_iff.mp hs
    exact pullStep_inv h hmp
  cases m with
  | query | scan | finish | abort | notify => exact hpull hs
  | receive =>
    simp only [MysqlServer.step] at hs
    split_ifs at hs
    cases hs
    exact ⟨h.configs, h.rows, fun _ hc => (nomatch hc), h.cfgs, h.updates⟩
  | read =>
    simp only [MysqlServer.step] at hs
    split_ifs at hs
    split at hs
    · cases hs
      exact ⟨h.configs, h.rows, fun _ hc => (nomatch hc), h.cfgs, h.updates⟩
    · rename_i newConfig hread
      cases hs
      refine ⟨h.configs, h.rows, fun c hc => ?_, h.cfgs, h.updates⟩
      cases hc
      exact readPersistedConfig_row hinv hread
  | apply =>
    simp only [MysqlServer.step] at hs
    split at hs
    · rename_i newConfig hholding
      cases hs
      refine ⟨h.configs, h.rows, fun _ hc => (nomatch hc), fun c hc => ?_, h.updates⟩
      cases hc
      exact appliedConfig_served hinv h.cfgs (h.holding newConfig hholding)
    · cases hs
  | begin updater user =>
    obtain ⟨cfgs, hcfgs, rfl⟩ := Option.map_eq_some_iff.mp hs
    refine ⟨h.configs, h.rows, h.holding, h.cfgs, fun u hu => ?_⟩
    rcases List.mem_cons.mp hu with rfl | hu
    · have hserved := h.cfgs cfgs hcfgs
      rw [show cloneConfig cfgs = cfgs from hserved.clone]
      exact hserved
    · exact h.updates u hu

theorem withServer_inv (hinv : Inv unmarshal v₀ d₀ s) {i : ℕ} {srv : MysqlServer D}
    (hsrv : ServerInv unmarshal v₀ s.table srv) : Inv unmarshal v₀ d₀ (s.withServer i srv) := by
  refine ⟨hinv.interval, hinv.decodes, hinv.initial, hinv.named, fun j => ?_, hinv.built,
    hinv.acked, hinv.nodup⟩
  by_cases hj : j = i
  · subst hj
    simpa [State.withServer] using hsrv
  · simpa [State.withServer, hj] using hinv.servers j

/-- An update that finds no row of its version has cloned the last one. -/
theorem written_last (hinv : Inv unmarshal v₀ d₀ s) {c cfg : ServiceConfig}
    (hserved : Served unmarshal v₀ s.table c)
    (hbound : ∀ version ∈ s.table.keys, version < 2147483647)
    (hnext : cfg.version = nextVersion c.version) (hfresh : cfg.version ∉ s.table) :
    cfg.version = c.version + 1 ∧ v₀ ≤ c.version ∧
      ∀ version, version ∈ s.table ↔ v₀ ≤ version ∧ version ≤ c.version := by
  obtain ⟨top, htop, hinterval⟩ := hinv.interval
  obtain ⟨r, hr, -⟩ := hserved
  have hmem : c.version ∈ s.table := by
    obtain ⟨e, -, he, -, -⟩ := row_eq_some.mp hr
    exact AList.lookup_isSome.mp (by simp [he])
  have hversion : cfg.version = c.version + 1 := by
    have hlt := hbound _ (AList.mem_keys.mp hmem)
    rw [hnext, nextVersion, if_neg (by omega)]
  have hlast : c.version = top := by
    have hbase := (hinterval _).mp hmem
    have hnew := mt (hinterval _).mpr hfresh
    omega
  subst hlast
  exact ⟨hversion, htop, hinterval⟩

/-- A row of a new version is written by an update: its version is that of its clone, the largest
one of the table, and one. -/
theorem written_inv (hinv : Inv unmarshal v₀ d₀ s) {i : ℕ} {u : Update} {date : ℤ} {cfg : ServiceConfig}
    (hserved : Served unmarshal v₀ s.table u.clonedCfg)
    (hbound : ∀ version ∈ s.table.keys, version < 2147483647)
    (hupdated : updatedConfig u.updater u.user date u.clonedCfg = some (.ok cfg))
    (hfresh : cfg.version ∉ s.table) {d : D} (hd : unmarshal d = some (cloneConfig cfg)) :
    Inv unmarshal v₀ d₀ { s with
      table := s.table.insert cfg.version d
      acked := ⟨i, u, date, cfg⟩ :: s.acked } := by
  obtain ⟨hnext, hnamed⟩ := updatedConfig_spec hupdated
  obtain ⟨hversion, hbase, hinterval⟩ := written_last hinv hserved hbound hnext hfresh
  obtain ⟨r, hr, hcloned⟩ := hserved
  have hext : Extends s.table (s.table.insert cfg.version d) := extends_insert hfresh
  have hself : row unmarshal (s.table.insert cfg.version d) cfg.version =
      some (cloneConfig cfg) := by
    refine row_eq_some.mpr ⟨d, cloneConfig cfg, AList.lookup_insert _, hd, cloneConfig_idem cfg⟩
  have hother : ∀ {version}, version ≠ cfg.version →
      (s.table.insert cfg.version d).lookup version = s.table.lookup version :=
    fun hne => AList.lookup_insert_ne hne
  refine ⟨⟨cfg.version, by omega, fun version => ?_⟩, ?_, hext _ _ hinv.initial, ?_,
    fun j => (hinv.servers j).extends hext, ?_, ?_, ?_⟩
  · rw [AList.mem_insert, hinterval]
    omega
  · intro version e he
    by_cases hv : version = cfg.version
    · subst hv
      rw [AList.lookup_insert] at he
      cases he
      exact ⟨cloneConfig cfg, hd, rfl⟩
    · exact hinv.decodes version e ((hother hv).symm.trans he)
  · intro version c hne hc
    by_cases hv : version = cfg.version
    · subst hv
      cases hself.symm.trans hc
      exact hnamed
    · apply hinv.named version c hne
      rw [row, ← hother hv]
      exact hc
  · intro version hle hmem'
    by_cases hv : version + 1 = cfg.version
    · have hbase : version = u.clonedCfg.version := by omega
      subst hbase
      refine ⟨_, List.mem_cons_self, r, hext.row hr, hcloned, hupdated, ?_⟩
      rw [hv]
      exact hself
    · have hold : version + 1 ∈ s.table := by
        rcases (AList.mem_insert _).mp hmem' with heq | hold
        · exact absurd heq hv
        · exact hold
      obtain ⟨x, hx, hbuilt⟩ := hinv.built version hle hold
      exact ⟨x, List.mem_cons_of_mem _ hx, hbuilt.extends hext⟩
  · intro x hx
    rcases List.mem_cons.mp hx with rfl | hx
    · exact (AList.mem_insert _).mpr (Or.inl hversion.symm)
    · exact (AList.mem_insert _).mpr (Or.inr (hinv.acked x hx))
  · refine List.nodup_cons.mpr ⟨fun hx => ?_, hinv.nodup⟩
    -- a second update of the same clone would have found the row of the first
    obtain ⟨x, hx, heq⟩ := List.mem_map.mp hx
    have hrow := hinv.acked x hx
    rw [heq, ← hversion] at hrow
    exact hfresh hrow

theorem step_inv (hinv : Inv k.unmarshal v₀ d₀ s) {a : Action O} (hbound : Bounded s)
    (hmarshals : Marshals k s a) (hs : step k s a = some s') : Inv k.unmarshal v₀ d₀ s' := by
  cases a with
  | move i m =>
    obtain ⟨srv, hsrv, rfl⟩ := Option.map_eq_some_iff.mp hs
    exact withServer_inv hinv (server_step_inv hinv hsrv)
  | persist o i n date =>
    have h := hinv.servers i
    simp only [step] at hs
    cases hu : (s.servers i).updates[n]? with
    | none => simp [hu] at hs
    | some u =>
      have hserved := h.updates u (List.mem_of_getElem? hu)
      have hended : Inv k.unmarshal v₀ d₀ (s.withServer i
          { s.servers i with updates := (s.servers i).updates.eraseIdx n }) :=
        withServer_inv hinv ⟨h.configs, h.rows, h.holding, h.cfgs,
          fun u' hu' => h.updates u' (List.mem_of_mem_eraseIdx hu')⟩
      simp only [hu] at hs
      split at hs
      · rename_i cfg hupdated
        split_ifs at hs with hdup
        · cases hs
          exact hended
        · cases hs
          have hwritten := hmarshals u hu cfg (by rw [hupdated]; rfl) hdup
          obtain ⟨d, hd⟩ := Option.isSome_iff_exists.mp hwritten
          rw [hd]
          exact written_inv hended hserved hbound hupdated hdup (k.unmarshal_marshal o cfg d hd)
      · cases hs
        exact hended

end Invariant

/-- In every run over a table of one row, as long as no version overflows and every config that is
written marshals, the rows are one history. A server names the nameless namespaces of the initial row;
if there are none, every server has exactly the row of its version. -/
theorem history_never_forks {O D : Type} (k : Protobuf O D) (d₀ : D) (c₀ : ServiceConfig)
    (h₀ : k.unmarshal d₀ = some c₀) (actions : List (Action O)) (s : State D)
    (hbound : Machine.Along (step k) (fun s _ => Bounded s) (launched c₀.version d₀) actions)
    (hmarshals : Machine.Along (step k) (Marshals k) (launched c₀.version d₀) actions)
    (hrun : Machine.run (step k) (launched c₀.version d₀) actions = some s) :
    OneHistory k.unmarshal (served c₀.version) c₀.version s ∧
      (nameNamespaces (cloneConfig c₀) = cloneConfig c₀ →
        OneHistory k.unmarshal (fun _ r => r) c₀.version s) := by
  have hinv : Inv k.unmarshal c₀.version d₀ s :=
    Machine.run_induction (Inv k.unmarshal c₀.version d₀)
      (fun _ _ _ h hok hs => step_inv h hok.1 hok.2 hs) (launched_inv h₀)
      (Machine.along_and hbound hmarshals) hrun
  obtain ⟨top, -, hinterval⟩ := hinv.interval
  refine ⟨⟨hinv.built, hinv.nodup, ⟨top, hinterval⟩, fun i => (hinv.servers i).cfgs⟩, fun hnamed => ?_⟩
  have hserved : ∀ {version r}, row k.unmarshal s.table version = some r →
      served c₀.version version r = r := by
    intro version r hr
    unfold served
    split_ifs with hversion
    · subst hversion
      obtain ⟨d, c, hd, hc, rfl⟩ := row_eq_some.mp hr
      cases hd.symm.trans hinv.initial
      cases hc.symm.trans h₀
      exact hnamed
    · rfl
  refine ⟨fun version hle hmem => ?_, hinv.nodup, ⟨top, hinterval⟩, fun i c hc => ?_⟩
  · obtain ⟨x, hx, r, hr, hcloned, hbuilt⟩ := hinv.built version hle hmem
    exact ⟨x, hx, r, hr, hcloned.trans (hserved hr), hbuilt⟩
  · obtain ⟨r, hr, heq⟩ := (hinv.servers i).cfgs c hc
    exact ⟨r, hr, heq.trans (hserved hr)⟩

/-- A format that copies, of strings whose characters stand for bytes: one with the byte FF is not
UTF-8. No bytes are the config without any fields. -/
def copying : Protobuf Unit ServiceConfig where
  marshal _ c := if '\xff' ∈ c.user.toList then none else some (cloneConfig c)
  unmarshal := some
  empty := {}
  unmarshal_marshal _ c d h := by
    split_ifs at h
    exact h.symm

/-- A poll of a server, up to the application of the config that it reads. -/
def poll (i : ℕ) : List (Action Unit) :=
  [.query, .scan, .finish, .notify, .receive, .read, .apply].map (.move i)

/-- Two servers race with updates of the initial config: one of them is acknowledged, and the other
server polls its row. -/
theorem history_never_forks_raced :
    let add (name : String) := Change.updater (.op (.addNamespace { name := name }))
    ∃ s, Machine.run (step copying) (launched 0 {})
        (poll 0 ++ poll 1 ++ [.move 0 (.begin (add "a") "u"), .move 1 (.begin (add "b") "v"),
          .persist () 0 0 0, .persist () 1 0 0] ++ poll 1) = some s ∧
      s.acked.map (·.server) = [0] ∧
      (∃ x ∈ s.acked, BuiltBy copying.unmarshal (fun _ r => r) s.table 0 x) ∧
      ∃ c, (s.servers 1).cfgs = some c ∧ c.version = 1 ∧ row copying.unmarshal s.table 1 = some c := by
  intro add
  obtain ⟨s, hrun, hacked, hrow, hcfgs⟩ : ∃ s, Machine.run (step copying) (launched 0 {})
      (poll 0 ++ poll 1 ++ [.move 0 (.begin (add "a") "u"), .move 1 (.begin (add "b") "v"),
        .persist () 0 0 0, .persist () 1 0 0] ++ poll 1) = some s ∧
        (s.acked.map (·.server) = [0] ∧ (1 : ℤ) ∈ s.table ∧
          (s.servers 1).cfgs.map (·.version) = some 1) := Machine.exists_run (by decide)
  obtain ⟨-, hnamed⟩ := history_never_forks copying {} {} rfl _ s (by unfold Bounded; decide)
    (by decide) hrun
  have hhistory := hnamed (by decide)
  refine ⟨s, hrun, hacked, hhistory.built 0 le_rfl hrow, ?_⟩
  obtain ⟨c, hc, hversion⟩ := Option.map_eq_some_iff.mp hcfgs
  obtain ⟨r, hr, rfl⟩ := hhistory.cfgs 1 c hc
  exact ⟨_, hc, hversion, hversion ▸ hr⟩

/-- An update by a user whose name is not UTF-8 is acknowledged, and its row is empty. A server that
starts then has the config without any fields, which is no row, and writes the next row after it. -/
theorem unmarshalled_row_forks :
    let update (user : String) (i : ℕ) : List (Action Unit) :=
      [.move i (.begin (Change.updater (.op (.addNamespace { name := "a" }))) user), .persist () i 0 0]
    ∃ s, Machine.run (step copying) (launched 3 { version := 3 })
        (poll 0 ++ update "\xff" 0 ++ [.move 1 .query, .move 1 .scan] ++ (poll 1).tail ++ update "u" 1) =
          some s ∧
      s.acked.map (fun x => (x.server, x.cfg.version)) = [(1, 1), (0, 4)] ∧
      row copying.unmarshal s.table 4 = some {} ∧ (s.servers 1).cfgs = some {} ∧
      row copying.unmarshal s.table 0 = none ∧ s.table.keys = [1, 4, 3] ∧
      ¬ OneHistory copying.unmarshal (fun _ r => r) 3 s := by
  intro update
  obtain ⟨s, hrun, hacked, hempty, hcfgs, hrow, hkeys⟩ :
      ∃ s, Machine.run (step copying) (launched 3 { version := 3 })
        (poll 0 ++ update "\xff" 0 ++ [.move 1 .query, .move 1 .scan] ++ (poll 1).tail ++ update "u" 1) =
          some s ∧
        (s.acked.map (fun x => (x.server, x.cfg.version)) = [(1, 1), (0, 4)] ∧
          row copying.unmarshal s.table 4 = some {} ∧ (s.servers 1).cfgs = some {} ∧
          row copying.unmarshal s.table 0 = none ∧ s.table.keys = [1, 4, 3]) :=
    Machine.exists_run (by decide)
  refine ⟨s, hrun, hacked, hempty, hcfgs, hrow, hkeys, fun h => ?_⟩
  obtain ⟨r, hr, -⟩ := h.cfgs 1 {} hcfgs
  cases hrow.symm.trans hr

/-- The initial row has a nameless namespace: the server has it with a name, and the first update
clones it with this name. -/
theorem initial_row_renamed :
    let initial : ServiceConfig := { namespaces := .table (AList.singleton "a" (some {})) }
    let named : ServiceConfig :=
      { namespaces := .table (AList.singleton "a" (some { name := "a" })) }
    ∃ s, Machine.run (step copying) (launched 0 initial)
        (poll 0 ++ [.move 0 (.begin (Change.updater (.op (.deleteNamespace "a"))) "u"),
          .persist () 0 0 0]) = some s ∧
      row copying.unmarshal s.table 0 = some initial ∧ (s.servers 0).cfgs = some named ∧
      s.acked.map (·.update.clonedCfg) = [named] ∧ named ≠ initial := by
  intro initial named
  obtain ⟨s, hrun, hs⟩ : ∃ s, Machine.run (step copying) (launched 0 initial)
      (poll 0 ++ [.move 0 (.begin (Change.updater (.op (.deleteNamespace "a"))) "u"),
        .persist () 0 0 0]) = some s ∧
        (row copying.unmarshal s.table 0 = some initial ∧ (s.servers 0).cfgs = some named ∧
          s.acked.map (·.update.clonedCfg) = [named] ∧ named ≠ initial) :=
    Machine.exists_run (by decide)
  exact ⟨s, hrun, hs⟩

end QuotaService.Mysql
