import QuotaService.Server.Mysql

/-! The polls of one MySQL persister while its table grows. A poll asks for the rows that are newer
than the last one it knows, and its running maximum starts from -1 every time, so that a poll which
finds nothing but rows that cannot be decoded forgets what the persister had. -/
namespace QuotaService.Mysql
open Config

section Polls
variable {D : Type} (k : Codec D)

/-- The body of the loop over the rows, with the map of configs and the running maximum. -/
def scanned (s : (AList fun _ : ℤ => ServiceConfig) × ℤ) (row : ℤ × D) :
    (AList fun _ : ℤ => ServiceConfig) × ℤ :=
  match k.unmarshal row.2 with
  | none => s
  | some c => (s.1.insert row.1 c, row.1)

/-- `pullConfigs` on the rows that the connection delivers, and whether it reports a new config. -/
def MysqlPersister.pullConfigs (mp : MysqlPersister D) (rows : List (ℤ × D)) :
    MysqlPersister D × Bool :=
  let s := rows.foldl (scanned k) (mp.configs, -1)
  if rows.length = 0 then (mp, false)
  else ({ mp with configs := s.1, latestVersion := s.2 }, true)

/-- A table and its persister, with the rows that have been pulled. -/
structure Polling (D : Type) where
  table : Table D
  persister : MysqlPersister D
  pulled : List (ℤ × D)

/-- A row is inserted, or a call of `pullConfigs` is delivered some of the newer rows, in order. All
of them, unless the connection breaks, which the call does not notice. -/
inductive Poll (D : Type)
  | insert (version : ℤ) (d : D)
  | pullConfigs (delivered : ℕ)

namespace Polling

def start (table : Table D) : Polling D := ⟨table, newPersister, []⟩

def rows (s : Polling D) (delivered : ℕ) : List (ℤ × D) :=
  (newerRows s.table s.persister.latestVersion).take delivered

/-- The state after a call of `pullConfigs`. -/
def pull (s : Polling D) (delivered : ℕ) : Polling D :=
  { s with
    persister := (s.persister.pullConfigs k (s.rows delivered)).1
    pulled := s.pulled ++ s.rows delivered }

def step (s : Polling D) : Poll D → Option (Polling D)
  | .insert version d =>
    if version ∈ s.table then none else some { s with table := s.table.insert version d }
  | .pullConfigs delivered => some (s.pull k delivered)

/-- The config of the largest version among those that have been pulled and can be decoded. -/
def Newest (s : Polling D) (version : ℤ) (c : ServiceConfig) : Prop :=
  (∃ d, (version, d) ∈ s.pulled ∧ k.unmarshal d = some c) ∧
    ∀ row ∈ s.pulled, (k.unmarshal row.2).isSome = true → row.1 ≤ version

/-- The persister does not move backwards in a poll: not in its version, nor in the config that it
reads; and it reports a new config only if there is one. -/
structure Advances (s : Polling D) (delivered : ℕ) : Prop where
  latestVersion : s.persister.latestVersion ≤ (s.pull k delivered).persister.latestVersion
  read : ∀ version c, (s.pull k delivered).Newest k version c →
    (s.pull k delivered).persister.readPersistedConfig = some (cloneConfig c)
  reported : (s.persister.pullConfigs k (s.rows delivered)).2 = true →
    ∃ version c, (s.pull k delivered).Newest k version c ∧ ¬ s.Newest k version c

/-- A poll does not move the persister backwards. -/
def Forwards (s : Polling D) : Poll D → Prop
  | .insert _ _ => True
  | .pullConfigs delivered => s.Advances k delivered

/-- A poll that is delivered rows can decode one of them. -/
def Readable (s : Polling D) : Poll D → Prop
  | .insert _ _ => True
  | .pullConfigs delivered => (s.rows delivered).length ≠ 0 →
    ∃ row ∈ s.rows delivered, (k.unmarshal row.2).isSome = true

instance (s : Polling D) : ∀ a, Decidable (s.Readable k a)
  | .insert _ _ => isTrue trivial
  | .pullConfigs delivered => inferInstanceAs (Decidable ((s.rows delivered).length ≠ 0 → _))

end Polling

end Polls

section Scan
variable {D : Type} {k : Codec D} {table : Table D}

theorem pullConfigs_nil (mp : MysqlPersister D) {rows : List (ℤ × D)} (h : rows.length = 0) :
    mp.pullConfigs k rows = (mp, false) := if_pos h

theorem pullConfigs_of_length_ne (mp : MysqlPersister D) {rows : List (ℤ × D)}
    (h : rows.length ≠ 0) : mp.pullConfigs k rows = ({ mp with
      configs := (rows.foldl (scanned k) (mp.configs, -1)).1
      latestVersion := (rows.foldl (scanned k) (mp.configs, -1)).2 }, true) := if_neg h

/-- The scans of a poll are the loop over the rows that are delivered. -/
theorem scan_steps (delivered : ℕ) {rows : List (ℤ × D)} (mp : MysqlPersister D) {rowCount : ℕ}
    {maxVersion : ℤ} (hpull : mp.pull = .scanning rows rowCount maxVersion)
    (hle : delivered ≤ rows.length) :
    Machine.run (MysqlPersister.pullStep k.unmarshal table) mp (List.replicate delivered .scan) =
      some { mp with
        configs := ((rows.take delivered).foldl (scanned k) (mp.configs, maxVersion)).1
        pull := .scanning (rows.drop delivered) (rowCount + delivered)
          ((rows.take delivered).foldl (scanned k) (mp.configs, maxVersion)).2 } := by
  induction delivered generalizing rows mp rowCount maxVersion with
  | zero => simp [← hpull]
  | succ n ih =>
    cases rows with
    | nil => simp at hle
    | cons row rows =>
      have hstep : mp.pullStep k.unmarshal table .scan = some (mp.scanRow k.unmarshal row rows rowCount maxVersion) := by
        simp [MysqlPersister.pullStep, hpull]
      have hn : n ≤ rows.length := by simpa using hle
      rw [List.replicate_succ, Machine.run_cons, hstep, Option.bind_some]
      cases hc : k.unmarshal row.2 with
      | none =>
        have hscan : (mp.scanRow k.unmarshal row rows rowCount maxVersion).pull =
            .scanning rows (rowCount + 1) maxVersion := by
          simp [MysqlPersister.scanRow, hc]
        rw [ih _ hscan hn]
        simp [MysqlPersister.scanRow, scanned, hc, Nat.add_assoc, Nat.add_comm 1 n]
      | some c =>
        have hscan : (mp.scanRow k.unmarshal row rows rowCount maxVersion).pull =
            .scanning rows (rowCount + 1) row.1 := by
          simp [MysqlPersister.scanRow, hc]
        rw [ih _ hscan hn]
        simp [MysqlPersister.scanRow, scanned, hc, Nat.add_assoc, Nat.add_comm 1 n]

/-- The steps of the poll of a server, taken without an interruption, are a call of `pullConfigs`. -/
theorem pullConfigs_steps (mp : MysqlPersister D) (hidle : mp.pull = .idle)
    (hrunning : mp.running = true) {delivered : ℕ}
    (hle : delivered ≤ (newerRows table mp.latestVersion).length) :
    Machine.run (MysqlPersister.pullStep k.unmarshal table) mp
        (.query :: List.replicate delivered .scan ++ [.finish]) =
      some { (mp.pullConfigs k ((newerRows table mp.latestVersion).take delivered)).1 with
        pull := if delivered = 0 then .idle else .notifying } := by
  have hquery : mp.pullStep k.unmarshal table .query =
      some { mp with pull := .scanning (newerRows table mp.latestVersion) 0 (-1) } := by
    simp [MysqlPersister.pullStep, hidle]
  rw [List.cons_append, Machine.run_cons, hquery, Option.bind_some, Machine.run_append,
    scan_steps delivered _ rfl hle]
  by_cases hzero : delivered = 0
  · subst hzero
    simp [MysqlPersister.pullStep, MysqlPersister.pullConfigs, hrunning]
  · have hlength : ((newerRows table mp.latestVersion).take delivered).length ≠ 0 := by
      rw [List.length_take]
      omega
    rw [pullConfigs_of_length_ne mp hlength]
    simp [MysqlPersister.pullStep, hzero]

theorem newerRows_pairwise (table : Table D) (latestVersion : ℤ) :
    (newerRows table latestVersion).Pairwise fun a b => a.1 ≤ b.1 := by
  have htotal : Std.Total fun a b : ℤ × D => a.1 ≤ b.1 := ⟨fun a b => le_total a.1 b.1⟩
  have htrans : IsTrans (ℤ × D) fun a b => a.1 ≤ b.1 := ⟨fun _ _ _ => le_trans⟩
  exact List.pairwise_insertionSort _ _

theorem lt_of_mem_newerRows {latestVersion : ℤ} {row : ℤ × D}
    (h : row ∈ newerRows table latestVersion) : latestVersion < row.1 := by
  have hmem := (List.mem_filter.mp ((List.mem_insertionSort _).mp h)).2
  simpa using hmem

/-- Nothing that is scanned can be decoded, or the loop ends with the last row that can. -/
theorem foldl_scanned {rows : List (ℤ × D)} (hrows : rows.Pairwise fun a b => a.1 ≤ b.1)
    (s : (AList fun _ : ℤ => ServiceConfig) × ℤ) :
    (∀ row ∈ rows, k.unmarshal row.2 = none) ∧ rows.foldl (scanned k) s = s ∨
      ∃ row ∈ rows, ∃ c, k.unmarshal row.2 = some c ∧
        (rows.foldl (scanned k) s).2 = row.1 ∧
        (rows.foldl (scanned k) s).1.lookup row.1 = some c ∧
        ∀ row' ∈ rows, (k.unmarshal row'.2).isSome = true → row'.1 ≤ row.1 := by
  induction rows using List.reverseRecOn with
  | nil => exact Or.inl ⟨by simp, rfl⟩
  | append_singleton rows last ih =>
    obtain ⟨hinit, -, hle⟩ := List.pairwise_append.mp hrows
    rw [List.foldl_append, List.foldl_cons, List.foldl_nil, scanned]
    cases hlast : k.unmarshal last.2 with
    | none =>
      have hsome : ∀ row ∈ rows ++ [last], (k.unmarshal row.2).isSome = true → row ∈ rows := by
        intro row hrow hdec
        rcases List.mem_append.mp hrow with hrow | hrow
        · exact hrow
        · rw [List.mem_singleton.mp hrow, hlast] at hdec
          cases hdec
      rcases ih hinit with ⟨hnone, heq⟩ | ⟨row, hrow, c, hc, hversion, hlookup, hmax⟩
      · refine Or.inl ⟨?_, heq⟩
        simpa [or_imp, forall_and, hlast] using hnone
      · refine Or.inr ⟨row, List.mem_append_left _ hrow, c, hc, hversion, hlookup, ?_⟩
        intro row' hrow' hdec
        exact hmax row' (hsome row' hrow' hdec) hdec
    | some c =>
      refine Or.inr ⟨last, by simp, c, hlast, rfl, AList.lookup_insert _, ?_⟩
      intro row hrow _
      rcases List.mem_append.mp hrow with hrow | hrow
      · exact hle row hrow last (by simp)
      · rw [List.mem_singleton.mp hrow]

end Scan

namespace Polling
variable {D : Type} {k : Codec D} {s s' : Polling D} {table : Table D}

/-- What is pulled are rows of the table, and the persister has the newest of them that can be
decoded under its version. -/
structure Current (k : Codec D) (s : Polling D) : Prop where
  rows : ∀ row ∈ s.pulled, s.table.lookup row.1 = some row.2
  low : -1 ≤ s.persister.latestVersion
  newest : (∀ row ∈ s.pulled, k.unmarshal row.2 = none) ∧ s.persister.latestVersion = -1 ∨
    ∃ c, s.Newest k s.persister.latestVersion c ∧
      s.persister.configs.lookup s.persister.latestVersion = some c

theorem start_current (table : Table D) : Current k (start table) :=
  ⟨by simp [start], le_refl _, Or.inl ⟨by simp [start], rfl⟩⟩

theorem Current.bound (h : Current k s) {row : ℤ × D} (hrow : row ∈ s.pulled)
    (hdec : (k.unmarshal row.2).isSome = true) : row.1 ≤ s.persister.latestVersion := by
  rcases h.newest with ⟨hnone, -⟩ | ⟨c, hnewest, -⟩
  · rw [hnone row hrow] at hdec
    cases hdec
  · exact hnewest.2 row hrow hdec

/-- There is one newest config. -/
theorem Current.newest_unique (h : Current k s) {version version' : ℤ} {c c' : ServiceConfig}
    (hc : s.Newest k version c) (hc' : s.Newest k version' c') : version = version' ∧ c = c' := by
  obtain ⟨⟨d, hd, hdec⟩, hmax⟩ := hc
  obtain ⟨⟨d', hd', hdec'⟩, hmax'⟩ := hc'
  have heq : version = version' :=
    le_antisymm (hmax' _ hd (by simp [hdec])) (hmax _ hd' (by simp [hdec']))
  subst heq
  have hrow : some d = some d' := (h.rows (version, d) hd).symm.trans (h.rows (version, d') hd')
  cases hrow
  exact ⟨rfl, Option.some.inj (hdec.symm.trans hdec')⟩

theorem Current.read (h : Current k s) {version : ℤ} {c : ServiceConfig}
    (hc : s.Newest k version c) :
    s.persister.readPersistedConfig = some (cloneConfig c) := by
  rcases h.newest with ⟨hnone, -⟩ | ⟨c', hnewest, hlookup⟩
  · obtain ⟨⟨d, hd, hdec⟩, -⟩ := hc
    have hdec' : k.unmarshal d = none := hnone _ hd
    rw [hdec'] at hdec
    cases hdec
  · obtain ⟨-, rfl⟩ := h.newest_unique hc hnewest
    rw [MysqlPersister.readPersistedConfig, hlookup, Option.map_some]

theorem mem_rows {delivered : ℕ} {row : ℤ × D} (h : row ∈ s.rows delivered) :
    s.table.lookup row.1 = some row.2 ∧ s.persister.latestVersion < row.1 := by
  have hmem := List.mem_of_mem_take h
  exact ⟨mem_newerRows hmem, lt_of_mem_newerRows hmem⟩

theorem pull_of_nil {delivered : ℕ} (h : (s.rows delivered).length = 0) : s.pull k delivered = s := by
  have hnil : s.rows delivered = [] := List.length_eq_zero_iff.mp h
  unfold pull
  rw [pullConfigs_nil _ h, hnil, List.append_nil]

/-- A poll that can decode a row ends with the newest one, which is newer than all before. -/
theorem Current.pull_readable (h : Current k s) {delivered : ℕ} {row : ℤ × D}
    (hrow : row ∈ s.rows delivered) (hdec : (k.unmarshal row.2).isSome = true) :
    s.persister.latestVersion < (s.pull k delivered).persister.latestVersion ∧
      ∃ c, (s.pull k delivered).Newest k (s.pull k delivered).persister.latestVersion c ∧
        (s.pull k delivered).persister.configs.lookup
          (s.pull k delivered).persister.latestVersion = some c := by
  have hlength : (s.rows delivered).length ≠ 0 := (List.length_pos_of_mem hrow).ne'
  have hsorted : (s.rows delivered).Pairwise fun a b => a.1 ≤ b.1 :=
    (newerRows_pairwise s.table s.persister.latestVersion).sublist (List.take_sublist _ _)
  rcases foldl_scanned hsorted (s.persister.configs, -1) with ⟨hnone, -⟩ |
    ⟨last, hlast, c, hc, hversion, hlookup, hmax⟩
  · rw [hnone row hrow] at hdec
    cases hdec
  · have hlatest : (s.pull k delivered).persister.latestVersion = last.1 := by
      rw [pull, pullConfigs_of_length_ne _ hlength]
      exact hversion
    rw [hlatest]
    refine ⟨(mem_rows hlast).2, c, ⟨⟨last.2, List.mem_append_right _ hlast, hc⟩, ?_⟩, ?_⟩
    · intro row' hrow' hdec'
      rcases List.mem_append.mp hrow' with hrow' | hrow'
      · exact (h.bound hrow' hdec').trans (mem_rows hlast).2.le
      · exact hmax row' hrow' hdec'
    · rw [pull, pullConfigs_of_length_ne _ hlength]
      exact hlookup

theorem Current.pull (h : Current k s) {delivered : ℕ}
    (hok : s.Readable k (.pullConfigs delivered)) : Current k (s.pull k delivered) := by
  by_cases hlength : (s.rows delivered).length = 0
  · rw [pull_of_nil hlength]
    exact h
  · obtain ⟨row, hrow, hdec⟩ := hok hlength
    obtain ⟨hlt, c, hnewest, hlookup⟩ := h.pull_readable hrow hdec
    refine ⟨fun row' hrow' => ?_, by have := h.low; omega, Or.inr ⟨c, hnewest, hlookup⟩⟩
    rcases List.mem_append.mp hrow' with hrow' | hrow'
    · exact h.rows row' hrow'
    · exact (mem_rows hrow').1

theorem step_current (h : Current k s) {a : Poll D} (hok : s.Readable k a)
    (hs : s.step k a = some s') : Current k s' := by
  cases a with
  | insert version d =>
    simp only [step] at hs
    split_ifs at hs with hmem
    cases hs
    exact ⟨fun row hrow => extends_insert hmem _ _ (h.rows row hrow), h.low, h.newest⟩
  | pullConfigs delivered =>
    cases hs
    exact h.pull hok

/-- As long as the persister is current, a poll moves it forwards if and only if it is delivered
nothing or a row that can be decoded. -/
theorem Current.forwards_iff (h : Current k s) (a : Poll D) : s.Forwards k a ↔ s.Readable k a := by
  cases a with
  | insert version d => exact Iff.rfl
  | pullConfigs delivered =>
    constructor
    · intro hadvances hlength
      have hreport : (s.persister.pullConfigs k (s.rows delivered)).2 = true := by
        rw [pullConfigs_of_length_ne _ hlength]
      obtain ⟨version, c, ⟨⟨d, hd, hdec⟩, hmax⟩, hnot⟩ := hadvances.reported hreport
      by_contra hnone
      push Not at hnone
      -- the newest config was there before the poll
      apply hnot
      refine ⟨⟨d, ?_, hdec⟩, fun row hrow => hmax row (List.mem_append_left _ hrow)⟩
      rcases List.mem_append.mp hd with hd | hd
      · exact hd
      · exact absurd (by simp [hdec]) (hnone _ hd)
    · intro hok
      have hcurrent := h.pull hok
      by_cases hlength : (s.rows delivered).length = 0
      · refine ⟨by rw [pull_of_nil hlength], fun version c => hcurrent.read, ?_⟩
        rw [pullConfigs_nil _ hlength]
        intro hreport
        cases hreport
      · obtain ⟨row, hrow, hdec⟩ := hok hlength
        obtain ⟨hlt, c, hnewest, -⟩ := h.pull_readable hrow hdec
        refine ⟨hlt.le, fun version c => hcurrent.read, fun _ => ⟨_, c, hnewest, ?_⟩⟩
        rintro ⟨⟨d, hd, hdec'⟩, -⟩
        have hle := h.bound hd (by simp [hdec'])
        dsimp only at hle
        omega

end Polling

/-- In every sequence of polls of a growing table, the persister never moves backwards if and only if
every poll that is delivered rows can decode one of them. -/
theorem never_backwards_iff {D : Type} (k : Codec D) (table : Table D) (actions : List (Poll D)) :
    Machine.Along (Polling.step k) (Polling.Forwards k) (.start table) actions ↔
      Machine.Along (Polling.step k) (Polling.Readable k) (.start table) actions :=
  Machine.along_congr (Polling.Current k) (fun _ a h => h.forwards_iff a)
    (fun _ a _ h hf hs => Polling.step_current h ((h.forwards_iff a).mp hf) hs)
    (Polling.start_current table)

/-- A codec of copies, and of bytes that are no config. -/
def damaged : Codec (Option ServiceConfig) := ⟨fun c => some (cloneConfig c), id, fun _ => rfl⟩

/-- The first poll gets a config of version 1, and a row of version 2 that cannot be decoded. The
second poll gets this row only: it reports a new config, and there is none to be read any more. -/
theorem undecodable_row_forgets :
    let actions : List (Poll (Option ServiceConfig)) := [.insert 1 (some { version := 1 }),
      .insert 2 none, .pullConfigs 2, .pullConfigs 1]
    ¬ Machine.Along (Polling.step damaged) (Polling.Forwards damaged) (.start ∅) actions ∧
      ((Machine.run (Polling.step damaged) (.start ∅) (actions.take 3)).any fun s =>
        s.persister.latestVersion = 1 ∧
          s.persister.readPersistedConfig = some { version := 1 } ∧
          (s.persister.pullConfigs damaged (s.rows 1)).2 = true) = true ∧
      ((Machine.run (Polling.step damaged) (.start ∅) actions).any fun s =>
        s.persister.latestVersion = -1 ∧ s.persister.readPersistedConfig = none) = true := by
  intro actions
  refine ⟨fun h => ?_, by decide, by decide⟩
  have hlast := (((h.2 _ rfl).2 _ rfl).2 _ rfl).1
  exact absurd hlast.latestVersion (by decide)

end QuotaService.Mysql
