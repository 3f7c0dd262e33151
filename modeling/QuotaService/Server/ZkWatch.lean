import QuotaService.Server.Zookeeper
import QuotaService.Lib.Machine

/-! The Zookeeper watch protocol. A writer creates a node for its config and then sets the root; a
server watches the root, lists the nodes, gets each of them and publishes the newest. Zookeeper is a
log of creates and sets; a server reads a prefix of it, which never shrinks. A watch fires for a set
after the point of the log at which it was registered. -/
namespace QuotaService.ZkWatch
open Config Server

inductive Event (D : Type)
  | create (hash : String) (data : D)
  | set
deriving DecidableEq

def nodes {D : Type} (log : List (Event D)) : List (String × D) :=
  log.filterMap fun
    | .create hash data => some (hash, data)
    | .set => none

def children {D : Type} (log : List (Event D)) : List String := (nodes log).map Prod.fst

def get {D : Type} (log : List (Event D)) (hash : String) : Option D :=
  ((nodes log).find? fun e => e.1 = hash).map Prod.snd

/-- Where `waitForEvents` and the listener that it calls are. A watch is known by the length of the
log when it was registered. -/
inductive Loop
  /-- It waits on a channel that has fired, and which is closed, or calls the listener first. -/
  | fired
  | waiting (watch : ℕ)
  /-- `GetW` has returned. -/
  | watched (watch : ℕ)
  /-- It has listed the children, and scanned them except for `rest`. -/
  | scanning (watch : ℕ) (rest : List String) (scan : Scan)
deriving DecidableEq

structure ZkServer where
  /-- How much of the log it has seen. -/
  view : ℕ
  loop : Loop
  persister : ZkConfigPersister

/-- `writers` are those that are between `Create` and `Set`. -/
structure State (ι D : Type) where
  log : List (Event D)
  writers : List String
  servers : ι → ZkServer

inductive Action (ι D : Type)
  | create (hash : String) (data : D)
  | set (hash : String)
  | sync (i : ι) (view : ℕ)
  | fire (i : ι)
  | getW (i : ι)
  | children (i : ι) (order : List String)
  | get (i : ι)
  | publish (i : ι)
  | fail (i : ι)

section Steps
variable {ι D : Type} [DecidableEq ι] (unmarshal : D → ServiceConfig)

def launched : State ι D := ⟨[], [], fun _ => ⟨0, .fired, ⟨false, "", ∅, false⟩⟩⟩

def State.withLoop (s : State ι D) (i : ι) (loop : Loop) : State ι D :=
  { s with servers := Function.update s.servers i { s.servers i with loop := loop } }

def isSet : Event D → Bool
  | .create _ _ => false
  | .set => true

/-- An event of the watch has been sent and not been received. -/
def Pending (log : List (Event D)) (watch : ℕ) : Prop := ∃ e ∈ log.drop watch, isSet e = true

instance (log : List (Event D)) (watch : ℕ) : Decidable (Pending log watch) :=
  inferInstanceAs (Decidable (∃ e ∈ log.drop watch, isSet e = true))

def step (s : State ι D) : Action ι D → Option (State ι D)
  | .create hash data =>
    if hash ∈ ZkWatch.children s.log then none
    else some { s with log := s.log ++ [.create hash data], writers := hash :: s.writers }
  | .set hash =>
    if hash ∈ s.writers then
      some { s with log := s.log ++ [.set], writers := s.writers.erase hash }
    else none
  | .sync i view =>
    if (s.servers i).view ≤ view ∧ view ≤ s.log.length then
      some { s with servers := Function.update s.servers i { s.servers i with view := view } }
    else none
  | .fire i =>
    match (s.servers i).loop with
    | .waiting watch => if Pending s.log watch then some (s.withLoop i .fired) else none
    | _ => none
  | .getW i =>
    match (s.servers i).loop with
    | .fired => some (s.withLoop i (.watched (s.servers i).view))
    | _ => none
  | .children i order =>
    match (s.servers i).loop with
    | .watched watch =>
      if order.Perm (ZkWatch.children (s.log.take (s.servers i).view)) then
        some (s.withLoop i (.scanning watch order ⟨∅, 0, ""⟩))
      else none
    | _ => none
  | .get i =>
    match (s.servers i).loop with
    | .scanning watch (hash :: rest) scan =>
      (scanChild unmarshal (ZkWatch.get (s.log.take (s.servers i).view)) scan hash).map fun scan' =>
        s.withLoop i (.scanning watch rest scan')
    | _ => none
  | .publish i =>
    match (s.servers i).loop with
    | .scanning watch [] scan => some { s with
        servers := Function.update s.servers i { s.servers i with
          loop := .waiting watch
          persister := { (s.servers i).persister with
            configs := scan.configs
            config := scan.latestHash
            watcher := true
            initialized := true } } }
    | _ => none
  -- a step fails, or the session that the watch belongs to
  | .fail i => some (s.withLoop i .fired)

end Steps

section Runs
variable {ι D : Type} {unmarshal : D → ServiceConfig} {s s' : State ι D}

/-- No writer is between `Create` and `Set`, no event is pending, and every server waits on a
registered watch. -/
def Quiet (s : State ι D) : Prop :=
  s.writers = [] ∧ ∀ i, ∃ watch, (s.servers i).loop = .waiting watch ∧ ¬ Pending s.log watch

/-- The versions that are written are distinct, and not negative. -/
def Distinct (unmarshal : D → ServiceConfig) (s : State ι D) : Action ι D → Prop
  | .create _ data => 0 ≤ (unmarshal data).version ∧
      ∀ e ∈ nodes s.log, (unmarshal e.2).version ≠ (unmarshal data).version
  | _ => True

instance decidableDistinct (unmarshal : D → ServiceConfig) (s : State ι D) :
    ∀ a, Decidable (Distinct unmarshal s a)
  | .create _ data => inferInstanceAs (Decidable (0 ≤ (unmarshal data).version ∧
      ∀ e ∈ nodes s.log, (unmarshal e.2).version ≠ (unmarshal data).version))
  | .set _ | .sync _ _ | .fire _ | .getW _ | .children _ _ | .get _ | .publish _ | .fail _ =>
    isTrue trivial

/-- A writer is on its way, or its set is in the log. -/
def Announced (s : State ι D) : Prop :=
  ∀ pre hash data post, s.log = pre ++ .create hash data :: post →
    hash ∈ s.writers ∨ ∃ e ∈ post, isSet e = true

/-- What a server has scanned or published was all there when it had registered its watch, at
least. -/
def LoopInv (unmarshal : D → ServiceConfig) (log : List (Event D)) (srv : ZkServer) : Prop :=
  match srv.loop with
  | .fired => True
  | .waiting watch => ∃ seen order z, watch ≤ seen ∧ seen ≤ srv.view ∧
      order.Perm (children (log.take seen)) ∧
      currentConfigEventListener unmarshal (get log) order z = some srv.persister
  | .watched watch => watch ≤ srv.view
  | .scanning watch rest scan => ∃ seen done, watch ≤ seen ∧ seen ≤ srv.view ∧
      (done ++ rest).Perm (children (log.take seen)) ∧
      done.foldlM (scanChild unmarshal (get log)) ⟨∅, 0, ""⟩ = some scan

structure Inv (unmarshal : D → ServiceConfig) (s : State ι D) : Prop where
  announced : Announced s
  unique : (children s.log).Nodup
  nonneg : ∀ e ∈ nodes s.log, 0 ≤ (unmarshal e.2).version
  distinct : ∀ e ∈ nodes s.log, ∀ e' ∈ nodes s.log,
    (unmarshal e.2).version = (unmarshal e'.2).version → e = e'
  views : ∀ i, (s.servers i).view ≤ s.log.length
  loops : ∀ i, LoopInv unmarshal s.log (s.servers i)

section Log
variable {log log' : List (Event D)} {hash : String} {data : D}

theorem nodes_append (log log' : List (Event D)) : nodes (log ++ log') = nodes log ++ nodes log' :=
  List.filterMap_append

theorem children_append (log log' : List (Event D)) :
    children (log ++ log') = children log ++ children log' := by
  simp [children, nodes_append]

theorem mem_nodes : (hash, data) ∈ nodes log ↔ Event.create hash data ∈ log := by
  simp only [nodes, List.mem_filterMap]
  constructor
  · rintro ⟨e, he, heq⟩
    cases e with
    | create h d =>
      cases heq
      exact he
    | set => cases heq
  · exact fun he => ⟨_, he, rfl⟩

theorem get_append (log log' : List (Event D)) (hash : String) :
    get (log ++ log') hash = (get log hash).or (get log' hash) := by
  simp only [get, nodes_append, List.find?_append]
  cases (nodes log).find? fun e => e.1 = hash <;> rfl

theorem exists_get (h : hash ∈ children log) :
    ∃ data, get log hash = some data ∧ (hash, data) ∈ nodes log := by
  obtain ⟨e, he, rfl⟩ := List.mem_map.mp h
  obtain ⟨e', he'⟩ : ∃ e', (nodes log).find? (fun x => x.1 = e.1) = some e' :=
    Option.isSome_iff_exists.mp (List.find?_isSome.mpr ⟨e, he, by simp⟩)
  have hname : e'.1 = e.1 := by simpa using List.find?_some he'
  refine ⟨e'.2, by simp [get, he'], ?_⟩
  rw [← hname]
  exact List.mem_of_find?_eq_some he'

/-- A node that a prefix of the log has is the same in the log. -/
theorem get_append_of_mem (h : hash ∈ children log) : get (log ++ log') hash = get log hash := by
  obtain ⟨data, hdata, -⟩ := exists_get h
  rw [get_append, hdata]
  rfl

theorem get_take_of_mem {n : ℕ} (h : hash ∈ children (log.take n)) :
    get (log.take n) hash = get log hash := by
  conv_rhs => rw [← List.take_append_drop n log]
  exact (get_append_of_mem h).symm

theorem children_take_subset {n m : ℕ} (hle : n ≤ m) (h : hash ∈ children (log.take n)) :
    hash ∈ children (log.take m) := by
  obtain ⟨rest, hrest⟩ := (List.take_prefix_take_left hle : log.take n <+: log.take m)
  rw [← hrest, children_append]
  exact List.mem_append_left _ h

theorem foldlM_scanChild_congr {g g' : String → Option D} {l : List String}
    (h : ∀ hash ∈ l, g hash = g' hash) (scan : Scan) :
    l.foldlM (scanChild unmarshal g) scan = l.foldlM (scanChild unmarshal g') scan := by
  induction l generalizing scan with
  | nil => rfl
  | cons hash l ih =>
    have hhead : scanChild unmarshal g scan hash = scanChild unmarshal g' scan hash := by
      simp only [scanChild, h hash List.mem_cons_self]
    simp only [List.foldlM_cons, hhead]
    exact bind_congr fun scan' => ih (fun x hx => h x (List.mem_cons_of_mem _ hx)) scan'

theorem get_of_mem (hunique : (children log).Nodup) (h : (hash, data) ∈ nodes log) :
    get log hash = some data := by
  obtain ⟨data', hdata', hmem⟩ := exists_get (List.mem_map_of_mem h)
  cases List.inj_on_of_nodup_map hunique hmem h rfl
  exact hdata'

/-- What has been scanned and published stands when the log grows. -/
theorem LoopInv.append {srv : ZkServer} (h : LoopInv unmarshal log srv)
    (hview : srv.view ≤ log.length) (e : Event D) : LoopInv unmarshal (log ++ [e]) srv := by
  have htake : ∀ {seen}, seen ≤ srv.view → (log ++ [e]).take seen = log.take seen := fun hseen =>
    List.take_append_of_le_length (hseen.trans hview)
  have hget : ∀ {seen}, ∀ hash ∈ children (log.take seen), get log hash = get (log ++ [e]) hash := by
    intro seen hash hh
    have hmem := children_take_subset (le_max_left seen log.length) hh
    rw [List.take_of_length_le (le_max_right seen log.length)] at hmem
    exact (get_append_of_mem hmem).symm
  unfold LoopInv at h ⊢
  cases hloop : srv.loop with
  | fired => trivial
  | watched watch => simpa [hloop] using h
  | waiting watch =>
    simp only [hloop] at h ⊢
    obtain ⟨seen, order, z, hwatch, hseen, hperm, hz⟩ := h
    refine ⟨seen, order, z, hwatch, hseen, by rwa [htake hseen], ?_⟩
    rw [currentConfigEventListener, ← hz, currentConfigEventListener]
    congr 1
    exact (foldlM_scanChild_congr (fun hash hh => hget hash (hperm.mem_iff.mp hh)) _).symm
  | scanning watch rest scan =>
    simp only [hloop] at h ⊢
    obtain ⟨seen, done, hwatch, hseen, hperm, hscan⟩ := h
    refine ⟨seen, done, hwatch, hseen, by rwa [htake hseen], ?_⟩
    rw [← hscan]
    refine (foldlM_scanChild_congr (fun hash hh => hget hash (hperm.mem_iff.mp ?_)) _).symm
    exact List.mem_append_left _ hh

end Log

theorem launched_inv : Inv unmarshal (launched : State ι D) := by
  refine ⟨?_, List.nodup_nil, List.forall_mem_nil _, List.forall_mem_nil _, fun _ => le_rfl,
    fun _ => trivial⟩
  intro pre hash data post h
  simp [launched] at h

section Preservation
variable [DecidableEq ι]

theorem withServer_inv (h : Inv unmarshal s) {i : ι} {srv : ZkServer}
    (hview : srv.view ≤ s.log.length) (hloop : LoopInv unmarshal s.log srv) :
    Inv unmarshal { s with servers := Function.update s.servers i srv } := by
  refine ⟨h.announced, h.unique, h.nonneg, h.distinct, fun j => ?_, fun j => ?_⟩ <;>
    by_cases hj : j = i
  · subst hj
    simpa using hview
  · simpa [hj] using h.views j
  · subst hj
    simpa using hloop
  · simpa [hj] using h.loops j

theorem withLoop_inv (h : Inv unmarshal s) {i : ι} {loop : Loop}
    (hloop : LoopInv unmarshal s.log { s.servers i with loop := loop }) :
    Inv unmarshal (s.withLoop i loop) :=
  withServer_inv h (h.views i) hloop

/-- What is in a list with another element at its end. -/
theorem append_singleton_cases {α : Type*} {l pre post : List α} {x y : α}
    (h : l ++ [y] = pre ++ x :: post) :
    (post = [] ∧ x = y) ∨ ∃ post', post = post' ++ [y] ∧ l = pre ++ x :: post' := by
  rcases List.eq_nil_or_concat post with rfl | ⟨post', z, rfl⟩
  · obtain ⟨-, hlast⟩ := List.append_inj' h rfl
    exact Or.inl ⟨rfl, (List.cons.inj hlast).1.symm⟩
  · have h' : l ++ [y] = (pre ++ x :: post') ++ [z] := by simpa using h
    obtain ⟨hl, hlast⟩ := List.append_inj' h' rfl
    cases hlast
    exact Or.inr ⟨post', List.concat_eq_append, hl⟩

theorem create_inv (h : Inv unmarshal s) {hash : String} {data : D}
    (hdistinct : Distinct unmarshal s (.create hash data))
    (hs : step unmarshal s (.create hash data) = some s') : Inv unmarshal s' := by
  simp only [step] at hs
  split_ifs at hs with hfresh
  cases hs
  have hnodes : nodes (s.log ++ [.create hash data]) = nodes s.log ++ [(hash, data)] :=
    nodes_append _ _
  obtain ⟨hnonneg, hne⟩ := hdistinct
  refine ⟨?_, ?_, ?_, ?_, fun i => ?_, fun i => (h.loops i).append (h.views i) _⟩
  · intro pre hash' data' post heq
    rcases append_singleton_cases heq with ⟨-, hlast⟩ | ⟨post', rfl, hlog⟩
    · cases hlast
      exact Or.inl List.mem_cons_self
    · rcases h.announced pre hash' data' post' hlog with hwriter | ⟨e', he', hset⟩
      · exact Or.inl (List.mem_cons_of_mem _ hwriter)
      · exact Or.inr ⟨e', by simp [he'], hset⟩
  · rw [children_append]
    apply List.Nodup.append h.unique (List.nodup_singleton hash)
    intro x hx hx'
    rw [List.mem_singleton.mp hx'] at hx
    exact hfresh hx
  · intro e he
    rw [hnodes] at he
    rcases List.mem_append.mp he with he | he
    · exact h.nonneg e he
    · rw [List.mem_singleton.mp he]
      exact hnonneg
  · intro e he e' he' hversion
    rw [hnodes] at he he'
    rcases List.mem_append.mp he with he | he <;> rcases List.mem_append.mp he' with he' | he'
    · exact h.distinct e he e' he' hversion
    · rw [List.mem_singleton.mp he'] at hversion
      exact absurd hversion (hne e he)
    · rw [List.mem_singleton.mp he] at hversion
      exact absurd hversion.symm (hne e' he')
    · rw [List.mem_singleton.mp he, List.mem_singleton.mp he']
  · exact (h.views i).trans (by simp)

theorem set_inv (h : Inv unmarshal s) {hash : String}
    (hs : step unmarshal s (.set hash) = some s') : Inv unmarshal s' := by
  simp only [step] at hs
  split_ifs at hs
  cases hs
  have hnodes : nodes (s.log ++ [.set]) = nodes s.log := by simp [nodes]
  refine ⟨?_, ?_, ?_, ?_, fun i => ?_, fun i => (h.loops i).append (h.views i) _⟩
  · intro pre hash' data' post heq
    rcases append_singleton_cases heq with ⟨-, hlast⟩ | ⟨post', rfl, -⟩
    · cases hlast
    · exact Or.inr ⟨.set, by simp, rfl⟩
  · simpa only [children, hnodes] using h.unique
  · simpa only [hnodes] using h.nonneg
  · simpa only [hnodes] using h.distinct
  · exact (h.views i).trans (by simp)

/-- Every step of a server keeps what it has seen tied to its watch. -/
theorem step_inv (h : Inv unmarshal s) {a : Action ι D} (hdistinct : Distinct unmarshal s a)
    (hs : step unmarshal s a = some s') : Inv unmarshal s' := by
  cases a with
  | create hash data => exact create_inv h hdistinct hs
  | set hash => exact set_inv h hs
  | fail i =>
    cases hs
    exact withLoop_inv h trivial
  | sync i view =>
    simp only [step] at hs
    split_ifs at hs with hview
    cases hs
    apply withServer_inv h hview.2
    have hloop := h.loops i
    unfold LoopInv at hloop ⊢
    cases heq : (s.servers i).loop with
    | fired => trivial
    | watched watch =>
      simp only [heq] at hloop ⊢
      exact hloop.trans hview.1
    | waiting watch =>
      simp only [heq] at hloop ⊢
      obtain ⟨seen, order, z, hwatch, hseen, hrest⟩ := hloop
      exact ⟨seen, order, z, hwatch, hseen.trans hview.1, hrest⟩
    | scanning watch rest scan =>
      simp only [heq] at hloop ⊢
      obtain ⟨seen, done, hwatch, hseen, hrest⟩ := hloop
      exact ⟨seen, done, hwatch, hseen.trans hview.1, hrest⟩
  | fire i =>
    simp only [step] at hs
    split at hs
    · split_ifs at hs
      cases hs
      exact withLoop_inv h trivial
    · cases hs
  | getW i =>
    simp only [step] at hs
    split at hs
    · cases hs
      apply withLoop_inv h
      exact le_refl (s.servers i).view
    · cases hs
  | children i order =>
    simp only [step] at hs
    split at hs
    · rename_i watch hloop
      split_ifs at hs with hperm
      cases hs
      have hwatched := h.loops i
      simp only [LoopInv, hloop] at hwatched
      exact withLoop_inv h ⟨(s.servers i).view, [], hwatched, le_rfl, hperm, rfl⟩
    · cases hs
  | get i =>
    simp only [step] at hs
    split at hs
    · rename_i watch hash rest scan hloop
      obtain ⟨scan', hscan', rfl⟩ := Option.map_eq_some_iff.mp hs
      have hscanning := h.loops i
      simp only [LoopInv, hloop] at hscanning
      obtain ⟨seen, done, hwatch, hseen, hperm, hscan⟩ := hscanning
      refine withLoop_inv h ⟨seen, done ++ [hash], hwatch, hseen, by simpa using hperm, ?_⟩
      have hmem : hash ∈ children (s.log.take (s.servers i).view) :=
        children_take_subset hseen (hperm.mem_iff.mp (by simp))
      rw [List.foldlM_append, hscan]
      simp only [scanChild, get_take_of_mem hmem] at hscan'
      simp [scanChild, hscan']
    · cases hs
  | publish i =>
    simp only [step] at hs
    split at hs
    · rename_i watch scan hloop
      cases hs
      have hscanning := h.loops i
      simp only [LoopInv, hloop] at hscanning
      obtain ⟨seen, done, hwatch, hseen, hperm, hscan⟩ := hscanning
      refine withServer_inv h (h.views i) ⟨seen, done, (s.servers i).persister, hwatch, hseen,
        by simpa using hperm, ?_⟩
      rw [currentConfigEventListener, hscan]
      rfl
    · cases hs

end Preservation

/-- Nothing is written after the registration of a watch for which no event is pending. -/
theorem children_of_not_pending (h : Announced s) (hwriters : s.writers = []) {watch seen : ℕ}
    (hpending : ¬ Pending s.log watch) (hle : watch ≤ seen) :
    children (s.log.take seen) = children s.log := by
  have hnone : nodes (s.log.drop seen) = [] := by
    by_contra hne
    obtain ⟨⟨hash, data⟩, hmem⟩ := List.exists_mem_of_ne_nil _ hne
    obtain ⟨pre, post, hdrop⟩ := List.append_of_mem (mem_nodes.mp hmem)
    have hlog : s.log = (s.log.take seen ++ pre) ++ .create hash data :: post := by
      rw [List.append_assoc, ← hdrop, List.take_append_drop]
    rcases h _ hash data post hlog with hwriter | ⟨e, he, hset⟩
    · simp [hwriters] at hwriter
    · refine hpending ⟨e, ?_, hset⟩
      have hsuffix : s.log.drop seen <:+ s.log.drop watch := List.drop_suffix_drop_left _ hle
      exact hsuffix.subset (by rw [hdrop]; simp [he])
  have hall := children_append (s.log.take seen) (s.log.drop seen)
  rw [List.take_append_drop] at hall
  rw [hall]
  simp [children, hnone]

/-- A quiet server has the node with the highest version. -/
theorem current_of_quiet (h : Inv unmarshal s) (hwriters : s.writers = []) {i : ι} {watch : ℕ}
    (hloop : (s.servers i).loop = .waiting watch) (hpending : ¬ Pending s.log watch)
    {e : String × D} (he : e ∈ nodes s.log)
    (hmax : ∀ e' ∈ nodes s.log, (unmarshal e'.2).version ≤ (unmarshal e.2).version) :
    (s.servers i).persister.current = some (unmarshal e.2) := by
  have hwaiting := h.loops i
  simp only [LoopInv, hloop] at hwaiting
  obtain ⟨seen, order, z, hwatch, -, hperm, hz⟩ := hwaiting
  rw [children_of_not_pending h.announced hwriters hpending hwatch] at hperm
  have hnodes : ∀ hash ∈ children s.log, ∃ d, get s.log hash = some d ∧
      0 ≤ (unmarshal d).version := by
    intro hash hh
    obtain ⟨d, hd, hmem⟩ := exists_get hh
    exact ⟨d, hd, h.nonneg _ hmem⟩
  obtain ⟨z', hz', hcurrent, hlatest⟩ := processed hnodes hperm z
  cases hz.symm.trans hz'
  cases hcur : (s.servers i).persister.current with
  | none =>
    -- there is a node, so one has been selected
    have hnodes' : ∀ hash ∈ order, ∃ d, get s.log hash = some d ∧ 0 ≤ (unmarshal d).version :=
      fun hash hh => hnodes hash (hperm.mem_iff.mp hh)
    rw [hcur, eq_comm, Option.map_eq_none_iff,
      Selection.select_eq_none (version_nonneg hnodes')] at hcurrent
    have hmem : e.1 ∈ order := hperm.mem_iff.mpr (List.mem_map_of_mem he)
    simp [hcurrent] at hmem
  | some cfg =>
    obtain ⟨hash, ⟨hmem, hlargest⟩, hcfg⟩ := hlatest cfg hcur
    obtain ⟨d, hd, hnode⟩ := exists_get hmem
    have hself : node unmarshal (get s.log) e.1 = unmarshal e.2 := by
      simp [node, get_of_mem h.unique he]
    have hcfg' : cfg = unmarshal d := by
      rw [← hcfg]
      simp [node, hd]
    have hversion : (unmarshal e.2).version = (unmarshal d).version := by
      refine le_antisymm ?_ (hmax _ hnode)
      have hle : (node unmarshal (get s.log) e.1).version ≤
          (node unmarshal (get s.log) hash).version := hlargest e.1 (List.mem_map_of_mem he)
      rwa [hself, hcfg, hcfg'] at hle
    cases h.distinct e he _ hnode hversion
    rw [hcfg']

end Runs

/-- In every run in which configs of distinct versions are written, a quiet state is one in which
every server's current config is the one with the highest version of all nodes. -/
theorem no_version_missed {ι D : Type} [DecidableEq ι] (unmarshal : D → ServiceConfig)
    (actions : List (Action ι D)) (s : State ι D)
    (hdistinct : Machine.Along (step unmarshal) (Distinct unmarshal) launched actions)
    (hrun : Machine.run (step unmarshal) launched actions = some s) (hquiet : Quiet s) :
    ∀ i, ∀ e ∈ nodes s.log,
      (∀ e' ∈ nodes s.log, (unmarshal e'.2).version ≤ (unmarshal e.2).version) →
      (s.servers i).persister.current = some (unmarshal e.2) := by
  intro i e he hmax
  have hinv : Inv unmarshal s := Machine.run_induction (Inv unmarshal)
    (fun _ _ _ h hd hs => step_inv h hd hs) launched_inv hdistinct hrun
  obtain ⟨watch, hloop, hpending⟩ := hquiet.2 i
  exact current_of_quiet hinv hquiet.1 hloop hpending he hmax

/-- Two servers: the first lists the nodes between the create and the set of a second config, and is
woken for it; the second server fails once. -/
theorem no_version_missed_overlapping :
    let second : ServiceConfig := { version := 2 }
    let actions : List (Action (Fin 2) ServiceConfig) :=
      [.create "a" { version := 1 }, .set "a", .sync 0 2, .getW 0, .create "b" second,
        .children 0 ["a"], .get 0, .publish 0, .set "b", .fire 0, .sync 0 4, .getW 0,
        .children 0 ["b", "a"], .get 0, .get 0, .publish 0, .sync 1 4, .getW 1, .fail 1, .getW 1,
        .children 1 ["a", "b"], .get 1, .get 1, .publish 1]
    ∃ s, Machine.run (step id) launched actions = some s ∧ Quiet s ∧
      ∀ i, (s.servers i).persister.current = some second := by
  intro second actions
  obtain ⟨s, hrun, hwriters, hloops, hlog⟩ : ∃ s, Machine.run (step id) launched actions = some s ∧
      (s.writers = [] ∧ (∀ i, (s.servers i).loop = .waiting 4) ∧
        s.log = [.create "a" { version := 1 }, .set, .create "b" second, .set]) :=
    Machine.exists_run (by decide)
  have hquiet : Quiet s := by
    refine ⟨hwriters, fun i => ⟨4, hloops i, ?_⟩⟩
    rw [hlog]
    decide
  have hdistinct : Machine.Along (step id) (Distinct id) launched actions := by decide
  refine ⟨s, hrun, hquiet, fun i => ?_⟩
  exact no_version_missed id actions s hdistinct hrun hquiet i ("b", second)
    (by rw [hlog]; decide) (by rw [hlog]; decide)

end QuotaService.ZkWatch
