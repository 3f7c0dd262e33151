import QuotaService.Lib.Files
import QuotaService.Lib.Machine
import QuotaService.Server.Mysql

/-! `disk_persister.go`. A config is written to a file that has its hash in the name, and the location
becomes a link to that file. -/
namespace QuotaService.Disk
open Config Server Files Mysql

/-- A path that ends in the name of an entry. -/
structure Location where
  absolute : Bool
  dir : List String
  base : String
  plain : Plain base

def Location.path (location : Location) : Path :=
  ⟨location.absolute, location.dir ++ [location.base]⟩

/-- `fmt.Sprintf("%s-%s", d.location, hash)`. -/
def Location.withHash (location : Location) (hash : String) : Path :=
  ⟨location.absolute, location.dir ++ [location.base ++ "-" ++ hash]⟩

/-- What goes wrong in a call apart from what the file system holds. A write may stop after some
bytes. -/
structure Failures where
  openFile : Bool := false
  write : Option ℕ := none
  stat : Bool := false
  remove : Bool := false
  symlink : Bool := false

/-- The operation whose error is returned. -/
inductive Failed
  | openFile
  | write
  | remove
  | symlink
deriving DecidableEq

structure Call where
  cfg : ServiceConfig
  failures : Failures

structure DiskConfigPersister (ι β : Type) where
  files : FileSystem ι β
  /-- There is a message on the channel. -/
  watcher : Bool

section Persister
variable {ι β : Type} [DecidableEq ι] (k : Codec (List β)) (hash : List β → String)
  (location : Location)

def writeFile (fs : FileSystem ι β) (path : Path) (bytes : List β) (failures : Failures) :
    FileSystem ι β × Option Failed :=
  if failures.openFile then (fs, some .openFile)
  else
    match fs.openFile path with
    | none => (fs, some .openFile)
    | some (fs', f) =>
      match failures.write with
      | some n => (fs'.write f (bytes.take n), some .write)
      | none => (fs'.write f bytes, none)

/-- `Stat`, and `Remove` of what is there. -/
def removeExisting (fs : FileSystem ι β) (failures : Failures) : Option (FileSystem ι β) :=
  if !failures.stat && fs.stat location.path then
    if failures.remove then none else fs.remove location.path
  else some fs

/-- The location becomes a link to the path. -/
def relink (fs : FileSystem ι β) (path : Path) (failures : Failures) :
    FileSystem ι β × Option Failed :=
  match removeExisting location fs failures with
  | none => (fs, some .remove)
  | some fs' =>
    if failures.symlink then (fs', some .symlink)
    else
      match fs'.symlink path location.path with
      | none => (fs', some .symlink)
      | some fs'' => (fs'', none)

def persistAndNotify (d : DiskConfigPersister ι β) (call : Call) :
    DiskConfigPersister ι β × Option Failed :=
  let b := k.marshal call.cfg
  let path := location.withHash (hash b)
  match writeFile d.files path b call.failures with
  | (fs, some e) => ({ d with files := fs }, some e)
  | (fs, none) =>
    match relink location fs path call.failures with
    | (fs', some e) => ({ d with files := fs' }, some e)
    | (fs', none) => (⟨fs', true⟩, none)

def readPersistedConfig (fs : FileSystem ι β) : Option ServiceConfig :=
  (fs.readFile location.path).bind k.unmarshal

def dataPath (cfg : ServiceConfig) : Path := location.withHash (hash (k.marshal cfg))

/-- The location is an entry of the directory `P`. The path of a data file leads to the same place from
the process and from a link in `P`, whatever the location itself is. -/
structure Aligned (fs : FileSystem ι β) (P : ι) (links : ℕ) (place : ServiceConfig → Option (Spot ι)) :
    Prop where
  located : ∀ t, fs.tree.AgreesOff P location.base t →
    t.walk maxLinks (t.start fs.cwd location.absolute) location.dir = some (links + 1, .directory P)
  written : ∀ t, fs.tree.AgreesOff P location.base t → ∀ cfg,
    (t.walk maxLinks (t.start fs.cwd location.absolute) (dataPath k hash location cfg).names).map
      Prod.snd = place cfg
  linked : ∀ t, fs.tree.AgreesOff P location.base t → ∀ cfg,
    (t.walk links (t.start P location.absolute) (dataPath k hash location cfg).names).map Prod.snd =
      place cfg

/-- The data file is the one that the location leads to. -/
def Linked (fs : FileSystem ι β) (cfg : ServiceConfig) : Prop :=
  fs.find location.path = fs.find (dataPath k hash location cfg)

/-- A data file that the location leads to is not damaged or replaced by a call that fails, and the link
is not lost. -/
structure Safe (fs : FileSystem ι β) (call : Call) : Prop where
  torn : ∀ n, call.failures.write = some n → Linked k hash location fs call.cfg →
    k.unmarshal ((k.marshal call.cfg).take n) = readPersistedConfig k location fs
  overwritten : call.failures.write = none →
    call.failures.stat = true ∨ call.failures.remove = true → Linked k hash location fs call.cfg →
    readPersistedConfig k location fs = some (cloneConfig call.cfg)
  unlinked : call.failures.write = none →
    call.failures.stat = false → call.failures.remove = false → call.failures.symlink = true →
    readPersistedConfig k location fs = none

end Persister

section Places
variable {ι β : Type} {k : Codec (List β)} {hash : List β → String} {location : Location}
  {fs fs' : FileSystem ι β} {P : ι} {links : ℕ} {place : ServiceConfig → Option (Spot ι)}

/-- What happens at the location does not matter. -/
theorem Aligned.congr (h : Aligned k hash location fs P links place)
    (ht : fs.tree.AgreesOff P location.base fs'.tree) (hcwd : fs'.cwd = fs.cwd) :
    Aligned k hash location fs' P links place where
  located t ht' := by
    rw [hcwd]
    exact h.located t (ht.trans ht')
  written t ht' := by
    rw [hcwd]
    exact h.written t (ht.trans ht')
  linked t ht' := h.linked t (ht.trans ht')

theorem Aligned.locate (h : Aligned k hash location fs P links place) :
    fs.locate location.path = some (P, location.base) :=
  FileSystem.locate_concat (h.located fs.tree (Tree.AgreesOff.refl _ _ _)) location.plain

theorem Aligned.find (h : Aligned k hash location fs P links place) :
    fs.find location.path = (fs.tree.walk (links + 1) P [location.base]).map Prod.snd :=
  FileSystem.find_concat (h.located fs.tree (Tree.AgreesOff.refl _ _ _)) location.base

variable [DecidableEq ι]

theorem Aligned.put (h : Aligned k hash location fs P links place) (node : Node ι β) :
    Aligned k hash location (fs.put P location.base node) P links place :=
  h.congr (fs.agreesOff_put P location.base node) rfl

theorem Aligned.unlink (h : Aligned k hash location fs P links place) :
    Aligned k hash location (fs.unlink P location.base) P links place :=
  h.congr (fs.agreesOff_unlink P location.base) rfl

section Relink
variable {cfg : ServiceConfig} {d : ι} {name : String} {b : List β}

end Relink

section Step
variable {d : DiskConfigPersister ι β} {call : Call} {e : ι} {name : String}

end Step

section Ordinary
variable {m : ℕ}

theorem plain_hashed (base h : String) : Plain (base ++ "-" ++ h) := by
  have hmem : '-' ∈ (base ++ "-" ++ h).toList := by simp [String.toList_append]
  constructor
  · intro heq
    rw [heq] at hmem
    simp at hmem
  · intro heq
    rw [heq] at hmem
    simp at hmem

theorem hashed_ne (base h : String) : base ++ "-" ++ h ≠ base := by
  intro heq
  have hlength := congrArg String.length heq
  rw [String.length_append, String.length_append] at hlength
  have hdash : "-".length = 1 := rfl
  omega

/-- Where the data file of a config is, unless its name is that of a link. -/
def dataPlace (k : Codec (List β)) (hash : List β → String) (location : Location)
    (fs : FileSystem ι β) (P : ι) (cfg : ServiceConfig) : Option (Spot ι) :=
  (fs.tree.walk 0 P [location.base ++ "-" ++ hash (k.marshal cfg)]).map Prod.snd

/-- The directory leads back to itself from a link in it, and no data file is a link. -/
theorem aligned_of_walks
    (hdir : (fs.tree.erase P location.base).walk maxLinks (fs.start location.absolute) location.dir =
      some (links + 1, .directory P))
    (hback : (fs.tree.erase P location.base).walk links (fs.tree.start P location.absolute)
      location.dir = some (m, .directory P))
    (hplain : ∀ h target, fs.entry P (location.base ++ "-" ++ h) ≠ some (.link target)) :
    Aligned k hash location fs P links (dataPlace k hash location fs P) := by
  have hlocated : ∀ t, fs.tree.AgreesOff P location.base t → ∀ {n d n'},
      (fs.tree.erase P location.base).walk n d location.dir = some (n', .directory P) →
      t.walk n d location.dir = some (n', .directory P) :=
    fun t ht _ _ _ hwalk => walk_of_walks ((walks_of_walk hwalk).within ht.within)
  have hname : ∀ t, fs.tree.AgreesOff P location.base t → ∀ cfg n,
      (t.walk n P [location.base ++ "-" ++ hash (k.marshal cfg)]).map Prod.snd =
        dataPlace k hash location fs P cfg := by
    intro t ht cfg n
    apply walk_congr (plain_hashed _ _)
    · exact ht.way P _ fun hat => hashed_ne _ _ hat.2
    · intro target hway
      obtain ⟨node, hentry, hnode⟩ := Option.bind_eq_some_iff.mp hway
      cases node with
      | dir | file => cases hnode
      | link target' => exact hplain _ _ hentry
  constructor
  · intro t ht
    rw [ht.start]
    exact hlocated t ht hdir
  · intro t ht cfg
    rw [ht.start, ← hname t ht cfg (links + 1)]
    exact congrArg _ (walk_append (hlocated t ht hdir) _)
  · intro t ht cfg
    rw [ht.start, ← hname t ht cfg m]
    exact congrArg _ (walk_append (hlocated t ht hback) _)

/-- A name in the directory of the process leads there from a link in it. -/
theorem aligned_of_bare (hrelative : location.absolute = false) (hbare : location.dir = [])
    (hplain : ∀ h target, fs.entry fs.cwd (location.base ++ "-" ++ h) ≠ some (.link target)) :
    Aligned k hash location fs fs.cwd 39 (dataPlace k hash location fs fs.cwd) := by
  have hstart : ∀ d, fs.tree.start d location.absolute = d := by
    intro d
    rw [Tree.start, hrelative]
    rfl
  have hwalk : ∀ n, (fs.tree.erase fs.cwd location.base).walk n
      (fs.tree.start fs.cwd location.absolute) location.dir = some (n, .directory fs.cwd) := by
    intro n
    rw [hstart, hbare, walk_nil]
  exact aligned_of_walks (hwalk maxLinks) (hwalk 39) hplain

end Ordinary

end Places

section Safety
variable {ι β : Type} {k : Codec (List β)} {hash : List β → String} {location : Location}
  {fs : FileSystem ι β} {call : Call}

end Safety

/-- Configs that are written as one symbol. Without it an empty config is read. -/
def symbols : Codec (List ServiceConfig) :=
  ⟨fun cfg => [cloneConfig cfg], fun b => some (b.headD {}), fun _ => rfl⟩

def hashVersion (b : List ServiceConfig) : String :=
  if (b.headD {}).version = 1 then "c4ca" else "c81e"

/-- A root with one directory, which is empty. -/
def oneDirectory : FileSystem Bool ServiceConfig where
  root := false
  cwd := false
  parent _ := false
  entries d := if d then ∅ else AList.insert "conf" (.dir true) ∅

def inConf (absolute : Bool) : Location := ⟨absolute, ["conf"], "quotas", by decide⟩

/-- The link is removed and cannot be made again. The call returns an error, and the config that was
read before is lost. -/
theorem unlinked_config_lost :
    let d := (persistAndNotify symbols hashVersion (inConf true) ⟨oneDirectory, true⟩
      ⟨{ version := 1 }, {}⟩).1
    let called := persistAndNotify symbols hashVersion (inConf true) d
      ⟨{ version := 2 }, { symlink := true }⟩
    readPersistedConfig symbols (inConf true) d.files = some { version := 1 } ∧
      called.2 = some .symlink ∧
      readPersistedConfig symbols (inConf true) called.1.files = none :=
  ⟨rfl, rfl, rfl⟩

end QuotaService.Disk
