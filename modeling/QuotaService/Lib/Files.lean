import Mathlib.Data.List.AList
import Mathlib.Logic.Function.Basic

/-! Files, directories and symbolic links. A walk takes the names of a path one after the other, and the
names of a link's target in the place of the link. It gives up when it has followed too many links. -/
namespace Files

structure Path where
  absolute : Bool
  names : List String
deriving DecidableEq

/-- Where a name in a directory leads. The name of a file leads nowhere, as one that is not there. -/
inductive Way (ι : Type*)
  | dir (d : ι)
  | link (target : Path)

structure Tree (ι : Type*) where
  root : ι
  parent : ι → ι
  way : ι → String → Option (Way ι)

/-- Where a walk ends: in a directory, or at a name in one that leads nowhere. -/
inductive Spot (ι : Type*)
  | directory (d : ι)
  | entry (d : ι) (name : String)
deriving DecidableEq

/-- A name that is not a step within the tree. -/
def Plain (name : String) : Prop := name ≠ "." ∧ name ≠ ".."

instance decidablePlain (name : String) : Decidable (Plain name) :=
  inferInstanceAs (Decidable (_ ∧ _))

section Walks
variable {ι : Type*}

def Tree.start (t : Tree ι) (d : ι) (absolute : Bool) : ι := if absolute then t.root else d

/-- A walk that hands over to `follow` at a link. -/
def Tree.walkWith (t : Tree ι) (follow : ι → List String → Option (ℕ × Spot ι)) (links : ℕ) :
    ι → List String → Option (ℕ × Spot ι)
  | d, [] => some (links, .directory d)
  | d, name :: rest =>
    if name = "." then t.walkWith follow links d rest
    else if name = ".." then t.walkWith follow links (t.parent d) rest
    else
      match t.way d name with
      | some (.dir e) => t.walkWith follow links e rest
      | some (.link target) => follow (t.start d target.absolute) (target.names ++ rest)
      | none => if rest = [] then some (links, .entry d name) else none

/-- A walk that may follow so many links. The result has the number that is left. -/
def Tree.walk (t : Tree ι) : ℕ → ι → List String → Option (ℕ × Spot ι)
  | 0 => t.walkWith (fun _ _ => none) 0
  | links + 1 => t.walkWith (t.walk links) (links + 1)

/-- The walks that end, by their steps. -/
inductive Walks (t : Tree ι) : ℕ → ι → List String → ℕ → Spot ι → Prop
  | nil (n : ℕ) (d : ι) : Walks t n d [] n (.directory d)
  | dot {n d rest m s} (h : Walks t n d rest m s) : Walks t n d ("." :: rest) m s
  | dotdot {n d rest m s} (h : Walks t n (t.parent d) rest m s) : Walks t n d (".." :: rest) m s
  | dir {n d e name rest m s} (hname : Plain name) (hway : t.way d name = some (.dir e))
      (h : Walks t n e rest m s) : Walks t n d (name :: rest) m s
  | link {n d target name rest m s} (hname : Plain name) (hway : t.way d name = some (.link target))
      (h : Walks t n (t.start d target.absolute) (target.names ++ rest) m s) :
      Walks t (n + 1) d (name :: rest) m s
  | entry {n d name} (hname : Plain name) (hway : t.way d name = none) :
      Walks t n d [name] n (.entry d name)

variable {t t' : Tree ι} {n m : ℕ} {d e : ι} {name : String} {names rest : List String} {s : Spot ι}

@[simp] theorem walk_nil (t : Tree ι) (n : ℕ) (d : ι) : t.walk n d [] = some (n, .directory d) := by
  cases n <;> rfl

theorem walk_dot (t : Tree ι) (n : ℕ) (d : ι) (rest : List String) :
    t.walk n d ("." :: rest) = t.walk n d rest := by
  cases n <;> rfl

theorem walk_dotdot (t : Tree ι) (n : ℕ) (d : ι) (rest : List String) :
    t.walk n d (".." :: rest) = t.walk n (t.parent d) rest := by
  cases n <;> rfl

theorem walk_dir (hname : Plain name) (hway : t.way d name = some (.dir e)) (n : ℕ)
    (rest : List String) : t.walk n d (name :: rest) = t.walk n e rest := by
  cases n <;> simp [Tree.walk, Tree.walkWith, hname.1, hname.2, hway]

theorem walk_link {target : Path} (hname : Plain name) (hway : t.way d name = some (.link target))
    (n : ℕ) (rest : List String) :
    t.walk (n + 1) d (name :: rest) =
      t.walk n (t.start d target.absolute) (target.names ++ rest) := by
  simp [Tree.walk, Tree.walkWith, hname.1, hname.2, hway]

theorem walk_entry (hname : Plain name) (hway : t.way d name = none) (n : ℕ) :
    t.walk n d [name] = some (n, .entry d name) := by
  cases n <;> simp [Tree.walk, Tree.walkWith, hname.1, hname.2, hway]

theorem walk_of_walks (h : Walks t n d names m s) : t.walk n d names = some (m, s) := by
  induction h with
  | nil n d => exact walk_nil t n d
  | dot _ ih => rwa [walk_dot]
  | dotdot _ ih => rwa [walk_dotdot]
  | dir hname hway _ ih => rwa [walk_dir hname hway]
  | link hname hway _ ih => rwa [walk_link hname hway]
  | entry hname hway => exact walk_entry hname hway _

theorem walks_of_walkWith {follow : ι → List String → Option (ℕ × Spot ι)}
    (hfollow : ∀ d names m s, follow d names = some (m, s) →
      ∃ n', n = n' + 1 ∧ Walks t n' d names m s)
    (h : t.walkWith follow n d names = some (m, s)) : Walks t n d names m s := by
  induction names generalizing d with
  | nil =>
    cases h
    exact .nil n d
  | cons name rest ih =>
    by_cases hdot : name = "."
    · subst hdot
      exact .dot (ih h)
    by_cases hdotdot : name = ".."
    · subst hdotdot
      exact .dotdot (ih h)
    have hname : Plain name := ⟨hdot, hdotdot⟩
    simp only [Tree.walkWith, hdot, hdotdot, if_false] at h
    cases hway : t.way d name with
    | none =>
      simp only [hway] at h
      split_ifs at h with hrest
      cases h
      subst hrest
      exact .entry hname hway
    | some way =>
      cases way with
      | dir e =>
        simp only [hway] at h
        exact .dir hname hway (ih h)
      | link target =>
        simp only [hway] at h
        obtain ⟨n', rfl, hrest⟩ := hfollow _ _ _ _ h
        exact .link hname hway hrest

theorem walks_of_walk (h : t.walk n d names = some (m, s)) : Walks t n d names m s := by
  induction n generalizing d names m s with
  | zero => exact walks_of_walkWith (fun _ _ _ _ h => by cases h) h
  | succ n ih => exact walks_of_walkWith (fun _ _ _ _ h => ⟨n, rfl, ih h⟩) h

theorem walk_eq_some_iff : t.walk n d names = some (m, s) ↔ Walks t n d names m s :=
  ⟨walks_of_walk, walk_of_walks⟩

/-- A walk goes on from where its first part ends. -/
theorem walk_append (h : t.walk n d names = some (m, .directory e)) (rest : List String) :
    t.walk n d (names ++ rest) = t.walk m e rest := by
  rw [walk_eq_some_iff] at h
  generalize hs : Spot.directory e = s at h
  induction h with
  | nil n d =>
    cases hs
    rfl
  | dot _ ih => rw [List.cons_append, walk_dot, ih hs]
  | dotdot _ ih => rw [List.cons_append, walk_dotdot, ih hs]
  | dir hname hway _ ih => rw [List.cons_append, walk_dir hname hway, ih hs]
  | link hname hway _ ih =>
    rw [List.cons_append, walk_link hname hway, ← List.append_assoc, ih hs]
  | entry => cases hs

theorem Walks.links_le (h : Walks t n d names m s) : m ≤ n := by
  induction h with
  | nil | entry => exact le_refl _
  | dot _ ih | dotdot _ ih | dir _ _ _ ih => exact ih
  | link _ _ _ ih => omega

/-- The links that are left are not needed. -/
theorem Walks.fewer (h : Walks t n d names m s) {k : ℕ} (hk : k ≤ m) :
    Walks t (n - k) d names (m - k) s := by
  induction h with
  | nil n d => exact .nil _ _
  | dot _ ih => exact .dot (ih hk)
  | dotdot _ ih => exact .dotdot (ih hk)
  | dir hname hway _ ih => exact .dir hname hway (ih hk)
  | @link n d target name rest m s hname hway h ih =>
    have hle := h.links_le
    have hsub : n + 1 - k = (n - k) + 1 := by omega
    rw [hsub]
    exact .link hname hway (ih hk)
  | entry hname hway => exact .entry hname hway

/-- A tree that has the ways of another, and may have more. -/
structure Tree.Within (t t' : Tree ι) : Prop where
  root : t'.root = t.root
  parent : t'.parent = t.parent
  way : ∀ d name w, t.way d name = some w → t'.way d name = some w

/-- A walk to a directory needs no other ways than those it takes. -/
theorem Walks.within (ht : t.Within t') (h : Walks t n d names m (.directory e)) :
    Walks t' n d names m (.directory e) := by
  generalize hs : Spot.directory e = s at h
  induction h with
  | nil n d => exact .nil n d
  | dot _ ih => exact .dot (ih hs)
  | dotdot _ ih =>
    apply Walks.dotdot
    rw [ht.parent]
    exact ih hs
  | dir hname hway _ ih => exact .dir hname (ht.way _ _ _ hway) (ih hs)
  | link hname hway _ ih =>
    apply Walks.link hname (ht.way _ _ _ hway)
    rw [Tree.start, ht.root]
    exact ih hs
  | entry => cases hs

/-- The trees that differ at one name of one directory at most. -/
structure Tree.AgreesOff (d : ι) (name : String) (t t' : Tree ι) : Prop where
  root : t'.root = t.root
  parent : t'.parent = t.parent
  way : ∀ e x, ¬(e = d ∧ x = name) → t'.way e x = t.way e x

theorem Tree.AgreesOff.refl (d : ι) (name : String) (t : Tree ι) : t.AgreesOff d name t :=
  ⟨rfl, rfl, fun _ _ _ => rfl⟩

theorem Tree.AgreesOff.trans {t'' : Tree ι} (h : t.AgreesOff d name t')
    (h' : t'.AgreesOff d name t'') : t.AgreesOff d name t'' where
  root := h'.root.trans h.root
  parent := h'.parent.trans h.parent
  way e x hne := (h'.way e x hne).trans (h.way e x hne)

theorem Tree.AgreesOff.start (h : t.AgreesOff d name t') (e : ι) (absolute : Bool) :
    t'.start e absolute = t.start e absolute := by
  rw [Tree.start, h.root, Tree.start]

/-- Where a name that is not a link leads. -/
theorem walk_congr (hname : Plain name) (hway : t'.way d name = t.way d name)
    (hlink : ∀ target, t.way d name ≠ some (.link target)) (n m : ℕ) :
    (t'.walk n d [name]).map Prod.snd = (t.walk m d [name]).map Prod.snd := by
  cases h : t.way d name with
  | none => rw [walk_entry hname h, walk_entry hname (hway.trans h), Option.map_some, Option.map_some]
  | some w =>
    cases w with
    | dir e =>
      rw [walk_dir hname h, walk_dir hname (hway.trans h), walk_nil, walk_nil, Option.map_some,
        Option.map_some]
    | link target => exact absurd h (hlink target)

variable [DecidableEq ι]

def Tree.erase (t : Tree ι) (d : ι) (name : String) : Tree ι :=
  { t with way := fun e x => if e = d ∧ x = name then none else t.way e x }

/-- What does not take a name does not depend on where it leads. -/
theorem Tree.AgreesOff.within (h : t.AgreesOff d name t') : (t.erase d name).Within t' := by
  refine ⟨h.root, h.parent, fun e x w hw => ?_⟩
  simp only [Tree.erase] at hw
  split_ifs at hw with hne
  rw [h.way e x hne, hw]

end Walks

inductive Node (ι β : Type*)
  | dir (d : ι)
  | file (bytes : List β)
  | link (target : Path)

def Node.way {ι β : Type*} : Node ι β → Option (Way ι)
  | .dir d => some (.dir d)
  | .file _ => none
  | .link target => some (.link target)

structure FileSystem (ι β : Type*) where
  root : ι
  /-- The directory of the process. -/
  cwd : ι
  parent : ι → ι
  entries : ι → AList fun _ : String => Node ι β

/-- More links than these are taken for a loop. -/
def maxLinks : ℕ := 40

namespace FileSystem
variable {ι β : Type*} (fs : FileSystem ι β)

def entry (d : ι) (name : String) : Option (Node ι β) := (fs.entries d).lookup name

def tree : Tree ι := ⟨fs.root, fs.parent, fun d name => (fs.entry d name).bind Node.way⟩

def start (absolute : Bool) : ι := fs.tree.start fs.cwd absolute

/-- Where a path leads, when the last link is followed as well. -/
def find (path : Path) : Option (Spot ι) :=
  (fs.tree.walk maxLinks (fs.start path.absolute) path.names).map Prod.snd

/-- The entry that a path names, which may be a link. -/
def locate (path : Path) : Option (ι × String) :=
  match path.names.getLast? with
  | none => none
  | some name =>
    if name = "." ∨ name = ".." then none
    else
      match fs.tree.walk maxLinks (fs.start path.absolute) path.names.dropLast with
      | some (_, .directory d) => some (d, name)
      | _ => none

/-- A file or a directory is there. -/
def stat (path : Path) : Bool :=
  match fs.find path with
  | some (.directory _) => true
  | some (.entry d name) => (fs.entry d name).isSome
  | none => false

def readFile (path : Path) : Option (List β) :=
  match fs.find path with
  | some (.entry d name) =>
    match fs.entry d name with
    | some (.file bytes) => some bytes
    | _ => none
  | _ => none

section Lookup
variable {fs} {d : ι} {name : String} {names : List String} {path : Path} {absolute : Bool} {n : ℕ}

theorem locate_concat
    (hwalk : fs.tree.walk maxLinks (fs.start absolute) names = some (n, .directory d))
    (hname : Plain name) : fs.locate ⟨absolute, names ++ [name]⟩ = some (d, name) := by
  have hplain : ¬(name = "." ∨ name = "..") := by
    rw [not_or]
    exact hname
  simp [locate, hplain, hwalk]

theorem find_concat
    (hwalk : fs.tree.walk maxLinks (fs.start absolute) names = some (n, .directory d))
    (name : String) :
    fs.find ⟨absolute, names ++ [name]⟩ = (fs.tree.walk n d [name]).map Prod.snd := by
  rw [find, walk_append hwalk]

end Lookup

variable [DecidableEq ι]

def put (d : ι) (name : String) (node : Node ι β) : FileSystem ι β :=
  { fs with entries := Function.update fs.entries d ((fs.entries d).insert name node) }

def unlink (d : ι) (name : String) : FileSystem ι β :=
  { fs with entries := Function.update fs.entries d ((fs.entries d).erase name) }

/-- Opens a file for writing. It is created if it is not there, and emptied if it is. -/
def openFile (path : Path) : Option (FileSystem ι β × ι × String) :=
  match fs.find path with
  | some (.entry d name) => some (fs.put d name (.file []), d, name)
  | _ => none

/-- The bytes are all that has been written to the file since it was opened. -/
def write (file : ι × String) (bytes : List β) : FileSystem ι β :=
  fs.put file.1 file.2 (.file bytes)

/-- Links are not followed, and a directory must be empty. -/
def remove (path : Path) : Option (FileSystem ι β) :=
  match fs.locate path with
  | none => none
  | some (d, name) =>
    match fs.entry d name with
    | none => none
    | some (.dir e) => if (fs.entries e).entries.isEmpty then some (fs.unlink d name) else none
    | some _ => some (fs.unlink d name)

def symlink (target path : Path) : Option (FileSystem ι β) :=
  match fs.locate path with
  | none => none
  | some (d, name) =>
    if (fs.entry d name).isSome then none else some (fs.put d name (.link target))

variable {fs} {d : ι} {name : String}

theorem entry_put (fs : FileSystem ι β) (d : ι) (name : String) (node : Node ι β) (e : ι)
    (x : String) :
    (fs.put d name node).entry e x = if e = d ∧ x = name then some node else fs.entry e x := by
  by_cases he : e = d
  · subst he
    by_cases hx : x = name
    · subst hx
      simp [put, entry]
    · simp [put, entry, hx, AList.lookup_insert_ne]
  · simp [put, entry, he]

theorem entry_unlink (fs : FileSystem ι β) (d : ι) (name : String) (e : ι) (x : String) :
    (fs.unlink d name).entry e x = if e = d ∧ x = name then none else fs.entry e x := by
  by_cases he : e = d
  · subst he
    by_cases hx : x = name
    · subst hx
      simp [unlink, entry]
    · simp [unlink, entry, hx, AList.lookup_erase_ne]
  · simp [unlink, entry, he]

theorem agreesOff_put (fs : FileSystem ι β) (d : ι) (name : String) (node : Node ι β) :
    fs.tree.AgreesOff d name (fs.put d name node).tree :=
  ⟨rfl, rfl, fun e x hne => by simp only [tree, entry_put, hne, if_false]⟩

theorem agreesOff_unlink (fs : FileSystem ι β) (d : ι) (name : String) :
    fs.tree.AgreesOff d name (fs.unlink d name).tree :=
  ⟨rfl, rfl, fun e x hne => by simp only [tree, entry_unlink, hne, if_false]⟩

end FileSystem

end Files
