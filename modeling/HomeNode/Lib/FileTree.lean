-- SUMMARY: Trees of files and directories: lookup, making, writing, removing and listing, and how paths are followed.
import Mathlib.Data.List.AList
import Mathlib.Tactic.Common

/-!
# File trees

A tree holds files with a content and directories, each under its path. Every
entry below the root lies in a directory of the tree. An operation that the file
system refuses has no result.
-/

namespace FileTree

abbrev Name := List Char

/-- A path, from its last name up: `n :: p` is `n` in `p`, and the root is `[]`. -/
abbrev TreePath := List Name

inductive Entry (α : Type) where
  | dir
  | file (content : α)
  deriving DecidableEq

end FileTree

open FileTree in
/-- The files and directories under a root. -/
structure FileTree (α : Type) where
  nodes : AList fun _ : TreePath => Entry α
  /-- An entry lies in the root or in a directory. -/
  closed : ∀ n p, n :: p ∈ nodes → p ≠ [] → nodes.lookup p = some .dir

namespace FileTree

variable {α : Type} {t : FileTree α} {p q : TreePath} {n : Name} {c : α}

/-- The tree of an empty root. -/
def empty : FileTree α where
  nodes := ∅
  closed _ _ h _ := absurd h (AList.notMem_empty _)

/-- What lies under a path. -/
def find (t : FileTree α) : TreePath → Option (Entry α)
  | [] => some .dir
  | p => t.nodes.lookup p

def isDir (t : FileTree α) (p : TreePath) : Bool :=
  match t.find p with
  | some .dir => true
  | _ => false

def isFile (t : FileTree α) (p : TreePath) : Bool :=
  match t.find p with
  | some (.file _) => true
  | _ => false

/-- The content of the file under a path. -/
def content (t : FileTree α) (p : TreePath) : Option α :=
  match t.find p with
  | some (.file c) => some c
  | _ => none

@[simp] theorem find_nil : t.find [] = some .dir := rfl

theorem find_cons : t.find (n :: p) = t.nodes.lookup (n :: p) := rfl

@[simp] theorem find_empty_cons : (empty : FileTree α).find (n :: p) = none := rfl

theorem isDir_iff : t.isDir p = true ↔ t.find p = some .dir := by
  unfold isDir
  split <;> simp_all

theorem isFile_iff : t.isFile p = true ↔ ∃ c, t.find p = some (.file c) := by
  unfold isFile
  split <;> simp_all

theorem content_eq_some_iff : t.content p = some c ↔ t.find p = some (.file c) := by
  unfold content
  split <;> simp_all

theorem find_parent {e : Entry α} (h : t.find (n :: p) = some e) : t.find p = some .dir := by
  cases p with
  | nil => rfl
  | cons m p =>
    apply t.closed n (m :: p) _ (by simp)
    apply AList.lookup_isSome.mp
    rw [← find_cons, h]
    rfl

/-- A directory or file is made, or a file overwritten, in a directory of the tree. -/
def put (t : FileTree α) (n : Name) (p : TreePath) (e : Entry α) (hdir : t.find p = some .dir)
    (hnew : t.find (n :: p) ≠ some .dir) : FileTree α where
  nodes := t.nodes.insert (n :: p) e
  closed m q hmem hq := by
    have hparent : q ≠ n :: p → t.nodes.lookup q = some .dir := by
      intro hne
      obtain ⟨k, r, rfl⟩ := List.exists_cons_of_ne_nil hq
      rcases (AList.mem_insert t.nodes).mp hmem with heq | hold
      · obtain ⟨-, rfl⟩ := List.cons.inj heq
        exact hdir
      · exact t.closed m _ hold hq
    by_cases hqe : q = n :: p
    · -- the entry that is replaced had nothing in it
      subst hqe
      rcases (AList.mem_insert t.nodes).mp hmem with heq | hold
      · simp at heq
      · exact absurd (t.closed m _ hold hq) hnew
    · rw [AList.lookup_insert_ne hqe]
      exact hparent hqe

theorem find_put {e : Entry α} (hdir : t.find p = some .dir)
    (hnew : t.find (n :: p) ≠ some .dir) (q : TreePath) :
    (t.put n p e hdir hnew).find q = if q = n :: p then some e else t.find q := by
  cases q with
  | nil => simp
  | cons m q =>
    rw [find_cons, find_cons, put]
    split
    · next h => rw [h, AList.lookup_insert]
    · next h => exact AList.lookup_insert_ne h

/-- Write a file, new or over another one, in a directory. -/
def write (t : FileTree α) (p : TreePath) (c : α) : Option (FileTree α) :=
  match p with
  | [] => none
  | n :: p =>
    if hnew : t.isDir (n :: p) then none
    else if hdir : t.isDir p then
      some (t.put n p (.file c) (isDir_iff.mp hdir) (mt isDir_iff.mpr hnew))
    else none

/-- Make a directory, unless there is one. -/
def mkdir (t : FileTree α) (p : TreePath) : Option (FileTree α) :=
  match p with
  | [] => some t
  | n :: p =>
    if hold : t.isDir (n :: p) then some t
    else if t.isFile (n :: p) then none
    else if hdir : t.isDir p then
      some (t.put n p .dir (isDir_iff.mp hdir) (mt isDir_iff.mpr hold))
    else none

theorem write_cons (hdir : t.find p = some .dir) (hnew : t.find (n :: p) ≠ some .dir) (c : α) :
    t.write (n :: p) c = some (t.put n p (.file c) hdir hnew) := by
  rw [write, dif_neg (mt isDir_iff.mp hnew), dif_pos (isDir_iff.mpr hdir)]

theorem write_eq_some {u : FileTree α} (h : t.write (n :: p) c = some u) :
    ∃ hdir hnew, u = t.put n p (.file c) hdir hnew := by
  simp only [write] at h
  split_ifs at h with hnew hdir
  exact ⟨isDir_iff.mp hdir, mt isDir_iff.mpr hnew, (Option.some.inj h).symm⟩

theorem find_mkdir {u : FileTree α} (h : t.mkdir (n :: p) = some u) (q : TreePath) :
    u.find q = if q = n :: p then some .dir else t.find q := by
  simp only [mkdir] at h
  split_ifs at h with hold hfile hdir
  · obtain rfl := Option.some.inj h
    split
    · next hq => rw [hq, isDir_iff.mp hold]
    · rfl
  · obtain rfl := Option.some.inj h
    exact find_put (isDir_iff.mp hdir) (mt isDir_iff.mpr hold) q

/-- What lies above an entry is a directory. -/
theorem find_of_suffix {e : Entry α} (hp : t.find p = some e) (hq : q <:+ p) (hne : q ≠ p) :
    t.find q = some .dir := by
  induction p generalizing e with
  | nil => exact absurd (List.suffix_nil.mp hq) hne
  | cons n p ih =>
    have hparent := find_parent hp
    rcases List.suffix_cons_iff.mp hq with heq | hq
    · exact absurd heq hne
    · by_cases hqp : q = p
      · rw [hqp, hparent]
      · exact ih hparent hq hqp

/-- The entries that are not under `p`. -/
def outside (t : FileTree α) (p : TreePath) : AList fun _ : TreePath => Entry α :=
  ⟨t.nodes.entries.filter fun e => ¬ p <:+ e.1, t.nodes.nodupKeys.sublist List.filter_sublist⟩

theorem lookup_outside (q : TreePath) :
    (t.outside p).lookup q = if p <:+ q then none else t.nodes.lookup q := by
  apply Option.ext
  intro e
  rw [← Option.mem_def, AList.mem_lookup_iff, outside, List.mem_filter, ← AList.mem_lookup_iff]
  split <;> simp_all

/-- Remove a directory with everything in it. -/
def rmtree (t : FileTree α) (p : TreePath) : Option (FileTree α) :=
  if t.isDir p then
    some
      { nodes := t.outside p
        closed := by
          intro n q hmem hq
          have hkept := AList.lookup_isSome.mpr hmem
          rw [lookup_outside] at hkept
          split at hkept
          · simp at hkept
          · next hout =>
            rw [lookup_outside, if_neg fun hp => hout (hp.trans (List.suffix_cons n q))]
            exact t.closed n q (AList.lookup_isSome.mp hkept) hq }
  else
    none

theorem rmtree_of_dir (h : t.find p = some .dir) :
    ∃ u, t.rmtree p = some u ∧
      ∀ n q, u.find (n :: q) = if p <:+ n :: q then none else t.find (n :: q) := by
  rw [rmtree, if_pos (isDir_iff.mpr h)]
  exact ⟨_, rfl, fun n q => lookup_outside (n :: q)⟩

/-- The names of what lies in a directory, each once. -/
def names (t : FileTree α) (p : TreePath) : List Name :=
  t.nodes.keys.filterMap fun q =>
    match q with
    | n :: q => if q = p then some n else none
    | [] => none

theorem mem_names : n ∈ t.names p ↔ (t.find (n :: p)).isSome = true := by
  rw [find_cons, AList.lookup_isSome, AList.mem_keys]
  constructor
  · intro h
    obtain ⟨q, hq, hn⟩ := List.mem_filterMap.mp h
    split at hn <;> simp_all
  · intro h
    exact List.mem_filterMap.mpr ⟨n :: p, h, by simp⟩

theorem nodup_names : (t.names p).Nodup := by
  apply List.Nodup.filterMap _ t.nodes.keys_nodup
  intro q q' n hq hq'
  split at hq <;> split at hq' <;> simp_all

/-! ## Following a path -/

/-- Go from a place in the tree along the parts of a path. -/
def walk (t : FileTree α) : TreePath → List Name → Option TreePath
  | at_, [] => some at_
  | at_, n :: ns =>
    if ¬ t.isDir at_ then none
    else if n = [] ∨ n = ['.'] then walk t at_ ns
    else if n = ['.', '.'] then walk t at_.tail ns
    else walk t (n :: at_) ns

/-- The place that a written path stands for in the directory `cwd`. -/
def resolve (t : FileTree α) (cwd : TreePath) (f : List Char) : Option TreePath :=
  t.walk (if f.head? = some '/' then [] else cwd) (f.splitOn '/')

/-- The content of the file that a written path stands for. -/
def read (t : FileTree α) (cwd : TreePath) (f : List Char) : Option α :=
  (t.resolve cwd f).bind t.content

/-- A name that stands for itself in a written path. -/
def Plain (n : Name) : Prop := '/' ∉ n ∧ n ≠ [] ∧ n ≠ ['.'] ∧ n ≠ ['.', '.']

instance (n : Name) : Decidable (Plain n) := inferInstanceAs (Decidable (_ ∧ _))

theorem walk_cons {ns : List Name} (hdir : t.find p = some .dir) (hn : Plain n) :
    t.walk p (n :: ns) = t.walk (n :: p) ns := by
  obtain ⟨-, hne, hdot, hup⟩ := hn
  simp [walk, isDir_iff.mpr hdir, hne, hdot, hup]

theorem Plain.head_ne (hn : Plain n) (m : List Char) : (n ++ m).head? ≠ some '/' := by
  obtain ⟨hslash, hne, -⟩ := hn
  obtain ⟨c, cs, rfl⟩ := List.exists_cons_of_ne_nil hne
  intro h
  exact hslash (by simp_all)

theorem resolve_name (hdir : t.find p = some .dir) (hn : Plain n) :
    t.resolve p n = some (n :: p) := by
  have hhead : n.head? ≠ some '/' := by simpa using hn.head_ne []
  rw [resolve, if_neg hhead, List.splitOn_eq_singleton hn.1, walk_cons hdir hn, walk]

theorem resolve_in_dir {d : Name} (hdir : t.find p = some .dir) (hsub : t.find (d :: p) = some .dir)
    (hd : Plain d) (hn : Plain n) : t.resolve p (d ++ '/' :: n) = some (n :: d :: p) := by
  rw [resolve, if_neg (hd.head_ne _), List.splitOn_append_cons_self_of_not_mem hd.1,
    List.splitOn_eq_singleton hn.1, walk_cons hdir hd, walk_cons hsub hn, walk]

theorem read_name (h : t.find (n :: p) = some (.file c)) (hn : Plain n) : t.read p n = some c := by
  rw [read, resolve_name (find_parent h) hn, Option.bind_some, content_eq_some_iff]
  exact h

theorem read_in_dir {d : Name} (h : t.find (n :: d :: p) = some (.file c)) (hd : Plain d)
    (hn : Plain n) : t.read p (d ++ '/' :: n) = some c := by
  have hsub := find_parent h
  rw [read, resolve_in_dir (find_parent hsub) hsub hd hn, Option.bind_some, content_eq_some_iff]
  exact h

/-- The order in which the names of a directory are listed, which the file system chooses. -/
structure Listing where
  order : List Name → List Name
  perm : ∀ l, (order l).Perm l

theorem Listing.mem_order (o : Listing) {l : List Name} : n ∈ o.order l ↔ n ∈ l :=
  (o.perm l).mem_iff

theorem Listing.nodup_order (o : Listing) {l : List Name} (h : l.Nodup) : (o.order l).Nodup :=
  (o.perm l).nodup_iff.mpr h

end FileTree
