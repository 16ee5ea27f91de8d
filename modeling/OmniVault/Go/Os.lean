import OmniVault.Go.Filepath
import OmniVault.Go.Time

/-!
The file system as the `os` calls of the file provider see it on Unix:
regular files, with their contents and modification time, and directories.

A node is named by its absolute path, the list of names from the root; the
root is always there and is a directory. The kernel reaches a path from the
root, or from the working directory when it is relative: "." stays, ".."
goes up and stays at the root, and every element but the last must lead to
a directory. The model takes the path's "." and ".." away first and then
walks the names; on a path whose ".." elements all stand before its names,
which is what `Clean`, `Join` and `Dir` return and so every path the
provider forms, the two walks meet the same nodes. Creating and removing
treat the last element as the kernel does: the root, "." and ".." cannot be
made, written or removed, each with its own errno.

Permissions, file modes, symbolic links and other processes are not
modelled: every call that reaches a node may act on it, and `ReadDir`
cannot fail.
-/

namespace OmniVault.Os

open Filepath

/-- What a path leads to. -/
inductive Node where
  | file (data : Bytes) (modTime : Time)
  | dir
  deriving DecidableEq

/-- The errno values of the calls modelled. -/
inductive Errno where
  | enoent | enotdir | eisdir | eexist | enotempty | einval | ebusy
  deriving DecidableEq

/-- `Errno.Error()`: the text `strerror` gives. -/
def Errno.text : Errno → Bytes
  | .enoent => .ofString "no such file or directory"
  | .enotdir => .ofString "not a directory"
  | .eisdir => .ofString "is a directory"
  | .eexist => .ofString "file exists"
  | .enotempty => .ofString "directory not empty"
  | .einval => .ofString "invalid argument"
  | .ebusy => .ofString "device or resource busy"

/-- `*fs.PathError`. -/
structure PathError where
  op : Bytes
  path : Bytes
  err : Errno
  deriving DecidableEq

/-- `e.Error()`. -/
def PathError.error (e : PathError) : Bytes := e.op ++ .ofString " " ++ e.path ++ .ofString ": " ++ e.err.text

/-- `os.IsNotExist(err)`. -/
def PathError.isNotExist (e : PathError) : Bool := e.err = .enoent

/-- The file system: its nodes other than the root, by absolute path, and the
working directory. -/
structure Fs where
  cwd : List Bytes
  nodes : List (List Bytes × Node)

namespace Fs

/-- The node at an absolute path. -/
def node (fs : Fs) (es : List Bytes) : Option Node :=
  if es = [] then some .dir else (fs.nodes.find? (·.1 = es)).map (·.2)

/-- `fs` with the node at `es` set to `n`. -/
def set (fs : Fs) (es : List Bytes) (n : Node) : Fs := { fs with nodes := (es, n) :: fs.nodes.filter (·.1 ≠ es) }

/-- `fs` with no node at `es`. -/
def erase (fs : Fs) (es : List Bytes) : Fs := { fs with nodes := fs.nodes.filter (·.1 ≠ es) }

/-- The absolute path a path leads to. -/
def resolve (fs : Fs) (p : Bytes) : List Bytes := cleanElems true ((if isRooted p then [] else fs.cwd) ++ elems p)

/-- The kernel's walk down the names `es` from the directory at `pre`: every
name but the last must lead to a directory. -/
def walkFrom (fs : Fs) (pre : List Bytes) : List Bytes → Except Errno Node
  | [] => .ok .dir
  | e :: rest =>
    match fs.node (pre ++ [e]), rest with
    | none, _ => .error .enoent
    | some n, [] => .ok n
    | some .dir, _ :: _ => fs.walkFrom (pre ++ [e]) rest
    | some (.file _ _), _ :: _ => .error .enotdir

/-- The walk from the root. -/
def lookup (fs : Fs) (es : List Bytes) : Except Errno Node := fs.walkFrom [] es

/-- What the kernel finds at the path `p`: "" names nothing, and a path that
ends in '/' must lead to a directory. -/
def find (fs : Fs) (p : Bytes) : Except Errno Node :=
  if p = [] then .error .enoent
  else
    match fs.lookup (fs.resolve p) with
    | .ok (.file data t) => if p.getLast? = some 0x2F then .error .enotdir else .ok (.file data t)
    | r => r

/-- `os.Stat(name)`. -/
def stat (fs : Fs) (name : Bytes) : Except PathError Node :=
  (fs.find name).mapError (PathError.mk (.ofString "stat") name)

/-- `os.Lstat(name)`: with no symbolic links, what `Stat` finds. -/
def lstat (fs : Fs) (name : Bytes) : Except PathError Node :=
  (fs.find name).mapError (PathError.mk (.ofString "lstat") name)

/-- `os.ReadFile(name)`: `open` succeeds on a directory, and `read` fails. -/
def readFile (fs : Fs) (name : Bytes) : Except PathError Bytes :=
  match fs.find name with
  | .error e => .error ⟨.ofString "open", name, e⟩
  | .ok .dir => .error ⟨.ofString "read", name, .eisdir⟩
  | .ok (.file data _) => .ok data

/-- The last element of a path: `none` for the root. -/
def lastElem (p : Bytes) : Option Bytes := (elems p).getLast?

/-- Where a call that creates or removes `name` acts, once the kernel has
walked to its parent. When the last element is the root, "." or "..", the
call fails with what `special` gives it (`none` for the root). -/
def target (fs : Fs) (name : Bytes) (special : Option Bytes → Errno) : Except Errno (List Bytes) :=
  if name = [] then .error .enoent
  else
    let es := fs.resolve name
    match lastElem name with
    | none => .error (special none)
    | some e =>
      if e = dot ∨ e = dotdot then
        match fs.lookup es with
        | .ok .dir => .error (special (some e))
        | .ok (.file _ _) => .error .enotdir
        | .error err => .error err
      else
        match fs.lookup es.dropLast with
        | .ok .dir => .ok es
        | .ok (.file _ _) => .error .enotdir
        | .error err => .error err

/-- `os.WriteFile(name, data, perm)` at the time `now`:
`open(name, O_WRONLY|O_CREATE|O_TRUNC)` makes the file or empties it, and
the write fills it. -/
def writeFile (fs : Fs) (now : Time) (name data : Bytes) : Except PathError Fs :=
  let fail := fun e => Except.error (PathError.mk (.ofString "open") name e)
  match fs.target name fun _ => .eisdir with
  | .error e => fail e
  | .ok es =>
    match fs.node es with
    | some .dir => fail .eisdir
    | some (.file _ _) => if name.getLast? = some 0x2F then fail .enotdir else .ok (fs.set es (.file data now))
    | none => if name.getLast? = some 0x2F then fail .eisdir else .ok (fs.set es (.file data now))

/-- `os.Mkdir(name, perm)`. -/
def mkdir (fs : Fs) (name : Bytes) : Except PathError Fs :=
  match fs.target name fun _ => .eexist with
  | .error e => .error ⟨.ofString "mkdir", name, e⟩
  | .ok es => if (fs.node es).isSome then .error ⟨.ofString "mkdir", name, .eexist⟩ else .ok (fs.set es .dir)

/-- Where `MkdirAll` scans back to: the length of `path` without its
trailing separators, then without its last element. -/
def parentEnd (path : Bytes) : Nat :=
  ((path.take (path.reverse.dropWhile (· = 0x2F)).length).reverse.dropWhile (· ≠ 0x2F)).length

theorem parentEnd_le (path : Bytes) : parentEnd path ≤ path.length :=
  (List.dropWhile_suffix _).length_le.trans (by rw [List.length_reverse]; exact List.length_take_le' _ _)

/-- `os.MkdirAll(path, perm)`: nothing to do when `path` is a directory;
otherwise it makes the parent, the text before the separator that ends at
`parentEnd path`, when that is more than the root, and then `path`. What it
made stays when a later step fails, so the file system comes back with the
result. -/
def mkdirAll (fs : Fs) (path : Bytes) : Except PathError Unit × Fs :=
  match fs.stat path with
  | .ok .dir => (.ok (), fs)
  | .ok (.file _ _) => (.error ⟨.ofString "mkdir", path, .enotdir⟩, fs)
  | .error _ =>
    let parent := if 1 < parentEnd path then fs.mkdirAll (path.take (parentEnd path - 1)) else (.ok (), fs)
    match parent with
    | (.error e, fs') => (.error e, fs')
    | (.ok (), fs') =>
      match fs'.mkdir path with
      | .ok fs'' => (.ok (), fs'')
      | .error e =>
        match fs'.lstat path with
        | .ok .dir => (.ok (), fs')
        | _ => (.error e, fs')
termination_by path.length
decreasing_by
  have := parentEnd_le path
  simp only [List.length_take]
  omega

/-- Whether a node lies below `es`. -/
def hasBelow (fs : Fs) (es : List Bytes) : Bool := fs.nodes.any fun kv => decide (es <+: kv.1 ∧ kv.1 ≠ es)

/-- `unlink(name)`. -/
def unlink (fs : Fs) (name : Bytes) : Except Errno Fs :=
  match fs.target name fun _ => .eisdir with
  | .error e => .error e
  | .ok es =>
    match fs.node es with
    | none => .error .enoent
    | some .dir => .error .eisdir
    | some (.file _ _) => .ok (fs.erase es)

/-- `rmdir(name)`: the root is busy, "." is invalid, ".." is not empty. -/
def rmdir (fs : Fs) (name : Bytes) : Except Errno Fs :=
  let special : Option Bytes → Errno := fun
    | none => .ebusy
    | some e => if e = dot then .einval else .enotempty
  match fs.target name special with
  | .error e => .error e
  | .ok es =>
    match fs.node es with
    | none => .error .enoent
    | some (.file _ _) => .error .enotdir
    | some .dir => if fs.hasBelow es then .error .enotempty else .ok (fs.erase es)

/-- `os.Remove(name)`: `unlink`, then `rmdir`; when both fail, the error of
`rmdir` unless it is `ENOTDIR`. -/
def remove (fs : Fs) (name : Bytes) : Except PathError Fs :=
  match fs.unlink name with
  | .ok fs' => .ok fs'
  | .error e =>
    match fs.rmdir name with
    | .ok fs' => .ok fs'
    | .error e₁ => .error ⟨.ofString "remove", name, if e₁ ≠ .enotdir then e₁ else e⟩

/-- The nodes strictly below `base`, each with the names that lead to it. -/
def below (fs : Fs) (base : List Bytes) : List (List Bytes × Node) :=
  fs.nodes.filterMap fun kv => if base <+: kv.1 ∧ kv.1 ≠ base then some (kv.1.drop base.length, kv.2) else none

/-- The order `WalkDir` visits nodes in: name by name, each compared as Go
compares strings. `ReadDir` sorts a directory by name and the walk goes
depth first, so a directory comes before what it holds. -/
def walkLt : List Bytes → List Bytes → Bool
  | [], _ :: _ => true
  | a :: as, b :: bs => Bytes.lt a b || (a = b && walkLt as bs)
  | _, _ => false

/-- `filepath.WalkDir(root, fn)`, `fn` passing a state along: `fn` sees
`Lstat(root)`'s error, or the root and then, when it is a directory, every
node below it in lexical order, each under the path `Join` makes of it. The
first error `fn` returns ends the walk. -/
def walkDir {σ ε : Type} (fs : Fs) (root : Bytes) (fn : σ → Bytes → Except PathError Node → Except ε σ)
    (s : σ) : Except ε σ :=
  match fs.lstat root with
  | .error e => fn s root (.error e)
  | .ok n =>
    let entries := if n = .dir then (fs.below (fs.resolve root)).mergeSort (fun a b => !walkLt b.1 a.1) else []
    (([], n) :: entries).foldlM (fun s entry => fn s (walkPath root entry.1) (.ok entry.2)) s

/-! ## Nodes -/

section Nodes

variable (fs : Fs)

@[simp] theorem node_nil : fs.node [] = some .dir := rfl

@[simp] theorem set_cwd (es : List Bytes) (n : Node) : (fs.set es n).cwd = fs.cwd := rfl

@[simp] theorem erase_cwd (es : List Bytes) : (fs.erase es).cwd = fs.cwd := rfl

theorem find?_filter_ne {k es : List Bytes} (h : k ≠ es) (l : List (List Bytes × Node)) :
    (l.filter (·.1 ≠ es)).find? (·.1 = k) = l.find? (·.1 = k) := by
  rw [List.find?_filter]
  congr 1
  funext kv
  by_cases hkv : kv.1 = k <;> simp [hkv, h]

theorem node_set_of_ne {es k : List Bytes} (h : k ≠ es) (n : Node) : (fs.set es n).node k = fs.node k := by
  by_cases hk : k = []
  · simp [node, hk]
  · simp only [node, set, hk, if_false, List.find?_cons, Ne.symm h, decide_False, find?_filter_ne h]

theorem node_set_self {es : List Bytes} (hes : es ≠ []) (n : Node) : (fs.set es n).node es = some n := by
  simp [node, set, hes]

theorem node_erase_of_ne {es k : List Bytes} (h : k ≠ es) : (fs.erase es).node k = fs.node k := by
  by_cases hk : k = []
  · simp [node, hk]
  · simp only [node, erase, hk, if_false, find?_filter_ne h]

theorem node_erase_self {es : List Bytes} (hes : es ≠ []) : (fs.erase es).node es = none := by
  simp [node, erase, hes]

end Nodes

/-! ## The walk -/

section Walk

variable (fs : Fs)

theorem walkFrom_append_singleton (pre : List Bytes) : ∀ (L : List Bytes) (e : Bytes),
    fs.walkFrom pre (L ++ [e]) =
      match fs.walkFrom pre L with
      | .ok .dir => (fs.node (pre ++ L ++ [e])).elim (.error .enoent) .ok
      | .ok (.file _ _) => .error .enotdir
      | .error err => .error err
  | [], e => by
    simp only [List.nil_append, List.append_nil, walkFrom]
    rcases fs.node (pre ++ [e]) with _ | ⟨d, t⟩ | _ <;> rfl
  | x :: L, e => by
    have ih := walkFrom_append_singleton (pre ++ [x]) L e
    rw [List.cons_append]
    rcases h : fs.node (pre ++ [x]) with _ | ⟨d, t⟩ | _
    · cases L <;> simp only [walkFrom, h, List.nil_append, List.cons_append]
    · cases L <;> simp only [walkFrom, h, List.nil_append, List.cons_append]
    · cases L with
      | nil => simpa only [walkFrom, h, List.nil_append, List.append_nil] using ih
      | cons y L =>
        simp only [walkFrom, h, List.cons_append] at ih ⊢
        simpa only [List.append_assoc, List.cons_append, List.nil_append] using ih

/-- Every path above `es` is a directory. -/
def DirsAbove (es : List Bytes) : Prop := ∀ k, k <+: es → k ≠ es → fs.node k = some .dir

theorem lookup_append_singleton (L : List Bytes) (e : Bytes) :
    fs.lookup (L ++ [e]) =
      match fs.lookup L with
      | .ok .dir => (fs.node (L ++ [e])).elim (.error .enoent) .ok
      | .ok (.file _ _) => .error .enotdir
      | .error err => .error err := by
  simpa using walkFrom_append_singleton fs [] L e

theorem dirsAbove_append_singleton {L : List Bytes} (hL : fs.node L = some .dir) (h : fs.DirsAbove L) (e : Bytes) :
    fs.DirsAbove (L ++ [e]) := fun k hk hne => by
  rcases List.prefix_concat_iff.mp hk with rfl | hk
  · exact absurd rfl hne
  · by_cases hkL : k = L
    · rw [hkL, hL]
    · exact h k hk hkL

/-- What the walk finds is there, below directories. -/
theorem node_of_lookup : ∀ {es : List Bytes} {n : Node}, fs.lookup es = .ok n → fs.node es = some n ∧ fs.DirsAbove es := by
  intro es
  induction es using List.reverseRecOn with
  | nil =>
    intro n h
    cases h
    exact ⟨rfl, fun k hk hne => absurd (List.prefix_nil.mp hk) hne⟩
  | append_singleton L e ih =>
    intro n h
    rw [lookup_append_singleton] at h
    rcases hL : fs.lookup L with err | ⟨d, t⟩ | _ <;> rw [hL] at h
    · cases h
    · cases h
    · obtain ⟨hLd, hab⟩ := ih hL
      refine ⟨?_, dirsAbove_append_singleton fs hLd hab e⟩
      cases hn : fs.node (L ++ [e]) <;> rw [hn] at h <;> cases h
      rfl

/-- The walk reads nothing but the paths on its way. -/
theorem lookup_congr {fs' : Fs} {es : List Bytes} (h : ∀ k, k <+: es → fs'.node k = fs.node k) :
    fs'.lookup es = fs.lookup es := by
  induction es using List.reverseRecOn with
  | nil => rfl
  | append_singleton L e ih =>
    rw [lookup_append_singleton, lookup_append_singleton, ih fun k hk => h k (hk.trans (List.prefix_append _ _)),
      h _ List.prefix_rfl]

end Walk

/-! ## Where the calls act -/

section Calls

variable (fs : Fs)

/-- A path whose last element is a name leads to that name, in the directory
its other elements lead to. -/
theorem resolve_snoc {name : Bytes} {M : List Bytes} {e : Bytes} (h : elems name = M ++ [e]) (he : Plain e) :
    fs.resolve name = cleanElems true ((if isRooted name then [] else fs.cwd) ++ M) ++ [e] := by
  rw [resolve, h, ← List.append_assoc, cleanElems_append (fun hd => he.2 (List.mem_singleton.mp hd).symm)]
  simp [he.1]

theorem target_ok {name : Bytes} {special : Option Bytes → Errno} {es : List Bytes}
    (h : fs.target name special = .ok es) :
    es = fs.resolve name ∧ fs.lookup es.dropLast = .ok .dir ∧ ∃ M e, elems name = M ++ [e] ∧ Plain e := by
  by_cases h0 : name = []
  · simp [target, h0] at h
  rcases hl : lastElem name with _ | e
  · simp [target, h0, hl] at h
  by_cases hs : e = dot ∨ e = dotdot
  · simp only [target, h0, hl, hs, if_false, if_true] at h
    split at h <;> cases h
  · simp only [target, h0, hl, hs, if_false] at h
    split at h <;> cases h
    obtain ⟨M, hM⟩ := List.getLast?_eq_some_iff.mp hl
    exact ⟨rfl, ‹_›, M, e, hM, by simpa [not_or] using hs⟩

/-- The path a created or removed node sits at is below a directory, and
not the root. -/
theorem target_ok_spec {name : Bytes} {special : Option Bytes → Errno} {es : List Bytes}
    (h : fs.target name special = .ok es) : es ≠ [] ∧ fs.lookup es.dropLast = .ok .dir ∧ es = fs.resolve name := by
  obtain ⟨rfl, hd, M, e, hM, he⟩ := fs.target_ok h
  exact ⟨by rw [fs.resolve_snoc hM he]; simp, hd, rfl⟩

theorem writeFile_ok {now : Time} {name data : Bytes} {fs' : Fs} (h : fs.writeFile now name data = .ok fs') :
    ∃ es, fs.target name (fun _ => .eisdir) = .ok es ∧ name.getLast? ≠ some 0x2F ∧ fs' = fs.set es (.file data now) := by
  unfold writeFile at h
  split at h
  · cases h
  rename_i es hes
  refine ⟨es, hes, ?_⟩
  split at h
  · cases h
  all_goals
    by_cases hs : name.getLast? = some 0x2F
    · simp [hs] at h
    · simp only [hs, if_false, Except.ok.injEq] at h
      exact ⟨hs, h.symm⟩

theorem mkdir_ok {name : Bytes} {fs' : Fs} (h : fs.mkdir name = .ok fs') :
    ∃ es, fs.target name (fun _ => .eexist) = .ok es ∧ fs.node es = none ∧ fs' = fs.set es .dir := by
  unfold mkdir at h
  split at h
  · cases h
  rename_i es hes
  by_cases hn : (fs.node es).isSome
  · simp [hn] at h
  · simp only [hn, if_false, Except.ok.injEq, Bool.false_eq_true] at h
    exact ⟨es, hes, Option.not_isSome_iff_eq_none.mp hn, h.symm⟩

theorem unlink_ok {name : Bytes} {fs' : Fs} (h : fs.unlink name = .ok fs') :
    ∃ es, fs.target name (fun _ => .eisdir) = .ok es ∧ (∃ d t, fs.node es = some (.file d t)) ∧ fs' = fs.erase es := by
  unfold unlink at h
  split at h
  · cases h
  rename_i es hes
  split at h <;> cases h
  exact ⟨es, hes, ⟨_, _, ‹_›⟩, rfl⟩

theorem rmdir_ok {name : Bytes} {fs' : Fs} (h : fs.rmdir name = .ok fs') :
    ∃ special es, fs.target name special = .ok es ∧ fs.node es = some .dir ∧ fs.hasBelow es = false ∧
      fs' = fs.erase es := by
  unfold rmdir at h
  dsimp only at h
  split at h
  · cases h
  rename_i es hes
  split at h
  · cases h
  · cases h
  · by_cases hb : fs.hasBelow es
    · simp [hb] at h
    · simp only [hb, if_false, Except.ok.injEq, Bool.false_eq_true] at h
      exact ⟨_, es, hes, ‹_›, by simpa using hb, h.symm⟩

/-- `Remove` takes away a file, or a directory with nothing below it. -/
theorem remove_ok {name : Bytes} {fs' : Fs} (h : fs.remove name = .ok fs') :
    ∃ es, es ≠ [] ∧ fs.lookup es.dropLast = .ok .dir ∧ es = fs.resolve name ∧ fs' = fs.erase es ∧
      ((∃ d t, fs.node es = some (.file d t)) ∨ (fs.node es = some .dir ∧ fs.hasBelow es = false)) := by
  unfold remove at h
  split at h
  · obtain ⟨es, hes, hf, rfl⟩ := fs.unlink_ok ‹_›
    cases h
    exact ⟨es, fs.target_ok_spec hes |>.1, fs.target_ok_spec hes |>.2.1, fs.target_ok_spec hes |>.2.2, rfl, .inl hf⟩
  · split at h
    · obtain ⟨sp, es, hes, hd, hb, rfl⟩ := fs.rmdir_ok ‹_›
      cases h
      exact ⟨es, fs.target_ok_spec hes |>.1, fs.target_ok_spec hes |>.2.1, fs.target_ok_spec hes |>.2.2, rfl,
        .inr ⟨hd, hb⟩⟩
    · cases h

end Calls

/-! ## What the calls change -/

/-- From `fs` to `fs'` the working directory stays, and nothing changes at a
path off `S` but that a directory may appear, where there was nothing, at a
path in `A`. -/
def Grows (S A : List Bytes → Prop) (fs fs' : Fs) : Prop :=
  fs'.cwd = fs.cwd ∧ ∀ k, ¬ S k → fs'.node k = fs.node k ∨ (fs.node k = none ∧ fs'.node k = some .dir ∧ A k)

namespace Grows

variable {S A : List Bytes → Prop} {fs₁ fs₂ fs₃ : Fs}

theorem refl (fs : Fs) : Grows S A fs fs := ⟨rfl, fun _ _ => .inl rfl⟩

theorem trans (h₁ : Grows S A fs₁ fs₂) (h₂ : Grows S A fs₂ fs₃) : Grows S A fs₁ fs₃ := by
  refine ⟨h₂.1.trans h₁.1, fun k hk => ?_⟩
  rcases h₁.2 k hk with e₁ | ⟨n₁, d₁, a₁⟩ <;> rcases h₂.2 k hk with e₂ | ⟨n₂, d₂, a₂⟩
  · exact .inl (e₂.trans e₁)
  · exact .inr ⟨e₁ ▸ n₂, d₂, a₂⟩
  · exact .inr ⟨n₁, e₂ ▸ d₁, a₁⟩
  · rw [d₁] at n₂
    cases n₂

theorem mono {S' A' : List Bytes → Prop} (hS : ∀ k, S k → S' k) (hA : ∀ k, ¬ S' k → A k → A' k)
    (h : Grows S A fs₁ fs₂) : Grows S' A' fs₁ fs₂ :=
  ⟨h.1, fun k hk => (h.2 k fun hs => hk (hS k hs)).imp_right fun ⟨n, d, a⟩ => ⟨n, d, hA k hk a⟩⟩

end Grows

section Changes

variable (fs : Fs) {S A : List Bytes → Prop}

end Changes

/-! ## Reading back -/

section Reading

variable (fs : Fs)

/-- The walk to a path whose parent is a directory ends where that path's
node is, and with `ENOENT` when there is none. -/
theorem lookup_of_parent {es : List Bytes} (hes : es ≠ []) (hp : fs.lookup es.dropLast = .ok .dir) :
    fs.lookup es = (fs.node es).elim (.error .enoent) .ok := by
  obtain ⟨L, e, rfl⟩ : ∃ L e, es = L ++ [e] := ⟨es.dropLast, es.getLast hes, (List.dropLast_append_getLast hes).symm⟩
  rw [List.dropLast_concat] at hp
  rw [lookup_append_singleton, hp]

end Reading

/-! ## Nothing there -/

section Missing

variable (fs : Fs)

theorem lookup_of_parent_error {es : List Bytes} (hes : es ≠ []) {err : Errno} (h : fs.lookup es.dropLast = .error err) :
    fs.lookup es = .error err := by
  obtain ⟨L, e, rfl⟩ : ∃ L e, es = L ++ [e] := ⟨es.dropLast, es.getLast hes, (List.dropLast_append_getLast hes).symm⟩
  rw [List.dropLast_concat] at h
  rw [lookup_append_singleton, h]

theorem find_of_lookup_enoent {p : Bytes} (h : fs.lookup (fs.resolve p) = .error .enoent) : fs.find p = .error .enoent := by
  unfold find
  split_ifs <;> simp [h]

/-- Where the kernel's walk to a path fails with `ENOENT`, so does a call
that creates or removes it, unless it fails for the path's last element. -/
theorem target_enoent {name : Bytes} {special : Option Bytes → Errno} (h : fs.target name special = .error .enoent)
    (hs : ∀ x, special x ≠ .enoent) : name = [] ∨ fs.lookup (fs.resolve name) = .error .enoent := by
  by_cases h0 : name = []
  · exact .inl h0
  right
  rcases hl : lastElem name with _ | e
  · simp only [target, h0, hl, if_false, Except.error.injEq] at h
    exact absurd h (hs none)
  by_cases hk : e = dot ∨ e = dotdot
  · simp only [target, h0, hl, hk, if_true, if_false] at h
    split at h
    · exact absurd (Except.error.inj h) (hs _)
    · cases h
    · next err heq =>
      cases h
      exact heq
  · simp only [target, h0, hl, hk, if_false] at h
    split at h
    · cases h
    · cases h
    · next err heq =>
      cases h
      obtain ⟨M, hM⟩ := List.getLast?_eq_some_iff.mp hl
      have hne : fs.resolve name ≠ [] := by
        rw [fs.resolve_snoc hM (by simpa [not_or] using hk)]
        simp
      exact fs.lookup_of_parent_error hne heq

theorem unlink_enoent {name : Bytes} (h : fs.unlink name = .error .enoent) :
    name = [] ∨ fs.lookup (fs.resolve name) = .error .enoent := by
  unfold unlink at h
  split at h
  · next heq =>
    cases h
    exact fs.target_enoent heq fun _ => nofun
  · next es heq =>
    obtain ⟨hne, hp, rfl⟩ := fs.target_ok_spec heq
    split at h
    · next hn => exact .inr (by rw [fs.lookup_of_parent hne hp, hn]; rfl)
    · cases h
    · cases h

theorem rmdir_enoent {name : Bytes} (h : fs.rmdir name = .error .enoent) :
    name = [] ∨ fs.lookup (fs.resolve name) = .error .enoent := by
  unfold rmdir at h
  dsimp only at h
  split at h
  · next heq =>
    cases h
    refine fs.target_enoent heq fun x => ?_
    rcases x with _ | e
    · nofun
    · dsimp only
      split <;> nofun
  · next es heq =>
    obtain ⟨hne, hp, rfl⟩ := fs.target_ok_spec heq
    split at h
    · next hn => exact .inr (by rw [fs.lookup_of_parent hne hp, hn]; rfl)
    · cases h
    · split at h <;> cases h

/-- After `Remove` succeeds, nothing is found at the path. -/
theorem find_of_remove {name : Bytes} {fs' : Fs} (h : fs.remove name = .ok fs') : fs'.find name = .error .enoent := by
  obtain ⟨es, hne, hp, hes, rfl, -⟩ := fs.remove_ok h
  apply find_of_lookup_enoent
  have hcwd : (fs.erase es).resolve name = fs.resolve name := rfl
  have hp' : (fs.erase es).lookup es.dropLast = .ok .dir := by
    rw [← hp]
    refine fs.lookup_congr fun k hk => fs.node_erase_of_ne fun hke => ?_
    have := hk.length_le
    rw [hke, List.length_dropLast] at this
    have := List.length_pos.mpr hne
    omega
  rw [hcwd, ← hes, (fs.erase es).lookup_of_parent hne hp', fs.node_erase_self hne]
  rfl

/-- When `Remove` fails as `os.IsNotExist` sees it, nothing is found at the
path. -/
theorem find_of_remove_notExist {name : Bytes} {e : PathError} (h : fs.remove name = .error e)
    (he : e.isNotExist = true) : fs.find name = .error .enoent := by
  have key : name = [] ∨ fs.lookup (fs.resolve name) = .error .enoent := by
    unfold remove at h
    split at h
    · cases h
    · next eu hu =>
      split at h
      · cases h
      · next er hr =>
        cases h
        simp only [PathError.isNotExist, decide_eq_true_eq] at he
        by_cases her : er = .enotdir
        · simp only [her, ne_eq, not_true_eq_false, if_false] at he
          exact fs.unlink_enoent (he ▸ hu)
        · simp only [her, ne_eq, not_false_eq_true, if_true] at he
          exact fs.rmdir_enoent (he ▸ hr)
  rcases key with h0 | hl
  · simp [find, h0]
  · exact fs.find_of_lookup_enoent hl

end Missing

/-! ## A tree of names -/

/-- The file system is a tree of names: one node per path, each a list of
names below a directory, and a working directory of names. -/
structure WellFormed (fs : Fs) : Prop where
  cwd : ∀ e ∈ fs.cwd, Name e
  nodup : (fs.nodes.map Prod.fst).Nodup
  names : ∀ kv ∈ fs.nodes, kv.1 ≠ [] ∧ ∀ e ∈ kv.1, Name e
  closed : ∀ kv ∈ fs.nodes, fs.node kv.1.dropLast = some .dir

section Tree

variable {fs : Fs}

theorem resolve_names (hcwd : ∀ e ∈ fs.cwd, Name e) (p : Bytes) : ∀ e ∈ fs.resolve p, Name e := by
  intro e he
  obtain ⟨hmem, hdot⟩ := mem_cleanElems he
  refine ⟨?_, hdot, fun h => dotdot_not_mem_cleanElems_true _ (h ▸ he)⟩
  rcases List.mem_append.mp hmem with h | h
  · split at h
    · cases h
    · exact (hcwd e h).1
  · exact piece_of_mem_elems h

theorem mem_set_nodes {es : List Bytes} {n : Node} {kv : List Bytes × Node} :
    kv ∈ (fs.set es n).nodes ↔ kv = (es, n) ∨ (kv ∈ fs.nodes ∧ kv.1 ≠ es) := by
  simp [Fs.set]

/-- Setting a node of names below a directory keeps the tree, when it is a
directory or nothing lies below it. -/
theorem WellFormed.set (hwf : fs.WellFormed) {es : List Bytes} (hes : es ≠ []) (hnames : ∀ e ∈ es, Name e)
    (hp : fs.node es.dropLast = some .dir) {n : Node} (hn : n = .dir ∨ fs.node es ≠ some .dir) :
    (fs.set es n).WellFormed := by
  have hlen : ∀ k, k.dropLast = es → k ≠ es := fun k hk h => by
    have := congrArg List.length hk
    rw [h, List.length_dropLast] at this
    have := List.length_pos.mpr hes
    omega
  refine ⟨hwf.cwd, ?_, fun kv hkv => ?_, fun kv hkv => ?_⟩
  · show (((es, n) :: fs.nodes.filter (·.1 ≠ es)).map Prod.fst).Nodup
    rw [List.map_cons, List.nodup_cons]
    refine ⟨fun h => ?_, (List.Sublist.map _ (List.filter_sublist _)).nodup hwf.nodup⟩
    obtain ⟨kv, hkv, hk⟩ := List.mem_map.mp h
    have := (List.mem_filter.mp hkv).2
    simp [hk] at this
  · rcases mem_set_nodes.mp hkv with rfl | ⟨hkv, -⟩
    · exact ⟨hes, hnames⟩
    · exact hwf.names kv hkv
  · rcases mem_set_nodes.mp hkv with rfl | ⟨hkv, -⟩
    · rw [fs.node_set_of_ne (fun h => hlen _ h rfl)]
      exact hp
    · by_cases hk : kv.1.dropLast = es
      · rw [hk, fs.node_set_self hes]
        rcases hn with rfl | hn
        · rfl
        · exact absurd (hk ▸ hwf.closed kv hkv) hn
      · rw [fs.node_set_of_ne hk]
        exact hwf.closed kv hkv

/-- Taking away a node that nothing lies below keeps the tree. -/
theorem WellFormed.erase (hwf : fs.WellFormed) {es : List Bytes} (hbelow : ∀ kv ∈ fs.nodes, kv.1.dropLast ≠ es) :
    (fs.erase es).WellFormed := by
  refine ⟨hwf.cwd, (List.Sublist.map _ (List.filter_sublist _)).nodup hwf.nodup,
    fun kv hkv => hwf.names kv (List.mem_filter.mp hkv).1, fun kv hkv => ?_⟩
  rw [fs.node_erase_of_ne (hbelow kv (List.mem_filter.mp hkv).1)]
  exact hwf.closed kv (List.mem_filter.mp hkv).1

theorem WellFormed.writeFile (hwf : fs.WellFormed) {now : Time} {name data : Bytes} {fs' : Fs}
    (h : fs.writeFile now name data = .ok fs') : fs'.WellFormed := by
  obtain ⟨es, hes, -, rfl⟩ := fs.writeFile_ok h
  obtain ⟨hne, hp, rfl⟩ := fs.target_ok_spec hes
  refine hwf.set hne (resolve_names hwf.cwd name) (fs.node_of_lookup hp).1 (.inr fun hd => ?_)
  unfold Fs.writeFile at h
  rw [hes] at h
  simp [hd] at h

theorem WellFormed.mkdir (hwf : fs.WellFormed) {name : Bytes} {fs' : Fs} (h : fs.mkdir name = .ok fs') :
    fs'.WellFormed := by
  obtain ⟨es, hes, -, rfl⟩ := fs.mkdir_ok h
  obtain ⟨hne, hp, rfl⟩ := fs.target_ok_spec hes
  exact hwf.set hne (resolve_names hwf.cwd name) (fs.node_of_lookup hp).1 (.inl rfl)

theorem WellFormed.remove (hwf : fs.WellFormed) {name : Bytes} {fs' : Fs} (h : fs.remove name = .ok fs') :
    fs'.WellFormed := by
  obtain ⟨es, hne, -, -, rfl, hkind⟩ := fs.remove_ok h
  refine hwf.erase fun kv hkv hk => ?_
  have hd := hwf.closed kv hkv
  rw [hk] at hd
  rcases hkind with ⟨d, t, hf⟩ | ⟨-, hb⟩
  · rw [hf] at hd
    cases hd
  · have hpre : es <+: kv.1 := hk ▸ List.dropLast_prefix kv.1
    have hne' : kv.1 ≠ es := fun h => by
      have := congrArg List.length hk
      rw [h, List.length_dropLast] at this
      have := List.length_pos.mpr hne
      omega
    have : fs.hasBelow es = true := List.any_eq_true.mpr ⟨kv, hkv, by simp [hpre, hne']⟩
    rw [hb] at this
    cases this

theorem WellFormed.mkdirAll (hwf : fs.WellFormed) (path : Bytes) : (fs.mkdirAll path).2.WellFormed := by
  suffices ∀ len (path : Bytes), path.length = len → (fs.mkdirAll path).2.WellFormed from this _ path rfl
  intro len
  induction len using Nat.strong_induction_on with
  | _ len ih =>
    intro path hlen
    rw [Fs.mkdirAll]
    split
    · exact hwf
    · exact hwf
    · have hparent : (if 1 < parentEnd path then fs.mkdirAll (path.take (parentEnd path - 1)) else (.ok (), fs)).2.WellFormed := by
        split
        · have := parentEnd_le path
          exact ih _ (by simp only [List.length_take]; omega) _ rfl
        · exact hwf
      rcases hpr : (if 1 < parentEnd path then fs.mkdirAll (path.take (parentEnd path - 1)) else (.ok (), fs)) with ⟨res, fs'⟩
      rw [hpr] at hparent
      rcases res with e | ⟨⟩
      · exact hparent
      · dsimp only
        split
        · exact hparent.mkdir ‹_›
        · split <;> exact hparent

end Tree

end Fs

end OmniVault.Os
