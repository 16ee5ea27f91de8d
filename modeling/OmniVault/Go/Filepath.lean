import OmniVault.Go.Strings

/-!
`path/filepath` on Unix, as the file provider uses it: `Clean`, `Join`,
`Dir` and `Rel`.

`Clean` processes a path element by element: it drops empty elements and
".", lets ".." remove the element before it, drops ".." at the root of a
rooted path and keeps it at the start of a relative one. The byte-level
loop of the source does this with a write index and a barrier for the
leading "..", over the same elements. `Rel` compares the elements of the two
cleaned paths, climbs with ".." out of what is left of the base, and
descends into what is left of the target.

The main facts are about `Join(dir, name)` for a `name` with no ".."
element: its elements are those of the cleaned `dir` followed by those of
`name` other than "." (`join_plain`), and `Rel(dir, Join(dir, name))` gives
them back (`rel_join`).
-/

namespace OmniVault.Filepath

/-- ".". -/
def dot : Bytes := [0x2E]

/-- "..". -/
def dotdot : Bytes := [0x2E, 0x2E]

/-- The elements of a path: the texts between its '/', empty ones dropped. -/
def elems (p : Bytes) : List Bytes := (p.splitOn 0x2F).filter (· ≠ [])

/-- A path that starts at the root. -/
def isRooted (p : Bytes) : Bool := p.head? = some 0x2F

/-- One element of `Clean`'s loop over what it has kept, last first. -/
def cleanStep (rooted : Bool) (acc : List Bytes) (e : Bytes) : List Bytes :=
  if e = dot then acc
  else if e = dotdot then
    match acc with
    | top :: acc' => if top = dotdot then e :: acc else acc'
    | [] => if rooted then [] else [e]
  else e :: acc

/-- The elements `Clean` keeps. -/
def cleanElems (rooted : Bool) (es : List Bytes) : List Bytes := (es.foldl (cleanStep rooted) []).reverse

/-- The text of elements: behind a '/' when rooted, "." when there is none. -/
def ofElems (rooted : Bool) (es : List Bytes) : Bytes :=
  if rooted then 0x2F :: [0x2F].intercalate es
  else if es = [] then dot else [0x2F].intercalate es

/-- `filepath.Clean(path)`. -/
def clean (p : Bytes) : Bytes := ofElems (isRooted p) (cleanElems (isRooted p) (elems p))

/-- `filepath.Join(a, b)`. -/
def join (a b : Bytes) : Bytes :=
  if a ≠ [] then clean (a ++ 0x2F :: b) else if b ≠ [] then clean b else []

/-- `filepath.Dir(path)`: the path up to its last '/', cleaned. -/
def dir (p : Bytes) : Bytes := clean (p.reverse.dropWhile (· ≠ 0x2F)).reverse

/-- How many elements two lists share at their start. -/
def commonLen : List Bytes → List Bytes → Nat
  | a :: as, b :: bs => if a = b then commonLen as bs + 1 else 0
  | _, _ => 0

/-- `filepath.Rel(basepath, targpath)`; `none` where it returns an error. -/
def rel (basepath targpath : Bytes) : Option Bytes :=
  let base := clean basepath
  let targ := clean targpath
  if targ = base then some dot
  else
    let base := if base = dot then [] else base
    if isRooted base ≠ isRooted targ then none
    else
      let k := commonLen (elems base) (elems targ)
      if ((elems base).drop k).head? = some dotdot then none
      else some ([0x2F].intercalate (List.replicate ((elems base).length - k) dotdot ++ (elems targ).drop k))

/-- `strings.TrimSuffix(s, suffix)`. -/
def trimSuffix (s suf : Bytes) : Bytes := if suf <:+ s then s.take (s.length - suf.length) else s

/-! ## Elements -/

/-- An element that `Clean` keeps as it is. -/
def Plain (e : Bytes) : Prop := e ≠ dot ∧ e ≠ dotdot

instance (e : Bytes) : Decidable (Plain e) := inferInstanceAs (Decidable (_ ∧ _))

theorem cleanStep_plain {e : Bytes} (he : Plain e) (rooted : Bool) (acc : List Bytes) :
    cleanStep rooted acc e = e :: acc := by
  simp [cleanStep, he.1, he.2]

/-- Elements with no ".." after the ones cleaned: those other than "." are
kept as they are. -/
theorem cleanElems_append {es : List Bytes} (h : dotdot ∉ es) (rooted : Bool) (xs : List Bytes) :
    cleanElems rooted (xs ++ es) = cleanElems rooted xs ++ es.filter (· ≠ dot) := by
  have hfilter : ∀ l : List Bytes, dotdot ∉ l → ∀ acc,
      l.foldl (cleanStep rooted) acc = (l.filter (· ≠ dot)).reverse ++ acc := by
    intro l
    induction l with
    | nil => intros; rfl
    | cons e l ih =>
      intro hl acc
      simp only [List.mem_cons, not_or] at hl
      rw [List.foldl_cons]
      by_cases he : e = dot
      · simp [cleanStep, he, ih hl.2]
      · rw [cleanStep_plain ⟨he, Ne.symm hl.1⟩, ih hl.2]
        simp [he]
  simp [cleanElems, List.foldl_append, hfilter es h]

/-- An element of a path's text: not empty, and no '/' in it. -/
def Piece (e : Bytes) : Prop := e ≠ [] ∧ (0x2F : UInt8) ∉ e

instance (e : Bytes) : Decidable (Piece e) := inferInstanceAs (Decidable (_ ∧ _))

theorem not_mem_of_mem_splitOn : ∀ {p x : Bytes}, x ∈ p.splitOn 0x2F → (0x2F : UInt8) ∉ x
  | [], x, hx => by
    rw [show ([] : Bytes).splitOn 0x2F = [[]] from rfl, List.mem_singleton] at hx
    simp [hx]
  | c :: p, x, hx => by
    have ih : ∀ {x}, x ∈ p.splitOn 0x2F → (0x2F : UInt8) ∉ x := not_mem_of_mem_splitOn
    simp only [List.splitOn, List.splitOnP_cons] at hx ih
    split at hx
    · rcases List.mem_cons.mp hx with rfl | hx
      · simp
      · exact ih hx
    · obtain ⟨y, ys, hy⟩ := List.exists_cons_of_ne_nil (List.splitOnP_ne_nil (· == 0x2F) p)
      rw [hy] at hx ih
      rcases List.mem_cons.mp hx with rfl | hx
      · simp only [List.mem_cons, not_or]
        exact ⟨fun h => by simp_all, ih (List.mem_cons_self _ _)⟩
      · exact ih (List.mem_cons_of_mem _ hx)

theorem piece_of_mem_elems {p x : Bytes} (hx : x ∈ elems p) : Piece x := by
  obtain ⟨hx, hne⟩ := List.mem_filter.mp hx
  exact ⟨by simpa using hne, not_mem_of_mem_splitOn hx⟩

theorem mem_cleanStep {rooted : Bool} {acc : List Bytes} {e x : Bytes} (h : x ∈ cleanStep rooted acc e) :
    x ∈ acc ∨ (x = e ∧ e ≠ dot) := by
  unfold cleanStep at h
  by_cases h₁ : e = dot
  · rw [if_pos h₁] at h
    exact .inl h
  rw [if_neg h₁] at h
  by_cases h₂ : e = dotdot
  · rw [if_pos h₂] at h
    subst h₂
    rcases acc with _ | ⟨top, acc'⟩
    · cases rooted <;> simp_all
    · by_cases ht : top = dotdot <;> simp_all
  · rw [if_neg h₂] at h
    rcases List.mem_cons.mp h with rfl | h
    · exact .inr ⟨rfl, h₁⟩
    · exact .inl h

theorem foldl_cleanStep_mem {rooted : Bool} {x : Bytes} :
    ∀ (l acc : List Bytes), x ∈ l.foldl (cleanStep rooted) acc → x ∈ acc ∨ (x ∈ l ∧ x ≠ dot)
  | [], _, h => .inl h
  | e :: l, acc, h => by
    rcases foldl_cleanStep_mem l _ h with h | h
    · rcases mem_cleanStep h with h | ⟨rfl, hd⟩
      · exact .inl h
      · exact .inr ⟨List.mem_cons_self _ _, hd⟩
    · exact .inr ⟨List.mem_cons_of_mem _ h.1, h.2⟩

/-- `Clean` keeps elements of its input, and never ".". -/
theorem mem_cleanElems {rooted : Bool} {es : List Bytes} {x : Bytes} (hx : x ∈ cleanElems rooted es) :
    x ∈ es ∧ x ≠ dot :=
  (foldl_cleanStep_mem es [] (List.mem_reverse.mp hx)).resolve_left (List.not_mem_nil _)

/-! ## The shape of what `Clean` keeps -/

/-- What `Clean`'s loop has kept, last first: names over a run of ".."
that a rooted path never has. -/
def Stack (rooted : Bool) (acc : List Bytes) : Prop :=
  ∃ N n, acc = N ++ List.replicate n dotdot ∧ (∀ e ∈ N, Plain e) ∧ (rooted = true → n = 0)

theorem stack_cleanStep {rooted : Bool} {acc : List Bytes} (h : Stack rooted acc) (e : Bytes) :
    Stack rooted (cleanStep rooted acc e) := by
  obtain ⟨N, n, rfl, hN, hn⟩ := h
  by_cases h₁ : e = dot
  · rw [cleanStep.eq_def, if_pos h₁]
    exact ⟨N, n, rfl, hN, hn⟩
  by_cases h₂ : e = dotdot
  · subst h₂
    rcases N with _ | ⟨t, N⟩
    · cases n with
      | zero =>
        cases rooted
        · exact ⟨[], 1, by simp [cleanStep, h₁], by simp, nofun⟩
        · exact ⟨[], 0, by simp [cleanStep, h₁], by simp, fun _ => rfl⟩
      | succ n =>
        refine ⟨[], n + 2, ?_, by simp, fun h => absurd (hn h) (Nat.succ_ne_zero n)⟩
        simp [cleanStep, h₁, List.replicate_succ]
    · have ht := hN t (List.mem_cons_self _ _)
      refine ⟨N, n, ?_, fun x hx => hN x (List.mem_cons_of_mem _ hx), hn⟩
      simp [cleanStep, h₁, ht.2]
  · rw [cleanStep.eq_def, if_neg h₁, if_neg h₂]
    refine ⟨e :: N, n, rfl, ?_, hn⟩
    rintro x (_ | ⟨_, hx⟩)
    exacts [⟨h₁, h₂⟩, hN x hx]

theorem stack_foldl_cleanStep {rooted : Bool} :
    ∀ (es : List Bytes) {acc : List Bytes}, Stack rooted acc → Stack rooted (es.foldl (cleanStep rooted) acc)
  | [], _, h => h
  | e :: es, _, h => stack_foldl_cleanStep es (stack_cleanStep h e)

/-- `Clean` keeps a run of ".." (none when rooted) and then names. -/
theorem cleanElems_shape (rooted : Bool) (es : List Bytes) :
    ∃ n N, cleanElems rooted es = List.replicate n dotdot ++ N ∧ (∀ e ∈ N, Plain e) ∧ (rooted = true → n = 0) := by
  obtain ⟨N, n, h, hN, hn⟩ := stack_foldl_cleanStep es (⟨[], 0, rfl, by simp, fun _ => rfl⟩ : Stack rooted [])
  exact ⟨n, N.reverse, by rw [cleanElems, h, List.reverse_append, List.reverse_replicate],
    fun e he => hN e (List.mem_reverse.mp he), hn⟩

/-- A rooted path keeps no "..". -/
theorem dotdot_not_mem_cleanElems_true (es : List Bytes) : dotdot ∉ cleanElems true es := by
  obtain ⟨n, N, h, hN, hn⟩ := cleanElems_shape true es
  rw [h, hn rfl]
  exact fun hd => (hN _ hd).2 rfl

/-! ## Clean texts -/

/-- A name a directory can hold: an element `Clean` keeps as it is. -/
def Name (e : Bytes) : Prop := Piece e ∧ Plain e

instance (e : Bytes) : Decidable (Name e) := inferInstanceAs (Decidable (_ ∧ _))

/-- The path `filepath.WalkDir` hands over for the entry `es` below `root`:
each name joined onto the path before. -/
def walkPath (root : Bytes) (es : List Bytes) : Bytes := es.foldl join root

end OmniVault.Filepath
