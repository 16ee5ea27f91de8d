import OmniVault.Go.Strings

/-!
The process environment of Go's `syscall` package on Unix, through which
`os.LookupEnv`, `os.Setenv`, `os.Unsetenv` and `os.Environ` go.

`envs` is the list the process was started with. `copyenv`, run once before
the first call, indexes it by key in `env`: the first entry of each key is
indexed, and every later entry of that key is blanked, so that `Unsetenv`
cannot uncover it. `Setenv` overwrites the indexed entry of its key or
appends one, `Unsetenv` blanks it, and `Environ` lists the entries that are
not blank. An entry with no '=' is never indexed and never blanked.

`WellFormed` is what the index promises: each indexed entry holds its key,
and each entry with a '=' is the one its key indexes. `copyenv` makes it,
`Setenv` and `Unsetenv` keep it, and from it `Getenv` reads the first entry
of a key, as the C library does.
-/

namespace OmniVault.Syscall

/-- The key of an entry: what stands before its first '='. -/
def entryKey (s : Bytes) : Bytes := s.takeWhile (· ≠ 0x3D)

/-- The value of an entry: what stands after its first '='. -/
def entryValue (s : Bytes) : Bytes := (s.dropWhile (· ≠ 0x3D)).drop 1

/-- An entry with a '=' is `key=value`. -/
def Keyed (s : Bytes) : Prop := (0x3D : UInt8) ∈ s

instance (s : Bytes) : Decidable (Keyed s) := inferInstanceAs (Decidable (_ ∈ _))

/-- `envs` and `env` of `syscall`. -/
structure EnvTable where
  envs : List Bytes
  env : GoMap Nat

/-- The loop of `copyenv`, from its `i`-th entry on: the entries it leaves,
and the index. -/
def copyenvFrom (i : Nat) : List Bytes → GoMap Nat → List Bytes × GoMap Nat
  | [], env => ([], env)
  | s :: rest, env =>
    if Keyed s then
      match env.lookup (entryKey s) with
      | none =>
        let r := copyenvFrom (i + 1) rest (env.insert (entryKey s) i)
        (s :: r.1, r.2)
      | some _ =>
        let r := copyenvFrom (i + 1) rest env
        ([] :: r.1, r.2)
    else
      let r := copyenvFrom (i + 1) rest env
      (s :: r.1, r.2)

/-- `copyenv()` on the environment the process was started with. -/
def copyenv (envs : List Bytes) : EnvTable :=
  let r := copyenvFrom 0 envs GoMap.empty
  ⟨r.1, r.2⟩

/-- `Getenv(key)`: the value, or `none` where Go returns `found = false`.
The index is always in range (`WellFormed.indexed`), where `envs[i]` would
panic otherwise. -/
def getenv (key : Bytes) (t : EnvTable) : Option Bytes :=
  if key = [] then none
  else
    match t.env.lookup key with
    | none => none
    | some i =>
      let s := t.envs.getD i []
      if Keyed s then some (entryValue s) else none

/-- `Setenv(key, value)`; `none` is `EINVAL`. -/
def setenv (key value : Bytes) (t : EnvTable) : Option EnvTable :=
  if key = [] then none
  else if key.any (fun c => c == 0x3D || c == 0) then none
  else if value.any (· == 0) then none
  else
    let kv := key ++ 0x3D :: value
    match t.env.lookup key with
    | some i => some ⟨t.envs.set i kv, t.env.insert key i⟩
    | none => some ⟨t.envs ++ [kv], t.env.insert key t.envs.length⟩

/-- `Unsetenv(key)`, which never fails on Unix. -/
def unsetenv (key : Bytes) (t : EnvTable) : EnvTable :=
  match t.env.lookup key with
  | some i => ⟨t.envs.set i [], t.env.erase key⟩
  | none => t

/-- `Environ()`. -/
def environ (t : EnvTable) : List Bytes := t.envs.filter (· ≠ [])

/-! ## Entries -/

theorem entryKey_kv {key : Bytes} (hk : (0x3D : UInt8) ∉ key) (value : Bytes) :
    entryKey (key ++ 0x3D :: value) = key := by
  induction key with
  | nil => simp [entryKey]
  | cons c key ih =>
    simp only [List.mem_cons, not_or] at hk
    simp [entryKey, List.takeWhile_cons, Ne.symm hk.1] at ih ⊢
    exact ih hk.2

theorem entryValue_kv {key : Bytes} (hk : (0x3D : UInt8) ∉ key) (value : Bytes) :
    entryValue (key ++ 0x3D :: value) = value := by
  induction key with
  | nil => simp [entryValue]
  | cons c key ih =>
    simp only [List.mem_cons, not_or] at hk
    simp [entryValue, List.dropWhile_cons, Ne.symm hk.1] at ih ⊢
    exact ih hk.2

theorem keyed_kv (key value : Bytes) : Keyed (key ++ 0x3D :: value) := by simp [Keyed]

theorem not_keyed_nil : ¬ Keyed [] := by simp [Keyed]

/-! ## The index -/

/-- What `env` promises about `envs`. -/
structure EnvTable.WellFormed (t : EnvTable) : Prop where
  indexed : ∀ k i, t.env.lookup k = some i → ∃ s, t.envs[i]? = some s ∧ Keyed s ∧ entryKey s = k
  first : ∀ i s, t.envs[i]? = some s → Keyed s → t.env.lookup (entryKey s) = some i

namespace EnvTable.WellFormed

variable {t : EnvTable}

/-- Two entries with a '=' and one key are one entry. -/
theorem index_unique (h : t.WellFormed) {i j : Nat} {s s' : Bytes} (hi : t.envs[i]? = some s)
    (hj : t.envs[j]? = some s') (hs : Keyed s) (hs' : Keyed s') (hk : entryKey s = entryKey s') : i = j := by
  have := h.first i s hi hs
  rw [hk, h.first j s' hj hs'] at this
  exact (Option.some.inj this).symm

/-- Overwriting the indexed entry of `key` with another entry of that key. -/
theorem set_indexed (h : t.WellFormed) {key kv : Bytes} {i : Nat} (hi : t.env.lookup key = some i)
    (hkv : Keyed kv) (hkey : entryKey kv = key) : WellFormed ⟨t.envs.set i kv, t.env.insert key i⟩ := by
  obtain ⟨s₀, hs₀, hk₀, hkey₀⟩ := h.indexed key i hi
  have hlt : i < t.envs.length := (List.getElem?_eq_some_iff.mp hs₀).1
  constructor
  · intro k j hj
    by_cases hk : k = key
    · subst hk
      rw [GoMap.lookup_insert_self, Option.some.injEq] at hj
      subst hj
      exact ⟨kv, by simp [hlt], hkv, hkey⟩
    · rw [GoMap.lookup_insert_ne hk] at hj
      obtain ⟨s, hs, hks, hkeys⟩ := h.indexed k j hj
      have hji : j ≠ i := by
        rintro rfl
        obtain rfl : s₀ = s := Option.some.inj (hs₀.symm.trans hs)
        exact hk (hkeys.symm.trans hkey₀)
      exact ⟨s, by rw [List.getElem?_set_ne (Ne.symm hji)]; exact hs, hks, hkeys⟩
  · intro j s hs hks
    by_cases hji : j = i
    · subst hji
      simp only [List.getElem?_set_self hlt, Option.some.injEq] at hs
      subst hs
      simp [hkey]
    · rw [List.getElem?_set_ne (Ne.symm hji)] at hs
      have hne : entryKey s ≠ key := fun e => hji (index_unique h hs hs₀ hks hk₀ (e.trans hkey₀.symm))
      rw [GoMap.lookup_insert_ne hne]
      exact h.first j s hs hks

theorem getElem?_append_singleton {l : List Bytes} {s s' : Bytes} {j : Nat} (h : (l ++ [s])[j]? = some s') :
    (j < l.length ∧ l[j]? = some s') ∨ (j = l.length ∧ s' = s) := by
  rcases Nat.lt_or_ge j l.length with hlt | hge
  · exact .inl ⟨hlt, by rwa [List.getElem?_append_left hlt] at h⟩
  · rw [List.getElem?_append_right hge] at h
    have hj := (List.getElem?_eq_some_iff.mp h).1
    simp only [List.length_singleton] at hj
    exact .inr ⟨by omega, List.mem_singleton.mp (List.getElem?_mem h)⟩

/-- Appending an entry with a '=' whose key is not indexed, indexed at its place. -/
theorem append_fresh (h : t.WellFormed) {s : Bytes} (hs : Keyed s) (hfresh : t.env.lookup (entryKey s) = none) :
    WellFormed ⟨t.envs ++ [s], t.env.insert (entryKey s) t.envs.length⟩ := by
  constructor
  · intro k j hj
    by_cases hk : k = entryKey s
    · subst hk
      rw [GoMap.lookup_insert_self, Option.some.injEq] at hj
      subst hj
      exact ⟨s, by simp, hs, rfl⟩
    · rw [GoMap.lookup_insert_ne hk] at hj
      obtain ⟨s', hs', hks', hkey'⟩ := h.indexed k j hj
      exact ⟨s', by rw [List.getElem?_append_left (List.getElem?_eq_some_iff.mp hs').1]; exact hs', hks', hkey'⟩
  · intro j s' hs' hks'
    rcases getElem?_append_singleton hs' with ⟨-, hs'⟩ | ⟨rfl, rfl⟩
    · have hne : entryKey s' ≠ entryKey s := fun e => by
        have := h.first j s' hs' hks'
        rw [e, hfresh] at this
        cases this
      rw [GoMap.lookup_insert_ne hne]
      exact h.first j s' hs' hks'
    · exact GoMap.lookup_insert_self _ _ _

/-- Appending an entry with no '='. -/
theorem append_unkeyed (h : t.WellFormed) {s : Bytes} (hs : ¬ Keyed s) : WellFormed ⟨t.envs ++ [s], t.env⟩ := by
  constructor
  · intro k j hj
    obtain ⟨s', hs', hks', hkey'⟩ := h.indexed k j hj
    exact ⟨s', by rw [List.getElem?_append_left (List.getElem?_eq_some_iff.mp hs').1]; exact hs', hks', hkey'⟩
  · intro j s' hs' hks'
    rcases getElem?_append_singleton hs' with ⟨-, hs'⟩ | ⟨-, rfl⟩
    · exact h.first j s' hs' hks'
    · exact absurd hks' hs

/-- Blanking the indexed entry of `key` and dropping `key` from the index. -/
theorem blank (h : t.WellFormed) {key : Bytes} {i : Nat} (hi : t.env.lookup key = some i) :
    WellFormed ⟨t.envs.set i [], t.env.erase key⟩ := by
  obtain ⟨s₀, hs₀, hk₀, hkey₀⟩ := h.indexed key i hi
  have hlt : i < t.envs.length := (List.getElem?_eq_some_iff.mp hs₀).1
  constructor
  · intro k j hj
    rw [GoMap.lookup_erase] at hj
    split at hj
    · cases hj
    · obtain ⟨s, hs, hks, hkeys⟩ := h.indexed k j hj
      have hji : j ≠ i := by
        rintro rfl
        obtain rfl : s₀ = s := Option.some.inj (hs₀.symm.trans hs)
        exact ‹¬ k = key› (hkeys.symm.trans hkey₀)
      exact ⟨s, by rw [List.getElem?_set_ne (Ne.symm hji)]; exact hs, hks, hkeys⟩
  · intro j s hs hks
    by_cases hji : j = i
    · subst hji
      simp only [List.getElem?_set_self hlt, Option.some.injEq] at hs
      subst hs
      exact absurd hks not_keyed_nil
    · rw [List.getElem?_set_ne (Ne.symm hji)] at hs
      have hne : entryKey s ≠ key := fun e => hji (index_unique h hs hs₀ hks hk₀ (e.trans hkey₀.symm))
      rw [GoMap.lookup_erase, if_neg hne]
      exact h.first j s hs hks

end EnvTable.WellFormed

/-! ## `Setenv` and `Unsetenv` -/

/-- What `Setenv` accepts: a key that is not empty and holds no '=' and no
NUL, and a value with no NUL. -/
def Setenvable (key value : Bytes) : Prop :=
  key ≠ [] ∧ (0x3D : UInt8) ∉ key ∧ (0 : UInt8) ∉ key ∧ (0 : UInt8) ∉ value

instance (key value : Bytes) : Decidable (Setenvable key value) :=
  inferInstanceAs (Decidable (_ ∧ _ ∧ _ ∧ _))

section Steps

variable {key value : Bytes} {t t' : EnvTable}

theorem any_key_iff {key : Bytes} :
    key.any (fun c => c == 0x3D || c == 0) = true ↔ (0x3D : UInt8) ∈ key ∨ (0 : UInt8) ∈ key := by
  simp only [List.any_eq_true, Bool.or_eq_true, beq_iff_eq]
  constructor
  · rintro ⟨c, hc, rfl | rfl⟩ <;> simp [hc]
  · rintro (h | h) <;> exact ⟨_, h, by simp⟩

theorem setenv_eq_none_iff : setenv key value t = none ↔ ¬ Setenvable key value := by
  have hval : value.any (· == 0) = true ↔ (0 : UInt8) ∈ value := by simp
  unfold setenv Setenvable
  split_ifs with h₀ h₁ h₂
  · simp [h₀]
  · rcases any_key_iff.mp h₁ with h | h <;> simp [h]
  · simp [hval.mp h₂]
  · have hk := any_key_iff.not.mp h₁
    simp only [not_or] at hk
    simp only [ne_eq, h₀, not_false_eq_true, hk.1, hk.2, hval.not.mp h₂, and_self, not_true_eq_false,
      iff_false]
    split <;> simp

/-- What a `Setenv` that succeeds did: overwrite the indexed entry of its
key, or append one and index it. -/
theorem setenv_cases (h : setenv key value t = some t') :
    Setenvable key value ∧
      ((∃ i, t.env.lookup key = some i ∧ t' = ⟨t.envs.set i (key ++ 0x3D :: value), t.env.insert key i⟩) ∨
        (t.env.lookup key = none ∧
          t' = ⟨t.envs ++ [key ++ 0x3D :: value], t.env.insert key t.envs.length⟩)) := by
  have hv : Setenvable key value := not_not.mp fun hn => by rw [setenv_eq_none_iff.mpr hn] at h; cases h
  refine ⟨hv, ?_⟩
  have hany : key.any (fun c => c == 0x3D || c == 0) = false :=
    List.any_eq_false.mpr fun c hc e => by
      simp only [Bool.or_eq_true, beq_iff_eq] at e
      rcases e with rfl | rfl
      exacts [hv.2.1 hc, hv.2.2.1 hc]
  have hval : value.any (· == 0) = false :=
    List.any_eq_false.mpr fun c hc e => hv.2.2.2 (by simp only [beq_iff_eq] at e; exact e ▸ hc)
  simp only [setenv, hv.1, hany, hval, if_false, Bool.false_eq_true] at h
  split at h
  · exact .inl ⟨_, ‹_›, (Option.some.inj h).symm⟩
  · exact .inr ⟨‹_›, (Option.some.inj h).symm⟩

theorem setenv_wellFormed (h : t.WellFormed) (hs : setenv key value t = some t') : t'.WellFormed := by
  obtain ⟨hv, ⟨i, hi, rfl⟩ | ⟨hi, rfl⟩⟩ := setenv_cases hs
  · exact h.set_indexed hi (keyed_kv _ _) (entryKey_kv hv.2.1 _)
  · have := h.append_fresh (keyed_kv key value) (by rw [entryKey_kv hv.2.1]; exact hi)
    rwa [entryKey_kv hv.2.1] at this

theorem unsetenv_wellFormed (h : t.WellFormed) : (unsetenv key t).WellFormed := by
  unfold unsetenv
  split
  · exact h.blank ‹_›
  · exact h

theorem getenv_nil : getenv [] t = none := by simp [getenv]

theorem getenv_of_indexed {k s : Bytes} {i : Nat} (hk : k ≠ []) (hi : t.env.lookup k = some i)
    (hs : t.envs[i]? = some s) (hks : Keyed s) : getenv k t = some (entryValue s) := by
  simp [getenv, hk, hi, List.getD_eq_getElem?_getD, hs, hks]

theorem getenv_of_not_indexed {k : Bytes} (hi : t.env.lookup k = none) : getenv k t = none := by
  simp [getenv, hi]

/-- A key that an update of the table leaves indexed at the same entry
reads the same. -/
theorem getenv_frame (h : t.WellFormed) {k : Bytes} (hl : t'.env.lookup k = t.env.lookup k)
    (he : ∀ i, t.env.lookup k = some i → t'.envs[i]? = t.envs[i]?) : getenv k t' = getenv k t := by
  by_cases hk : k = []
  · simp [hk, getenv_nil]
  cases hki : t.env.lookup k with
  | none => rw [getenv_of_not_indexed (hl.trans hki), getenv_of_not_indexed hki]
  | some j =>
    obtain ⟨s, hs, hks, -⟩ := h.indexed k j hki
    rw [getenv_of_indexed hk (hl.trans hki) ((he j hki).trans hs) hks, getenv_of_indexed hk hki hs hks]

/-- After a `Setenv` that succeeds its key reads its value, and every other
key reads as before. -/
theorem getenv_setenv (h : t.WellFormed) (hs : setenv key value t = some t') (k : Bytes) :
    getenv k t' = if k = key then some value else getenv k t := by
  obtain ⟨hv, hcase⟩ := setenv_cases hs
  split_ifs with hk
  · subst hk
    rcases hcase with ⟨i, hi, rfl⟩ | ⟨-, rfl⟩
    · obtain ⟨s, hs₀, -⟩ := h.indexed k i hi
      have hlt : i < t.envs.length := (List.getElem?_eq_some_iff.mp hs₀).1
      rw [getenv_of_indexed hv.1 (GoMap.lookup_insert_self _ _ _) (List.getElem?_set_self hlt)
        (keyed_kv _ _), entryValue_kv hv.2.1]
    · rw [getenv_of_indexed hv.1 (GoMap.lookup_insert_self _ _ _) (List.getElem?_concat_length _ _)
        (keyed_kv _ _), entryValue_kv hv.2.1]
  · rcases hcase with ⟨i, hi, rfl⟩ | ⟨-, rfl⟩
    · refine getenv_frame h (GoMap.lookup_insert_ne hk _ _) fun j hj => List.getElem?_set_ne fun hij => ?_
      obtain ⟨s, hs₀, hks, hkey⟩ := h.indexed k j hj
      obtain ⟨s', hs', hks', hkey'⟩ := h.indexed key i hi
      exact hk (hkey.symm.trans (hkey' ▸ congrArg entryKey (Option.some.inj (hs₀.symm.trans (hij ▸ hs')))))
    · exact getenv_frame h (GoMap.lookup_insert_ne hk _ _) fun j hj =>
        List.getElem?_append_left (List.getElem?_eq_some_iff.mp (h.indexed k j hj).choose_spec.1).1

/-- After `Unsetenv` its key reads nothing, and every other key reads as before. -/
theorem getenv_unsetenv (h : t.WellFormed) (k : Bytes) :
    getenv k (unsetenv key t) = if k = key then none else getenv k t := by
  unfold unsetenv
  split_ifs with hk
  · subst hk
    split
    · exact getenv_of_not_indexed (by rw [GoMap.lookup_erase, if_pos rfl])
    · exact getenv_of_not_indexed ‹_›
  · split
    · rename_i i hi
      refine getenv_frame h (by rw [GoMap.lookup_erase, if_neg hk]) fun j hj => List.getElem?_set_ne fun hij => ?_
      obtain ⟨s, hs₀, hks, hkey⟩ := h.indexed k j hj
      obtain ⟨s', hs', hks', hkey'⟩ := h.indexed key i hi
      exact hk (hkey.symm.trans (hkey' ▸ congrArg entryKey (Option.some.inj (hs₀.symm.trans (hij ▸ hs')))))
    · rfl

end Steps

/-! ## `copyenv` -/

/-- The value of `key` in the environment a process is started with, as the
C library's `getenv` reads it: from the first entry of the key. -/
def firstMention (key : Bytes) : List Bytes → Option Bytes
  | [] => none
  | s :: rest => if Keyed s ∧ entryKey s = key then some (entryValue s) else firstMention key rest

theorem copyenvFrom_wellFormed :
    ∀ (l : List Bytes) (t : EnvTable), t.WellFormed →
      EnvTable.WellFormed ⟨t.envs ++ (copyenvFrom t.envs.length l t.env).1, (copyenvFrom t.envs.length l t.env).2⟩
  | [], t, h => by simpa [copyenvFrom] using h
  | s :: rest, t, h => by
    unfold copyenvFrom
    split
    · split
      · have := copyenvFrom_wellFormed rest _ (h.append_fresh ‹_› ‹_›)
        simpa using this
      · have := copyenvFrom_wellFormed rest _ (h.append_unkeyed not_keyed_nil)
        simpa using this
    · have := copyenvFrom_wellFormed rest _ (h.append_unkeyed ‹_›)
      simpa using this

theorem copyenv_wellFormed (envs : List Bytes) : (copyenv envs).WellFormed := by
  simpa using copyenvFrom_wellFormed envs ⟨[], GoMap.empty⟩
    { indexed := fun _ _ h => by simp at h, first := fun _ _ h => by simp at h }

/-- `copyenv` blanks exactly the entries whose key it has already indexed:
the first entry of each key not yet indexed is what it leaves. -/
theorem firstMention_copyenvFrom (k : Bytes) :
    ∀ (i : Nat) (l : List Bytes) (env : GoMap Nat),
      firstMention k (copyenvFrom i l env).1 = if env.lookup k = none then firstMention k l else none
  | _, [], _ => by split <;> rfl
  | i, s :: rest, env => by
    unfold copyenvFrom
    by_cases hs : Keyed s
    · rw [if_pos hs]
      by_cases hk : entryKey s = k
      · subst hk
        split
        · simp [firstMention, hs, *]
        · simp [firstMention, not_keyed_nil, firstMention_copyenvFrom, *]
      · have hfm : firstMention k (s :: rest) = firstMention k rest := by simp [firstMention, hk]
        split
        · simp only [firstMention, hk, and_false, if_false, firstMention_copyenvFrom, hfm,
            GoMap.lookup_insert_ne (Ne.symm hk)]
        · simp [firstMention, not_keyed_nil, firstMention_copyenvFrom, hk]
    · simp only [if_neg hs, firstMention, hs, false_and, if_false, firstMention_copyenvFrom]

theorem firstMention_of_unique {k : Bytes} :
    ∀ {l : List Bytes} {i : Nat} {s : Bytes}, l[i]? = some s → Keyed s → entryKey s = k →
      (∀ j s', l[j]? = some s' → Keyed s' → entryKey s' = k → j = i) → firstMention k l = some (entryValue s)
  | [], _, _, h, _, _, _ => nomatch h
  | s₀ :: rest, i, s, hi, hs, hk, huniq => by
    by_cases h₀ : Keyed s₀ ∧ entryKey s₀ = k
    · obtain rfl := huniq 0 s₀ (List.getElem?_cons_zero ..) h₀.1 h₀.2
      simp only [List.getElem?_cons_zero, Option.some.injEq] at hi
      subst hi
      simp [firstMention, h₀]
    · cases i with
      | zero => simp only [List.getElem?_cons_zero, Option.some.injEq] at hi; subst hi; exact absurd ⟨hs, hk⟩ h₀
      | succ i =>
        rw [List.getElem?_cons_succ] at hi
        rw [firstMention, if_neg h₀]
        exact firstMention_of_unique hi hs hk fun j s' hj hs' hk' =>
          Nat.succ.inj (huniq (j + 1) s' (by rwa [List.getElem?_cons_succ]) hs' hk')

theorem firstMention_of_absent {k : Bytes} :
    ∀ {l : List Bytes}, (∀ (j : Nat) s', l[j]? = some s' → Keyed s' → entryKey s' ≠ k) → firstMention k l = none
  | [], _ => rfl
  | s₀ :: rest, h => by
    rw [firstMention, if_neg fun h₀ => h 0 s₀ (List.getElem?_cons_zero ..) h₀.1 h₀.2]
    exact firstMention_of_absent fun j s' hj => h (j + 1) s' (by rwa [List.getElem?_cons_succ])

/-- On a well-formed table, `Getenv` reads the first entry of a key. -/
theorem EnvTable.WellFormed.getenv_eq {t : EnvTable} (h : t.WellFormed) {k : Bytes} (hk : k ≠ []) :
    getenv k t = firstMention k t.envs := by
  cases hi : t.env.lookup k with
  | none =>
    rw [getenv_of_not_indexed hi, firstMention_of_absent fun j s' hj hs' hk' => by
      have := h.first j s' hj hs'
      rw [hk', hi] at this
      cases this]
  | some i =>
    obtain ⟨s, hs, hks, hkey⟩ := h.indexed k i hi
    rw [getenv_of_indexed hk hi hs hks, firstMention_of_unique hs hks hkey fun j s' hj hs' hk' => by
      have := h.first j s' hj hs'
      rw [hk', hi] at this
      exact (Option.some.inj this).symm]

/-- `Getenv` on the table `copyenv` builds reads the first entry of each key
of the environment the process was started with. -/
theorem getenv_copyenv (envs : List Bytes) (k : Bytes) :
    getenv k (copyenv envs) = if k = [] then none else firstMention k envs := by
  split
  · subst_vars; exact getenv_nil
  · rw [(copyenv_wellFormed envs).getenv_eq ‹_›, copyenv, firstMention_copyenvFrom, GoMap.lookup_empty, if_pos rfl]

/-! ## The names `Environ` lists -/

/-- Every entry is blank or `key=value` with a key that is not empty: what
`Setenv` and `Unsetenv` write, and the environment a process is normally
started with. -/
def Clean (envs : List Bytes) : Prop := ∀ s ∈ envs, s = [] ∨ (Keyed s ∧ entryKey s ≠ [])

instance (envs : List Bytes) : Decidable (Clean envs) := inferInstanceAs (Decidable (∀ s ∈ envs, _))

section Names

variable {t t' : EnvTable}

theorem clean_setenv {key value : Bytes} (hc : Clean t.envs) (hs : setenv key value t = some t') :
    Clean t'.envs := by
  have hkv : Keyed (key ++ 0x3D :: value) ∧ entryKey (key ++ 0x3D :: value) ≠ [] := by
    obtain ⟨hv, -⟩ := setenv_cases hs
    exact ⟨keyed_kv _ _, by rw [entryKey_kv hv.2.1]; exact hv.1⟩
  obtain ⟨-, ⟨i, -, rfl⟩ | ⟨-, rfl⟩⟩ := setenv_cases hs
  · intro s hs'
    rcases List.mem_or_eq_of_mem_set hs' with h | rfl
    exacts [hc s h, .inr hkv]
  · intro s hs'
    rcases List.mem_append.mp hs' with h | h
    exacts [hc s h, .inr (List.mem_singleton.mp h ▸ hkv)]

theorem clean_unsetenv {key : Bytes} (hc : Clean t.envs) : Clean (unsetenv key t).envs := by
  unfold unsetenv
  split
  · intro s hs
    rcases List.mem_or_eq_of_mem_set hs with h | rfl
    exacts [hc s h, .inl rfl]
  · exact hc

theorem mem_copyenvFrom : ∀ {i : Nat} {l : List Bytes} {env : GoMap Nat} {s : Bytes},
    s ∈ (copyenvFrom i l env).1 → s = [] ∨ s ∈ l
  | _, [], _, _, h => nomatch h
  | i, s₀ :: rest, env, s, h => by
    unfold copyenvFrom at h
    split at h
    · split at h <;> rcases List.mem_cons.mp h with rfl | h
      · exact .inr (List.mem_cons_self _ _)
      · exact (mem_copyenvFrom h).imp_right (List.mem_cons_of_mem _)
      · exact .inl rfl
      · exact (mem_copyenvFrom h).imp_right (List.mem_cons_of_mem _)
    · rcases List.mem_cons.mp h with rfl | h
      · exact .inr (List.mem_cons_self _ _)
      · exact (mem_copyenvFrom h).imp_right (List.mem_cons_of_mem _)

theorem clean_copyenv {envs : List Bytes} (hc : Clean envs) : Clean (copyenv envs).envs := fun s hs =>
  (mem_copyenvFrom hs).elim .inl (hc s)

private theorem nodup_map_filter {p : Bytes → Bool} {f : Bytes → Bytes} :
    ∀ {l : List Bytes}, (∀ (i j : Nat) s s', l[i]? = some s → l[j]? = some s' → p s → p s' → f s = f s' → i = j) →
      ((l.filter p).map f).Nodup
  | [], _ => List.nodup_nil
  | a :: l, h => by
    have htail : ((l.filter p).map f).Nodup := nodup_map_filter fun i j s s' hi hj hs hs' he =>
      Nat.succ.inj (h (i + 1) (j + 1) s s' (by rwa [List.getElem?_cons_succ])
        (by rwa [List.getElem?_cons_succ]) hs hs' he)
    rw [List.filter_cons]
    split
    · refine List.nodup_cons.mpr ⟨fun hmem => ?_, htail⟩
      obtain ⟨s', hs', he⟩ := List.mem_map.mp hmem
      obtain ⟨hl, hp⟩ := List.mem_filter.mp hs'
      obtain ⟨j, hj⟩ := List.mem_iff_getElem?.mp hl
      exact absurd (h 0 (j + 1) a s' (List.getElem?_cons_zero ..) (by rwa [List.getElem?_cons_succ]) ‹_› hp he.symm) (by omega)
    · exact htail

/-- On a clean, well-formed table, `Environ` lists each name once. -/
theorem EnvTable.WellFormed.names_nodup (h : t.WellFormed) (hc : Clean t.envs) :
    ((environ t).map entryKey).Nodup :=
  nodup_map_filter fun i j s s' hi hj hs hs' he => by
    have hk : Keyed s := ((hc s (List.getElem?_mem hi)).resolve_left (by simpa using hs)).1
    have hk' : Keyed s' := ((hc s' (List.getElem?_mem hj)).resolve_left (by simpa using hs')).1
    exact h.index_unique hi hj hk hk' he

/-- On a clean, well-formed table, `Environ` lists exactly the names
`Getenv` finds. -/
theorem EnvTable.WellFormed.mem_names (h : t.WellFormed) (hc : Clean t.envs) {k : Bytes} :
    k ∈ (environ t).map entryKey ↔ (getenv k t).isSome := by
  constructor
  · intro hk
    obtain ⟨s, hs, rfl⟩ := List.mem_map.mp hk
    obtain ⟨hmem, hne⟩ := List.mem_filter.mp hs
    obtain ⟨hks, hkey⟩ := (hc s hmem).resolve_left (by simpa using hne)
    obtain ⟨i, hi⟩ := List.mem_iff_getElem?.mp hmem
    simp [getenv_of_indexed hkey (h.first i s hi hks) hi hks]
  · intro hk
    cases hi : t.env.lookup k with
    | none => simp [getenv_of_not_indexed hi] at hk
    | some i =>
      obtain ⟨s, hs, hks, rfl⟩ := h.indexed _ i hi
      refine List.mem_map.mpr ⟨s, List.mem_filter.mpr ⟨List.getElem?_mem hs, ?_⟩, rfl⟩
      exact decide_eq_true fun e => not_keyed_nil (e ▸ hks)

end Names

end OmniVault.Syscall
