import Mathlib

/-!
Go strings, byte slices and maps as the store sees them. A Go `string` is a
sequence of bytes with no encoding promise, so it is modelled as a list of
`UInt8`, never as a Lean `String`. `sort.Strings` orders by Go's `<` on
strings, which compares bytes lexicographically. A Go `map[string]V` is
kept as its entries in increasing key order: the order `encoding/json`
writes them in, and one representation per map, so that two maps with the
same lookups are equal. Go's unspecified iteration order is never observed
by the code modelled, which sorts or writes through `encoding/json`.
-/

namespace OmniVault

/-- A Go `string` or `[]byte`. -/
abbrev Bytes := List UInt8

namespace Bytes

/-- The UTF-8 bytes of a Lean string literal; used for the source's constant texts. -/
def ofString (s : String) : Bytes := s.toList.flatMap String.utf8EncodeChar

/-- `strings.HasPrefix(s, prefix)`. -/
def hasPrefix (s pre : Bytes) : Bool := pre.isPrefixOf s

/-- `strings.TrimPrefix(s, prefix)`. -/
def trimPrefix (s pre : Bytes) : Bytes := if hasPrefix s pre then s.drop pre.length else s

/-- Go's `<` on strings: bytes compared as unsigned numbers, a proper prefix first. -/
def lt : Bytes → Bytes → Bool
  | [], [] => false
  | [], _ :: _ => true
  | _ :: _, [] => false
  | a :: as, b :: bs => decide (a.toNat < b.toNat) || (a == b && lt as bs)

/-- `sort.Strings`. Go's sort is not stable, but on distinct strings every
correct sort returns the same list, so a merge sort stands for it. -/
def sortStrings (xs : List Bytes) : List Bytes := xs.mergeSort (fun a b => !lt b a)

/-- An ASCII decimal digit. -/
def isDigit (b : UInt8) : Bool := 0x30 ≤ b.toNat && b.toNat ≤ 0x39

@[simp] theorem hasPrefix_iff {s pre : Bytes} : hasPrefix s pre ↔ pre <+: s := by
  simp [hasPrefix]

theorem lt_irrefl (s : Bytes) : lt s s = false := by
  induction s with
  | nil => rfl
  | cons a s ih => simp [lt, ih]

theorem lt_trans {s t u : Bytes} (hst : lt s t) (htu : lt t u) : lt s u := by
  induction s generalizing t u with
  | nil => cases t <;> cases u <;> simp_all [lt]
  | cons a s ih =>
      cases t with
      | nil => simp [lt] at hst
      | cons b t =>
          cases u with
          | nil => simp [lt] at htu
          | cons c u =>
              simp only [lt, Bool.or_eq_true, decide_eq_true_eq, Bool.and_eq_true,
                beq_iff_eq] at *
              rcases hst with h1 | ⟨rfl, h1⟩ <;> rcases htu with h2 | ⟨rfl, h2⟩
              · exact .inl (by omega)
              · exact .inl h1
              · exact .inl h2
              · exact .inr ⟨rfl, ih h1 h2⟩

theorem lt_total {s t : Bytes} (hne : s ≠ t) : lt s t ∨ lt t s := by
  induction s generalizing t with
  | nil => cases t <;> simp_all [lt]
  | cons a s ih =>
      cases t with
      | nil => simp [lt]
      | cons b t =>
          simp only [lt, Bool.or_eq_true, decide_eq_true_eq, Bool.and_eq_true, beq_iff_eq]
          rcases Nat.lt_trichotomy a.toNat b.toNat with h | h | h
          · exact .inl (.inl h)
          · obtain rfl : a = b := UInt8.toNat.inj h
            rcases ih (fun h => hne (h ▸ rfl)) with h | h
            · exact .inl (.inr ⟨rfl, h⟩)
            · exact .inr (.inr ⟨rfl, h⟩)
          · exact .inr (.inl h)

theorem lt_asymm {s t : Bytes} (hst : lt s t) : lt t s = false := by
  cases h : lt t s
  · rfl
  · simpa [lt_irrefl] using lt_trans hst h

/-- Go's `<=` on strings is transitive. -/
private theorem not_lt_trans {a b c : Bytes} (hab : lt b a = false) (hbc : lt c b = false) :
    lt c a = false := by
  cases hca : lt c a
  · rfl
  · by_cases heq : a = b
    · subst heq; rw [hbc] at hca; exact hca.symm
    · rcases lt_total heq with h | h
      · simp [lt_trans hca h] at hbc
      · simp [h] at hab

/-- `sort.Strings` leaves a strictly increasing list as it is. -/
theorem sortStrings_of_increasing {xs : List Bytes} (h : xs.Pairwise fun a b => lt a b) :
    sortStrings xs = xs :=
  List.mergeSort_of_sorted (h.imp fun hab => by simp [lt_asymm hab])

end Bytes

/-- A Go `map[string]V`, kept as its entries in increasing key order: two maps
with the same entries are equal. Go's iteration order is unspecified: a model
that ranges over a map takes the order from its environment. -/
structure GoMap (V : Type) where
  entries : List (Bytes × V)
  sorted : (entries.map Prod.fst).Pairwise fun a b => Bytes.lt a b

namespace GoMap

instance [DecidableEq V] : DecidableEq (GoMap V) := fun a b =>
  decidable_of_iff (a.entries = b.entries) ⟨fun h => by cases a; cases b; cases h; rfl, (· ▸ rfl)⟩

variable {V : Type}

/-- `make(map[string]V)`. -/
def empty : GoMap V := ⟨[], List.Pairwise.nil⟩

/-- `m[k]`, with `ok`. -/
def lookup (k : Bytes) (m : GoMap V) : Option V := (m.entries.find? (·.1 = k)).map (·.2)

/-- The entries after `m[k] = v`. -/
def insertEntry (k : Bytes) (v : V) : List (Bytes × V) → List (Bytes × V)
  | [] => [(k, v)]
  | (k', v') :: rest =>
    if Bytes.lt k k' then (k, v) :: (k', v') :: rest
    else if k = k' then (k, v) :: rest
    else (k', v') :: insertEntry k v rest

theorem mem_keys_insertEntry {k : Bytes} {v : V} {l : List (Bytes × V)} {a : Bytes}
    (ha : a ∈ (insertEntry k v l).map Prod.fst) : a = k ∨ a ∈ l.map Prod.fst := by
  induction l with
  | nil => simpa [insertEntry] using ha
  | cons e rest ih =>
      obtain ⟨k', v'⟩ := e
      by_cases hlt : Bytes.lt k k'
      · simpa [insertEntry, hlt] using ha
      · by_cases heq : k = k'
        · subst heq
          simp only [insertEntry, hlt, if_true, if_false, Bool.false_eq_true] at ha
          simp only [List.map_cons, List.mem_cons] at ha ⊢
          rcases ha with h | h
          · exact .inl h
          · exact .inr (.inr h)
        · simp only [insertEntry, hlt, heq, if_false, Bool.false_eq_true, List.map_cons,
            List.mem_cons] at ha ⊢
          rcases ha with h | h
          · exact .inr (.inl h)
          · rcases ih h with h | h
            · exact .inl h
            · exact .inr (.inr h)

theorem insertEntry_sorted {k : Bytes} {v : V} {l : List (Bytes × V)}
    (hl : (l.map Prod.fst).Pairwise fun a b => Bytes.lt a b) :
    ((insertEntry k v l).map Prod.fst).Pairwise fun a b => Bytes.lt a b := by
  induction l with
  | nil => simp [insertEntry]
  | cons e rest ih =>
      obtain ⟨k', v'⟩ := e
      simp only [List.map_cons, List.pairwise_cons] at hl
      by_cases hlt : Bytes.lt k k'
      · simp only [insertEntry, hlt, if_true, List.map_cons, List.pairwise_cons, List.mem_cons]
        refine ⟨?_, hl.1, hl.2⟩
        rintro a (rfl | ha)
        · exact hlt
        · exact Bytes.lt_trans hlt (hl.1 a ha)
      · by_cases heq : k = k'
        · subst heq
          simp only [insertEntry, hlt, if_true, if_false, Bool.false_eq_true, List.map_cons,
            List.pairwise_cons]
          exact hl
        · simp only [insertEntry, hlt, heq, if_false, Bool.false_eq_true, List.map_cons,
            List.pairwise_cons]
          refine ⟨fun a ha => ?_, ih hl.2⟩
          rcases mem_keys_insertEntry ha with rfl | ha
          · rcases Bytes.lt_total heq with h | h
            · exact absurd h hlt
            · exact h
          · exact hl.1 a ha

/-- `m[k] = v`. -/
def insert (k : Bytes) (v : V) (m : GoMap V) : GoMap V :=
  ⟨insertEntry k v m.entries, insertEntry_sorted m.sorted⟩

/-- `delete(m, k)`. -/
def erase (k : Bytes) (m : GoMap V) : GoMap V :=
  ⟨m.entries.filter (·.1 ≠ k), m.sorted.sublist ((List.filter_sublist _).map _)⟩

/-- The keys, in increasing order. -/
def keys (m : GoMap V) : List Bytes := m.entries.map Prod.fst

/-- `len(m)`. -/
def size (m : GoMap V) : Nat := m.entries.length

/-! ### Lookups -/

/-- `lookup` on a list of entries. -/
def find (k : Bytes) (l : List (Bytes × V)) : Option V := (l.find? (·.1 = k)).map (·.2)

@[simp] theorem find_nil (k : Bytes) : find k ([] : List (Bytes × V)) = none := rfl

theorem find_cons (k k' : Bytes) (v : V) (l : List (Bytes × V)) :
    find k ((k', v) :: l) = if k' = k then some v else find k l := by
  by_cases h : k' = k <;> simp [find, List.find?_cons, h]

theorem find_eq_none {k : Bytes} {l : List (Bytes × V)} : find k l = none ↔ k ∉ l.map Prod.fst := by
  induction l with
  | nil => simp
  | cons e l ih =>
      obtain ⟨k', v⟩ := e
      rw [find_cons]
      by_cases h : k' = k
      · simp [h]
      · simp [h, ih, Ne.symm h]

theorem find_insertEntry_self (k : Bytes) (v : V) (l : List (Bytes × V)) :
    find k (insertEntry k v l) = some v := by
  induction l with
  | nil => simp [insertEntry, find_cons]
  | cons e l ih =>
      obtain ⟨k', v'⟩ := e
      simp only [insertEntry]
      split
      · simp [find_cons]
      · split
        · simp [find_cons]
        · rw [find_cons, if_neg (Ne.symm ‹_›), ih]

theorem find_insertEntry_ne {k k' : Bytes} (h : k' ≠ k) (v : V) (l : List (Bytes × V)) :
    find k' (insertEntry k v l) = find k' l := by
  induction l with
  | nil => simp [insertEntry, find_cons, Ne.symm h]
  | cons e l ih =>
      obtain ⟨k'', v'⟩ := e
      simp only [insertEntry]
      split
      · rw [find_cons, if_neg (Ne.symm h)]
      · split
        · rename_i heq
          subst heq
          rw [find_cons, find_cons, if_neg (Ne.symm h), if_neg (Ne.symm h)]
        · rw [find_cons, find_cons, ih]

/-- Sorted entry lists with the same lookups are equal. -/
theorem eq_of_find {l₁ l₂ : List (Bytes × V)}
    (h₁ : (l₁.map Prod.fst).Pairwise fun a b => Bytes.lt a b)
    (h₂ : (l₂.map Prod.fst).Pairwise fun a b => Bytes.lt a b)
    (h : ∀ k, find k l₁ = find k l₂) : l₁ = l₂ := by
  induction l₁ generalizing l₂ with
  | nil =>
      cases l₂ with
      | nil => rfl
      | cons e l₂ =>
          have := h e.1
          rw [find_cons, if_pos rfl] at this
          exact absurd this (by simp)
  | cons e₁ l₁ ih =>
      cases l₂ with
      | nil =>
          have := h e₁.1
          rw [find_cons, if_pos rfl] at this
          exact absurd this (by simp)
      | cons e₂ l₂ =>
          obtain ⟨k₁, v₁⟩ := e₁
          obtain ⟨k₂, v₂⟩ := e₂
          simp only [List.map_cons, List.pairwise_cons] at h₁ h₂
          have hnot₁ : find k₁ l₁ = none := find_eq_none.mpr fun hk => by
            simpa [Bytes.lt_irrefl] using h₁.1 k₁ hk
          have hnot₂ : find k₂ l₂ = none := find_eq_none.mpr fun hk => by
            simpa [Bytes.lt_irrefl] using h₂.1 k₂ hk
          have hk : k₁ = k₂ := by
            by_contra hne
            rcases Bytes.lt_total hne with hlt | hlt
            · have := h k₁
              rw [find_cons, find_cons, if_pos rfl, if_neg (Ne.symm hne),
                find_eq_none.mpr fun hm => by
                  simpa [Bytes.lt_asymm hlt] using h₂.1 k₁ hm] at this
              exact absurd this (by simp)
            · have := h k₂
              rw [find_cons, find_cons, if_pos rfl, if_neg hne,
                find_eq_none.mpr fun hm => by
                  simpa [Bytes.lt_asymm hlt] using h₁.1 k₂ hm] at this
              exact absurd this (by simp)
          subst hk
          have hv : v₁ = v₂ := by simpa [find_cons] using h k₁
          subst hv
          congr 1
          refine ih h₁.2 h₂.2 fun k => ?_
          by_cases hkk : k₁ = k
          · subst hkk; rw [hnot₁, hnot₂]
          · simpa [find_cons, hkk] using h k

theorem lookup_eq_find (k : Bytes) (m : GoMap V) : m.lookup k = find k m.entries := rfl

/-- Two maps that answer every lookup alike are equal. -/
@[ext] theorem ext {m₁ m₂ : GoMap V} (h : ∀ k, m₁.lookup k = m₂.lookup k) : m₁ = m₂ := by
  cases m₁; cases m₂
  congr
  exact eq_of_find ‹_› ‹_› h

@[simp] theorem lookup_empty (k : Bytes) : (empty : GoMap V).lookup k = none := rfl

@[simp] theorem lookup_insert_self (k : Bytes) (v : V) (m : GoMap V) :
    (m.insert k v).lookup k = some v :=
  find_insertEntry_self k v m.entries

theorem lookup_insert_ne {k k' : Bytes} (h : k' ≠ k) (v : V) (m : GoMap V) :
    (m.insert k v).lookup k' = m.lookup k' :=
  find_insertEntry_ne h v m.entries

theorem lookup_insert (k k' : Bytes) (v : V) (m : GoMap V) :
    (m.insert k v).lookup k' = if k' = k then some v else m.lookup k' := by
  split
  · subst_vars; exact lookup_insert_self _ _ _
  · exact lookup_insert_ne ‹_› v m

theorem find_filter (k k' : Bytes) (l : List (Bytes × V)) :
    find k' (l.filter (·.1 ≠ k)) = if k' = k then none else find k' l := by
  induction l with
  | nil => simp
  | cons e l ih =>
      obtain ⟨k'', v⟩ := e
      by_cases h : k'' = k
      · subst h
        simp only [List.filter_cons, ne_eq, not_true_eq_false, decide_False, Bool.false_eq_true,
          if_false, ih, find_cons]
        by_cases h' : k' = k''
        · simp [h']
        · simp [h', Ne.symm h']
      · simp only [List.filter_cons, ne_eq, h, not_false_eq_true, decide_True, if_true, find_cons,
          ih]
        by_cases h' : k' = k <;> by_cases h'' : k'' = k' <;> simp_all

theorem lookup_erase (k k' : Bytes) (m : GoMap V) :
    (m.erase k).lookup k' = if k' = k then none else m.lookup k' :=
  find_filter k k' m.entries

theorem mem_keys {k : Bytes} {m : GoMap V} : k ∈ m.keys ↔ (m.lookup k).isSome := by
  rw [keys, lookup_eq_find, ← Option.ne_none_iff_isSome, Ne, find_eq_none, not_not]

theorem find_of_mem {e : Bytes × V} :
    ∀ {l : List (Bytes × V)}, (l.map Prod.fst).Nodup → e ∈ l → find e.1 l = some e.2
  | [], _, he => nomatch he
  | e' :: l, hl, he => by
    simp only [List.map_cons, List.nodup_cons, List.mem_map, not_exists, not_and] at hl
    rw [find_cons]
    rcases List.mem_cons.mp he with rfl | he
    · simp
    · have hne : e'.1 ≠ e.1 := fun h => hl.1 e he h.symm
      simp [hne, find_of_mem hl.2 he]

theorem keys_nodup (m : GoMap V) : m.keys.Nodup :=
  m.sorted.imp fun {a b} h hab => by subst hab; simp [Bytes.lt_irrefl] at h

/-- Inserting entries with distinct keys one by one: a key takes its entry's
value, and keeps its old value when no entry has it. -/
theorem lookup_of_mem {m : GoMap V} {e : Bytes × V} (he : e ∈ m.entries) : m.lookup e.1 = some e.2 :=
  find_of_mem (keys_nodup m) he

theorem lookup_foldl_insert (k : Bytes) :
    ∀ (l : List (Bytes × V)) (m : GoMap V), (l.map Prod.fst).Nodup →
      (l.foldl (fun acc e => acc.insert e.1 e.2) m).lookup k = (find k l).or (m.lookup k)
  | [], _, _ => rfl
  | (k', v) :: l, m, hnd => by
    rw [List.map_cons, List.nodup_cons] at hnd
    rw [List.foldl_cons, lookup_foldl_insert k l _ hnd.2, find_cons, lookup_insert]
    by_cases h : k' = k
    · subst h
      simp [find_eq_none.mpr hnd.1]
    · simp [h, Ne.symm h]

/-- A map is rebuilt by inserting its entries into the empty map. -/
theorem foldl_insert_entries (m : GoMap V) :
    m.entries.foldl (fun acc e => acc.insert e.1 e.2) empty = m := by
  ext k
  rw [lookup_foldl_insert k _ _ (keys_nodup m), lookup_empty, Option.or_none, lookup_eq_find]

/-- The keys after an insertion depend on the keys before it only. -/
theorem keys_insertEntry_congr {W : Type} {k : Bytes} (v : V) (v' : W) :
    ∀ {l : List (Bytes × V)} {l' : List (Bytes × W)}, l.map Prod.fst = l'.map Prod.fst →
      (insertEntry k v l).map Prod.fst = (insertEntry k v' l').map Prod.fst
  | [], [], _ => rfl
  | (a, x) :: l, (b, y) :: l', h => by
    simp only [List.map_cons, List.cons.injEq] at h
    obtain ⟨rfl, h⟩ := h
    simp only [insertEntry]
    split_ifs <;> simp [h, keys_insertEntry_congr v v' h]

theorem keys_insert_congr {W : Type} {m : GoMap V} {m' : GoMap W} (h : m.keys = m'.keys) (k : Bytes)
    (v : V) (v' : W) : (m.insert k v).keys = (m'.insert k v').keys :=
  keys_insertEntry_congr v v' h

theorem keys_erase (k : Bytes) (m : GoMap V) : (m.erase k).keys = m.keys.filter (· ≠ k) := by
  simp [keys, erase, List.filter_map, Function.comp_def]

theorem mem_of_find {k : Bytes} {v : V} : ∀ {l : List (Bytes × V)}, find k l = some v → (k, v) ∈ l
  | [], h => nomatch h
  | (k', v') :: l, h => by
    rw [find_cons] at h
    split at h
    · cases h; subst_vars; exact List.mem_cons_self _ _
    · exact List.mem_cons_of_mem _ (mem_of_find h)

theorem size_eq_length_keys (m : GoMap V) : m.size = m.keys.length := by simp [size, keys]

theorem eq_empty_of_size {m : GoMap V} (h : m.size = 0) : m = empty := by
  ext k
  rw [lookup_eq_find, List.eq_nil_of_length_eq_zero h]
  rfl

end GoMap

end OmniVault
