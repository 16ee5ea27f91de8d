import OmniVault.Vault.Secret

/-!
Secret references and the `Resolver` that routes them to providers.

A `vault.SecretRef` is a URI `scheme://path[#field]`. `Scheme` ranges over
the runes of the text and cuts it at the first ':', `Path` takes what follows
the first "://" up to the first '#', and `Fragment` what follows the last
'#'. `IsSecretRef` asks only for a non-empty scheme and more than three bytes
after it, so a text with a ':' and no "://" after it counts as a reference:
`ResolveString` then sends it to the provider its scheme names, and with no
such provider it fails.

A provider is a `vault.Vault` as the resolver uses it, its `Get`, which may
answer a nil secret; `Resolve` then panics in `Secret.String`. The resolver's
mutex is not modelled: every method reads the provider table under it.
`ResolveMap` ranges over its map in an order the model takes as a parameter,
since Go's is unspecified.
-/

namespace OmniVault

open Utf8 Vault

namespace Vault

/-- The bytes before the first rune that is the ASCII byte `c`, in a `range`
over the runes, or `none` when there is no such rune. -/
def prefixBefore (c : UInt8) : List Piece → Option Bytes
  | [] => none
  | p :: ps => if p = .rune [c] then some [] else (p.bytes ++ ·) <$> prefixBefore c ps

/-- `SecretRef.Scheme`: the text before the first ':', or "" when there is none. -/
def SecretRef.scheme (s : Bytes) : Bytes := (prefixBefore 0x3A (pieces s)).getD []

/-- The text after the first "://", the bytes `SecretRef.Path`'s loop finds. -/
def SecretRef.afterSeparator : Bytes → Option Bytes
  | 0x3A :: 0x2F :: 0x2F :: rest => some rest
  | _ :: t => afterSeparator t
  | [] => none

/-- `SecretRef.Path`: what follows the first "://", cut at its first '#'; the
whole text when there is no "://". -/
def SecretRef.path (s : Bytes) : Bytes :=
  match afterSeparator s with
  | some path => (prefixBefore 0x23 (pieces path)).getD path
  | none => s

/-- `SecretRef.Fragment`: what follows the last '#', or "". -/
def SecretRef.fragment (s : Bytes) : Bytes :=
  if (0x23 : UInt8) ∈ s then (s.reverse.takeWhile (· ≠ 0x23)).reverse else []

/-- `Secret.String`: the bytes of a binary secret, else its value. -/
def Secret.string (s : Secret) : Bytes := if 0 < s.valueBytes.length then s.valueBytes else s.value

/-- `Secret.GetField`: the value for "" or "value", else the named field or "". -/
def Secret.getField (s : Secret) (name : Bytes) : Bytes :=
  if name = [] ∨ name = Bytes.ofString "value" then s.value else (s.fields.lookup name).getD []

/-! ### Cutting at an ASCII rune -/

theorem mem_of_mem_pieces {s : Bytes} {p : Piece} (hp : p ∈ pieces s) {b : UInt8} (hb : b ∈ p.bytes) :
    b ∈ s := by
  rw [← flatMap_bytes_pieces s]
  exact List.mem_flatMap.mpr ⟨p, hp, hb⟩

theorem prefixBefore_append {c : UInt8} {ps : List Piece} (h : ∀ p ∈ ps, p ≠ .rune [c]) (qs : List Piece) :
    prefixBefore c (ps ++ qs) = (ps.flatMap Piece.bytes ++ ·) <$> prefixBefore c qs := by
  induction ps with
  | nil => rw [List.nil_append]; cases prefixBefore c qs <;> rfl
  | cons p ps ih =>
    rw [List.cons_append, prefixBefore, if_neg (h p (List.mem_cons_self _ _)),
      ih fun q hq => h q (List.mem_cons_of_mem _ hq)]
    cases prefixBefore c qs <;> simp

theorem ne_rune_of_not_mem {c : UInt8} {s : Bytes} (hc : c ∉ s) : ∀ p ∈ pieces s, p ≠ .rune [c] := by
  rintro p hp rfl
  exact hc (mem_of_mem_pieces hp (List.mem_singleton_self c))

theorem prefixBefore_pieces_split {c : UInt8} (hc : c.toNat < 0x80) {x : Bytes} (hx : c ∉ x) (y : Bytes) :
    prefixBefore c (pieces (x ++ c :: y)) = some x := by
  rw [pieces_append_ascii hc, prefixBefore_append (ne_rune_of_not_mem hx)]
  simp [prefixBefore]

theorem prefixBefore_pieces_none {c : UInt8} {s : Bytes} (hs : c ∉ s) : prefixBefore c (pieces s) = none := by
  simpa [prefixBefore] using prefixBefore_append (ne_rune_of_not_mem hs) []

/-- A text holding `c` is cut at its first `c`. -/
theorem exists_first_split {c : UInt8} : ∀ {s : Bytes}, c ∈ s → ∃ x y, s = x ++ c :: y ∧ c ∉ x
  | b :: t, h => by
    by_cases hb : b = c
    · exact ⟨[], t, by rw [hb]; rfl, List.not_mem_nil c⟩
    · obtain ⟨x, y, rfl, hx⟩ := exists_first_split ((List.mem_cons.mp h).resolve_left (Ne.symm hb))
      exact ⟨b :: x, y, rfl, by simp [hx, Ne.symm hb]⟩

/-- `Scheme` is the text before the first ':' byte. -/
theorem scheme_split {x : Bytes} (hx : (0x3A : UInt8) ∉ x) (y : Bytes) :
    SecretRef.scheme (x ++ 0x3A :: y) = x := by
  simp [SecretRef.scheme, prefixBefore_pieces_split (by decide) hx]

theorem scheme_of_not_mem {s : Bytes} (hs : (0x3A : UInt8) ∉ s) : SecretRef.scheme s = [] := by
  simp [SecretRef.scheme, prefixBefore_pieces_none hs]

/-- `Path`'s loop meets the first "://" right after a text with no ':'. -/
theorem afterSeparator_append {x : Bytes} (hx : (0x3A : UInt8) ∉ x) (rest : Bytes) :
    SecretRef.afterSeparator (x ++ 0x3A :: 0x2F :: 0x2F :: rest) = some rest := by
  induction x with
  | nil => rfl
  | cons a x ih =>
    rw [List.mem_cons, not_or] at hx
    rw [List.cons_append, SecretRef.afterSeparator, ih hx.2]
    exact fun _ ha => absurd ha.symm hx.1

/-- `Fragment` is what follows the last '#'. -/
theorem fragment_append_hash (x : Bytes) {z : Bytes} (hz : (0x23 : UInt8) ∉ z) :
    SecretRef.fragment (x ++ 0x23 :: z) = z := by
  have hpos : ∀ c ∈ z.reverse, (fun c => decide ¬ c = (0x23 : UInt8)) c = true := fun c hc =>
    decide_eq_true fun h => hz (h ▸ List.mem_reverse.mp hc)
  simp only [SecretRef.fragment, List.mem_append, List.mem_cons, true_or, or_true, if_true, List.reverse_append,
    List.reverse_cons, List.append_assoc, List.singleton_append, ne_eq]
  rw [List.takeWhile_append_of_pos hpos]
  simp

theorem fragment_of_not_mem {s : Bytes} (hs : (0x23 : UInt8) ∉ s) : SecretRef.fragment s = [] := by
  simp [SecretRef.fragment, hs]

/-- `Path` cuts what follows the first "://" at its first '#', and `Fragment`
takes what follows the last '#' of the whole text. After a scheme with no ':'
and no '#', a rest with no '#' is all path and no fragment; a rest with '#'s
has its path before the first and its fragment after the last, so it is
`Path ++ "#" ++ Fragment` only when it holds one '#'. -/
theorem path_fragment_split {sch rest : Bytes} (hsch : (0x3A : UInt8) ∉ sch) (hhash : (0x23 : UInt8) ∉ sch) :
    let u := sch ++ Bytes.ofString "://" ++ rest
    ((0x23 : UInt8) ∉ rest → SecretRef.path u = rest ∧ SecretRef.fragment u = []) ∧
      (∀ x y, rest = x ++ 0x23 :: y → (0x23 : UInt8) ∉ x → SecretRef.path u = x) ∧
      ∀ x z, rest = x ++ 0x23 :: z → (0x23 : UInt8) ∉ z → SecretRef.fragment u = z := by
  intro u
  have hu : u = sch ++ 0x3A :: 0x2F :: 0x2F :: rest := by simp [u]; rfl
  have hpath : SecretRef.path u = (prefixBefore 0x23 (pieces rest)).getD rest := by
    rw [SecretRef.path, hu, afterSeparator_append hsch]
  refine ⟨fun hr => ⟨?_, fragment_of_not_mem ?_⟩, fun x y hr hx => ?_, fun x z hr hz => ?_⟩
  · rw [hpath, prefixBefore_pieces_none hr]; rfl
  · rw [hu]; simp [hhash, hr]
  · rw [hpath, hr, prefixBefore_pieces_split (by decide) hx]; rfl
  · rw [hu, hr, show sch ++ 0x3A :: 0x2F :: 0x2F :: (x ++ 0x23 :: z) = (sch ++ 0x3A :: 0x2F :: 0x2F :: x) ++ 0x23 :: z
      by simp, fragment_append_hash _ hz]

/-- `Path` and `Fragment` do not agree on where the fragment starts: `Path`
cuts what follows "://" at its first '#', `Fragment` takes what follows the
last '#' of the whole text. With two '#' after "://", `ResolveSecret` looks up
the text before the first and extracts the field after the last, and what
lies between belongs to neither. A '#' in the scheme gives a fragment to a
reference with no '#' after "://". -/
theorem path_fragment_disagree {sch x y z : Bytes} (hsch : (0x3A : UInt8) ∉ sch) (hhash : (0x23 : UInt8) ∉ sch)
    (hx : (0x23 : UInt8) ∉ x) (hz : (0x23 : UInt8) ∉ z) :
    let rest := x ++ 0x23 :: (y ++ 0x23 :: z)
    let u := sch ++ Bytes.ofString "://" ++ rest
    (SecretRef.path u = x ∧ SecretRef.fragment u = z ∧ rest ≠ SecretRef.path u ++ 0x23 :: SecretRef.fragment u) ∧
    ∀ s₁ s₂ r, (0x3A : UInt8) ∉ s₁ ++ 0x23 :: s₂ → (0x23 : UInt8) ∉ s₂ → (0x23 : UInt8) ∉ r →
      SecretRef.path (s₁ ++ 0x23 :: s₂ ++ Bytes.ofString "://" ++ r) = r ∧
      SecretRef.fragment (s₁ ++ 0x23 :: s₂ ++ Bytes.ofString "://" ++ r) = s₂ ++ Bytes.ofString "://" ++ r := by
  intro rest u
  have hsplit := @path_fragment_split sch rest hsch hhash
  have hpath : SecretRef.path u = x := hsplit.2.1 x _ rfl hx
  have hfrag : SecretRef.fragment u = z := hsplit.2.2 (x ++ 0x23 :: y) z (by simp [rest]) hz
  refine ⟨⟨hpath, hfrag, fun h => ?_⟩, fun s₁ s₂ r hs₁ hs₂ hr => ⟨?_, ?_⟩⟩
  · have := congrArg List.length h
    simp [rest, hpath, hfrag] at this
    omega
  · rw [SecretRef.path, show s₁ ++ 0x23 :: s₂ ++ Bytes.ofString "://" ++ r =
      (s₁ ++ 0x23 :: s₂) ++ 0x3A :: 0x2F :: 0x2F :: r by simp; rfl, afterSeparator_append hs₁]
    show (prefixBefore 0x23 (pieces r)).getD r = r
    rw [prefixBefore_pieces_none hr]
    rfl
  · have hz' : (0x23 : UInt8) ∉ s₂ ++ Bytes.ofString "://" ++ r := by
      simp only [List.mem_append, not_or]
      exact ⟨⟨hs₂, by decide⟩, hr⟩
    rw [show s₁ ++ 0x23 :: s₂ ++ Bytes.ofString "://" ++ r = s₁ ++ 0x23 :: (s₂ ++ Bytes.ofString "://" ++ r) by simp,
      fragment_append_hash _ hz']

/-- "vault://a#b#c" names the path "a" and the field "c"; "s#h://x" gets the
fragment "h://x". -/
theorem path_fragment_disagree_abc :
    let rest := Bytes.ofString "a" ++ 0x23 :: (Bytes.ofString "b" ++ 0x23 :: Bytes.ofString "c")
    let u := Bytes.ofString "vault" ++ Bytes.ofString "://" ++ rest
    (0x3A : UInt8) ∉ Bytes.ofString "vault" ∧ (0x23 : UInt8) ∉ Bytes.ofString "vault" ∧
    (0x23 : UInt8) ∉ Bytes.ofString "a" ∧ (0x23 : UInt8) ∉ Bytes.ofString "c" ∧
    (SecretRef.path u = Bytes.ofString "a" ∧ SecretRef.fragment u = Bytes.ofString "c" ∧
      rest ≠ SecretRef.path u ++ 0x23 :: SecretRef.fragment u) ∧
    ∀ s₁ s₂ r, (0x3A : UInt8) ∉ s₁ ++ 0x23 :: s₂ → (0x23 : UInt8) ∉ s₂ → (0x23 : UInt8) ∉ r →
      SecretRef.path (s₁ ++ 0x23 :: s₂ ++ Bytes.ofString "://" ++ r) = r ∧
      SecretRef.fragment (s₁ ++ 0x23 :: s₂ ++ Bytes.ofString "://" ++ r) = s₂ ++ Bytes.ofString "://" ++ r :=
  ⟨by decide, by decide, by decide, by decide, path_fragment_disagree (by decide) (by decide) (by decide) (by decide)⟩

end Vault

/-- `ErrInvalidSecretRef`. -/
def errInvalidSecretRef : Bytes := .ofString "invalid secret reference"

/-- `ErrProviderNotRegistered`. -/
def errProviderNotRegistered : Bytes := .ofString "provider not registered for scheme"

/-- The errors the resolver returns. -/
inductive ResolveError where
  /-- `fmt.Errorf("%w: %s", ErrInvalidSecretRef, uri)`. -/
  | invalidSecretRef (uri : Bytes)
  /-- `fmt.Errorf("%w: %s", ErrProviderNotRegistered, scheme)`. -/
  | providerNotRegistered (scheme : Bytes)
  /-- An error of a provider's `Get`, returned as it is; its text. -/
  | provider (text : Bytes)
  /-- `fmt.Errorf("failed to resolve %s: %w", k, err)` in `ResolveMap` and
  `ResolveAll`. -/
  | failedToResolve (key : Bytes) (cause : ResolveError)
  deriving DecidableEq

/-- The text of an error. -/
def ResolveError.text : ResolveError → Bytes
  | .invalidSecretRef uri => errInvalidSecretRef ++ .ofString ": " ++ uri
  | .providerNotRegistered scheme => errProviderNotRegistered ++ .ofString ": " ++ scheme
  | .provider text => text
  | .failedToResolve key cause => .ofString "failed to resolve " ++ key ++ .ofString ": " ++ cause.text

/-- How a call of the resolver ends when it does not return a value. -/
inductive ResolveFault where
  | error (e : ResolveError)
  | panic (msg : Bytes)
  deriving DecidableEq

/-- A registered `vault.Vault`, as the resolver calls it: `Get(ctx, path)`,
whose secret may be nil. -/
structure Provider where
  get : Bytes → Except Bytes (Option Secret)

/-- `omnivault.Resolver`: a provider for each registered scheme. -/
structure Resolver where
  providers : GoMap Provider

/-- `IsSecretRef(s)`. -/
def isSecretRef (s : Bytes) : Bool := SecretRef.scheme s ≠ [] && (SecretRef.scheme s).length + 3 < s.length

namespace Resolver

variable (r : Resolver)

/-- `r.ResolveSecret(ctx, uri)`. -/
def resolveSecret (uri : Bytes) : Except ResolveFault (Option Secret) := do
  let scheme := SecretRef.scheme uri
  if scheme = [] then throw (.error (.invalidSecretRef uri))
  let some v := r.providers.lookup scheme | throw (.error (.providerNotRegistered scheme))
  let secret ← (v.get (SecretRef.path uri)).mapError fun e => .error (.provider e)
  let fragment := SecretRef.fragment uri
  match secret with
  | some s =>
    if fragment ≠ [] then pure (some { value := s.getField fragment, metadata := s.metadata })
    else pure (some s)
  | none => pure none

/-- `r.Resolve(ctx, uri)`: `secret.String()` on a nil secret panics. -/
def resolve (uri : Bytes) : Except ResolveFault Bytes := do
  match ← r.resolveSecret uri with
  | some s => pure s.string
  | none => throw (.panic (.ofString "runtime error: invalid memory address or nil pointer dereference"))

/-- `r.ResolveString(ctx, s)`. -/
def resolveString (s : Bytes) : Except ResolveFault Bytes :=
  if !isSecretRef s then pure s else r.resolve s

/-- `r.ResolveMap(ctx, m)`, visiting the entries in the order `order` gives them. -/
def resolveMap (order : List (Bytes × Bytes) → List (Bytes × Bytes)) (m : GoMap Bytes) :
    Except ResolveFault (GoMap Bytes) :=
  (order m.entries).foldlM (fun acc kv =>
    match r.resolveString kv.2 with
    | .ok v => pure (acc.insert kv.1 v)
    | .error (.error e) => throw (.error (.failedToResolve kv.1 e))
    | .error (.panic msg) => throw (.panic msg)) GoMap.empty

/-- One turn of the loop of `ResolveAll`. -/
def resolveAllStep (results : GoMap Bytes) (uri : Bytes) : Except ResolveFault (GoMap Bytes) :=
  match r.resolve uri with
  | .ok value => pure (results.insert uri value)
  | .error (.error e) => throw (.error (.failedToResolve uri e))
  | .error (.panic msg) => throw (.panic msg)

/-- `r.ResolveAll(ctx, uris)`. -/
def resolveAll (uris : List Bytes) : Except ResolveFault (GoMap Bytes) :=
  uris.foldlM r.resolveAllStep GoMap.empty

end Resolver

/-! ## What counts as a reference -/

/-- `IsSecretRef` accepts exactly a non-empty scheme free of ':', then ':',
then at least three more bytes, whatever they are. -/
theorem isSecretRef_iff (s : Bytes) :
    isSecretRef s ↔
      ∃ sch rest, s = sch ++ 0x3A :: rest ∧ sch ≠ [] ∧ (0x3A : UInt8) ∉ sch ∧ 3 ≤ rest.length := by
  constructor
  · intro h
    by_cases hs : (0x3A : UInt8) ∈ s
    · obtain ⟨x, y, rfl, hx⟩ := exists_first_split hs
      simp only [isSecretRef, scheme_split hx, Bool.and_eq_true, decide_eq_true_eq, List.length_append,
        List.length_cons] at h
      exact ⟨x, y, rfl, h.1, hx, by omega⟩
    · simp [isSecretRef, scheme_of_not_mem hs] at h
  · rintro ⟨sch, rest, rfl, hne, hsch, hlen⟩
    simp only [isSecretRef, scheme_split hsch, Bool.and_eq_true, decide_eq_true_eq, List.length_append,
      List.length_cons]
    exact ⟨hne, by omega⟩

/-! ## `ResolveAll` -/

section ResolveAll

variable (r : Resolver)

/-- Over references that all resolve, the loop adds each one's value to what
it started from. -/
theorem foldlM_resolveAllStep_ok : ∀ (uris : List Bytes) (acc : GoMap Bytes),
    (∀ u ∈ uris, ∃ v, r.resolve u = .ok v) →
    ∃ m, uris.foldlM r.resolveAllStep acc = .ok m ∧
      ∀ u, m.lookup u = if u ∈ uris then (r.resolve u).toOption else acc.lookup u
  | [], acc, _ => ⟨acc, rfl, fun u => by simp⟩
  | u₀ :: us, acc, h => by
    obtain ⟨v, hv⟩ := h u₀ (List.mem_cons_self _ _)
    obtain ⟨m, hm, hlook⟩ := foldlM_resolveAllStep_ok us (acc.insert u₀ v) fun u hu => h u (List.mem_cons_of_mem _ hu)
    refine ⟨m, by rw [List.foldlM_cons, Resolver.resolveAllStep, hv]; exact hm, fun u => ?_⟩
    rw [hlook u, GoMap.lookup_insert]
    by_cases hus : u ∈ us
    · simp [hus]
    · by_cases hu : u = u₀
      · subst hu; simp [hv, Except.toOption]
      · simp [hus, hu]

/-- `ResolveAll` resolves the references in the order given. When every one
resolves it returns the map from each to its value, and nothing else; when
one fails with an error after all before it resolved, it returns that error
wrapped with that reference, whatever the references after it. -/
theorem resolveAll_first_failure (uris : List Bytes) :
    ((∀ u ∈ uris, ∃ v, r.resolve u = .ok v) →
      ∃ m, r.resolveAll uris = .ok m ∧ ∀ u, m.lookup u = if u ∈ uris then (r.resolve u).toOption else none) ∧
    ∀ pre u post e, uris = pre ++ u :: post → (∀ u' ∈ pre, ∃ v, r.resolve u' = .ok v) →
      r.resolve u = .error (.error e) → r.resolveAll uris = .error (.error (.failedToResolve u e)) := by
  refine ⟨fun h => by simpa using foldlM_resolveAllStep_ok r uris GoMap.empty h, ?_⟩
  rintro pre u post e rfl hpre hu
  obtain ⟨m, hm, -⟩ := foldlM_resolveAllStep_ok r pre GoMap.empty hpre
  rw [Resolver.resolveAll, List.foldlM_append, hm]
  show (u :: post).foldlM r.resolveAllStep m = _
  rw [List.foldlM_cons, Resolver.resolveAllStep, hu]
  rfl

/-- With no providers the first reference fails, and the second is not
looked at. -/
theorem resolveAll_first_failure_unregistered :
    (⟨GoMap.empty⟩ : Resolver).resolveAll [.ofString "env://HOME", .ofString "op://vault/item"] =
      .error (.error (.failedToResolve (.ofString "env://HOME") (.providerNotRegistered (.ofString "env")))) :=
  (resolveAll_first_failure ⟨GoMap.empty⟩ _).2 [] _ _ _ rfl nofun rfl

end ResolveAll

/-- A text with a ':' after a non-empty scheme and three more bytes is taken
for a reference even when no "://" follows: with no provider for that
scheme, `ResolveString` fails on it instead of returning it. -/
theorem resolveString_colon_text {r : Resolver} {sch rest : Bytes} (hne : sch ≠ [])
    (hsch : (0x3A : UInt8) ∉ sch) (hlen : 3 ≤ rest.length) (hnone : r.providers.lookup sch = none) :
    r.resolveString (sch ++ 0x3A :: rest) = .error (.error (.providerNotRegistered sch)) := by
  have href : isSecretRef (sch ++ 0x3A :: rest) := (isSecretRef_iff _).mpr ⟨sch, rest, rfl, hne, hsch, hlen⟩
  simp [Resolver.resolveString, href, Resolver.resolve, Resolver.resolveSecret, scheme_split hsch, hne, hnone]
  rfl

/-- The configuration values "localhost:5432" and "C:/dir" hold no "://", yet a
resolver with no providers fails on both. -/
theorem resolveString_config_values :
    SecretRef.afterSeparator (.ofString "localhost:5432") = none ∧
      (⟨GoMap.empty⟩ : Resolver).resolveString (Bytes.ofString "localhost" ++ 0x3A :: Bytes.ofString "5432") =
        .error (.error (.providerNotRegistered (.ofString "localhost"))) ∧
      SecretRef.afterSeparator (.ofString "C:/dir") = none ∧
      (⟨GoMap.empty⟩ : Resolver).resolveString (Bytes.ofString "C" ++ 0x3A :: Bytes.ofString "/dir") =
        .error (.error (.providerNotRegistered (.ofString "C"))) :=
  ⟨by decide, resolveString_colon_text (by decide) (by decide) (by decide) rfl, by decide,
    resolveString_colon_text (by decide) (by decide) (by decide) rfl⟩

end OmniVault
