import OmniVault.Store.Calls
import OmniVault.Encoding.JsonTruncation

/-!
What the two files read as, and what a save leaves in its file.

`Disk.metaView` and `Disk.dataView` are what `loadMeta` and `loadData` read
from the files when the read itself succeeds; a missing data file reads as an
empty vault. `os.WriteFile` opens its file truncated and then writes it, so a
save that fails leaves its file as it was (the open failed), whole (the close
failed) or holding a prefix of the new document (the write stopped). A crash
during a save leaves what a write stopped at the same byte leaves, and a
proper prefix of a document never reads: the file is then lost to `Unlock`.
-/

namespace OmniVault.Store

open Json

/-- What `loadMeta` reads from the metadata file. -/
def Disk.metaView (d : Disk) : Option VaultMeta := d.metaFile.bind readMeta

/-- What `loadData` reads from the data file: a missing file is an empty vault. -/
def Disk.dataView (d : Disk) : Option VaultData :=
  match d.vaultFile with
  | none => some ⟨GoMap.empty⟩
  | some b => readData b

@[simp] theorem Disk.metaView_set_vault (d : Disk) (c : Option Bytes) :
    (d.set .vault c).metaView = d.metaView := rfl

@[simp] theorem Disk.dataView_set_meta (d : Disk) (c : Option Bytes) :
    (d.set .meta c).dataView = d.dataView := rfl

@[simp] theorem Disk.metaView_set_meta (d : Disk) (b : Bytes) : (d.set .meta (some b)).metaView = readMeta b := rfl

@[simp] theorem Disk.dataView_set_vault (d : Disk) (b : Bytes) : (d.set .vault (some b)).dataView = readData b := rfl

/-! ## A document cut short -/

/-- The tree `saveMeta` writes when `json.MarshalIndent` succeeds. -/
theorem metaJson_ok {m : Option VaultMeta} {j : Json} (h : metaJson m = .ok j) :
    j = match m with
      | none => .null
      | some m => m.toJson (.string (Time.formatNano m.createdAt)) := by
  cases m with
  | none => cases h; rfl
  | some m =>
    rw [metaJson] at h
    unfold encodeTime at h
    rcases hm : Time.marshalJSON m.createdAt with e | b <;> rw [hm] at h
    · cases h
    · exact (Except.ok.inj h).symm

/-- A data file cut short does not read. -/
theorem readData_take (x : Option VaultData) {n : Nat} (hn : n < (encode (dataJson x)).length) :
    readData ((encode (dataJson x)).take n) = none := by
  cases x with
  | none => simp [readData, encode, dataJson, decode_take_null none hn]
  | some d =>
    have hwf : (dataJson (some d)).wellFormed := by simp [dataJson, wellFormed.wellFormedMembers]
    simp [readData, encode, dataJson, decode_take_encodeAt_object layout_none hwf hn]

/-- A metadata file cut short does not read. -/
theorem readMeta_take {m : Option VaultMeta} {j : Json} (hj : metaJson m = .ok j) {n : Nat}
    (hn : n < (encodeIndent j).length) : readMeta ((encodeIndent j).take n) = none := by
  rw [metaJson_ok hj] at hn ⊢
  cases m with
  | none => simp [readMeta, encodeIndent, decode_take_null _ hn]
  | some m =>
    simp [readMeta, encodeIndent, VaultMeta.toJson,
      decode_take_encodeAt_object layout_indent (wellFormed_metaTree m) hn]

/-- What `loadMeta` reads from a whole metadata file: the metadata written,
with the time its `created_at` text parses to, which the version, the
parameters and the blob survive. -/
theorem readMeta_written {m : VaultMeta} (hv : -2 ^ 63 ≤ m.version ∧ m.version < 2 ^ 63)
    (hp : m.argon2Params.Fits) (hver : Utf8.valid m.verification) {j : Json} (hj : metaJson (some m) = .ok j) :
    readMeta (encodeIndent j) = (Time.parseRFC3339 (Time.formatNano m.createdAt)).map
      fun t => { m with createdAt := t } := by
  rw [metaJson_ok hj, readMeta, decode_encodeIndent_of_validText (wellFormed_metaTree m) (validText_metaTree hver),
    Option.some_bind]
  exact VaultMeta.ofJson_toJson_string hv hp _

/-! ## What a save leaves -/

section Saves

variable {env : Env}

/-- Every way `saveData` ends. It changes neither the store nor the keys but
for `dirty`, which only a whole write clears; a failure leaves the data file
as it was, whole, or cut short. -/
theorem saveData_cases (w : World) :
    let E := encode (dataJson w.store.data)
    (saveData env).run w = .ok ()
        { w with calls := w.calls + 2, disk := w.disk.set .vault (some E), store := { w.store with dirty := false } } ∨
      ∃ e calls disk, (saveData env).run w = .error (.error e) { w with calls, disk } ∧
        (disk = w.disk ∨ disk = w.disk.set .vault (some E) ∨
          ∃ n < E.length, disk = w.disk.set .vault (some (E.take n))) := by
  intro E
  by_cases hm : env.mkdirOk w.calls
  swap
  · exact .inr ⟨.os (.ofString "mkdir") false, w.calls + 1, w.disk, by simp [saveData, mkdirAll_run, hm], .inl rfl⟩
  rcases hw : env.write (w.calls + 1) with _ | _ | n | _
  · exact .inl (by simp [saveData, mkdirAll_run, hm, writeFile_run, hw])
  · exact .inr ⟨.os (.ofString "open") false, w.calls + 2, w.disk,
      by simp [saveData, mkdirAll_run, hm, writeFile_run, hw], .inl rfl⟩
  · by_cases hn : n < E.length
    · exact .inr ⟨.os (.ofString "write") false, w.calls + 2, _,
        by simp [saveData, mkdirAll_run, hm, writeFile_run, hw], .inr (.inr ⟨n, hn, rfl⟩)⟩
    · exact .inr ⟨.os (.ofString "write") false, w.calls + 2, _,
        by simp [saveData, mkdirAll_run, hm, writeFile_run, hw, List.take_of_length_le (Nat.le_of_not_lt hn)],
        .inr (.inl rfl)⟩
  · exact .inr ⟨.os (.ofString "close") false, w.calls + 2, _,
      by simp [saveData, mkdirAll_run, hm, writeFile_run, hw], .inr (.inl rfl)⟩

/-- Every way `saveMeta` ends. It changes neither the store nor the keys; a
failure leaves the metadata file as it was, whole, or cut short. -/
theorem saveMeta_cases (w : World) :
    (∃ j, metaJson w.store.meta = .ok j ∧
      (saveMeta env).run w = .ok () { w with calls := w.calls + 2, disk := w.disk.set .meta (some (encodeIndent j)) }) ∨
      ∃ e calls disk, (saveMeta env).run w = .error (.error e) { w with calls, disk } ∧
        (disk = w.disk ∨ ∃ j, metaJson w.store.meta = .ok j ∧ (disk = w.disk.set .meta (some (encodeIndent j)) ∨
          ∃ n < (encodeIndent j).length, disk = w.disk.set .meta (some ((encodeIndent j).take n)))) := by
  by_cases hm : env.mkdirOk w.calls
  swap
  · exact .inr ⟨.os (.ofString "mkdir") false, w.calls + 1, w.disk, by simp [saveMeta, mkdirAll_run, hm], .inl rfl⟩
  rcases hj : metaJson w.store.meta with e | j
  · exact .inr ⟨e, w.calls + 1, w.disk, by simp [saveMeta, mkdirAll_run, hm, hj], .inl rfl⟩
  rcases hw : env.write (w.calls + 1) with _ | _ | n | _
  · exact .inl ⟨j, rfl, by simp [saveMeta, mkdirAll_run, hm, hj, writeFile_run, hw]⟩
  · exact .inr ⟨.os (.ofString "open") false, w.calls + 2, w.disk,
      by simp [saveMeta, mkdirAll_run, hm, hj, writeFile_run, hw], .inl rfl⟩
  · by_cases hn : n < (encodeIndent j).length
    · exact .inr ⟨.os (.ofString "write") false, w.calls + 2, _,
        by simp [saveMeta, mkdirAll_run, hm, hj, writeFile_run, hw], .inr ⟨j, rfl, .inr ⟨n, hn, rfl⟩⟩⟩
    · exact .inr ⟨.os (.ofString "write") false, w.calls + 2, _,
        by simp [saveMeta, mkdirAll_run, hm, hj, writeFile_run, hw, List.take_of_length_le (Nat.le_of_not_lt hn)],
        .inr ⟨j, rfl, .inl rfl⟩⟩
  · exact .inr ⟨.os (.ofString "close") false, w.calls + 2, _,
      by simp [saveMeta, mkdirAll_run, hm, hj, writeFile_run, hw], .inr ⟨j, rfl, .inl rfl⟩⟩

theorem saveMeta_run_store {w : World} {r : EStateM.Result Fault World Unit} (h : (saveMeta env).run w = r) :
    (resultWorld r).store = w.store := by
  rcases @saveMeta_cases env w with ⟨j, -, hm⟩ | ⟨e, calls, disk, hm, -⟩ <;> rw [← h, hm] <;> rfl

theorem saveData_error_store {w w' : World} {e : Fault} (h : (saveData env).run w = .error e w') :
    w'.store = w.store := by
  rcases @saveData_cases env w with hd | ⟨e, calls, disk, hd, -⟩ <;> rw [hd] at h <;> cases h
  rfl

/-- The two saves `Initialize` and `ChangePassword` end with, when both
return: the files hold the store's metadata and data, and the store is clean. -/
theorem saves_run_ok {v w' : World}
    (h : (do wrapErr (.ofString "failed to save metadata") (saveMeta env)
             wrapErr (.ofString "failed to save data") (saveData env)).run v = .ok () w') :
    ∃ j, metaJson v.store.meta = .ok j ∧ w' = { v with
      calls := v.calls + 4
      disk := (v.disk.set .meta (some (encodeIndent j))).set .vault (some (encode (dataJson v.store.data)))
      store := { v.store with dirty := false } } := by
  obtain ⟨_, v₁, h₁, h₂⟩ := run_bind_ok h
  rcases @saveMeta_cases env v with ⟨j, hj, hm⟩ | ⟨e, calls, disk, hm, -⟩ <;> rw [wrapErr_run_ok h₁] at hm <;>
    cases hm
  rcases @saveData_cases env _ with hd | ⟨e, calls, disk, hd, -⟩ <;> rw [wrapErr_run_ok h₂] at hd <;> cases hd
  exact ⟨j, hj, rfl⟩

/-- `saveData` leaves the metadata alone, in memory and on disk. -/
theorem saveData_meta (w : World) :
    (resultWorld ((saveData env).run w)).store.meta = w.store.meta ∧
      (resultWorld ((saveData env).run w)).disk.metaFile = w.disk.metaFile := by
  rcases @saveData_cases env w with h | ⟨e, calls, disk, h, hd⟩ <;> rw [h]
  · exact ⟨rfl, rfl⟩
  · rcases hd with rfl | rfl | ⟨n, -, rfl⟩ <;> exact ⟨rfl, rfl⟩

/-- The two saves leave the metadata in memory as it was, and the metadata
file as it was or holding a prefix of the metadata's document. -/
theorem saves_meta {v : World} {r : EStateM.Result Fault World Unit}
    (h : (do wrapErr (.ofString "failed to save metadata") (saveMeta env)
             wrapErr (.ofString "failed to save data") (saveData env)).run v = r) :
    (resultWorld r).store.meta = v.store.meta ∧
      ((resultWorld r).disk.metaFile = v.disk.metaFile ∨
        ∃ j n, metaJson v.store.meta = .ok j ∧ (resultWorld r).disk.metaFile = some ((encodeIndent j).take n)) := by
  subst h
  rw [run_bind, wrapErr_run]
  rcases @saveMeta_cases env v with ⟨j, hj, hm⟩ | ⟨e, calls, disk, hm, hd⟩ <;> rw [hm] <;> dsimp only
  · rw [resultWorld_wrapErr]
    obtain ⟨h₁, h₂⟩ := @saveData_meta env { v with calls := v.calls + 2, disk := v.disk.set .meta (some (encodeIndent j)) }
    exact ⟨h₁, .inr ⟨j, _, hj, by rw [h₂, List.take_length]; rfl⟩⟩
  · refine ⟨rfl, ?_⟩
    rcases hd with rfl | ⟨j, hj, rfl | ⟨n, -, rfl⟩⟩
    · exact .inl rfl
    · exact .inr ⟨j, _, hj, by rw [List.take_length]; rfl⟩
    · exact .inr ⟨j, n, hj, rfl⟩

/-- The two saves change nothing in the store but `dirty`. -/
theorem saves_store {v : World} {r : EStateM.Result Fault World Unit}
    (h : (do wrapErr (.ofString "failed to save metadata") (saveMeta env)
             wrapErr (.ofString "failed to save data") (saveData env)).run v = r) :
    (resultWorld r).store = { v.store with dirty := (resultWorld r).store.dirty } := by
  subst h
  rw [run_bind, wrapErr_run]
  rcases @saveMeta_cases env v with ⟨j, -, hm⟩ | ⟨e, calls, disk, hm, -⟩ <;> rw [hm] <;> dsimp only
  · rw [resultWorld_wrapErr]
    rcases @saveData_cases env { v with calls := v.calls + 2, disk := v.disk.set .meta (some (encodeIndent j)) }
      with hd | ⟨e, calls, disk, hd, -⟩ <;> rw [hd] <;> rfl
  · rfl

/-- A save is not atomic. Whatever the operating system answers, and so
wherever a crash stops the write, `saveData` and `saveMeta` leave the other
file alone and their own file as it was, holding the whole new document, or
holding a proper prefix of it, which does not read. -/
theorem save_leaves_old_whole_or_torn (w : World) :
    (let E := encode (dataJson w.store.data)
     let d := (resultWorld ((saveData env).run w)).disk
     d.metaFile = w.disk.metaFile ∧
       (d.vaultFile = w.disk.vaultFile ∨ d.vaultFile = some E ∨
         ∃ n < E.length, d.vaultFile = some (E.take n) ∧ readData (E.take n) = none)) ∧
    (let d := (resultWorld ((saveMeta env).run w)).disk
     d.vaultFile = w.disk.vaultFile ∧
       (d.metaFile = w.disk.metaFile ∨ ∃ j, metaJson w.store.meta = .ok j ∧
         (d.metaFile = some (encodeIndent j) ∨
           ∃ n < (encodeIndent j).length, d.metaFile = some ((encodeIndent j).take n) ∧
             readMeta ((encodeIndent j).take n) = none))) := by
  refine ⟨?_, ?_⟩
  · rcases @saveData_cases env w with h | ⟨e, calls, disk, h, hd⟩ <;> rw [h]
    · exact ⟨rfl, .inr (.inl rfl)⟩
    · rcases hd with rfl | rfl | ⟨n, hn, rfl⟩
      · exact ⟨rfl, .inl rfl⟩
      · exact ⟨rfl, .inr (.inl rfl)⟩
      · exact ⟨rfl, .inr (.inr ⟨n, hn, rfl, readData_take _ hn⟩)⟩
  · rcases @saveMeta_cases env w with ⟨j, hj, h⟩ | ⟨e, calls, disk, h, hd⟩ <;> rw [h]
    · exact ⟨rfl, .inr ⟨j, hj, .inl rfl⟩⟩
    · rcases hd with rfl | ⟨j, hj, rfl | ⟨n, hn, rfl⟩⟩
      · exact ⟨rfl, .inl rfl⟩
      · exact ⟨rfl, .inr ⟨j, hj, .inl rfl⟩⟩
      · exact ⟨rfl, .inr ⟨j, hj, .inr ⟨n, hn, rfl, readMeta_take hj hn⟩⟩⟩

/-- Every way `loadData` ends: it reads what the data file reads as, or fails
with nothing changed but the call count. -/
theorem loadData_cases (w : World) :
    (∃ d, w.disk.dataView = some d ∧
      (loadData env).run w = .ok () { w with calls := w.calls + 1, store := { w.store with data := some d } }) ∨
      ∃ e, (loadData env).run w = .error (.error e) { w with calls := w.calls + 1 } := by
  rcases hf : w.disk.vaultFile with _ | b
  · exact .inl ⟨⟨GoMap.empty⟩, by simp [Disk.dataView, hf], by simp [loadData, readFile_run, Disk.get, hf]⟩
  cases hr : env.readFails w.calls
  · rcases hd : readData b with _ | d
    · exact .inr ⟨jsonError, by simp [loadData, readFile_run, Disk.get, hf, hr, hd]⟩
    · exact .inl ⟨d, by simp [Disk.dataView, hf, hd], loadData_run_ok hf hr hd⟩
  · exact .inr ⟨_, loadData_run_readFails hf hr⟩

theorem loadData_run_ok_inv {w w' : World} (h : (loadData env).run w = .ok () w') :
    ∃ d, w.disk.dataView = some d ∧ w' = { w with calls := w.calls + 1, store := { w.store with data := some d } } := by
  rcases loadData_cases w with ⟨d, hd, hl⟩ | ⟨e, hl⟩ <;> rw [hl] at h
  · cases h
    exact ⟨d, hd, rfl⟩
  · cases h

end Saves

/-- An operating system on which call `i`, a write, stops before its first byte. -/
def Env.tornAt (i : Nat) : Env := { Env.reliable Time.zero with write := fun j => if j = i then .writeFailed 0 else .ok }

set_option maxRecDepth 100000 in
/-- A vault made, then a `Set` whose save is cut off before its first byte:
the data file is left empty, and after a restart `Unlock` with the right
password cannot load it. -/
theorem torn_data_file_locks_out :
    let P := Primitives.standIn
    let env := Env.tornAt 11
    let w₁ := resultWorld ((EncryptedStore.init P env (.ofString "hunter2")).run {})
    let w₂ := resultWorld ((EncryptedStore.set P env (.ofString "db/password") { value := .ofString "s3cret" }).run w₁)
    w₂.disk.vaultFile = some [] ∧
      resultFault ((EncryptedStore.unlock P env (.ofString "hunter2")).run w₂.restart) =
        some (.error (.wrap (.ofString "failed to load vault data") jsonError)) := by
  decide

end OmniVault.Store
