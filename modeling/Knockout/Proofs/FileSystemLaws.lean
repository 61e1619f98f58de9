import Knockout.Disk
import Knockout.Proofs.KeyLookups

namespace Knockout

namespace FileSystem

variable {State File : Type} (fs : FileSystem State File)

def Unchanged (before after : State) : Prop := ∀ file, fs.content? after file = fs.content? before file

structure Written (before : State) (path : String) (bytes : ByteArray) (after : State) : Prop where
  place : ∃ file, fs.place? before path = some file ∧ fs.place? after path = some file ∧
    fs.content? after file = some bytes ∧ ∀ other, other ≠ file → fs.content? after other = fs.content? before other

/-- What the program relies on: what is read is there, and a write is done or has no effect. -/
structure Lawful : Prop where
  read_ok {state : State} {path : String} {bytes : ByteArray} : fs.read state path = .ok bytes →
    ∃ file, fs.place? state path = some file ∧ fs.content? state file = some bytes
  write_ok {before after : State} {path : String} {bytes : ByteArray} : fs.write before path bytes = (.ok (), after) →
    fs.Written before path bytes after
  write_error {before after : State} {path : String} {bytes : ByteArray} {e : Fault} :
    fs.write before path bytes = (.error e, after) → fs.Unchanged before after

variable {fs} {before after : State} {path text found : String}

theorem readText_eq_ok (h : fs.readText before path = .ok text) :
    fs.read before path = .ok text.toUTF8 := by
  unfold readText at h
  cases hr : fs.read before path with
  | error e =>
    rw [hr] at h
    cases h
  | ok bytes =>
    rw [hr] at h
    change (String.fromUTF8? bytes).elim _ _ = _ at h
    unfold String.fromUTF8? at h
    split at h
    · rw [← Except.ok.inj h]
      rfl
    · cases h

theorem Written.text_eq (hw : fs.Written before path text.toUTF8 after) (hfs : fs.Lawful)
    (h : fs.readText after path = .ok found) : found = text := by
  obtain ⟨file, -, hplace, hcontent, -⟩ := hw.place
  obtain ⟨file', hplace', hcontent'⟩ := hfs.read_ok (readText_eq_ok h)
  obtain rfl := Option.some.inj (hplace.symm.trans hplace')
  have hbytes := Option.some.inj (hcontent'.symm.trans hcontent)
  exact String.toByteArray_inj.mp hbytes

end FileSystem

namespace Disk

def put (d : Disk) (name : String) (bytes : ByteArray) : Disk := ⟨d.files.insert name bytes⟩

variable {d after : Disk} {name path : String} {bytes : ByteArray} {l place : Location}

theorem find?_put (d : Disk) (name : String) (bytes : ByteArray) (other : String) :
    (d.put name bytes).files.find? other = if other = name then some bytes else d.files.find? other :=
  d.files.find?_insert name other bytes

theorem exists_entry_put {e : String × ByteArray} (h : e ∈ d.files.entries) :
    ∃ bytes', (e.1, bytes') ∈ (d.put name bytes).files.entries := by
  have hf := find?_put d name bytes e.1
  rw [KeyMap.mem_entries_iff.mp h] at hf
  split at hf
  · exact ⟨bytes, KeyMap.mem_entries_iff.mpr hf⟩
  · exact ⟨e.2, KeyMap.mem_entries_iff.mpr hf⟩

theorem isDirectory_put (h : d.isDirectory l = true) : (d.put name bytes).isDirectory l = true := by
  unfold isDirectory at h ⊢
  rw [Bool.or_eq_true] at h ⊢
  refine h.imp_right fun h => ?_
  obtain ⟨e, he, hl⟩ := List.any_eq_true.mp h
  obtain ⟨bytes', he'⟩ := exists_entry_put he
  exact List.any_eq_true.mpr ⟨_, he', hl⟩

theorem isDirectory_of_descend {part : String} (h : d.descend l part = .ok place) : d.isDirectory l = true := by
  unfold descend at h
  split at h
  case isTrue => cases h
  case isFalse hn => simpa using hn

theorem descend_put {part : String} (h : d.descend l part = .ok place) :
    (d.put name bytes).descend l part = .ok place := by
  have hl := isDirectory_of_descend h
  unfold descend at h ⊢
  rw [isDirectory_put hl]
  rwa [hl] at h

theorem foldlM_descend_put {parts : List String} (h : parts.foldlM d.descend l = .ok place) :
    parts.foldlM (d.put name bytes).descend l = .ok place := by
  induction parts generalizing l with
  | nil => exact h
  | cons part parts ih =>
    rw [List.foldlM_cons] at h ⊢
    cases hd : d.descend l part with
    | error e =>
      rw [hd] at h
      cases h
    | ok next =>
      rw [hd] at h
      rw [descend_put hd]
      exact ih h

theorem locate_put {parts : List String} (h : d.locate path parts = .ok place) :
    (d.put name bytes).locate path parts = .ok place := by
  unfold locate at h ⊢
  by_cases hlong : 4096 ≤ path.utf8ByteSize
  · rw [if_pos hlong] at h
    cases h
  · rw [if_neg hlong] at h ⊢
    exact foldlM_descend_put h

theorem eq_put_of_write (h : d.write path bytes = .ok after) :
    ∃ place, d.locate path (components path) = .ok place ∧ after = d.put place.name bytes := by
  unfold write at h
  split at h
  case isTrue hs =>
    simp only [hs, Bool.true_or, if_true, bind, Except.bind] at h
    split at h <;> cases h
  case isFalse hs =>
    dsimp only [bind, Except.bind] at h
    cases hl : d.locate path (components path) with
    | error e =>
      rw [hl] at h
      cases h
    | ok place =>
      simp only [hl] at h
      split at h
      · cases h
      · exact ⟨place, rfl, (Except.ok.inj h).symm⟩

theorem read_eq_ok (h : d.read path = .ok bytes) :
    ∃ place, d.locate path (components path) = .ok place ∧ d.files.find? place.name = some bytes := by
  unfold read at h
  cases hl : d.locate path (components path) with
  | error e =>
    rw [hl] at h
    cases h
  | ok place =>
    simp only [hl, bind, Except.bind] at h
    split at h
    · next found hf => exact ⟨place, rfl, hf.trans (congrArg some (Except.ok.inj h))⟩
    · cases h

theorem place?_eq_some (h : d.locate path (components path) = .ok place) :
    fileSystem.place? d path = some place.name := by
  simp [fileSystem, h, Except.toOption]

theorem lawful : fileSystem.Lawful where
  read_ok h := by
    obtain ⟨place, hplace, hf⟩ := read_eq_ok h
    exact ⟨place.name, place?_eq_some hplace, hf⟩
  write_ok {before after path bytes} h := by
    cases hw : before.write path bytes with
    | error e => simp [fileSystem, hw] at h
    | ok written =>
      obtain ⟨place, hplace, rfl⟩ := eq_put_of_write hw
      have hafter : before.put place.name bytes = after := by simpa [fileSystem, hw] using h
      rw [← hafter]
      refine ⟨place.name, place?_eq_some hplace, place?_eq_some (locate_put hplace), ?_, fun other hne => ?_⟩
      · exact (find?_put before place.name bytes place.name).trans (if_pos rfl)
      · exact (find?_put before place.name bytes other).trans (if_neg hne)
  write_error {before after path bytes e} h := by
    cases hw : before.write path bytes with
    | ok written => simp [fileSystem, hw] at h
    | error e' =>
      have hafter : before = after := (by simpa [fileSystem, hw] using h : e' = e ∧ before = after).2
      rw [hafter]
      exact fun file => rfl

end Disk

end Knockout
