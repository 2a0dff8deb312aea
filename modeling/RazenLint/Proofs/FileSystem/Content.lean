import RazenLint.FileSystem.Basic
import RazenLint.Proofs.Text.Utf8

/-!
# What files hold

A path holds a text when it leads to a file with the bytes of the text (`FileSystem.Holds`).
Reading gives a text exactly then (`readText_eq_ok_iff`), so a path that leads nowhere, to a
directory, or to bytes that are no text holds none.
-/

namespace RazenLint.FileSystem

variable {files : FileSystem} {path : String} {text : List Char}

/-- A path leads to a file with the bytes of a text. -/
def Holds (files : FileSystem) (path : String) (text : List Char) : Prop :=
  ∃ place, files.find path = .ok (place, .file (Text.encodeUtf8 text))

theorem readBytes_eq_ok_iff {bytes : List UInt8} :
    files.readBytes path = .ok bytes ↔ ∃ place, files.find path = .ok (place, .file bytes) := by
  rw [readBytes]
  constructor
  · intro h
    split at h
    · rename_i place content hfind
      cases h
      exact ⟨place, hfind⟩
    · cases h
    · cases h
    · cases h
  · rintro ⟨place, hfind⟩
    rw [hfind]

theorem readText_eq_ok_iff : files.readText path = .ok text ↔ files.Holds path text := by
  rw [Holds, ← readBytes_eq_ok_iff, readText]
  constructor
  · intro h
    split at h
    · rename_i bytes hbytes
      split at h
      · rename_i content hdecode
        cases h
        rw [hbytes, Text.decodeUtf8_eq_ok_iff.1 hdecode]
      · cases h
    · cases h
  · intro h
    rw [h]
    dsimp only
    rw [Text.decodeUtf8_encodeUtf8]

theorem exists_readText_eq_error (h : ∀ text, ¬files.Holds path text) :
    ∃ reason, files.readText path = .error reason := by
  cases hread : files.readText path with
  | ok text => exact absurd (readText_eq_ok_iff.1 hread) (h text)
  | error reason => exact ⟨reason, rfl⟩

end RazenLint.FileSystem
