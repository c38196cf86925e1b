import ReplEngine.ClassSpace.Archive
import ReplEngine.Proofs.Binary.ClassFile
set_option autoImplicit false

/-!
# The file formats lose nothing

Class files and archives are read from exactly the bytes that are written for them, whatever
follows those bytes.  Different files have different bytes, no file starts another one, and a file
cut short is refused.
-/

namespace ReplEngine

open Binary Reading

/-- The name and the bytes of a compiled class fit. -/
def ClassBytes.Fits (c : ClassBytes) : Prop := TextFits c.name ∧ LengthFits c.bytes.length

/-- Every name of an archive takes fewer than 2^64 bytes, and so does every class in it; it has
fewer than 2^64 classes. -/
def Archive.Fits (a : Archive) : Prop :=
  LengthFits a.classes.length ∧ ∀ c ∈ a.classes, c.Fits

theorem byte_exact : Exact Any (fun b : UInt8 => [b]) getByte := by
  intro bytes b rest
  rw [getByte_eq_ok]
  simp [Any]

theorem classBytes_exact : Exact ClassBytes.Fits putClassBytes getClassBytes := by
  intro bytes c rest
  simp only [getClassBytes, bind_eq_ok, text_exact _ _ _, byte_exact.list _ _ _, pure_eq_ok]
  constructor
  · rintro ⟨name, _, ⟨hname, rfl⟩, content, _, ⟨⟨hlen, -⟩, rfl⟩, rfl, rfl⟩
    exact ⟨⟨hname, hlen⟩, by simp [putClassBytes, putList]⟩
  · rintro ⟨⟨hname, hlen⟩, rfl⟩
    exact ⟨c.name, _, ⟨hname, List.append_assoc _ _ _⟩, c.bytes, rest,
      ⟨⟨hlen, fun _ _ => trivial⟩, by simp [putList]⟩, rfl, rfl⟩

/-- An archive is read back exactly as it is written. -/
theorem archive_exact :
    Exact Archive.Fits Archive.encode (Archive.mk <$> getList getClassBytes) := by
  intro bytes a rest
  rw [map_eq_ok]
  simp only [classBytes_exact.list _ _ _]
  constructor
  · rintro ⟨classes, ⟨hfits, rfl⟩, rfl⟩
    exact ⟨hfits, rfl⟩
  · rintro ⟨hfits, rfl⟩
    exact ⟨a.classes, ⟨hfits, rfl⟩, rfl⟩

/-- **The formats.**  Class files with any nesting of statements and expressions, and archives of
any classes, are written without ambiguity and read without loss. -/
theorem formats_unambiguous :
    Unambiguous Language.ClassFile.Fits Language.ClassFile.encode Language.ClassFile.decode
      ∧ Unambiguous Archive.Fits Archive.encode Archive.decode :=
  ⟨Language.classFile_exact.unambiguous, archive_exact.unambiguous⟩

end ReplEngine
