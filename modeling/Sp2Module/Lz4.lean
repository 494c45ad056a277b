import Sp2Module.BinaryReader

/-!
# LZ4 block codecs

The compressor is a parameter: a codec that may refuse an input and whose blocks are decoded with
the length of the result given. `Lawful` is what is relied on. Blocks of short inputs consist of a
token and literals; `literals` is the codec restricted to them.
-/

namespace Sp2Module

variable {ε : Type}

structure Lz4Codec (ε : Type) where
  encode : Bytes → Except (Exn ε) Bytes
  /-- The block and the length of the result. -/
  decode : Bytes → ℤ → Except (Exn ε) Bytes

namespace Lz4Codec

/-- Blocks are arrays and decode to what was encoded; a result has the length asked for. -/
structure Lawful (codec : Lz4Codec ε) : Prop where
  decode_encode : ∀ x y, x.length ≤ maxArrayLength → codec.encode x = .ok y →
    codec.decode y x.length = .ok x
  length_encode : ∀ x y, codec.encode x = .ok y → y.length ≤ maxArrayLength
  length_decode : ∀ y n x, codec.decode y n = .ok x → (x.length : ℤ) = n

/-- The most literals an encoder emits without looking for a match. -/
def maxLiterals : ℕ := 12

/-- A block without matches: a token with the number of literals in its high half. -/
def literals : Lz4Codec ε where
  encode x := if x.length ≤ maxLiterals then .ok (UInt8.ofNat (16 * x.length) :: x)
    else .error .notSupported
  decode
    | [], _ => .error .argument
    | token :: x, n =>
      if token.toNat = 16 * x.length ∧ (x.length : ℤ) = n then .ok x else .error .argument

theorem lawful_literals : (literals : Lz4Codec ε).Lawful where
  decode_encode x y _ h := by
    simp only [literals] at h ⊢
    split_ifs at h with hle
    cases h
    have hlt : 16 * x.length < 256 := by unfold maxLiterals at hle; omega
    have htoken : (UInt8.ofNat (16 * x.length)).toNat = 16 * x.length :=
      UInt8.toNat_ofNat_of_lt' hlt
    exact if_pos ⟨htoken, rfl⟩
  length_encode x y h := by
    simp only [literals] at h
    split_ifs at h with hle
    cases h
    have hmax : maxLiterals + 1 ≤ maxArrayLength := by decide
    rw [List.length_cons]
    omega
  length_decode y n x h := by
    cases y with
    | nil => cases h
    | cons token x' =>
      simp only [literals] at h
      split_ifs at h with hc
      cases h
      exact hc.2

end Lz4Codec
end Sp2Module
