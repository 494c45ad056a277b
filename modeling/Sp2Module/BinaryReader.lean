import Sp2Module.Bytes

/-!
# Binary streams

A reader over a byte stream with a cursor, and the little-endian words a writer puts on one.
Fixed-width reads fail at the end of the stream; `readBytes` returns what is left, and the cursor
may stand beyond the end. `rest` is what has not been read.
-/

namespace Sp2Module

/-- Exceptions of the runtime library, and those a program declares itself. -/
inductive Exn (ε : Type) where
  | endOfStream
  | argumentOutOfRange
  | argument
  | notSupported
  | nullReference
  | outOfMemory
  | io
  | format
  | overflow
  | app (error : ε)
deriving DecidableEq, Repr

variable {ε : Type} {α β : Type}

theorem except_bind_eq_ok {x : Except ε α} {f : α → Except ε β} {b : β} :
    (x >>= f) = .ok b ↔ ∃ a, x = .ok a ∧ f a = .ok b := by
  cases x with
  | error e => simp [bind, Except.bind]
  | ok a => simp [bind, Except.bind]

theorem except_bind_eq_error {x : Except ε α} {f : α → Except ε β} {e : ε} :
    (x >>= f) = .error e ↔ x = .error e ∨ ∃ a, x = .ok a ∧ f a = .error e := by
  cases x with
  | error e => simp [bind, Except.bind]
  | ok a => simp [bind, Except.bind]

theorem except_map_eq_ok {x : Except ε α} {f : α → β} {b : β} :
    x.map f = .ok b ↔ ∃ a, x = .ok a ∧ f a = b := by
  cases x <;> simp [Except.map]

theorem except_map_eq_error {x : Except ε α} {f : α → β} {e : ε} :
    x.map f = .error e ↔ x = .error e := by
  cases x <;> simp [Except.map]

theorem estate_bind_eq_ok {σ : Type} {x : EStateM ε σ α} {f : α → EStateM ε σ β} {s s'' : σ}
    {b : β} :
    (x >>= f) s = .ok b s'' ↔ ∃ a s', x s = .ok a s' ∧ f a s' = .ok b s'' := by
  simp only [bind, EStateM.bind]
  cases x s with
  | error e s' => simp
  | ok a s' => simp

/-- The casts from a 64-bit value to the 32-bit types drop the high bits. -/
def uintOfLong (x : ℤ) : UInt32 := UInt32.ofNat (x % 2 ^ 32).toNat

def intOfLong (x : ℤ) : Int32 := Int32.ofInt x

def uintBytes (x : UInt32) : Bytes := leBytes 4 x.toNat

def intBytes (x : Int32) : Bytes := uintBytes x.toUInt32

def ulongBytes (x : UInt64) : Bytes := leBytes 8 x.toNat

/-- The bytes of a 64-bit value. -/
def longBytes (x : ℤ) : Bytes := leBytes 8 (x % 2 ^ 64).toNat

@[simp] theorem length_uintBytes (x : UInt32) : (uintBytes x).length = 4 := length_leBytes 4 _
@[simp] theorem length_intBytes (x : Int32) : (intBytes x).length = 4 := length_leBytes 4 _
@[simp] theorem length_ulongBytes (x : UInt64) : (ulongBytes x).length = 8 := length_leBytes 8 _
@[simp] theorem length_longBytes (x : ℤ) : (longBytes x).length = 8 := length_leBytes 8 _

theorem uintOfLong_toNat (x : UInt32) : uintOfLong x.toNat = x := by
  have h : x.toNat < 2 ^ 32 := x.toNat_lt
  have hmod : ((x.toNat : ℤ) % 2 ^ 32).toNat = x.toNat := by omega
  rw [uintOfLong, hmod, UInt32.ofNat_toNat]

theorem toNat_uintOfLong (x : ℤ) : ((uintOfLong x).toNat : ℤ) = x % 2 ^ 32 := by
  have h : (x % 2 ^ 32).toNat < 2 ^ 32 := by omega
  rw [uintOfLong, UInt32.toNat_ofNat_of_lt' (by simpa [UInt32.size] using h)]
  omega

theorem toNat_uintOfLong_of_lt {x : ℤ} (h₀ : 0 ≤ x) (h : x < 2 ^ 32) :
    ((uintOfLong x).toNat : ℤ) = x := by
  rw [toNat_uintOfLong, Int.emod_eq_of_lt h₀ h]

def byteOfBytes (b : Bytes) : UInt8 := UInt8.ofNat (leValue b)

def ushortOfBytes (b : Bytes) : UInt16 := UInt16.ofNat (leValue b)

def uintOfBytes (b : Bytes) : UInt32 := UInt32.ofNat (leValue b)

def intOfBytes (b : Bytes) : Int32 := (uintOfBytes b).toInt32

def ulongOfBytes (b : Bytes) : UInt64 := UInt64.ofNat (leValue b)

@[simp] theorem uintOfBytes_uintBytes (x : UInt32) : uintOfBytes (uintBytes x) = x := by
  rw [uintOfBytes, uintBytes, leValue_leBytes_of_lt x.toNat_lt, UInt32.ofNat_toNat]

theorem uintBytes_inj {x y : UInt32} (h : uintBytes x = uintBytes y) : x = y := by
  rw [← uintOfBytes_uintBytes x, h, uintOfBytes_uintBytes]

theorem uintBytes_uintOfBytes {b : Bytes} (h : b.length = 4) : uintBytes (uintOfBytes b) = b := by
  have hlt := leValue_lt b
  rw [h] at hlt
  rw [uintBytes, uintOfBytes, UInt32.toNat_ofNat_of_lt' hlt]
  nth_rewrite 1 [← h]
  exact leBytes_leValue b

@[simp] theorem intOfBytes_intBytes (x : Int32) : intOfBytes (intBytes x) = x := by
  rw [intOfBytes, intBytes, uintOfBytes_uintBytes, Int32.toInt32_toUInt32]

theorem intBytes_intOfBytes {b : Bytes} (h : b.length = 4) : intBytes (intOfBytes b) = b := by
  rw [intBytes, intOfBytes, UInt32.toUInt32_toInt32, uintBytes_uintOfBytes h]

@[simp] theorem ulongOfBytes_ulongBytes (x : UInt64) : ulongOfBytes (ulongBytes x) = x := by
  rw [ulongOfBytes, ulongBytes, leValue_leBytes_of_lt x.toNat_lt, UInt64.ofNat_toNat]

theorem longOfBytes_longBytes (x : ℤ) : (ulongOfBytes (longBytes x)).toInt64 = Int64.ofInt x := by
  have hx : ((x % 2 ^ 64).toNat : ℤ) = x % 2 ^ 64 := by omega
  rw [ulongOfBytes, longBytes, leValue_leBytes_of_lt (by omega), UInt64.toInt64_ofNat',
    ← Int64.toInt_inj, Int64.toInt_ofNat', Int64.toInt_ofInt, hx]
  exact Int.emod_bmod x Int64.size

/-- The longest array of bytes the runtime allocates. -/
def maxArrayLength : ℕ := 0x7FFFFFC7

theorem maxArrayLength_lt : maxArrayLength < 2 ^ 31 := by decide

/-- What the allocation of a longer array throws: a length has to be an `int` in the first place. -/
def newArrayExn (length : ℕ) : Exn ε := if 2 ^ 31 ≤ length then .overflow else .outOfMemory

structure BinaryReader where
  bytes : Bytes
  position : ℕ
deriving DecidableEq, Repr

/-- A computation that reads from a stream and may throw. -/
abbrev Reads (ε α : Type) := StateT BinaryReader (Except (Exn ε)) α

namespace BinaryReader

def ofBytes (b : Bytes) : BinaryReader := ⟨b, 0⟩

def advance (br : BinaryReader) (n : ℕ) : BinaryReader := { br with position := br.position + n }

@[simp] theorem bytes_ofBytes (b : Bytes) : (ofBytes b).bytes = b := rfl
@[simp] theorem position_ofBytes (b : Bytes) : (ofBytes b).position = 0 := rfl
@[simp] theorem bytes_advance (br : BinaryReader) (n : ℕ) : (br.advance n).bytes = br.bytes := rfl
@[simp] theorem position_advance (br : BinaryReader) (n : ℕ) :
    (br.advance n).position = br.position + n := rfl

theorem advance_advance (br : BinaryReader) (m n : ℕ) :
    (br.advance m).advance n = br.advance (m + n) := by
  simp only [advance, Nat.add_assoc]

/-- Reads up to `count` bytes; a short read at the end of the stream is silent. -/
def readBytes (count : ℤ) : Reads ε Bytes := fun br =>
  if count < 0 then .error .argumentOutOfRange
  else if (maxArrayLength : ℤ) < count then .error .outOfMemory
  else
    let b := slice br.bytes br.position count.toNat
    .ok (b, br.advance b.length)

/-- The next `n` bytes, all of them or none. -/
def fillBuffer (n : ℕ) : Reads ε Bytes := fun br =>
  let b := slice br.bytes br.position n
  if b.length < n then .error .endOfStream else .ok (b, br.advance n)

def readByte : Reads ε UInt8 := byteOfBytes <$> fillBuffer 1

def readUInt16 : Reads ε UInt16 := ushortOfBytes <$> fillBuffer 2

def readUInt32 : Reads ε UInt32 := uintOfBytes <$> fillBuffer 4

def readInt32 : Reads ε Int32 := intOfBytes <$> fillBuffer 4

def readUInt64 : Reads ε UInt64 := ulongOfBytes <$> fillBuffer 8

def readInt64 : Reads ε Int64 := UInt64.toInt64 <$> readUInt64

def setPosition (p : ℤ) : Reads ε Unit := fun br =>
  if p < 0 then .error .argumentOutOfRange else .ok ((), { br with position := p.toNat })

def getPosition : Reads ε ℕ := fun br => .ok (br.position, br)

/-- `Seek(offset, SeekOrigin.Current)` with a forward offset. -/
def skip (offset : ℕ) : Reads ε Unit := fun br => .ok ((), br.advance offset)

theorem pure_apply (a : α) (br : BinaryReader) : (pure a : Reads ε α) br = .ok (a, br) := rfl

theorem bind_of_ok {x : Reads ε α} {f : α → Reads ε β} {br br' : BinaryReader} {a : α}
    (h : x br = .ok (a, br')) : (x >>= f) br = f a br' := by
  change (x br).bind (fun p => f p.1 p.2) = _
  rw [h]
  rfl

theorem bind_of_error {x : Reads ε α} {f : α → Reads ε β} {br : BinaryReader} {e : Exn ε}
    (h : x br = .error e) : (x >>= f) br = .error e := by
  change (x br).bind (fun p => f p.1 p.2) = _
  rw [h]
  rfl

theorem bind_eq_ok {x : Reads ε α} {f : α → Reads ε β} {br br'' : BinaryReader} {b : β} :
    (x >>= f) br = .ok (b, br'') ↔ ∃ a br', x br = .ok (a, br') ∧ f a br' = .ok (b, br'') := by
  constructor
  · intro h
    cases hx : x br with
    | error e => rw [bind_of_error hx] at h; cases h
    | ok p => exact ⟨p.1, p.2, rfl, (bind_of_ok hx).symm.trans h⟩
  · rintro ⟨a, br', hx, hf⟩
    rw [bind_of_ok hx, hf]

theorem map_of_ok {x : Reads ε α} {f : α → β} {br br' : BinaryReader} {a : α}
    (h : x br = .ok (a, br')) : (f <$> x) br = .ok (f a, br') := by
  change (x br).bind (fun p => Except.ok (f p.1, p.2)) = _
  rw [h]
  rfl

theorem map_of_error {x : Reads ε α} {f : α → β} {br : BinaryReader} {e : Exn ε}
    (h : x br = .error e) : (f <$> x) br = .error e := by
  change (x br).bind (fun p => Except.ok (f p.1, p.2)) = _
  rw [h]
  rfl

variable {br : BinaryReader}

theorem readBytes_natCast {n : ℕ} (h : n ≤ maxArrayLength) :
    (readBytes (n : ℤ) : Reads ε Bytes) br =
      .ok (slice br.bytes br.position n, br.advance (slice br.bytes br.position n).length) := by
  simp only [readBytes, if_neg (show ¬ (n : ℤ) < 0 by omega),
    if_neg (show ¬ (maxArrayLength : ℤ) < n by omega), Int.toNat_natCast]

theorem readBytes_eq_ok {count : ℤ} {b : Bytes} {br' : BinaryReader}
    (h : (readBytes count : Reads ε Bytes) br = .ok (b, br')) :
    0 ≤ count ∧ count ≤ maxArrayLength ∧ b = slice br.bytes br.position count.toNat ∧
      br' = br.advance b.length := by
  unfold readBytes at h
  split_ifs at h with hneg hmax
  cases h
  exact ⟨by omega, by omega, rfl, rfl⟩

theorem fillBuffer_of_lt {n : ℕ} (hn : 0 < n) (h : br.bytes.length < br.position + n) :
    (fillBuffer n : Reads ε Bytes) br = .error .endOfStream := by
  have hlen : (slice br.bytes br.position n).length < n := by rw [length_slice]; omega
  simp [fillBuffer, hlen]

theorem fillBuffer_of_le {n : ℕ} (h : br.position + n ≤ br.bytes.length) :
    (fillBuffer n : Reads ε Bytes) br =
      .ok (slice br.bytes br.position n, br.advance n) := by
  have hlen : ¬ (slice br.bytes br.position n).length < n := by rw [length_slice]; omega
  simp [fillBuffer, hlen]

theorem readInt32_of_le (h : br.position + 4 ≤ br.bytes.length) :
    (readInt32 : Reads ε Int32) br =
      .ok (intOfBytes (slice br.bytes br.position 4), br.advance 4) :=
  map_of_ok (fillBuffer_of_le h)

theorem readUInt64_of_le (h : br.position + 8 ≤ br.bytes.length) :
    (readUInt64 : Reads ε UInt64) br =
      .ok (ulongOfBytes (slice br.bytes br.position 8), br.advance 8) :=
  map_of_ok (fillBuffer_of_le h)

theorem readUInt64_of_lt (h : br.bytes.length < br.position + 8) :
    (readUInt64 : Reads ε UInt64) br = .error .endOfStream :=
  map_of_error (fillBuffer_of_lt (by decide) h)

theorem fillBuffer_eq_ok {n : ℕ} {b : Bytes} {br' : BinaryReader}
    (h : (fillBuffer n : Reads ε Bytes) br = .ok (b, br')) :
    slice br.bytes br.position n = b ∧ b.length = n ∧ br' = br.advance n := by
  unfold fillBuffer at h
  dsimp only at h
  split_ifs at h with hlt
  cases h
  refine ⟨rfl, ?_, rfl⟩
  rw [length_slice] at hlt ⊢
  omega

theorem readInt32_eq_ok {x : Int32} {br' : BinaryReader}
    (h : (readInt32 : Reads ε Int32) br = .ok (x, br')) :
    slice br.bytes br.position 4 = intBytes x ∧ br' = br.advance 4 := by
  unfold readInt32 at h
  cases hfill : (fillBuffer 4 : Reads ε Bytes) br with
  | error e =>
    rw [map_of_error hfill] at h
    cases h
  | ok p =>
    obtain ⟨hslice, hlen, hbr⟩ := fillBuffer_eq_ok hfill
    rw [map_of_ok hfill] at h
    cases h
    exact ⟨by rw [hslice, intBytes_intOfBytes hlen], hbr⟩

theorem readUInt32_of_lt (h : br.bytes.length < br.position + 4) :
    (readUInt32 : Reads ε UInt32) br = .error .endOfStream :=
  map_of_error (fillBuffer_of_lt (by decide) h)

theorem readUInt32_eq_ok {x : UInt32} {br' : BinaryReader}
    (h : (readUInt32 : Reads ε UInt32) br = .ok (x, br')) :
    br.position + 4 ≤ br.bytes.length := by
  by_contra hlt
  rw [readUInt32_of_lt (by omega)] at h
  cases h

theorem setPosition_natCast (p : ℕ) :
    (setPosition (p : ℤ) : Reads ε Unit) br = .ok ((), { br with position := p }) := by
  simp [setPosition]

/-! ### Records of a fixed length -/

/-- `x` takes `n` bytes, of which `value` is the result, or runs into the end of the stream. -/
def Fixed (n : ℕ) (x : Reads ε α) (value : Bytes → ℕ → α) : Prop :=
  ∀ br : BinaryReader, br.position ≤ br.bytes.length →
    x br = if br.position + n ≤ br.bytes.length then .ok (value br.bytes br.position, br.advance n)
      else .error .endOfStream

theorem fixed_pure (a : α) : Fixed 0 (pure a : Reads ε α) fun _ _ => a := by
  intro br hp
  rw [Nat.add_zero, if_pos hp]
  rfl

theorem Fixed.bind {m n : ℕ} {x : Reads ε α} {f : α → Reads ε β} {v : Bytes → ℕ → α}
    {w : α → Bytes → ℕ → β} (hx : Fixed m x v) (hf : ∀ a, Fixed n (f a) (w a)) :
    Fixed (m + n) (x >>= f) fun b p => w (v b p) b (p + m) := by
  intro br hp
  by_cases hm : br.position + m ≤ br.bytes.length
  · have hxbr : x br = _ := (hx br hp).trans (if_pos hm)
    rw [bind_of_ok hxbr, hf _ _ hm, advance_advance, position_advance, bytes_advance,
      Nat.add_assoc]
  · have hxbr : x br = _ := (hx br hp).trans (if_neg hm)
    rw [bind_of_error hxbr, if_neg (by omega)]

theorem Fixed.map {n : ℕ} {x : Reads ε α} {v : Bytes → ℕ → α} (hx : Fixed n x v) (f : α → β) :
    Fixed n (f <$> x) fun b p => f (v b p) := by
  intro br hp
  by_cases hn : br.position + n ≤ br.bytes.length
  · have hxbr : x br = _ := (hx br hp).trans (if_pos hn)
    rw [map_of_ok hxbr, if_pos hn]
  · have hxbr : x br = _ := (hx br hp).trans (if_neg hn)
    rw [map_of_error hxbr, if_neg hn]

theorem fixed_fillBuffer {n : ℕ} (hn : 0 < n) :
    Fixed n (fillBuffer n : Reads ε Bytes) fun b p => slice b p n := by
  intro br hp
  split_ifs with h
  · exact fillBuffer_of_le h
  · exact fillBuffer_of_lt hn (by omega)

/-! ### What has not been read -/

def rest (br : BinaryReader) : Bytes := br.bytes.drop br.position

@[simp] theorem rest_ofBytes (b : Bytes) : (ofBytes b).rest = b := rfl

theorem slice_of_rest {w r : Bytes} (h : br.rest = w ++ r) :
    slice br.bytes br.position w.length = w := by
  rw [rest] at h
  rw [slice, h, List.take_left]

theorem rest_advance {w r : Bytes} {n : ℕ} (h : br.rest = w ++ r) (hn : w.length = n) :
    (br.advance n).rest = r := by
  rw [rest] at h
  rw [rest, bytes_advance, position_advance, ← List.drop_drop, h, ← hn, List.drop_left]

theorem fillBuffer_of_rest {w r : Bytes} {n : ℕ} (h : br.rest = w ++ r) (hn : w.length = n) :
    (fillBuffer n : Reads ε Bytes) br = .ok (w, br.advance n) := by
  have hw : slice br.bytes br.position n = w := hn ▸ slice_of_rest h
  simp [fillBuffer, hw, hn]

theorem readUInt32_of_rest {x : UInt32} {r : Bytes} (h : br.rest = uintBytes x ++ r) :
    (readUInt32 : Reads ε UInt32) br = .ok (x, br.advance 4) := by
  have hfill : (fillBuffer 4 : Reads ε Bytes) br = _ := fillBuffer_of_rest h (length_uintBytes x)
  rw [readUInt32, map_of_ok hfill, uintOfBytes_uintBytes]

theorem readInt32_of_rest {x : Int32} {r : Bytes} (h : br.rest = intBytes x ++ r) :
    (readInt32 : Reads ε Int32) br = .ok (x, br.advance 4) := by
  have hfill : (fillBuffer 4 : Reads ε Bytes) br = _ := fillBuffer_of_rest h (length_intBytes x)
  rw [readInt32, map_of_ok hfill, intOfBytes_intBytes]

theorem readUInt64_of_rest {x : UInt64} {r : Bytes} (h : br.rest = ulongBytes x ++ r) :
    (readUInt64 : Reads ε UInt64) br = .ok (x, br.advance 8) := by
  have hfill : (fillBuffer 8 : Reads ε Bytes) br = _ := fillBuffer_of_rest h (length_ulongBytes x)
  rw [readUInt64, map_of_ok hfill, ulongOfBytes_ulongBytes]

theorem readInt64_of_rest {x : ℤ} {r : Bytes} (h : br.rest = longBytes x ++ r) :
    (readInt64 : Reads ε Int64) br = .ok (Int64.ofInt x, br.advance 8) := by
  have hfill : (fillBuffer 8 : Reads ε Bytes) br = _ := fillBuffer_of_rest h (length_longBytes x)
  rw [readInt64, readUInt64, map_of_ok (map_of_ok hfill), longOfBytes_longBytes]

theorem readBytes_of_rest {w r : Bytes} {n : ℕ} (h : br.rest = w ++ r) (hn : w.length = n)
    (hmax : n ≤ maxArrayLength) :
    (readBytes (n : ℤ) : Reads ε Bytes) br = .ok (w, br.advance n) := by
  have hw : slice br.bytes br.position n = w := hn ▸ slice_of_rest h
  rw [readBytes_natCast hmax, hw, hn]

end BinaryReader

/-- A write through a memory stream over a fixed buffer: all of it or nothing. The position of such
a stream stays below `2 ^ 31`, which is beyond the end of every array. -/
def memoryWrite (buffer : Bytes) (position : ℕ) (data : Bytes) : Except (Exn ε) Bytes :=
  if position + data.length ≤ buffer.length then .ok (overwrite buffer position data)
  else if 2 ^ 31 ≤ position then .error .argumentOutOfRange
  else .error .notSupported

/-- `ReadBytes` through a memory stream over a fixed buffer. -/
def memoryRead (buffer : Bytes) (position : ℕ) (size : ℤ) : Except (Exn ε) Bytes :=
  if buffer.length < position ∧ 2 ^ 31 ≤ position then .error .argumentOutOfRange
  else if size < 0 then .error .argumentOutOfRange
  else if (maxArrayLength : ℤ) < size then .error .outOfMemory
  else .ok (slice buffer position size.toNat)

/-- `BitConverter.ToUInt32` at index 0. -/
def toUInt32 (b : Bytes) : Except (Exn ε) UInt32 :=
  if b.length < 4 then .error .argument else .ok (uintOfBytes (b.take 4))

@[simp] theorem toUInt32_uintBytes (x : UInt32) :
    (toUInt32 (uintBytes x) : Except (Exn ε) UInt32) = .ok x := by
  have hlen := length_uintBytes x
  rw [toUInt32, if_neg (by omega), List.take_of_length_le hlen.le, uintOfBytes_uintBytes]

/-- `Encoding.ASCII.GetString`: bytes outside the range decode to a question mark. -/
def asciiGetString (b : Bytes) : String :=
  String.ofList (b.map fun c => if c < 128 then Char.ofNat c.toNat else '?')

/-- `Encoding.ASCII.GetBytes`. -/
def asciiGetBytes (s : String) : Bytes :=
  s.toList.map fun c => if c.toNat < 128 then UInt8.ofNat c.toNat else 63

theorem toNat_ofNat_ascii {c : UInt8} (h : c < 128) : (Char.ofNat c.toNat).toNat = c.toNat := by
  have hlt : c.toNat < 128 := UInt8.lt_iff_toNat_lt.mp h
  have hvalid : c.toNat.isValidChar := Or.inl (by omega)
  rw [Char.ofNat, dif_pos hvalid]
  rfl

/-- Text without a question mark has been decoded from its own bytes. -/
theorem asciiGetBytes_asciiGetString {b : Bytes} (h : '?' ∉ (asciiGetString b).toList) :
    asciiGetBytes (asciiGetString b) = b := by
  rw [asciiGetString, String.toList_ofList] at h
  rw [asciiGetString, asciiGetBytes, String.toList_ofList]
  induction b with
  | nil => rfl
  | cons c b ih =>
    rw [List.map_cons, List.mem_cons, not_or] at h
    rw [List.map_cons, List.map_cons, ih h.2]
    have hc : c < 128 := by
      by_contra hge
      rw [if_neg hge] at h
      exact h.1 rfl
    have hlt : c.toNat < 128 := UInt8.lt_iff_toNat_lt.mp hc
    rw [if_pos hc, toNat_ofNat_ascii hc, if_pos hlt, UInt8.ofNat_toNat]

/-- Behind the magic word it expects a reader goes on. -/
theorem BinaryReader.readMagic_of_rest {α : Type} {br : BinaryReader} {magic : String} {x : Exn ε}
    {r : Bytes} (k : Reads ε α) (h : br.rest = asciiGetBytes magic ++ r)
    (hlen : (asciiGetBytes magic).length = 4)
    (hascii : asciiGetString (asciiGetBytes magic) = magic) :
    (do
      let word ← readBytes 4
      if asciiGetString word ≠ magic then throw x
      k : Reads ε α) br = k (br.advance 4) := by
  have hread : (readBytes 4 : Reads ε Bytes) br = _ := readBytes_of_rest h hlen (by decide)
  rw [bind_of_ok hread]
  dsimp only
  rw [if_neg (not_not.mpr hascii)]

end Sp2Module
