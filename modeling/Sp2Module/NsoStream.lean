import Sp2Module.NsoCreate

/-!
# Reading an NSO through a stream

`Read` clamps the number of bytes at `Length`, which is taken from rodata, and leaves the position
where it is: the statement that moves it stands behind both returns. A run of reads is right
exactly when no read asks for a byte.
-/

namespace Sp2Module

open NsoSegmentType

/-- `new byte[count]`. -/
def newArray (count : ℤ) : Except Exception Bytes :=
  if count < 0 then .error .overflow
  else if (maxArrayLength : ℤ) < count then .error (newArrayExn count.toNat)
  else .ok (List.replicate count.toNat 0)

/-- `Buffer.BlockCopy`; it checks all of its arguments before it copies. -/
def blockCopy (src : Bytes) (srcOffset : ℤ) (dst : Bytes) (dstOffset count : ℤ) :
    Except Exception Bytes :=
  if srcOffset < 0 ∨ dstOffset < 0 ∨ count < 0 then .error .argumentOutOfRange
  else if src.length < srcOffset + count ∨ dst.length < dstOffset + count then .error .argument
  else .ok (overwrite dst dstOffset.toNat (slice src srcOffset.toNat count.toNat))

theorem newArray_eq_ok {count : ℤ} {b : Bytes} (h : newArray count = .ok b) :
    0 ≤ count ∧ b = List.replicate count.toNat 0 := by
  unfold newArray at h
  split_ifs at h with hneg hmax
  cases h
  exact ⟨by omega, rfl⟩

theorem blockCopy_eq_ok {src dst b : Bytes} {srcOffset dstOffset count : ℤ}
    (h : blockCopy src srcOffset dst dstOffset count = .ok b) :
    0 ≤ dstOffset ∧ 0 ≤ count ∧ srcOffset + count ≤ src.length ∧
      dstOffset + count ≤ dst.length ∧ b.length = dst.length := by
  unfold blockCopy at h
  split_ifs at h with hneg hlen
  cases h
  refine ⟨by omega, by omega, by omega, by omega, length_overwrite _ _ _⟩

/-- Copying no bytes at an index of the buffer changes nothing. -/
theorem blockCopy_zero {src dst : Bytes} {dstOffset : ℤ} (h₀ : 0 ≤ dstOffset)
    (h : dstOffset ≤ dst.length) : blockCopy src 0 dst dstOffset 0 = .ok dst := by
  rw [blockCopy, if_neg (by omega), if_neg (by omega)]
  simp [slice]

/-- The byte of the image at an address. -/
def Nso.imageByte (nso : Nso) (a : ℕ) : Option UInt8 :=
  if a < 2 ^ 32 then
    (nso.getAddressSegment (UInt32.ofNat a)).bind fun t =>
      (nso.segments t).rawData[a - (nso.segments t).address.toNat]?
  else none

/-- A memory stream over the data of its segment can be put to the address. -/
def Nso.StreamReaches (nso : Nso) (addr : UInt32) : Prop :=
  ∀ t, nso.getAddressSegment addr = some t →
    addr.toNat - (nso.segments t).address.toNat ≤ (nso.segments t).rawData.length ∨
      addr.toNat - (nso.segments t).address.toNat < 2 ^ 31

theorem Nso.Sized.streamReaches {nso : Nso} (hs : nso.Sized) (addr : UInt32) :
    nso.StreamReaches addr := by
  intro t ht
  have hle := ((nso.segments t).contains_iff addr).mp (getAddressSegment_eq_some ht)
  have hlen := hs t
  omega

/-- A read of no bytes throws only where the address is far behind the data. -/
theorem Nso.readNso_zero_iff {nso : Nso} {addr : UInt32}
    (hin : ∃ t, (nso.segments t).Contains addr) :
    nso.readNso addr 0 = .ok [] ↔ nso.StreamReaches addr := by
  obtain ⟨u, hu⟩ := hin
  cases hseg : nso.getAddressSegment addr with
  | none => exact absurd hu (getAddressSegment_eq_none.mp hseg u)
  | some t =>
    have hc := getAddressSegment_eq_some hseg
    have hle := ((nso.segments t).contains_iff addr).mp hc
    simp only [readNso, hseg, StreamReaches, Option.some.injEq, forall_eq']
    rw [hc.toNat_endAddress, if_neg (by omega), NsoSegment.toNat_sub_address hc, memoryRead]
    split_ifs with hfar hneg hmax
    · exact iff_of_false (by simp) (by omega)
    · omega
    · omega
    · exact iff_of_true (by simp [slice]) (by omega)

structure NsoStream where
  ignoreReadPerm : Bool
  pos : UInt32
  nso : Nso

inductive SeekOrigin where
  | begin
  | current
  | end
deriving DecidableEq, Repr

/-- The arguments of a call of `Read`. -/
structure ReadCall where
  buffer : Bytes
  offset : Int32
  count : Int32
deriving DecidableEq

namespace NsoStream

/-- `NsoStream(nso, ignorePermR)`. -/
def create (nso : Nso) (ignorePermR : Bool) : NsoStream := ⟨ignorePermR, 0, nso⟩

def length (s : NsoStream) : UInt32 :=
  s.nso.rodataSegment.address + s.nso.rodataSegment.decompressedSize +
    s.nso.rodataSegment.bssOrAlign

/-- The setter of `Position`. -/
def setPosition (s : NsoStream) (value : ℤ) : Except Exception NsoStream :=
  if value < 0 ∨ 2 ^ 32 ≤ value ∨ ¬ s.ignoreReadPerm ∧ (s.length.toNat : ℤ) < value then
    .error .endOfStream
  else .ok { s with pos := uintOfLong value }

def seek (s : NsoStream) (offset : Int64) : SeekOrigin → Except Exception NsoStream
  | .begin => s.setPosition offset.toInt
  | .current => s.setPosition (Int64.ofNat s.pos.toNat + offset).toInt
  | .end => s.setPosition (Int64.ofNat s.length.toNat + offset).toInt

/-- `newSize`: what lies between the end of the request and `Length`, where that is beyond it. -/
def newSize (s : NsoStream) (count : ℤ) : ℤ :=
  if (s.length.toNat : ℤ) < s.pos.toNat + count then
    (Int32.ofInt (s.length.toNat - (s.pos.toNat + count))).toInt
  else count

/-- The result, the buffer and the stream behind a call; what throws leaves both unchanged. -/
def read (s : NsoStream) (c : ReadCall) : Except Exception (ℤ × Bytes × NsoStream) :=
  let newSize := s.newSize c.count.toInt
  if s.ignoreReadPerm then do
    let buff ← newArray c.count.toInt
    let image ← s.nso.readNso s.pos newSize
    let buff ← blockCopy image 0 buff 0 c.count.toInt
    let buffer ← blockCopy buff 0 c.buffer c.offset.toInt newSize
    return (c.count.toInt, buffer, s)
  else do
    let buff ← s.nso.readNso s.pos newSize
    let buffer ← blockCopy buff 0 c.buffer c.offset.toInt newSize
    return (newSize, buffer, s)
  -- the source ends in `Position += newSize`, behind the two returns

/-- Streams over an image, and what moves them to a position. -/
inductive Opened (nso : Nso) : NsoStream → Prop where
  | create (ignorePermR : Bool) : Opened nso (create nso ignorePermR)
  | setPosition {s s' : NsoStream} {value : ℤ} (h : Opened nso s)
    (hs : s.setPosition value = .ok s') : Opened nso s'
  | seek {s s' : NsoStream} {offset : Int64} {origin : SeekOrigin} (h : Opened nso s)
    (hs : s.seek offset origin = .ok s') : Opened nso s'

/-! ### What a read is to do -/

variable {nso : Nso} {s s' : NsoStream} {c : ReadCall} {n : ℕ} {size : ℤ} {buffer : Bytes}

/-- A read of `n` bytes: no more than asked for, those of the image at the position, written to
their places in the buffer and nowhere else, and the position moved behind them. -/
structure CorrectRead (s : NsoStream) (c : ReadCall) (n : ℕ) (buffer : Bytes) (s' : NsoStream) :
    Prop where
  le_count : (n : ℤ) ≤ c.count.toInt
  copied : ∀ k < n, ∃ b, s.nso.imageByte (s.pos.toNat + k) = some b ∧ 0 ≤ c.offset.toInt + k ∧
    buffer[(c.offset.toInt + k).toNat]? = some b
  untouched : ∀ i : ℕ, (i < c.offset.toInt ∨ c.offset.toInt + n ≤ i) → buffer[i]? = c.buffer[i]?
  moved : s'.pos.toNat = s.pos.toNat + n
  same : s' = { s with pos := s'.pos }

/-- Every call of a run is a correct read from where the calls before it have left the stream. -/
def ReadsCorrect : NsoStream → List ReadCall → Prop
  | _, [] => True
  | s, c :: cs => ∃ (n : ℕ) (buffer : Bytes) (s' : NsoStream),
      s.read c = .ok ((n : ℤ), buffer, s') ∧ s.CorrectRead c n buffer s' ∧ s'.ReadsCorrect cs

/-- A loop of at most `fuel` reads that ends with one that returns 0; `none` is a loop still
running. -/
def readUntilZero (c : ReadCall) : ℕ → NsoStream → Except Exception (Option NsoStream)
  | 0, _ => .ok none
  | fuel + 1, s =>
    match s.read c with
    | .error x => .error x
    | .ok (n, _, s') => if n = 0 then .ok (some s') else readUntilZero c fuel s'

/-! ### What a read does -/

theorem read_eq_ok (h : s.read c = .ok (size, buffer, s')) :
    s' = s ∧ size = (if s.ignoreReadPerm then c.count.toInt else s.newSize c.count.toInt) ∧
      0 ≤ s.newSize c.count.toInt ∧
      (s.ignoreReadPerm = true → s.newSize c.count.toInt ≤ c.count.toInt) ∧
      0 ≤ c.offset.toInt ∧ c.offset.toInt + s.newSize c.count.toInt ≤ c.buffer.length ∧
      ∃ image, s.nso.readNso s.pos (s.newSize c.count.toInt) = .ok image := by
  unfold read at h
  split_ifs at h with hignore
  · obtain ⟨buff, hbuff, h⟩ := except_bind_eq_ok.mp h
    obtain ⟨image, himage, h⟩ := except_bind_eq_ok.mp h
    obtain ⟨buff', hbuff', h⟩ := except_bind_eq_ok.mp h
    obtain ⟨buffer', hbuffer, h⟩ := except_bind_eq_ok.mp h
    cases h
    obtain ⟨hcount, hzeros⟩ := newArray_eq_ok hbuff
    have hlen := (blockCopy_eq_ok hbuff').2.2.2.2
    rw [hzeros, List.length_replicate] at hlen
    obtain ⟨hoff, hnew, hsrc, hdst, -⟩ := blockCopy_eq_ok hbuffer
    rw [if_pos hignore]
    exact ⟨rfl, rfl, hnew, fun _ => by omega, hoff, hdst, image, himage⟩
  · obtain ⟨buff, hbuff, h⟩ := except_bind_eq_ok.mp h
    obtain ⟨buffer', hbuffer, h⟩ := except_bind_eq_ok.mp h
    cases h
    obtain ⟨hoff, hnew, hsrc, hdst, -⟩ := blockCopy_eq_ok hbuffer
    rw [if_neg hignore]
    exact ⟨rfl, rfl, hnew, fun h => absurd h hignore, hoff, hdst, buff, hbuff⟩

theorem setPosition_eq_ok {value : ℤ} (h : s.setPosition value = .ok s') :
    s' = { s with pos := s'.pos } ∧ (s.ignoreReadPerm = false → s'.pos ≤ s.length) := by
  unfold setPosition at h
  split_ifs at h with hrange
  cases h
  refine ⟨rfl, fun hignore => ?_⟩
  rw [hignore] at hrange
  have hcast := toNat_uintOfLong_of_lt (x := value) (by omega) (by omega)
  simp only [Bool.false_eq_true, not_false_eq_true, true_and, not_or] at hrange
  rw [UInt32.le_iff_toNat_le]
  dsimp only
  omega

theorem seek_eq_ok {offset : Int64} {origin : SeekOrigin} (h : s.seek offset origin = .ok s') :
    ∃ value, s.setPosition value = .ok s' := by
  cases origin
  all_goals exact ⟨_, h⟩

theorem Opened.nso_eq (h : Opened nso s) : s.nso = nso := by
  have hset : ∀ {s s' : NsoStream} {value : ℤ}, s.setPosition value = .ok s' → s'.nso = s.nso := by
    intro s s' value hs
    rw [(setPosition_eq_ok hs).1]
  induction h with
  | create ignorePermR => rfl
  | setPosition _ hs ih => rw [hset hs, ih]
  | seek _ hs ih =>
    obtain ⟨value, hvalue⟩ := seek_eq_ok hs
    rw [hset hvalue, ih]

/-- Without `ignorePermR` the position never gets beyond `Length`. -/
theorem Opened.pos_le (h : Opened nso s) : s.ignoreReadPerm = false → s.pos ≤ s.length := by
  have hset : ∀ {s s' : NsoStream} {value : ℤ}, s.setPosition value = .ok s' →
      s'.ignoreReadPerm = false → s'.pos ≤ s'.length := by
    intro s s' value hs hignore
    obtain ⟨hsame, hpos⟩ := setPosition_eq_ok hs
    have hlen : s'.length = s.length := by rw [hsame]; rfl
    rw [hlen]
    exact hpos (by rw [hsame] at hignore; exact hignore)
  cases h with
  | create ignorePermR => exact fun _ => UInt32.zero_le
  | setPosition _ hs => exact hset hs
  | seek _ hs =>
    obtain ⟨value, hvalue⟩ := seek_eq_ok hs
    exact hset hvalue

/-- Between the position and `Length` a request is cut to a negative size or not at all. -/
theorem newSize_of_pos_le (hpos : s.pos ≤ s.length) (hcount : 0 ≤ c.count.toInt) :
    s.newSize c.count.toInt = c.count.toInt ∨ s.newSize c.count.toInt < 0 := by
  have hle := UInt32.le_iff_toNat_le.mp hpos
  have hlt := c.count.toInt_lt
  unfold newSize
  split_ifs with hend
  · right
    rw [Int32.toInt_ofInt, Int32.size, Int.bmod_eq_of_le_mul_two (by omega) (by omega)]
    omega
  · exact .inl rfl

/-- Behind `Length` even a request for nothing is cut. -/
theorem newSize_zero_iff (s : NsoStream) : s.newSize 0 = 0 ↔ s.pos ≤ s.length := by
  have hlt := s.pos.toNat_lt
  rw [UInt32.le_iff_toNat_le]
  unfold newSize
  split_ifs with hend
  · rw [Int32.toInt_ofInt, Int32.size, Int.bmod_def]
    omega
  · exact iff_of_true rfl (by omega)

/-- A read that asks for bytes does not return 0. -/
theorem Opened.pos_of_read (h : Opened nso s) (hcount : 0 < c.count.toInt)
    (hread : s.read c = .ok (size, buffer, s')) : 0 < size := by
  obtain ⟨-, rfl, hnew, -⟩ := read_eq_ok hread
  split_ifs with hignore
  · exact hcount
  · have hpos := h.pos_le (by simpa using hignore)
    rcases newSize_of_pos_le hpos hcount.le with heq | hneg
    · rwa [heq]
    · omega

theorem read_of_count_eq_zero (hread : s.nso.readNso s.pos 0 = .ok []) (hcount : c.count = 0)
    (hoff : 0 ≤ c.offset.toInt) (hlen : c.offset.toInt ≤ c.buffer.length)
    (hpos : s.pos ≤ s.length) : s.read c = .ok (0, c.buffer, s) := by
  have hzero : c.count.toInt = 0 := by rw [hcount]; rfl
  have hnew := (newSize_zero_iff s).mpr hpos
  have harray : newArray 0 = .ok [] := rfl
  have hcopy : blockCopy [] 0 c.buffer c.offset.toInt 0 = .ok c.buffer := blockCopy_zero hoff hlen
  have hcopy' : blockCopy [] 0 [] 0 0 = .ok [] := rfl
  unfold read
  rw [hzero, hnew]
  split_ifs
  · simp only [hread, harray, hcopy, hcopy', bind, Except.bind, pure, Except.pure]
  · simp only [hread, hcopy, bind, Except.bind, pure, Except.pure]

/-- One read is right exactly when it asks for nothing, at a place of the buffer and from a
position that is not beyond `Length` and not far behind the data of its segment. -/
theorem Opened.read_correct_iff (h : Opened nso s) (hin : ∃ t, (nso.segments t).Contains s.pos)
    (hcount : 0 ≤ c.count.toInt) :
    (∃ (n : ℕ) (buffer : Bytes) (s' : NsoStream),
      s.read c = .ok ((n : ℤ), buffer, s') ∧ s.CorrectRead c n buffer s') ↔
    c.count = 0 ∧ 0 ≤ c.offset.toInt ∧ c.offset.toInt ≤ c.buffer.length ∧ s.pos ≤ s.length ∧
      nso.StreamReaches s.pos := by
  rw [← h.nso_eq] at hin ⊢
  constructor
  · rintro ⟨n, buffer, s', hread, hcorrect⟩
    obtain ⟨rfl, hsize, hnew, hle, hoff, hlen, image, himage⟩ := read_eq_ok hread
    have hn : n = 0 := by
      have hmoved := hcorrect.moved
      omega
    have hzero : c.count.toInt = 0 := by
      by_contra hne
      have hpos := h.pos_of_read (by omega) hread
      omega
    rw [hzero] at hnew hle hlen
    have hpos : s'.pos ≤ s'.length := by
      cases hignore : s'.ignoreReadPerm with
      | false => exact h.pos_le hignore
      | true => exact (newSize_zero_iff s').mp (le_antisymm (hle hignore) hnew)
    have hnone := (newSize_zero_iff s').mpr hpos
    rw [hzero, hnone] at himage
    obtain ⟨t, -, -, rfl⟩ := Nso.readNso_eq_ok (n := 0) himage
    exact ⟨Int32.toInt_inj.mp (hzero.trans Int32.toInt_zero.symm), hoff, by omega, hpos,
      (Nso.readNso_zero_iff hin).mp (himage.trans (by simp [slice]))⟩
  · rintro ⟨hzero, hoff, hlen, hpos, hreach⟩
    have hread := (Nso.readNso_zero_iff hin).mpr hreach
    refine ⟨0, c.buffer, s, read_of_count_eq_zero hread hzero hoff hlen hpos, ?_⟩
    refine ⟨hcount, ?_, fun i _ => rfl, rfl, rfl⟩
    intro k hk
    exact absurd hk (Nat.not_lt_zero k)

/-- A correct read leaves the stream as it was, so the next one starts from the same state. -/
theorem Opened.readsCorrect_iff_forall (h : Opened nso s)
    (hin : ∃ t, (nso.segments t).Contains s.pos) {calls : List ReadCall}
    (hcount : ∀ c ∈ calls, 0 ≤ c.count.toInt) :
    s.ReadsCorrect calls ↔ ∀ c ∈ calls, c.count = 0 ∧ 0 ≤ c.offset.toInt ∧
      c.offset.toInt ≤ c.buffer.length ∧ s.pos ≤ s.length ∧ nso.StreamReaches s.pos := by
  induction calls with
  | nil => simp [ReadsCorrect]
  | cons c calls ih =>
    have hone := h.read_correct_iff hin (hcount c List.mem_cons_self)
    have hrest := ih fun c hc => hcount c (List.mem_cons_of_mem _ hc)
    rw [List.forall_mem_cons, ← hone, ← hrest]
    constructor
    · rintro ⟨n, buffer, s', hread, hcorrect, hnext⟩
      obtain ⟨rfl, -⟩ := read_eq_ok hread
      exact ⟨⟨n, buffer, s', hread, hcorrect⟩, hnext⟩
    · rintro ⟨⟨n, buffer, s', hread, hcorrect⟩, hnext⟩
      obtain ⟨rfl, -⟩ := read_eq_ok hread
      exact ⟨n, buffer, s', hread, hcorrect, hnext⟩

/-- A loop over reads that ask for bytes throws at the first or goes on for ever. -/
theorem Opened.readUntilZero_ne (h : Opened nso s) (hcount : 0 < c.count.toInt) (fuel : ℕ) :
    readUntilZero c fuel s ≠ .ok (some s') := by
  induction fuel with
  | zero => simp [readUntilZero]
  | succ fuel ih =>
    rw [readUntilZero]
    cases hread : s.read c with
    | error x => simp
    | ok r =>
      obtain ⟨size, buffer, s''⟩ := r
      have hpos := h.pos_of_read hcount hread
      obtain ⟨rfl, -⟩ := read_eq_ok hread
      dsimp only
      rwa [if_neg hpos.ne']

/-- Runs of reads from a position inside a segment, and loops that read to the end. -/
theorem Opened.reader_laws (h : Opened nso s) (hin : ∃ t, (nso.segments t).Contains s.pos) :
    (∀ calls : List ReadCall, (∀ c ∈ calls, 0 ≤ c.count.toInt) →
      (s.ReadsCorrect calls ↔ ∀ c ∈ calls, c.count = 0 ∧ 0 ≤ c.offset.toInt ∧
        c.offset.toInt ≤ c.buffer.length ∧ s.pos ≤ s.length ∧ nso.StreamReaches s.pos)) ∧
      ∀ c : ReadCall, 0 < c.count.toInt → ∀ fuel s', readUntilZero c fuel s ≠ .ok (some s') :=
  ⟨fun _ hcount => h.readsCorrect_iff_forall hin hcount,
    fun _ hcount fuel _ => h.readUntilZero_ne hcount fuel⟩

/-- An image of three bytes, one in each segment, without gaps. -/
def threeBytes : Nso :=
  { Nso.createNso [7] [8] [9] 0 with
    segments := fun t =>
      { (Nso.createNso [7] [8] [9] 0).segments t with address := UInt32.ofNat t.index } }

theorem isStore_threeBytes : threeBytes.IsStore := by
  apply Nso.isStore_of_ascending
  · intro t
    cases t <;> rfl
  · intro t u
    cases t <;> cases u <;> decide
  · intro t
    cases t <;> decide

theorem reader_laws_threeBytes :
    (create threeBytes true).ReadsCorrect [⟨[0], 1, 0⟩] ∧
      ∀ fuel s', readUntilZero ⟨[0], 0, 1⟩ fuel (create threeBytes true) ≠ .ok (some s') := by
  have hopen : Opened threeBytes (create threeBytes true) := .create true
  have hlaws := hopen.reader_laws ⟨text, by decide⟩
  have hreach := isStore_threeBytes.sized.streamReaches (create threeBytes true).pos
  refine ⟨(hlaws.1 _ (by decide)).mpr ?_, hlaws.2 ⟨[0], 0, 1⟩ (by decide)⟩
  intro c hc
  obtain rfl := List.mem_singleton.mp hc
  exact ⟨rfl, by decide, by decide, by decide, hreach⟩

/-- The first byte is read and the position stays on it. -/
theorem readsCorrect_false :
    ¬ ∀ (nso : Nso) (s : NsoStream) (calls : List ReadCall), nso.IsStore →
      nso.dataEnd text = nso.rodataSegment.address.toNat →
      nso.dataEnd rodata = nso.rwdataSegment.address.toNat → Opened nso s →
      (∃ t, (nso.segments t).Contains s.pos) → (∀ c ∈ calls, 0 ≤ c.count.toInt) →
      s.ReadsCorrect calls := by
  intro h
  have hopen : Opened threeBytes (create threeBytes true) := .create true
  obtain ⟨n, buffer, s', hread, hcorrect, -⟩ := h threeBytes (create threeBytes true)
    [⟨[0], 0, 1⟩] isStore_threeBytes (by decide) (by decide) hopen ⟨text, by decide⟩ (by decide)
  have hpos := hopen.pos_of_read (by decide) hread
  obtain ⟨rfl, -⟩ := read_eq_ok hread
  have hmoved := hcorrect.moved
  omega

end NsoStream

end Sp2Module
