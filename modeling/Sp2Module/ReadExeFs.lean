import Sp2Module.AddressLookups
import Sp2Module.PatchRejection
import Mathlib.Logic.Function.Iterate

/-!
# Reading the memory image

A read goes from page to page. On a readable page it asks the module for the rest of the page, or
for the whole size where that is less; a gap is left as the zeros of the new buffer, and its size is
added to the position wherever the position stands in it. A run is right when every turn of the
loop is; for modules that do not overlap that is a matter of where the pages end.
-/

namespace Sp2Module.ExeFS

open NsoTypeEnum

/-! ### The loop -/

/-- `Nsos.ToList().IndexOf(nso)`. -/
def indexOf (e : ExeFS) (r : NsoRef) : Option NsoTypeEnum := all.find? fun i => e.nsos i = some r

/-- The address of the first slot that holds the object. -/
def baseOf (e : ExeFS) (r : NsoRef) : ℤ := (e.indexOf r).elim 0 e.getNsoAddress

/-- A turn of the loop: the next position and the buffer. -/
def readTurn (e : ExeFS) (addr size pos : ℤ) (buffer : Bytes) : Except Exception (ℤ × Bytes) :=
  match e.getAddressPage pos with
  | none => .error .nullReference
  | some page =>
    if page.permission.readable then
      match e.getAddressNso pos with
      | none => .error .nullReference
      | some r =>
        let off := pos - page.address
        let curSize := min (page.size - off) size
        match (e.objects r).readNso (uintOfLong (pos - e.baseOf r)) curSize with
        | .error x => .error x
        | .ok sub =>
          if buffer.length < (pos - addr).toNat + sub.length then .error .argument
          else .ok (pos + curSize, overwrite buffer (pos - addr).toNat sub)
    else .ok (pos + page.size, buffer)

/-- `none` where the fuel runs out. -/
def readLoop (e : ExeFS) (addr size : ℤ) : ℕ → ℤ → Bytes → Option (Except Exception Bytes)
  | 0, pos, buffer => if pos < addr + size then none else some (.ok buffer)
  | n + 1, pos, buffer =>
    if pos < addr + size then
      match e.readTurn addr size pos buffer with
      | .error x => some (.error x)
      | .ok (pos, buffer) => e.readLoop addr size n pos buffer
    else some (.ok buffer)

/-- Every turn advances the position, so that there are at most `size` of them. -/
def readExeFs (e : ExeFS) (addr size : ℤ) : Option (Except Exception Bytes) :=
  if size < 0 then some (.error .overflow)
  else if maxArrayLength < size then some (.error (newArrayExn size.toNat))
  else e.readLoop addr size size.toNat addr (List.replicate size.toNat 0)

/-! ### The image -/

/-- The byte of the memory image at `a`: zero in a gap page, else a byte of a segment. -/
def ImageByte (e : ExeFS) (a : ℤ) (b : UInt8) : Prop :=
  (e.InGap a ∧ b = 0) ∨ ∃ i r t, ∃ off : ℕ, e.nsos i = some r ∧
    a = e.getNsoAddress i + (((e.objects r).segments t).address.toNat + off : ℕ) ∧
    off < ((e.objects r).segments t).decompressedSize.toNat ∧
    ((e.objects r).segments t).rawData[off]? = some b

/-- `out` is the memory image from `addr` on. -/
def IsImage (e : ExeFS) (addr : ℤ) (size : ℕ) (out : Bytes) : Prop :=
  out.length = size ∧ ∀ (k : ℕ) b, out[k]? = some b → e.ImageByte (addr + k) b

/-- The read terminates without an exception and returns the memory image. -/
def ReadsImage (e : ExeFS) (addr : ℤ) (size : ℕ) : Prop :=
  ∃ out, e.readExeFs addr size = some (.ok out) ∧ e.IsImage addr size out

/-- Where the loop goes from `pos`. -/
def nextPos (e : ExeFS) (size pos : ℤ) : ℤ :=
  match e.getAddressPage pos with
  | none => pos
  | some page =>
    if page.permission.readable then pos + min (page.size - (pos - page.address)) size
    else pos + page.size

/-- The bytes a turn copies: those the module returns, and none in a gap. -/
def Copies (e : ExeFS) (size pos : ℤ) (sub : Bytes) : Prop :=
  ∃ page, e.getAddressPage pos = some page ∧
    ((page.permission.readable = true ∧ ∃ r, e.getAddressNso pos = some r ∧
      (e.objects r).readNso (uintOfLong (pos - e.baseOf r))
        (min (page.size - (pos - page.address)) size) = .ok sub) ∨
    (page.permission.readable = false ∧ sub = []))

/-- The turn at `pos` copies bytes of the image that fit the buffer, and jumps over zeros only. -/
def TurnGood (e : ExeFS) (addr : ℤ) (size : ℕ) (pos : ℤ) : Prop :=
  ∃ sub, e.Copies size pos sub ∧ pos + sub.length ≤ addr + size ∧
    (∀ (k : ℕ) b, sub[k]? = some b → e.ImageByte (pos + k) b) ∧
    ∀ a, pos + sub.length ≤ a → a < e.nextPos size pos → a < addr + size → e.ImageByte a 0

variable {e : ExeFS} {addr pos pos' : ℤ} {size n : ℕ} {page : MemPage}
  {buffer buffer' out sub : Bytes}

theorem nextPos_of_readable (size : ℕ) (hpage : e.getAddressPage pos = some page)
    (hread : page.permission.readable = true) :
    e.nextPos size pos = pos + min (page.size - (pos - page.address)) (size : ℤ) := by
  simp only [nextPos, hpage, hread, if_true]

theorem nextPos_of_gap (size : ℕ) (hpage : e.getAddressPage pos = some page)
    (hread : page.permission.readable = false) : e.nextPos size pos = pos + page.size := by
  simp only [nextPos, hpage, hread, Bool.false_eq_true, if_false]

theorem le_nextPos (e : ExeFS) (size : ℕ) (pos : ℤ) : pos ≤ e.nextPos size pos := by
  unfold nextPos
  cases hpage : e.getAddressPage pos with
  | none => exact le_rfl
  | some page =>
    have hc := getAddressPage_bounds hpage
    dsimp only
    split_ifs <;> omega

theorem le_iterate_nextPos (e : ExeFS) (size : ℕ) (pos : ℤ) (m : ℕ) :
    pos ≤ (e.nextPos size)^[m] pos := by
  induction m generalizing pos with
  | zero => exact le_rfl
  | succ m ih =>
    rw [Function.iterate_succ_apply]
    exact (e.le_nextPos size pos).trans (ih _)

/-- A turn gets on. -/
theorem Copies.lt_nextPos (h : e.Copies size pos sub) (hsize : 0 < size) :
    pos < e.nextPos size pos := by
  obtain ⟨page, hpage, -⟩ := h
  have hc := getAddressPage_bounds hpage
  unfold nextPos
  rw [hpage]
  dsimp only
  split_ifs <;> omega

/-- A turn copies nothing behind the position it goes to. -/
theorem Copies.add_length_le (h : e.Copies size pos sub) :
    pos + sub.length ≤ e.nextPos size pos := by
  obtain ⟨page, hpage, ⟨hread, r, -, hsub⟩ | ⟨hread, rfl⟩⟩ := h
  · have hlen := Nso.length_le_of_readNso hsub
    rw [nextPos_of_readable size hpage hread]
    omega
  · rw [List.length_nil]
    have hle := e.le_nextPos size pos
    omega

theorem readTurn_of_copies (h : e.Copies size pos sub)
    (hfit : (pos - addr).toNat + sub.length ≤ buffer.length) :
    e.readTurn addr size pos buffer =
      .ok (e.nextPos size pos, overwrite buffer (pos - addr).toNat sub) := by
  obtain ⟨page, hpage, ⟨hread, r, hnso, hsub⟩ | ⟨hread, rfl⟩⟩ := h
  · simp only [readTurn, nextPos, hpage, hread, if_true, hnso, hsub]
    rw [if_neg (by omega)]
  · simp only [readTurn, nextPos, hpage, hread, Bool.false_eq_true, if_false, overwrite_nil]

theorem readTurn_eq_ok (hpos : pos < addr + size) (hle : addr ≤ pos) (hlen : buffer.length = size)
    (h : e.readTurn addr size pos buffer = .ok (pos', buffer')) :
    ∃ sub, e.Copies size pos sub ∧ (pos - addr).toNat + sub.length ≤ buffer.length ∧
      pos' = e.nextPos size pos ∧ buffer' = overwrite buffer (pos - addr).toNat sub := by
  cases hpage : e.getAddressPage pos with
  | none => simp [readTurn, hpage] at h
  | some page =>
    by_cases hread : page.permission.readable = true
    · cases hnso : e.getAddressNso pos with
      | none => simp [readTurn, hpage, hread, hnso] at h
      | some r =>
        cases hsub : (e.objects r).readNso (uintOfLong (pos - e.baseOf r))
            (min (page.size - (pos - page.address)) size) with
        | error x => simp [readTurn, hpage, hread, hnso, hsub] at h
        | ok sub =>
          simp only [readTurn, hpage, hread, if_true, hnso, hsub] at h
          split_ifs at h with hfit
          cases h
          exact ⟨sub, ⟨page, hpage, Or.inl ⟨hread, r, hnso, hsub⟩⟩, by omega,
            (nextPos_of_readable size hpage hread).symm, rfl⟩
    · rw [Bool.not_eq_true] at hread
      simp only [readTurn, hpage, hread, Bool.false_eq_true, if_false] at h
      cases h
      refine ⟨[], ⟨page, hpage, Or.inr ⟨hread, rfl⟩⟩, ?_, (nextPos_of_gap size hpage hread).symm,
        (overwrite_nil _ _).symm⟩
      rw [List.length_nil]
      omega

/-- The rest of a run leaves what has been copied. -/
theorem getElem?_readLoop (hle : addr ≤ pos) (hlen : buffer.length = size)
    (h : e.readLoop addr size n pos buffer = some (.ok out)) :
    out.length = size ∧ ∀ k : ℕ, addr + k < pos → out[k]? = buffer[k]? := by
  induction n generalizing pos buffer with
  | zero =>
    unfold readLoop at h
    split_ifs at h
    cases h
    exact ⟨hlen, fun k _ => rfl⟩
  | succ n ih =>
    unfold readLoop at h
    split_ifs at h with hpos
    · cases hturn : e.readTurn addr size pos buffer with
      | error x => simp [hturn] at h
      | ok p =>
        rw [hturn] at h
        obtain ⟨sub, -, -, hnext, hbuffer⟩ :=
          readTurn_eq_ok hpos hle hlen hturn
        have hge := e.le_nextPos size pos
        obtain ⟨hout, hkeep⟩ := ih (by omega) (by rw [hbuffer, length_overwrite, hlen]) h
        refine ⟨hout, fun k hk => ?_⟩
        rw [hkeep k (by omega), hbuffer]
        exact getElem?_overwrite_outside (by omega)
    · cases h
      exact ⟨hlen, fun k _ => rfl⟩

/-- The loop ends within its fuel. -/
theorem readLoop_ne_none (hle : addr ≤ pos) (hlen : buffer.length = size)
    (hfuel : addr + size - pos ≤ n) : e.readLoop addr size n pos buffer ≠ none := by
  induction n generalizing pos buffer with
  | zero =>
    unfold readLoop
    rw [if_neg (by omega)]
    exact Option.some_ne_none _
  | succ n ih =>
    unfold readLoop
    split_ifs with hpos
    · cases hturn : e.readTurn addr size pos buffer with
      | error x => exact Option.some_ne_none _
      | ok p =>
        obtain ⟨sub, hcopies, -, hnext, hbuffer⟩ :=
          readTurn_eq_ok hpos hle hlen hturn
        have hlt := hcopies.lt_nextPos (by omega)
        exact ih (by omega) (by rw [hbuffer, length_overwrite, hlen]) (by omega)
    · exact Option.some_ne_none _

/-- Every read terminates. -/
theorem readExeFs_ne_none (e : ExeFS) (addr size : ℤ) : e.readExeFs addr size ≠ none := by
  unfold readExeFs
  split_ifs with hneg hmax
  · exact Option.some_ne_none _
  · exact Option.some_ne_none _
  · obtain ⟨n, rfl⟩ := Int.eq_ofNat_of_zero_le (not_lt.mp hneg)
    exact readLoop_ne_none le_rfl List.length_replicate (by simp)

/-! ### Runs -/

/-- What the loop has built up at `pos`: the image before the position and zeros behind it. -/
structure Progress (e : ExeFS) (addr : ℤ) (size : ℕ) (pos : ℤ) (buffer : Bytes) : Prop where
  le : addr ≤ pos
  length : buffer.length = size
  copied : ∀ (k : ℕ) b, addr + k < pos → buffer[k]? = some b → e.ImageByte (addr + k) b
  zero : ∀ k : ℕ, pos ≤ addr + k → k < size → buffer[k]? = some 0

theorem progress_start (e : ExeFS) (addr : ℤ) (size : ℕ) :
    e.Progress addr size addr (List.replicate size 0) where
  le := le_rfl
  length := List.length_replicate
  copied k b hk := by omega
  zero k _ hk := by rw [List.getElem?_replicate, if_pos hk]

/-- A turn turns the zeros at the position into what it copies, and leaves those it jumps over. -/
theorem Progress.zero_turn (h : e.Progress addr size pos buffer) {k : ℕ}
    (hk : pos + sub.length ≤ addr + k) (hsize : k < size) :
    (overwrite buffer (pos - addr).toNat sub)[k]? = some 0 := by
  have hle := h.le
  rw [getElem?_overwrite_outside (by omega)]
  exact h.zero k (by omega) hsize

/-- A good turn makes progress. -/
theorem Progress.turn (h : e.Progress addr size pos buffer) (hcopies : e.Copies size pos sub)
    (hbytes : ∀ (k : ℕ) b, sub[k]? = some b → e.ImageByte (pos + k) b)
    (hzero : ∀ a, pos + sub.length ≤ a → a < e.nextPos size pos → a < addr + size →
      e.ImageByte a 0) :
    e.Progress addr size (e.nextPos size pos) (overwrite buffer (pos - addr).toNat sub) := by
  have hle := h.le
  have hlen := h.length
  have hnext := hcopies.add_length_le
  refine ⟨by omega, by rw [length_overwrite, hlen], fun k b hk hb => ?_,
    fun k hk hsize => h.zero_turn (by omega) hsize⟩
  obtain ⟨hsize, -⟩ := List.getElem?_eq_some_iff.mp hb
  rw [length_overwrite, hlen] at hsize
  by_cases hbefore : addr + k < pos
  · rw [getElem?_overwrite_outside (by omega)] at hb
    exact h.copied k b hbefore hb
  · by_cases hin : addr + k < pos + sub.length
    · rw [getElem?_overwrite_inside (by omega) (by omega) (by omega)] at hb
      have hbyte := hbytes _ b hb
      rwa [show pos + ((k - (pos - addr).toNat : ℕ) : ℤ) = addr + k by omega] at hbyte
    · rw [h.zero_turn (by omega) hsize] at hb
      cases hb
      exact hzero _ (by omega) hk (by omega)

/-- Progress to the end of the range is the image. -/
theorem Progress.isImage (h : e.Progress addr size pos buffer) (hle : addr + size ≤ pos) :
    e.IsImage addr size buffer := by
  refine ⟨h.length, fun k b hb => h.copied k b ?_ hb⟩
  obtain ⟨hk, -⟩ := List.getElem?_eq_some_iff.mp hb
  rw [h.length] at hk
  omega

/-- A turn is good when the image has what it leaves before the position it goes to. -/
theorem Progress.good_of_image (h : e.Progress addr size pos buffer)
    (hcopies : e.Copies size pos sub) (hfit : (pos - addr).toNat + sub.length ≤ buffer.length)
    (hkeep : ∀ k : ℕ, addr + k < e.nextPos size pos →
      out[k]? = (overwrite buffer (pos - addr).toNat sub)[k]?)
    (himage : e.IsImage addr size out) :
    (∀ (k : ℕ) b, sub[k]? = some b → e.ImageByte (pos + k) b) ∧
      ∀ a, pos + sub.length ≤ a → a < e.nextPos size pos → a < addr + size → e.ImageByte a 0 := by
  have hle := h.le
  have hge := hcopies.add_length_le
  constructor
  · intro k b hb
    obtain ⟨hk, -⟩ := List.getElem?_eq_some_iff.mp hb
    have hout := hkeep ((pos - addr).toNat + k) (by push_cast; omega)
    rw [getElem?_overwrite_inside (by omega) (by omega) (by omega), Nat.add_sub_cancel_left,
      hb] at hout
    have hbyte := himage.2 _ b hout
    rwa [show addr + ((((pos - addr).toNat + k : ℕ)) : ℤ) = pos + k by push_cast; omega] at hbyte
  · intro a ha hnext hstop
    obtain ⟨k, hk⟩ := Int.eq_ofNat_of_zero_le (show 0 ≤ a - addr by omega)
    obtain rfl : a = addr + k := by omega
    have hout := hkeep k hnext
    rw [h.zero_turn ha (by omega)] at hout
    exact himage.2 k 0 hout

/-- In a run that returns the image every turn is good. -/
theorem Progress.turnGood (h : e.Progress addr size pos buffer) (hpos : pos < addr + size)
    (hfuel : addr + size - pos ≤ n) (hloop : e.readLoop addr size n pos buffer = some (.ok out))
    (himage : e.IsImage addr size out) (m : ℕ)
    (hm : (e.nextPos size)^[m] pos < addr + size) :
    e.TurnGood addr size ((e.nextPos size)^[m] pos) := by
  induction n generalizing pos buffer m with
  | zero => omega
  | succ n ih =>
    unfold readLoop at hloop
    rw [if_pos hpos] at hloop
    cases hturn : e.readTurn addr size pos buffer with
    | error x => simp [hturn] at hloop
    | ok p =>
      rw [hturn] at hloop
      have hlen := h.length
      have hle := h.le
      obtain ⟨sub, hcopies, hfit, hnext, hbuffer⟩ := readTurn_eq_ok hpos hle hlen hturn
      simp only [hnext, hbuffer] at hloop
      have hge := hcopies.add_length_le
      have hlt := hcopies.lt_nextPos (by omega)
      obtain ⟨-, hkeep⟩ := getElem?_readLoop (by omega) (by rw [length_overwrite, hlen]) hloop
      obtain ⟨hbytes, hzero⟩ := h.good_of_image hcopies hfit hkeep himage
      cases m with
      | zero =>
        rw [Function.iterate_zero, id]
        exact ⟨sub, hcopies, by omega, hbytes, hzero⟩
      | succ m =>
        rw [Function.iterate_succ_apply] at hm ⊢
        have hstart := e.le_iterate_nextPos size (e.nextPos size pos) m
        exact ih (h.turn hcopies hbytes hzero) (by omega) (by omega) hloop m hm

/-- A run of good turns returns the image. -/
theorem Progress.exists_image (h : e.Progress addr size pos buffer)
    (hfuel : addr + size - pos ≤ n)
    (hgood : ∀ m, (e.nextPos size)^[m] pos < addr + size →
      e.TurnGood addr size ((e.nextPos size)^[m] pos)) :
    ∃ out, e.readLoop addr size n pos buffer = some (.ok out) ∧ e.IsImage addr size out := by
  induction n generalizing pos buffer with
  | zero =>
    unfold readLoop
    rw [if_neg (by omega)]
    exact ⟨buffer, rfl, h.isImage (by omega)⟩
  | succ n ih =>
    unfold readLoop
    by_cases hpos : pos < addr + size
    · rw [if_pos hpos]
      have hfirst : e.TurnGood addr size pos := hgood 0 hpos
      obtain ⟨sub, hcopies, hfit, hbytes, hzero⟩ := hfirst
      have hlen := h.length
      have hle := h.le
      have hlt := hcopies.lt_nextPos (by omega)
      rw [readTurn_of_copies hcopies (by rw [hlen]; omega)]
      refine ih (h.turn hcopies hbytes hzero) (by omega) fun m hm => ?_
      have hm' := hgood (m + 1)
      rw [Function.iterate_succ_apply] at hm'
      exact hm' hm
    · rw [if_neg hpos]
      exact ⟨buffer, rfl, h.isImage (by omega)⟩

/-- A read returns the image exactly when the buffer can be allocated and every turn is good. -/
theorem readsImage_iff_turnGood (e : ExeFS) (addr : ℤ) (size : ℕ) :
    e.ReadsImage addr size ↔ size ≤ maxArrayLength ∧
      ∀ m, (e.nextPos size)^[m] addr < addr + size →
        e.TurnGood addr size ((e.nextPos size)^[m] addr) := by
  have hstart := e.progress_start addr size
  by_cases hmax : size ≤ maxArrayLength
  · have hread : e.readExeFs addr size =
        e.readLoop addr size size addr (List.replicate size 0) := by
      unfold readExeFs
      rw [if_neg (by omega), if_neg (by omega), Int.toNat_natCast]
    unfold ReadsImage
    rw [hread]
    constructor
    · rintro ⟨out, hloop, himage⟩
      refine ⟨hmax, fun m hm => ?_⟩
      have hge := e.le_iterate_nextPos size addr m
      exact hstart.turnGood (by omega) (by omega) hloop himage m hm
    · rintro ⟨-, hgood⟩
      exact hstart.exists_image (by omega) hgood
  · constructor
    · rintro ⟨out, hread, -⟩
      unfold readExeFs at hread
      rw [if_neg (by omega), if_pos (by omega)] at hread
      cases hread
    · rintro ⟨hle, -⟩
      exact absurd hle hmax

end Sp2Module.ExeFS
