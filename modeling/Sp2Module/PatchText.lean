import Sp2Module.ExeFSDirectory
import Sp2Module.PatchGrammar

/-!
# Patches as text

What the patcher prints for a patch, and the line of a script that is put together from the same
texts. Whatever a line has been read as, its own texts are read as it again; so a script that has
been read can be written anew, and no two different patches are printed alike.
-/

namespace Sp2Module

/-! ### Writing -/

def byteText (b : UInt8) : List Char := [upperDigit (b.toNat / 16), upperDigit (b.toNat % 16)]

/-- `BitConverter.ToString(b, 0)`. -/
def bitConverterToString (b : Bytes) : List Char := ['-'].intercalate (b.map byteText)

/-- `BytesToHex(b, separator)`. -/
def bytesToHex (separator : List Char) (b : Bytes) : List Char :=
  (bitConverterToString b).flatMap fun c => if c = '-' then separator else [c]

/-- `MemAddress.ToString()`. -/
def MemAddress.text : MemAddress → List Char
  | symbol s => '!' :: s.toList
  | offset nsoType off => nsoType.name.toList ++ '+' :: '0' :: 'x' :: formatX off.toNat

namespace PatchData

def type : PatchData → PatchTypeEnum
  | bl _ => .bl
  | b _ => .b
  | data _ => .data
  | ptr _ => .ptr

def text : PatchData → List Char
  | bl target => target.text
  | b target => target.text
  | data bytes => bytesToHex [] bytes
  | ptr target => target.text

end PatchData

namespace PatchEntry

/-- `PatchEntry.ToString()`. -/
def text (p : PatchEntry) : List Char :=
  p.address.text ++
    ' ' :: ':' :: ' ' :: (p.data.type.word ++ ' ' :: '-' :: '>' :: ' ' :: p.data.text)

/-- The texts of a patch in the order of a script. -/
def scriptLine (p : PatchEntry) : List Char :=
  p.data.type.word ++ '-' :: '>' :: (p.address.text ++ '-' :: '>' :: p.data.text)

end PatchEntry

/-! ### Bytes -/

theorem dash_notMem_byteText (b : UInt8) : '-' ∉ byteText b := by
  have hall : ∀ d < 16, '-' ≠ upperDigit d := by decide
  have hb := b.toNat_lt
  simp only [byteText, List.mem_cons, List.not_mem_nil, or_false, not_or]
  exact ⟨hall _ (by omega), hall _ (by omega)⟩

theorem bytesToHex_nil (b : Bytes) : bytesToHex [] b = b.flatMap byteText := by
  have hkeep : ∀ x : UInt8, (byteText x).flatMap (fun c => if c = '-' then [] else [c]) =
      byteText x := by
    intro x
    have hflat : (byteText x).flatMap (fun c => if c = '-' then [] else [c]) =
        (byteText x).flatMap fun c => [c] := by
      refine List.flatMap_congr fun c hc => if_neg ?_
      rintro rfl
      exact dash_notMem_byteText x hc
    rw [hflat, List.flatMap_singleton']
  induction b with
  | nil => rfl
  | cons x b ih =>
    cases b with
    | nil => simp [bytesToHex, bitConverterToString, hkeep]
    | cons y b =>
      rw [List.flatMap_cons, ← ih]
      simp [bytesToHex, bitConverterToString, hkeep, List.intercalate_cons_cons]

theorem hexText_bytesToHex (b : Bytes) : HexText (bytesToHex [] b) b := by
  rw [bytesToHex_nil]
  induction b with
  | nil => exact .nil
  | cons x b ih =>
    have hx := x.toNat_lt
    obtain ⟨hhigh, hhighValue⟩ := upperDigit_spec (show x.toNat / 16 < 16 by omega)
    obtain ⟨hlow, hlowValue⟩ := upperDigit_spec (show x.toNat % 16 < 16 by omega)
    have hcons := HexText.cons hhigh hlow ih
    rw [hhighValue, hlowValue, Nat.div_add_mod, UInt8.ofNat_toNat] at hcons
    exact hcons

/-! ### Addresses -/

theorem CompareInfo.ordinal_isPrefix (s : List Char) (c : Char) :
    ordinal.isPrefix s [c] = true ↔ s.head? = some c := by
  change List.isPrefixOf [c] s = true ↔ _
  rw [List.isPrefixOf_iff_prefix]
  cases s with
  | nil => simp
  | cons x s => simp [List.cons_prefix_cons, eq_comm]

/-- What an address can be that is read from text without an arrow that does not end in `p`. -/
def MemAddress.Spelled (p : Char → Bool) : MemAddress → Prop
  | symbol s => ¬ ['-', '>'] <:+: s.toList ∧ ∀ l c, s.toList = l ++ [c] → p c = false
  | offset nsoType _ => (nsoType.name.toList, nsoType) ∈ moduleWords

namespace MemAddress

variable {ci : CompareInfo} {p : Char → Bool} {s : List Char} {a a' : MemAddress}

theorem name_mem_of_addressMatch {nsoType : NsoTypeEnum} {number : List Char}
    (h : addressMatch s = some (nsoType, number)) :
    (nsoType.name.toList, nsoType) ∈ moduleWords := by
  have hall : ∀ w ∈ moduleWords, (w.2.name.toList, w.2) ∈ moduleWords := by decide
  unfold addressMatch at h
  split at h
  · split_ifs at h
    obtain ⟨t, hlookup, ht⟩ := Option.map_eq_some_iff.mp h
    cases ht
    obtain ⟨l₁, l₂, hwords, -⟩ := List.lookup_eq_some_iff.mp hlookup
    exact hall (_, nsoType) (hwords ▸ List.mem_append_right l₁ List.mem_cons_self)
  · cases h

theorem spelled_of_parse (h : parse ci s = .ok a) (hs : ¬ ['-', '>'] <:+: s)
    (hlast : ∀ l c, s = l ++ [c] → p c = false) : a.Spelled p := by
  unfold parse at h
  split_ifs at h with hmark
  · cases s with
    | nil => cases h
    | cons c name =>
      cases h
      rw [Spelled, String.toList_ofList]
      refine ⟨fun hin => hs (hin.trans (List.suffix_cons c name).isInfix), ?_⟩
      rintro l x rfl
      exact hlast (c :: l) x rfl
  · cases hmatch : addressMatch s with
    | none => simp [hmatch] at h
    | some m =>
      obtain ⟨nsoType, number⟩ := m
      simp only [hmatch] at h
      obtain ⟨off, -, rfl⟩ := except_map_eq_ok.mp h
      exact name_mem_of_addressMatch hmatch

theorem addressText_text (h : a.Spelled p) : AddressText a.text a := by
  cases a with
  | symbol s =>
    have hsymbol := AddressText.symbol s.toList
    rwa [String.ofList_toList] at hsymbol
  | offset nsoType off =>
    obtain ⟨hdigits, hvalue⟩ := numberValue_formatX off.toNat
    have hnumber := AddressText.hexadecimal h (formatX_ne_nil off.toNat) hdigits
      (by rw [hvalue]; exact off.toNat_lt)
    rwa [hvalue, UInt32.ofNat_toNat] at hnumber

theorem no_arrow_text (h : a.Spelled p) : ¬ ['-', '>'] <:+: a.text := by
  cases a with
  | symbol s =>
    have hmark : text (.symbol s) = ['!'] ++ s.toList := rfl
    rw [hmark, pair_infix_append_left (by decide)]
    exact h.1
  | offset nsoType off =>
    intro hin
    have hdash : '-' ∈ text (.offset nsoType off) := hin.subset (by decide)
    have hwords : ∀ w ∈ moduleWords, '-' ∉ w.1 := by decide
    rw [text, List.mem_append] at hdash
    rcases hdash with hword | hnumber
    · exact hwords _ h hword
    · simp only [List.mem_cons, Char.reduceEq, false_or] at hnumber
      exact absurd ((numberValue_formatX off.toNat).1 _ hnumber) (by decide)

/-- The text of an address begins with a mark or a letter and ends in what it is spelled with. -/
theorem bare_text (hp : ∀ c, p c = true → c.toNat ≤ 0x20) (h : a.Spelled p) : Bare p a.text := by
  have hgraphic : ∀ c : Char, 0x20 < c.toNat → p c = false := by
    intro c hc
    rw [← Bool.not_eq_true]
    exact fun hpc => absurd (hp c hpc) (by omega)
  cases a with
  | symbol s =>
    constructor
    · intro c l hc
      obtain ⟨rfl, -⟩ := List.cons.inj hc
      exact hgraphic _ (by decide)
    · intro c l hc
      cases l with
      | nil =>
        obtain ⟨rfl, -⟩ := List.cons.inj hc
        exact hgraphic _ (by decide)
      | cons x l => exact h.2 l c (List.cons.inj hc).2
  | offset nsoType off =>
    constructor
    · intro c l hc
      have hwords : ∀ w ∈ moduleWords, ∀ l, ∃ c t, w.1 ++ l = c :: t ∧ 0x20 < c.toNat := by
        simp only [moduleWords, List.forall_mem_cons, List.not_mem_nil, false_imp_iff, implies_true,
          and_true]
        exact ⟨fun l => ⟨'r', _, rfl, by decide⟩, fun l => ⟨'m', _, rfl, by decide⟩,
          fun l => ⟨'s', _, rfl, by decide⟩⟩
      obtain ⟨x, t, hx, hlt⟩ := hwords _ h ('+' :: '0' :: 'x' :: formatX off.toNat)
      obtain ⟨rfl, -⟩ := List.cons.inj (hx.symm.trans hc)
      exact hgraphic _ hlt
    · intro c l hc
      obtain ⟨t, x, ht⟩ := List.eq_nil_or_concat (formatX off.toNat) |>.resolve_left
        (formatX_ne_nil off.toNat)
      have hdigit := (numberValue_formatX off.toNat).1 x (by rw [ht]; simp)
      have hend : text (.offset nsoType off) =
          (nsoType.name.toList ++ '+' :: '0' :: 'x' :: t) ++ [x] := by
        rw [text, ht]
        simp
      obtain ⟨-, hlast⟩ := List.append_inj' (hend.symm.trans hc) rfl
      obtain ⟨rfl, -⟩ := List.cons.inj hlast
      have hbounds := isHexDigit_bounds hdigit
      exact hgraphic _ (by omega)

/-- Different addresses have different texts. -/
theorem text_inj {q : Char → Bool} (h : a.Spelled p) (h' : a'.Spelled q)
    (htext : a.text = a'.text) : a = a' := by
  have hparse : ∀ {a : MemAddress} {p : Char → Bool}, a.Spelled p →
      parse .ordinal a.text = .ok a := by
    intro a p h
    exact (addressText_text h).parse_eq_ok_iff.mpr (CompareInfo.ordinal_isPrefix _ _)
  have hsame := hparse h
  rw [htext, hparse h'] at hsame
  exact (Except.ok.inj hsame).symm

end MemAddress

/-! ### Payloads -/

namespace PatchData

variable {p q : Char → Bool} {d d' : PatchData}

def Spelled (p : Char → Bool) : PatchData → Prop
  | bl target => target.Spelled p
  | b target => target.Spelled p
  | data _ => True
  | ptr target => target.Spelled p

theorem isHexDigit_of_mem_hexText {s : List Char} {bytes : Bytes} (h : HexText s bytes) :
    ∀ c ∈ s, isHexDigit c = true := by
  induction h with
  | nil => simp
  | cons hc hc' hs ih =>
    intro x hx
    rcases List.mem_cons.mp hx with rfl | hx
    · exact hc
    rcases List.mem_cons.mp hx with rfl | hx
    · exact hc'
    · exact ih x hx

theorem payloadText_text (h : d.Spelled p) : PayloadText d.type d.text d := by
  cases d with
  | bl target => exact .bl (MemAddress.addressText_text h)
  | b target => exact .b (MemAddress.addressText_text h)
  | data bytes => exact .data (hexText_bytesToHex bytes)
  | ptr target => exact .ptr (MemAddress.addressText_text h)

theorem no_arrow_text (h : d.Spelled p) : ¬ ['-', '>'] <:+: d.text := by
  cases d with
  | bl target => exact MemAddress.no_arrow_text h
  | b target => exact MemAddress.no_arrow_text h
  | data bytes =>
    intro hin
    have hdash := isHexDigit_of_mem_hexText (hexText_bytesToHex bytes) '-'
      (hin.subset (by decide))
    exact absurd hdash (by decide)
  | ptr target => exact MemAddress.no_arrow_text h

theorem bare_text (hp : ∀ c, p c = true → c.toNat ≤ 0x20) (h : d.Spelled p) : Bare p d.text := by
  cases d with
  | bl target => exact MemAddress.bare_text hp h
  | b target => exact MemAddress.bare_text hp h
  | data bytes =>
    have hdigits : ∀ c ∈ text (data bytes), p c = false := by
      intro c hc
      have hbounds := isHexDigit_bounds (isHexDigit_of_mem_hexText (hexText_bytesToHex bytes) c hc)
      rw [← Bool.not_eq_true]
      exact fun hpc => absurd (hp c hpc) (by omega)
    constructor
    · intro c l hc
      exact hdigits c (hc ▸ List.mem_cons_self)
    · intro c l hc
      exact hdigits c (hc ▸ List.mem_append_right l List.mem_cons_self)
  | ptr target => exact MemAddress.bare_text hp h

/-- Payloads of one type with one text are the same. -/
theorem text_inj (h : d.Spelled p) (h' : d'.Spelled q) (htype : d.type = d'.type)
    (htext : d.text = d'.text) : d = d' := by
  cases d <;> cases d' <;> cases htype
  case bl.bl => exact congrArg bl (MemAddress.text_inj h h' htext)
  case b.b => exact congrArg b (MemAddress.text_inj h h' htext)
  case ptr.ptr => exact congrArg ptr (MemAddress.text_inj h h' htext)
  case data.data bytes bytes' =>
    have hread := (hexText_bytesToHex bytes).hexToBytes_eq
    rw [show bytesToHex [] bytes = bytesToHex [] bytes' from htext,
      (hexText_bytesToHex bytes').hexToBytes_eq] at hread
    exact congrArg data (Except.ok.inj hread).symm

/-- A payload that is read is one part. -/
theorem spelled_of_parseData {ci : CompareInfo} {line : List Char} {rest : List (List Char)}
    {patchType : ℤ} (h : PatchEntry.parseData ci line patchType rest = .ok d) :
    ∃ s, rest = [s] ∧ ∀ p : Char → Bool, ¬ ['-', '>'] <:+: s →
      (∀ l c, s = l ++ [c] → p c = false) → d.Spelled p := by
  unfold PatchEntry.parseData at h
  split at h
  · cases h
  case h_2 s _ =>
    obtain ⟨target, htarget, rfl⟩ := except_map_eq_ok.mp h
    exact ⟨s, rfl, fun p => MemAddress.spelled_of_parse htarget⟩
  case h_3 s _ =>
    obtain ⟨target, htarget, rfl⟩ := except_map_eq_ok.mp h
    exact ⟨s, rfl, fun p => MemAddress.spelled_of_parse htarget⟩
  case h_4 s _ =>
    obtain ⟨target, htarget, rfl⟩ := except_map_eq_ok.mp h
    exact ⟨s, rfl, fun p => MemAddress.spelled_of_parse htarget⟩
  case h_5 s _ =>
    obtain ⟨bytes, -, rfl⟩ := except_map_eq_ok.mp h
    exact ⟨s, rfl, fun _ _ _ => trivial⟩
  · cases h

end PatchData

/-! ### Entries -/

theorem PatchTypeEnum.exists_word_eq_cons (t : PatchTypeEnum) :
    ∃ c r, t.word = c :: r ∧ c ≠ '#' ∧ isTabOrBlank c = false := by
  cases t <;> exact ⟨_, _, rfl, by decide, by decide⟩

theorem PatchTypeEnum.word_injective {t t' : PatchTypeEnum} (h : t.word = t'.word) : t = t' := by
  cases t <;> cases t' <;> first | rfl | (revert h; decide)

namespace PatchEntry

variable {ci : CompareInfo} {line : List Char} {p p' : PatchEntry}

/-- A patch that is read from a line: its address ends before an arrow, its payload with the
line. -/
structure Spelled (p : PatchEntry) : Prop where
  address : p.address.Spelled isBlank
  data : p.data.Spelled isTabOrBlank

theorem isTabOrBlank_le {c : Char} (h : isTabOrBlank c = true) : c.toNat ≤ 0x20 := by
  rw [isTabOrBlank, Bool.or_eq_true, beq_iff_eq, beq_iff_eq] at h
  rcases h with rfl | rfl <;> decide

theorem isTabOrBlank_of_isBlank {c : Char} (h : isBlank c = true) : isTabOrBlank c = true := by
  rw [isBlank] at h
  rw [isTabOrBlank, h, Bool.or_true]

theorem exists_of_fields {t a s : List Char} (h : fields line = [t, a, s]) : ∃ p₀ p₁ p₂,
    line = p₀ ++ '-' :: '>' :: (p₁ ++ '-' :: '>' :: p₂) ∧ ¬ ['-', '>'] <:+: p₁ ∧
      ¬ ['-', '>'] <:+: p₂ ∧ trim isBlank p₁ = a ∧ trim isBlank p₂ = s := by
  have harrow : '-' ≠ '>' := by decide
  obtain ⟨p₀, ps, hsplit, -, hps⟩ := List.map_eq_cons_iff.mp h
  obtain ⟨p₁, ps', rfl, h₁, hps'⟩ := List.map_eq_cons_iff.mp hps
  obtain ⟨p₂, ps'', rfl, h₂, hps''⟩ := List.map_eq_cons_iff.mp hps'
  rw [List.map_eq_nil_iff] at hps''
  subst hps''
  obtain ⟨-, ⟨hnil, -⟩ | ⟨l, rfl, hl⟩⟩ := (splitPair_eq_cons_iff harrow).mp hsplit
  · cases hnil
  obtain ⟨hi₁, ⟨hnil, -⟩ | ⟨l', rfl, hl'⟩⟩ := (splitPair_eq_cons_iff harrow).mp hl.symm
  · cases hnil
  obtain ⟨hi₂, ⟨-, rfl⟩ | ⟨l'', -, hl''⟩⟩ := (splitPair_eq_cons_iff harrow).mp hl'.symm
  · exact ⟨p₀, p₁, l', rfl, hi₁, hi₂, h₁, h₂⟩
  · exact absurd hl''.symm (splitPair_ne_nil _ _ _)

/-- The end of a trimmed last part is the end of the line. -/
theorem last_of_trim {u v : List Char} (h : Bare isTabOrBlank (u ++ v)) :
    ∀ l c, trim isBlank v = l ++ [c] → isTabOrBlank c = false := by
  intro l c hc
  obtain ⟨x, y, hv, -, hy⟩ := exists_trim isBlank v
  rcases List.eq_nil_or_concat y with rfl | ⟨z, d, rfl⟩
  · refine h.last c (u ++ (x ++ l)) ?_
    rw [hv, hc]
    simp
  · -- a blank that has been trimmed would end the line
    have hd := h.last d (u ++ (x ++ trim isBlank v ++ z)) (by
      nth_rewrite 1 [hv]
      simp)
    rw [isTabOrBlank, Bool.or_eq_false_iff] at hd
    have hblank := hy d (by simp)
    rw [isBlank, hd.2] at hblank
    cases hblank

theorem spelled_of_parse (hline : Bare isTabOrBlank line) (h : parse ci line = .ok p) :
    p.Spelled := by
  obtain ⟨t, a, rest, hfields⟩ : ∃ t a rest, fields line = t :: a :: rest := by
    unfold parse at h
    split at h
    case h_1 t a rest heq => exact ⟨t, a, rest, heq⟩
    · cases h
  obtain ⟨patchType, -, haddress, hdata⟩ := (parse_eq_ok_iff hfields).mp h
  obtain ⟨s, rfl, hspelled⟩ := PatchData.spelled_of_parseData hdata
  obtain ⟨p₀, p₁, p₂, rfl, hi₁, hi₂, rfl, rfl⟩ := exists_of_fields hfields
  have htrim : ∀ {q : List Char}, ¬ ['-', '>'] <:+: q → ¬ ['-', '>'] <:+: trim isBlank q := by
    intro q hq hin
    obtain ⟨u, v, huv, -, -⟩ := exists_trim isBlank q
    exact hq (hin.trans ⟨u, v, huv.symm⟩)
  constructor
  · exact MemAddress.spelled_of_parse haddress (htrim hi₁) fun l c => (bare_trim _ _).last c l
  · refine hspelled _ (htrim hi₂) (last_of_trim (u := p₀ ++ '-' :: '>' :: (p₁ ++ ['-', '>'])) ?_)
    simpa using hline

/-- The line of a patch belongs to the grammar, and it denotes the patch. -/
theorem Spelled.grammar (h : p.Spelled) : Grammar p.scriptLine p := by
  have hword : trim isBlank p.data.type.word = p.data.type.word ∧
      ¬ ['-', '>'] <:+: p.data.type.word := by
    cases p.data.type <;> exact ⟨by decide, by decide⟩
  have hbare : ∀ {s : List Char}, Bare isBlank s → trim isBlank s = s := by
    intro s hs
    have htrim := hs.trim_append (u := []) (v := []) (by simp) (by simp)
    rwa [List.append_nil, List.nil_append] at htrim
  have haddress := MemAddress.bare_text
    (fun c hc => isTabOrBlank_le (isTabOrBlank_of_isBlank hc)) h.address
  have hdata := (PatchData.bare_text (fun c => isTabOrBlank_le) h.data).mono
    fun c => isTabOrBlank_of_isBlank
  have harrow : '-' ≠ '>' := by decide
  refine grammar_iff.mpr ⟨p.data.type, p.address.text, p.data.text, ?_,
    MemAddress.addressText_text h.address, PatchData.payloadText_text h.data⟩
  rw [fields, scriptLine, splitPair_append harrow hword.2,
    splitPair_append harrow (MemAddress.no_arrow_text h.address),
    splitPair_of_not_infix (PatchData.no_arrow_text h.data), List.map_cons, List.map_cons,
    List.map_cons, List.map_nil, hword.1, hbare haddress, hbare hdata]

/-- Nothing is trimmed from the line of a patch. -/
theorem Spelled.trim_scriptLine (h : p.Spelled) :
    trim isTabOrBlank p.scriptLine = p.scriptLine := by
  have hdata := PatchData.bare_text (fun c => isTabOrBlank_le) h.data
  have hbare : Bare isTabOrBlank p.scriptLine := by
    constructor
    · intro c l hc
      obtain ⟨x, t, hword, -, hx⟩ := p.data.type.exists_word_eq_cons
      rw [scriptLine, hword] at hc
      obtain ⟨rfl, -⟩ := List.cons.inj hc
      exact hx
    · intro c l hc
      rcases List.eq_nil_or_concat p.data.text with hnil | ⟨t, x, ht⟩
      · have hend : p.scriptLine = (p.data.type.word ++ '-' :: '>' :: (p.address.text ++ ['-'])) ++
            ['>'] := by
          rw [scriptLine, hnil]
          simp
        obtain ⟨-, hlast⟩ := List.append_inj' (hend.symm.trans hc) rfl
        obtain ⟨rfl, -⟩ := List.cons.inj hlast
        decide
      · rw [List.concat_eq_append] at ht
        have hend : p.scriptLine =
            (p.data.type.word ++ '-' :: '>' :: (p.address.text ++ '-' :: '>' :: t)) ++ [x] := by
          rw [scriptLine, ht]
          simp
        obtain ⟨-, hlast⟩ := List.append_inj' (hend.symm.trans hc) rfl
        obtain ⟨rfl, -⟩ := List.cons.inj hlast
        exact hdata.last x t ht
  have htrim := hbare.trim_append (u := []) (v := []) (by simp) (by simp)
  rwa [List.append_nil, List.nil_append] at htrim

/-- What is printed for a patch shows which one it is. -/
theorem Spelled.text_inj (h : p.Spelled) (h' : p'.Spelled) (htext : p.text = p'.text) : p = p' := by
  have harrow : '-' ≠ '>' := by decide
  have hword : ∀ t : PatchTypeEnum, '>' ∉ ' ' :: ':' :: ' ' :: (t.word ++ [' ']) ∧
      ':' ∉ ' ' :: (t.word ++ [' ']) := by
    intro t
    cases t <;> exact ⟨by decide, by decide⟩
  have hsplit : ∀ {q : PatchEntry}, q.Spelled → splitPair '-' '>' q.text =
      (q.address.text ++ ' ' :: ':' :: ' ' :: (q.data.type.word ++ [' '])) ::
        splitPair '-' '>' (' ' :: q.data.text) := by
    intro q hq
    have hshape : q.text = (q.address.text ++ ' ' :: ':' :: ' ' :: (q.data.type.word ++ [' '])) ++
        '-' :: '>' :: ' ' :: q.data.text := by simp [text]
    rw [hshape, splitPair_append harrow]
    rw [pair_infix_append_right (hword q.data.type).1]
    exact MemAddress.no_arrow_text hq.address
  have hparts := hsplit h
  rw [htext, hsplit h', List.cons.injEq] at hparts
  obtain ⟨hfront, -⟩ := hparts
  -- the type stands behind the last colon
  have hrev := congrArg List.reverse hfront
  have hshape : ∀ q : PatchEntry,
      (q.address.text ++ ' ' :: ':' :: ' ' :: (q.data.type.word ++ [' '])).reverse =
        (' ' :: (q.data.type.word ++ [' '])).reverse ++
          ':' :: (q.address.text ++ [' ']).reverse := by
    intro q
    simp
  rw [hshape, hshape] at hrev
  have htake : ∀ (t : PatchTypeEnum) (r : List Char),
      ((' ' :: (t.word ++ [' '])).reverse ++ ':' :: r).takeWhile (fun c => c ≠ ':') =
        (' ' :: (t.word ++ [' '])).reverse := by
    intro t r
    rw [List.takeWhile_append_of_pos, List.takeWhile_cons_of_neg (by simp), List.append_nil]
    intro c hc
    refine decide_eq_true ?_
    rintro rfl
    exact (hword t).2 (List.mem_reverse.mp hc)
  have hlast := congrArg (List.takeWhile fun c => c ≠ ':') hrev
  rw [htake, htake, List.reverse_inj, List.cons.injEq, and_iff_right rfl,
    List.append_left_inj] at hlast
  have htype : p.data.type = p'.data.type := (PatchTypeEnum.word_injective hlast).symm
  rw [htype, List.append_left_inj] at hfront
  have haddress := MemAddress.text_inj h'.address h.address hfront
  have hdata : p.data.text = p'.data.text := by
    rw [text, text, htype, hfront] at htext
    simpa using htext
  obtain ⟨a, d⟩ := p
  obtain ⟨a', d'⟩ := p'
  rw [PatchEntry.mk.injEq]
  exact ⟨haddress.symm, PatchData.text_inj h.data h'.data htype hdata⟩

end PatchEntry

/-! ### Scripts -/

section Script

variable {ci : CompareInfo} {lines lines' : List (List Char)} {entries entries' : List PatchEntry}

theorem spelled_of_getHooks (h : getHooks ci lines = .ok entries) : ∀ p ∈ entries, p.Spelled := by
  induction lines generalizing entries with
  | nil =>
    cases h
    simp
  | cons line lines ih =>
    by_cases hskip : trim isTabOrBlank line = [] ∨
        ci.isPrefix (trim isTabOrBlank line) ['#'] = true
    · rw [getHooks_of_skipped hskip] at h
      exact ih h
    · obtain ⟨entry, rest, hentry, hrest, rfl⟩ := (getHooks_cons_eq_ok hskip).mp h
      rw [List.forall_mem_cons]
      exact ⟨PatchEntry.spelled_of_parse (bare_trim _ _) hentry, ih hrest⟩

/-- The culture takes the line of a patch for no comment and finds `!` where it is. -/
def LineAgrees (ci : CompareInfo) (line : List Char) : Prop :=
  ci.isPrefix line ['#'] = false ∧ PrefixesAgree ci line

/-- The lines of patches that can be spelled are read as the patches exactly where the culture
agrees on each of them. -/
theorem getHooks_scriptLines_iff (h : ∀ p ∈ entries, p.Spelled) :
    getHooks ci (entries.map PatchEntry.scriptLine) = .ok entries ↔
      ∀ p ∈ entries, LineAgrees ci p.scriptLine := by
  induction entries with
  | nil => simp [getHooks]
  | cons p entries ih =>
    rw [List.forall_mem_cons] at h
    rw [List.map_cons, List.forall_mem_cons, ← ih h.2, LineAgrees]
    have htrim := h.1.trim_scriptLine
    have hne : p.scriptLine ≠ [] := by simp [PatchEntry.scriptLine]
    cases hmark : ci.isPrefix p.scriptLine ['#'] with
    | true =>
      -- the line is passed over, so that there are too few entries
      rw [getHooks_of_skipped (Or.inr (by rw [htrim]; exact hmark))]
      refine iff_of_false (fun hread => ?_) (by simp)
      have hle := (length_getHooks hread).1
      have hlines : (entryLines (entries.map PatchEntry.scriptLine)).length ≤ entries.length := by
        rw [entryLines]
        exact (List.length_filter_le _ _).trans (by simp)
      rw [List.length_cons] at hle
      omega
    | false =>
      have hkept : ¬ (trim isTabOrBlank p.scriptLine = [] ∨
          ci.isPrefix (trim isTabOrBlank p.scriptLine) ['#'] = true) := by
        rw [htrim, hmark]
        simp [hne]
      rw [getHooks_cons_eq_ok hkept, htrim, and_iff_right rfl,
        ← PatchEntry.parse_eq_ok_of_grammar h.1.grammar]
      constructor
      · rintro ⟨entry, rest, hentry, hrest, heq⟩
        obtain ⟨rfl, rfl⟩ := List.cons.inj heq
        exact ⟨hentry, hrest⟩
      · rintro ⟨hentry, hrest⟩
        exact ⟨p, entries, hentry, hrest, rfl⟩

/-- A comparison of the characters agrees on every line of a patch. -/
theorem PatchEntry.Spelled.lineAgrees_ordinal {p : PatchEntry} (h : p.Spelled) :
    LineAgrees .ordinal p.scriptLine := by
  constructor
  · obtain ⟨c, t, hword, hc, -⟩ := p.data.type.exists_word_eq_cons
    rw [← Bool.not_eq_true, CompareInfo.ordinal_isPrefix, scriptLine, hword]
    simpa using hc
  · obtain ⟨type, address, payload, hfields, -, -⟩ := grammar_iff.mp h.grammar
    rw [PrefixesAgree, hfields]
    exact ⟨CompareInfo.ordinal_isPrefix _ _, fun _ => CompareInfo.ordinal_isPrefix _ _⟩

/-- The patches of a script, written with their own texts, are a script of the same patches exactly
where the culture agrees on each of its lines, as a comparison of the characters does. -/
theorem getHooks_scriptLines (h : getHooks ci lines = .ok entries) :
    (getHooks ci (entries.map PatchEntry.scriptLine) = .ok entries ↔
      ∀ p ∈ entries, LineAgrees ci p.scriptLine) ∧
        getHooks .ordinal (entries.map PatchEntry.scriptLine) = .ok entries := by
  have hspelled := spelled_of_getHooks h
  exact ⟨getHooks_scriptLines_iff hspelled,
    (getHooks_scriptLines_iff hspelled).mpr fun p hp => (hspelled p hp).lineAgrees_ordinal⟩

/-- Two scripts whose patches are printed alike have the same patches. -/
theorem getHooks_text_inj {ci' : CompareInfo} (h : getHooks ci lines = .ok entries)
    (h' : getHooks ci' lines' = .ok entries')
    (htext : entries.map PatchEntry.text = entries'.map PatchEntry.text) : entries = entries' := by
  have hs := spelled_of_getHooks h
  have hs' := spelled_of_getHooks h'
  clear h h'
  induction entries generalizing entries' with
  | nil => exact (List.map_eq_nil_iff.mp htext.symm).symm
  | cons p entries ih =>
    obtain ⟨p', rest, rfl, hp, hrest⟩ := List.map_eq_cons_iff.mp htext.symm
    rw [List.forall_mem_cons] at hs hs'
    rw [hs.1.text_inj hs'.1 hp.symm, ih hrest.symm hs.2 hs'.2]

end Script

/-- A script with a comment, a symbol, and offsets in decimal and hexadecimal digits. -/
def mixedScript : List (List Char) :=
  ["# hooks".toList, "  bl -> main+0x1c -> !hook(int)".toList, "data->sdk+16->00ffA0\t".toList]

def mixedEntries : List PatchEntry :=
  [⟨.offset .main 0x1C, .bl (.symbol "hook(int)")⟩, ⟨.offset .sdk 16, .data [0, 0xFF, 0xA0]⟩]

theorem getHooks_mixedScript : getHooks .ordinal mixedScript = .ok mixedEntries := by decide

/-- Its patches are written out in one way, which is read as the same patches. -/
theorem getHooks_scriptLines_mixed :
    getHooks .ordinal mixedScript = .ok mixedEntries ∧
      getHooks .ordinal (mixedEntries.map PatchEntry.scriptLine) = .ok mixedEntries ∧
      mixedEntries.map PatchEntry.scriptLine =
        ["bl->main+0x1C->!hook(int)".toList, "data->sdk+0x10->00FFA0".toList] := by
  exact ⟨getHooks_mixedScript, (getHooks_scriptLines getHooks_mixedScript).2, by decide⟩

/-- The same patches written with other blanks and digits. -/
theorem getHooks_text_inj_mixed : ∃ entries entries',
    getHooks .ordinal mixedScript = .ok entries ∧
      getHooks .ordinal ["bl->main+28->!hook(int)".toList, "data -> sdk+0x10 -> 00FFa0".toList] =
        .ok entries' ∧
      entries.map PatchEntry.text = ["main+0x1C : bl -> !hook(int)".toList,
        "sdk+0x10 : data -> 00FFA0".toList] ∧ entries = entries' := by
  have hread : getHooks .ordinal
      ["bl->main+28->!hook(int)".toList, "data -> sdk+0x10 -> 00FFa0".toList] =
        .ok mixedEntries := by
    decide
  exact ⟨mixedEntries, mixedEntries, getHooks_mixedScript, hread, by decide,
    getHooks_text_inj getHooks_mixedScript hread rfl⟩

end Sp2Module
