import Sp2Module.NumberText
import Sp2Module.PatchConfig
import Sp2Module.Text

/-!
# Symbol listings

The listing is what `nm -CSn` writes: a column with the address, one with the size where the symbol
has one, the type and the name, with a blank between them. The reader splits a line at three blanks
at most and tells by the number of parts whether there is a size.
-/

namespace Sp2Module.ListingFile

/-- The symbol of a line, `none` where the line is passed over. -/
def lineSymbol (line : List Char) : Except Exception (Option (String × UInt32)) :=
  match splitMax ' ' 4 line with
  | [addr, _, symbol] => (uintParseHex addr).map fun value => some (String.ofList symbol, value)
  | [addr, _, _, symbol] => (uintParseHex addr).map fun value => some (String.ofList symbol, value)
  | _ => .ok none

def getSymbols : List (List Char) → Except Exception Symbols
  | [] => .ok []
  | line :: lines => do
    let symbol ← lineSymbol line
    let symbols ← getSymbols lines
    return symbol.toList ++ symbols

/-! ### What nm writes -/

/-- A column of sixteen hexadecimal digits. -/
structure Column where
  digits : List Char
  length_eq : digits.length = 16
  hex : ∀ c ∈ digits, isHexDigit c = true

def Column.value (c : Column) : ℕ := numberValue 16 c.digits

/-- An address below `2 ^ 32`. -/
structure AddressColumn extends Column where
  lt : toColumn.value < 2 ^ 32

/-- The type and the name of a symbol. -/
structure NmSymbol where
  type : Char
  name : List Char
  type_ne : type ≠ ' '
  name_ne : name ≠ []

inductive NmLine where
  | sized (addr : AddressColumn) (size : Column) (symbol : NmSymbol)
  | unsized (addr : AddressColumn) (symbol : NmSymbol)
  | undefined (symbol : NmSymbol)

def NmSymbol.text (s : NmSymbol) : List Char := s.type :: ' ' :: s.name

namespace NmLine

def text : NmLine → List Char
  | sized addr size symbol => addr.digits ++ ' ' :: (size.digits ++ ' ' :: symbol.text)
  | unsized addr symbol => addr.digits ++ ' ' :: symbol.text
  | undefined symbol => List.replicate 16 ' ' ++ ' ' :: symbol.text

/-- The symbol that a line defines, by its name and its address. -/
def defined : NmLine → Option (String × UInt32)
  | sized addr _ symbol => some (String.ofList symbol.name, UInt32.ofNat addr.value)
  | unsized addr symbol => some (String.ofList symbol.name, UInt32.ofNat addr.value)
  | undefined _ => none

/-- The line defines a symbol that has a size or a name without blanks. -/
def Plain : NmLine → Prop
  | sized _ _ _ => True
  | unsized _ symbol => ' ' ∉ symbol.name
  | undefined _ => False

end NmLine

/-- The listing is read as the symbols that its lines define. -/
def ReadsListing (lines : List NmLine) : Prop :=
  getSymbols (lines.map NmLine.text) = .ok (lines.filterMap NmLine.defined)

theorem Column.blank_notMem (c : Column) : ' ' ∉ c.digits := by
  intro h
  have hbounds := isHexDigit_bounds (c.hex _ h)
  revert hbounds
  decide

theorem AddressColumn.uintParseHex_eq (c : AddressColumn) :
    (uintParseHex c.digits : Except Exception UInt32) = .ok (UInt32.ofNat c.value) := by
  have hne : c.digits ≠ [] := by
    intro h
    have hlen := c.length_eq
    rw [h] at hlen
    cases hlen
  have hparse : (uintParseHex (c.digits ++ []) : Except Exception UInt32) = _ :=
    uintParseHex_append hne c.hex (by simp)
  rw [List.append_nil] at hparse
  rw [hparse]
  exact if_pos c.lt

/-- At the type and the blank behind it. -/
theorem NmSymbol.splitMax_text (s : NmSymbol) (n : ℕ) :
    splitMax ' ' (n + 2) s.text = [s.type] :: splitMax ' ' (n + 1) s.name := by
  have h : ' ' ∉ [s.type] := by
    rw [List.mem_singleton]
    exact s.type_ne.symm
  exact splitMax_append h n s.name

theorem lineSymbol_sized (addr : AddressColumn) (size : Column) (symbol : NmSymbol) :
    lineSymbol (NmLine.sized addr size symbol).text =
      .ok (NmLine.sized addr size symbol).defined := by
  have hsplit : splitMax ' ' 4 (NmLine.sized addr size symbol).text =
      [addr.digits, size.digits, [symbol.type], symbol.name] := by
    rw [NmLine.text, splitMax_append addr.blank_notMem, splitMax_append size.blank_notMem,
      symbol.splitMax_text]
    rfl
  simp only [lineSymbol, hsplit, addr.uintParseHex_eq]
  rfl

/-- Without a size the name may take the place of the type and the name. -/
theorem splitMax_unsized (addr : AddressColumn) (symbol : NmSymbol) :
    splitMax ' ' 4 (NmLine.unsized addr symbol).text =
      addr.digits :: [symbol.type] :: splitMax ' ' 2 symbol.name := by
  rw [NmLine.text, splitMax_append addr.blank_notMem, symbol.splitMax_text]

theorem lineSymbol_unsized_of_notMem (addr : AddressColumn) {symbol : NmSymbol}
    (h : ' ' ∉ symbol.name) :
    lineSymbol (NmLine.unsized addr symbol).text = .ok (NmLine.unsized addr symbol).defined := by
  have hsplit := splitMax_unsized addr symbol
  rw [splitMax_of_notMem h] at hsplit
  simp only [lineSymbol, hsplit, addr.uintParseHex_eq]
  rfl

/-- The first word of the name is lost. -/
theorem lineSymbol_unsized_of_mem (addr : AddressColumn) {symbol : NmSymbol}
    (h : ' ' ∈ symbol.name) : ∃ rest, rest ≠ symbol.name ∧
      lineSymbol (NmLine.unsized addr symbol).text =
        .ok (some (String.ofList rest, UInt32.ofNat addr.value)) := by
  obtain ⟨word, rest, hname, hword⟩ := List.eq_append_cons_of_mem h
  have hsplit := splitMax_unsized addr symbol
  rw [hname, splitMax_append hword] at hsplit
  change _ = [addr.digits, [symbol.type], word, rest] at hsplit
  refine ⟨rest, fun heq => ?_, ?_⟩
  · have hlen := congrArg List.length (heq.trans hname)
    simp at hlen
    omega
  · simp only [lineSymbol, hsplit, addr.uintParseHex_eq]
    rfl

/-- The address is the empty word before the first blank. -/
theorem lineSymbol_undefined (symbol : NmSymbol) :
    lineSymbol (NmLine.undefined symbol).text = .error .format := by
  have hsplit : splitMax ' ' 4 (NmLine.undefined symbol).text =
      [[], [], [], List.replicate 13 ' ' ++ ' ' :: symbol.text] := by
    have hblanks : (NmLine.undefined symbol).text =
        [] ++ ' ' :: ([] ++ ' ' :: ([] ++ ' ' :: (List.replicate 13 ' ' ++ ' ' :: symbol.text))) :=
      rfl
    rw [hblanks, splitMax_append List.not_mem_nil, splitMax_append List.not_mem_nil,
      splitMax_append List.not_mem_nil]
    rfl
  simp only [lineSymbol, hsplit]
  rfl

theorem lineSymbol_of_plain {l : NmLine} (h : l.Plain) : lineSymbol l.text = .ok l.defined := by
  cases l with
  | sized addr size symbol => exact lineSymbol_sized addr size symbol
  | unsized addr symbol => exact lineSymbol_unsized_of_notMem addr h
  | undefined symbol => exact h.elim

theorem getSymbols_cons_eq_ok {line : List Char} {lines : List (List Char)} {symbols : Symbols} :
    getSymbols (line :: lines) = .ok symbols ↔ ∃ s ss, lineSymbol line = .ok s ∧
      getSymbols lines = .ok ss ∧ symbols = s.toList ++ ss := by
  simp only [getSymbols, except_bind_eq_ok, pure, Except.pure, Except.ok.injEq]
  constructor
  · rintro ⟨s, hs, ss, hss, rfl⟩
    exact ⟨s, ss, hs, hss, rfl⟩
  · rintro ⟨s, ss, hs, hss, rfl⟩
    exact ⟨s, hs, ss, hss, rfl⟩

theorem filterMap_defined_cons (l : NmLine) (lines : List NmLine) :
    (l :: lines).filterMap NmLine.defined =
      l.defined.toList ++ lines.filterMap NmLine.defined := by
  cases l <;> rfl

/-- A line that is not plain spoils the listing. -/
theorem ReadsListing.plain {l : NmLine} {lines : List NmLine} (h : ReadsListing (l :: lines)) :
    l.Plain := by
  obtain ⟨s, ss, hs, -, heq⟩ := getSymbols_cons_eq_ok.mp h
  cases l with
  | sized addr size symbol => trivial
  | unsized addr symbol =>
    intro hblank
    obtain ⟨rest, hne, hrest⟩ := lineSymbol_unsized_of_mem addr hblank
    rw [hrest] at hs
    cases hs
    rw [filterMap_defined_cons] at heq
    have hname : String.ofList symbol.name = String.ofList rest :=
      congrArg Prod.fst (List.cons.inj heq).1
    exact hne (String.ofList_injective hname).symm
  | undefined symbol =>
    rw [lineSymbol_undefined] at hs
    cases hs

/-- A listing is read as nm writes it exactly when it has no undefined symbol and no name with a
blank on a line without a size. -/
theorem readsListing_iff (lines : List NmLine) : ReadsListing lines ↔ ∀ l ∈ lines, l.Plain := by
  induction lines with
  | nil => exact ⟨fun _ l hl => absurd hl List.not_mem_nil, fun _ => rfl⟩
  | cons l lines ih =>
    rw [List.forall_mem_cons, ← ih]
    constructor
    · intro h
      have hplain := h.plain
      obtain ⟨s, ss, hs, hss, heq⟩ := getSymbols_cons_eq_ok.mp h
      rw [lineSymbol_of_plain hplain] at hs
      cases hs
      rw [filterMap_defined_cons] at heq
      rw [ReadsListing, List.append_cancel_left heq]
      exact ⟨hplain, hss⟩
    · rintro ⟨hplain, hlines⟩
      exact getSymbols_cons_eq_ok.mpr
        ⟨_, _, lineSymbol_of_plain hplain, hlines, filterMap_defined_cons l lines⟩

/-- The address column of the listings below. -/
def zeroColumn : AddressColumn where
  digits := List.replicate 16 '0'
  length_eq := rfl
  hex c hc := by
    rw [List.eq_of_mem_replicate hc]
    rfl
  lt := by decide

/-- A name with a blank: without a size it is read as what follows the blank. A line with an
undefined symbol makes the reader throw. -/
theorem not_readsListing_operatorNew :
    (∃ symbol : NmSymbol, symbol.name = "operator new".toList ∧
      getSymbols [(NmLine.unsized zeroColumn symbol).text] = .ok [("new", 0)] ∧
      ¬ ReadsListing [.unsized zeroColumn symbol]) ∧
    ∃ symbol : NmSymbol, getSymbols [(NmLine.undefined symbol).text] = .error .format ∧
      ¬ ReadsListing [.undefined symbol] := by
  refine ⟨⟨⟨'T', "operator new".toList, by decide, by decide⟩, rfl, by decide, fun h => ?_⟩,
    ⟨⟨'U', ['x'], by decide, by decide⟩, ?_, fun h => h.plain⟩⟩
  · have hblank : ' ' ∈ "operator new".toList := by decide
    exact h.plain hblank
  · rw [getSymbols, lineSymbol_undefined]
    rfl

end Sp2Module.ListingFile
