import Sp2Module.Pfs0Extraction

/-!
# Where the files of an archive go

The files are looked up from the target directory on, and nothing keeps a name from stepping out of
it. A file is in the target directory where the steps up are cancelled or walked back.
-/

namespace Sp2Module.Pfs0

open Walk

/-! ### The files that are written -/

/-- The paths of the files up to the first one that the file system refuses. -/
def writtenPaths (fs : FileSystem) (dirPath : String) (stream : Bytes) : List String :=
  ((extractFiles dirPath stream).written.map Prod.fst).takeWhile fs.takes

/-- Every path that is written leads to a file in the directory. -/
def StaysInside (fs : FileSystem) (dirPath : String) (dir : List String) (stream : Bytes) : Prop :=
  ∀ p ∈ writtenPaths fs dirPath stream, ∃ name, fs.place p = some (dir ++ [name])

variable {fs : FileSystem} {dirPath : String} {dir : List String} {stream : Bytes}

/-- The reader or the file system refuses the entry. -/
def Refused (fs : FileSystem) (dirPath : String) (stream : Bytes) (i : ℕ) : Prop :=
  EntryRefused stream i ∨ fs.place (path dirPath (nameRead stream i)) = none

instance (i : ℕ) : Decidable (Refused fs dirPath stream i) :=
  inferInstanceAs (Decidable ((_ < _ ∨ _ = _ ∨ _ < _ ∨ _ < _ ∨ _ < _) ∨ _ = _))

/-- The entries up to the first one that is refused are written. -/
theorem written_extractEntries {D T : Int64} {n k : ℕ} (hT : T.toInt = nameTableRead stream)
    (hD : D.toInt = dataTableRead stream) :
    ((extractEntries dirPath D T n ⟨stream, 16 + 24 * k⟩).written.map Prod.fst).takeWhile fs.takes =
      ((List.range' k n).takeWhile fun i => ¬ Refused fs dirPath stream i).map fun i =>
        path dirPath (nameRead stream i) := by
  induction n generalizing k with
  | zero => rfl
  | succ n ih =>
    rw [List.range'_succ]
    by_cases hentry : EntryRefused stream k
    · obtain ⟨x, hx⟩ := fileEntry_of_refused hT hD hentry
      have hrefused : Refused fs dirPath stream k := .inl hentry
      rw [List.takeWhile_cons_of_neg (by simpa using hrefused)]
      simp only [extractEntries, hx, List.map_nil, List.takeWhile_nil]
    simp only [extractEntries, fileEntry_of_not_refused hT hD hentry, List.map_cons]
    by_cases hplace : fs.place (path dirPath (nameRead stream k)) = none
    · have hrefused : Refused fs dirPath stream k := .inr hplace
      have htakes : ¬ fs.takes (path dirPath (nameRead stream k)) = true := by
        rw [FileSystem.takes, hplace]
        decide
      rw [List.takeWhile_cons_of_neg htakes, List.takeWhile_cons_of_neg (by simpa using hrefused),
        List.map_nil]
    · have hrefused : ¬ Refused fs dirPath stream k := not_or.mpr ⟨hentry, hplace⟩
      have htakes : fs.takes (path dirPath (nameRead stream k)) = true :=
        Option.isSome_iff_ne_none.mpr hplace
      rw [List.takeWhile_cons_of_pos htakes, List.takeWhile_cons_of_pos (by simpa using hrefused),
        List.map_cons, ih]

theorem mem_takeWhile_range {p : ℕ → Bool} {n i : ℕ} :
    i ∈ (List.range n).takeWhile p ↔ i < n ∧ ∀ j ≤ i, p j = true := by
  rw [List.takeWhile_eq_take_findIdx_not, List.take_range, List.mem_range, lt_min_iff, and_comm]
  refine and_congr_right fun hi => ?_
  constructor
  · intro h j hj
    simpa using List.not_of_lt_findIdx (hj.trans_lt h)
  · intro h
    exact List.lt_findIdx_of_not (by simpa using hi) fun j hj => by simp [h j hj]

theorem writtenPaths_of_headerRefused (h : HeaderRefused stream) :
    writtenPaths fs dirPath stream = [] := by
  obtain ⟨x, hx⟩ := readHeader_of_refused h
  rw [writtenPaths, extractFiles, hx]
  rfl

/-- An entry is written where nothing up to it is refused. -/
theorem mem_writtenPaths {p : String} (h : ¬ HeaderRefused stream) :
    p ∈ writtenPaths fs dirPath stream ↔
      ∃ i < entries stream, (∀ j ≤ i, ¬ Refused fs dirPath stream j) ∧
        p = path dirPath (nameRead stream i) := by
  obtain ⟨T, D, hread, hT, hD⟩ := readHeader_of_not_refused h
  rw [writtenPaths, extractFiles, hread]
  dsimp only
  rw [written_extractEntries hT hD, ← List.range_eq_range', List.mem_map]
  refine exists_congr fun i => ?_
  rw [mem_takeWhile_range, and_assoc, @eq_comm _ p]
  simp only [decide_eq_true_eq]
  rfl

theorem place_of_not_refused {i : ℕ} (hlooks : fs.LooksUp dirPath dir)
    (h : ¬ Refused fs dirPath stream i) :
    fs.place (path dirPath (nameRead stream i)) =
      some (walk dir (fs.steps (nameRead stream i))) := by
  obtain ⟨p, hp⟩ := Option.ne_none_iff_exists'.mp (not_or.mp h).2
  rw [hp, hlooks _ _ hp]

/-- Everything that is written stays in the directory where every name does that comes before a
refusal. -/
theorem staysInside_iff (hlooks : fs.LooksUp dirPath dir) (stream : Bytes) :
    StaysInside fs dirPath dir stream ↔
      HeaderRefused stream ∨ ∀ i < entries stream,
        (∃ j ≤ i, EntryRefused stream j ∨ fs.place (path dirPath (nameRead stream j)) = none) ∨
          (cancel (fs.steps (nameRead stream i))).StaysIn dir := by
  by_cases hheader : HeaderRefused stream
  · refine iff_of_true (fun p hp => ?_) (.inl hheader)
    rw [writtenPaths_of_headerRefused hheader] at hp
    exact absurd hp List.not_mem_nil
  rw [or_iff_right hheader]
  constructor
  · intro h i hi
    by_cases hall : ∀ j ≤ i, ¬ Refused fs dirPath stream j
    · obtain ⟨name, hname⟩ := h _ ((mem_writtenPaths hheader).mpr ⟨i, hi, hall, rfl⟩)
      rw [place_of_not_refused hlooks (hall i le_rfl)] at hname
      exact .inr (walk_eq_append_iff.mp ⟨name, Option.some.inj hname⟩)
    · push Not at hall
      exact .inl hall
  · intro h p hp
    obtain ⟨i, hi, hall, rfl⟩ := (mem_writtenPaths hheader).mp hp
    obtain ⟨j, hj, hrefused⟩ | hstays := h i hi
    · exact absurd hrefused (hall j hj)
    · obtain ⟨name, hname⟩ := walk_eq_append_iff.mpr hstays
      exact ⟨name, by rw [place_of_not_refused hlooks (hall i le_rfl), hname]⟩

/-- An archive of one file, of one byte. -/
def oneEntry (name : Bytes) : Bytes :=
  header 1 (Int32.ofNat (name.length + 1)) ++ (longBytes 0 ++ (longBytes 1 ++ (intBytes 0 ++
    (intBytes 0 ++ (name ++ [0, 1])))))

/-- `..\out/a` comes back into `out`. -/
theorem staysInside_roundabout :
    StaysInside (.relativeTo ["work"]) "out" ["work", "out"]
      (oneEntry [46, 46, 92, 111, 117, 116, 47, 97]) := by
  refine (staysInside_iff (looksUp_relativeTo ["work"] "out") _).mpr (.inr fun i hi => ?_)
  have hone : entries (oneEntry [46, 46, 92, 111, 117, 116, 47, 97]) = 1 := by decide
  obtain rfl : i = 0 := by omega
  exact .inr ⟨"a", by decide⟩

/-- `..\a` does not. -/
theorem not_staysInside_climbing :
    (FileSystem.relativeTo ["work"]).LooksUp "out" ["work", "out"] ∧
      ¬ StaysInside (.relativeTo ["work"]) "out" ["work", "out"] (oneEntry [46, 46, 92, 97]) := by
  refine ⟨looksUp_relativeTo ["work"] "out", fun h => ?_⟩
  obtain ⟨name, hname⟩ := h "out\\..\\a" (by decide)
  have hplace : (FileSystem.relativeTo ["work"]).place "out\\..\\a" = some ["work", "a"] := by
    decide
  rw [hplace] at hname
  simp at hname

end Sp2Module.Pfs0
