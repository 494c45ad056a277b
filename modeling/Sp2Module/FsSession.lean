import Sp2Module.LogFormat
import Sp2Module.SmHandle

/-!
# The log file

The file log writes nothing before it has been initialized. The first initialization empties the
file, or ends the process where the card does not do what it is asked; the later ones do nothing. So
a run leaves the file alone, or behind the first initialization the file has the lines from there on
that the card has taken, and nothing else.
-/

namespace Sp2Module

open SmHandle (Result rFailed)

/-- `g_fsInit`, and the file of the log on the card. -/
structure FsSession where
  fsInit : Bool
  card : Option Bytes
deriving DecidableEq, Repr

/-- What the calls of an initialization answer, in their order, and whether the file takes the
message of the initialization. -/
structure FsAnswers where
  fs : Result
  mount : Result
  directory : Result
  create : Result
  delete : Result
  recreate : Result
  openFile : Result
  setSize : Result
  takes : Bool
deriving DecidableEq, Repr

namespace FsSession

/-- The result of a call for a path that is there already. -/
def pathExists : Result := 0x402

def fsInitialized : Bytes := asciiGetBytes "fs initialized!"

/-- `FsLogger::Log`; `takes` tells whether the file can be asked for its size and written to. -/
def log (data : Bytes) (takes : Bool) (s : FsSession) : FsSession :=
  { s with card := s.card.map fun file => (FsLogger.log data ⟨s.fsInit, takes, file⟩).file }

/-- The file is created, an old one being deleted before. The error is the card at `fatalSimple`. -/
def createFile (a : FsAnswers) (card : Option Bytes) : Except (Option Bytes) (Option Bytes) :=
  if rFailed a.create then
    if a.create = pathExists then
      if rFailed a.delete then .error card
      else if rFailed a.recreate then .error none
      else .ok (some [])
    else .error card
  else .ok (some [])

/-- `FsLogger::Initialize`. -/
def fsInitialize (a : FsAnswers) (s : FsSession) : Except (Option Bytes) FsSession :=
  if s.fsInit then .ok s
  else if rFailed a.fs then .error s.card
  else if rFailed a.mount then .error s.card
  else if rFailed a.directory ∧ a.directory ≠ pathExists then .error s.card
  else
    match createFile a s.card with
    | .error card => .error card
    | .ok card =>
      if rFailed a.openFile then .error card
      else if rFailed a.setSize then .error card
      else .ok (log fsInitialized a.takes ⟨true, card.map fun _ => []⟩)

/-- A call of the logger. -/
inductive Event where
  | fsInitialize (a : FsAnswers)
  | log (data : Bytes) (takes : Bool)
deriving DecidableEq, Repr

/-- A run of calls; it ends with the first `fatalSimple`. -/
def run : List Event → FsSession → Except (Option Bytes) FsSession
  | [], s => .ok s
  | .fsInitialize a :: events, s => (s.fsInitialize a).bind (run events)
  | .log data takes :: events, s => run events (s.log data takes)

/-! ### What is to be in the file -/

/-- Every call of the initialization succeeds, but that the directory or the file may be there. -/
def Succeeds (a : FsAnswers) : Prop :=
  a.fs = 0 ∧ a.mount = 0 ∧ (a.directory = 0 ∨ a.directory = pathExists) ∧
    (a.create = 0 ∨ a.create = pathExists ∧ a.delete = 0 ∧ a.recreate = 0) ∧ a.openFile = 0 ∧
    a.setSize = 0

instance (a : FsAnswers) : Decidable (Succeeds a) := inferInstanceAs (Decidable (_ ∧ _))

/-- The messages that the file has taken. -/
def taken (events : List Event) : List Bytes :=
  events.filterMap fun
    | .log data true => some data
    | _ => none

/-- The file when the message of the initialization and the events have been logged. -/
def fileOf (a : FsAnswers) (events : List Event) : Bytes :=
  TcpLogger.lines (taken (.log fsInitialized a.takes :: events))

/-- The session after the events, where the process is still there. -/
def outcome : List Event → Option Bytes → Option FsSession
  | [], card => some ⟨false, card⟩
  | .log _ _ :: events, card => outcome events card
  | .fsInitialize a :: events, _ =>
    if Succeeds a then some ⟨true, some (fileOf a events)⟩ else none

variable {a : FsAnswers}

theorem log_of_fsInit (data : Bytes) (takes : Bool) (file : Bytes) :
    log data takes ⟨true, some file⟩ =
      ⟨true, some (file ++ TcpLogger.lines (taken [.log data takes]))⟩ := by
  have hlogs := FsLogger.log_logs ⟨true, takes, file⟩ data
  unfold FsLogger.Logs at hlogs
  unfold log
  rw [Option.map_some, hlogs]
  cases takes with
  | false => simp [taken, TcpLogger.lines]
  | true => simp [taken, TcpLogger.lines]

theorem log_of_not_fsInit (data : Bytes) (takes : Bool) (card : Option Bytes) :
    log data takes ⟨false, card⟩ = ⟨false, card⟩ := by
  have hfile : ∀ file, (FsLogger.log data ⟨false, takes, file⟩).file = file := by
    intro file
    rw [FsLogger.log, FsLogger.logRaw, if_neg (by simp)]
  simp only [log, hfile, Option.map_id']

theorem not_rFailed_zero {r : Result} (h : r = 0) : ¬ rFailed r :=
  fun hfail => hfail h

theorem createFile_of_succeeds (h : Succeeds a) (card : Option Bytes) :
    createFile a card = .ok (some []) := by
  obtain ⟨-, -, -, hcreate, -, -⟩ := h
  unfold createFile
  rcases hcreate with hcreate | ⟨hcreate, hdelete, hrecreate⟩
  · rw [if_neg (not_rFailed_zero hcreate)]
  · have hfail : rFailed a.create := by
      rw [hcreate]
      decide
    rw [if_pos hfail, if_pos hcreate, if_neg (not_rFailed_zero hdelete),
      if_neg (not_rFailed_zero hrecreate)]

/-- The first initialization empties the file. -/
theorem fsInitialize_of_succeeds (h : Succeeds a) (card : Option Bytes) :
    fsInitialize a ⟨false, card⟩ = .ok ⟨true, some (fileOf a [])⟩ := by
  have hcreate := createFile_of_succeeds h card
  obtain ⟨hfs, hmount, hdirectory, -, hopen, hsize⟩ := h
  have hdir : ¬ (rFailed a.directory ∧ a.directory ≠ pathExists) := by
    rintro ⟨hfail, hne⟩
    exact hdirectory.elim hfail hne
  unfold fsInitialize
  simp only [hcreate]
  rw [if_neg (by simp), if_neg (not_rFailed_zero hfs), if_neg (not_rFailed_zero hmount),
    if_neg hdir, if_neg (not_rFailed_zero hopen), if_neg (not_rFailed_zero hsize),
    Option.map_some, log_of_fsInit, List.nil_append, fileOf]

theorem createFile_ok {card card' : Option Bytes} (h : createFile a card = .ok card') :
    a.create = 0 ∨ a.create = pathExists ∧ a.delete = 0 ∧ a.recreate = 0 := by
  unfold createFile at h
  by_cases hcreate : rFailed a.create
  · rw [if_pos hcreate] at h
    by_cases hexists : a.create = pathExists
    · rw [if_pos hexists] at h
      by_cases hdelete : rFailed a.delete
      · rw [if_pos hdelete] at h
        cases h
      · rw [if_neg hdelete] at h
        by_cases hrecreate : rFailed a.recreate
        · rw [if_pos hrecreate] at h
          cases h
        · exact Or.inr ⟨hexists, not_not.mp hdelete, not_not.mp hrecreate⟩
    · rw [if_neg hexists] at h
      cases h
  · exact Or.inl (not_not.mp hcreate)

/-- A first initialization that comes back has succeeded in every call. -/
theorem succeeds_of_fsInitialize {card : Option Bytes} {s' : FsSession}
    (h : fsInitialize a ⟨false, card⟩ = .ok s') : Succeeds a := by
  unfold fsInitialize at h
  rw [if_neg (by simp)] at h
  by_cases hfs : rFailed a.fs
  · rw [if_pos hfs] at h
    cases h
  by_cases hmount : rFailed a.mount
  · rw [if_neg hfs, if_pos hmount] at h
    cases h
  by_cases hdirectory : rFailed a.directory ∧ a.directory ≠ pathExists
  · rw [if_neg hfs, if_neg hmount, if_pos hdirectory] at h
    cases h
  rw [if_neg hfs, if_neg hmount, if_neg hdirectory] at h
  cases hcreate : createFile a card with
  | error card' =>
    rw [hcreate] at h
    cases h
  | ok card' =>
    rw [hcreate] at h
    dsimp only at h
    by_cases hopen : rFailed a.openFile
    · rw [if_pos hopen] at h
      cases h
    by_cases hsize : rFailed a.setSize
    · rw [if_neg hopen, if_pos hsize] at h
      cases h
    have hdir : a.directory = 0 ∨ a.directory = pathExists := by
      by_cases hzero : a.directory = 0
      · exact Or.inl hzero
      · exact Or.inr (by_contra fun hne => hdirectory ⟨hzero, hne⟩)
    exact ⟨not_not.mp hfs, not_not.mp hmount, hdir, createFile_ok hcreate, not_not.mp hopen,
      not_not.mp hsize⟩

theorem createFile_error {card card' : Option Bytes} (h : createFile a card = .error card') :
    card' = card ∨ card' = none := by
  unfold createFile at h
  split_ifs at h
  · cases h
    exact Or.inl rfl
  · cases h
    exact Or.inr rfl
  · cases h
    exact Or.inl rfl

theorem eq_nil_of_createFile {card card' : Option Bytes} (h : createFile a card = .ok card') :
    card' = some [] := by
  unfold createFile at h
  split_ifs at h
  · cases h
    rfl
  · cases h
    rfl

/-- Where the process ends, the old file is untouched, gone, or empty. -/
theorem fsInitialize_error {card card' : Option Bytes}
    (h : fsInitialize a ⟨false, card⟩ = .error card') :
    card' = card ∨ card' = none ∨ card' = some [] := by
  unfold fsInitialize at h
  rw [if_neg (by simp)] at h
  cases hcreate : createFile a card with
  | error c =>
    simp only [hcreate] at h
    split_ifs at h
    · cases h
      exact Or.inl rfl
    · cases h
      exact Or.inl rfl
    · cases h
      exact Or.inl rfl
    · cases h
      exact (createFile_error hcreate).imp_right Or.inl
  | ok c =>
    have hc := eq_nil_of_createFile hcreate
    simp only [hcreate] at h
    split_ifs at h
    · cases h
      exact Or.inl rfl
    · cases h
      exact Or.inl rfl
    · cases h
      exact Or.inl rfl
    · cases h
      exact Or.inr (Or.inr hc)
    · cases h
      exact Or.inr (Or.inr hc)

theorem fsInitialize_of_fsInit (a : FsAnswers) (card : Option Bytes) :
    fsInitialize a ⟨true, card⟩ = .ok ⟨true, card⟩ := by
  rw [fsInitialize, if_pos rfl]

/-! ### Whole runs -/

theorem taken_cons (event : Event) (events : List Event) :
    taken (event :: events) = taken [event] ++ taken events := by
  rw [← List.singleton_append, taken, List.filterMap_append]
  rfl

/-- Once initialized, the log appends, and a later initialization does nothing. -/
theorem run_of_fsInit (events : List Event) (file : Bytes) :
    run events ⟨true, some file⟩ =
      .ok ⟨true, some (file ++ TcpLogger.lines (taken events))⟩ := by
  induction events generalizing file with
  | nil => rw [run, taken, List.filterMap_nil, TcpLogger.lines, List.map_nil, List.flatten_nil,
      List.append_nil]
  | cons event events ih =>
    rw [taken_cons, TcpLogger.lines_append, ← List.append_assoc]
    cases event with
    | fsInitialize b =>
      have hnothing : TcpLogger.lines (taken [.fsInitialize b]) = [] := rfl
      rw [run, fsInitialize_of_fsInit, hnothing, List.append_nil]
      exact ih file
    | log data takes =>
      rw [run, log_of_fsInit, ih]

/-- The first initialization decides: with it the run comes back or ends, and behind it the file has
what it has taken since. -/
theorem run_eq_outcome (events : List Event) (card : Option Bytes) :
    (run events ⟨false, card⟩).toOption = outcome events card ∧
      ∀ card', run events ⟨false, card⟩ = .error card' →
        card' = card ∨ card' = none ∨ card' = some [] := by
  induction events with
  | nil => exact ⟨rfl, fun card' h => by cases h⟩
  | cons event events ih =>
    cases event with
    | log data takes =>
      rw [run, log_of_not_fsInit, outcome]
      exact ih
    | fsInitialize a =>
      by_cases hsucceeds : Succeeds a
      · have hrun : run (.fsInitialize a :: events) ⟨false, card⟩ =
            .ok ⟨true, some (fileOf a events)⟩ := by
          rw [run, fsInitialize_of_succeeds hsucceeds]
          change run events ⟨true, some (fileOf a [])⟩ = _
          rw [run_of_fsInit, fileOf, fileOf, ← TcpLogger.lines_append, ← taken_cons]
        rw [outcome, if_pos hsucceeds, hrun]
        exact ⟨rfl, fun card' h => by cases h⟩
      · cases hinit : fsInitialize a ⟨false, card⟩ with
        | ok s => exact absurd (succeeds_of_fsInitialize hinit) hsucceeds
        | error card' =>
          rw [outcome, if_neg hsucceeds, run, hinit]
          refine ⟨rfl, fun card'' h => ?_⟩
          cases h
          exact fsInitialize_error hinit

end FsSession

end Sp2Module
