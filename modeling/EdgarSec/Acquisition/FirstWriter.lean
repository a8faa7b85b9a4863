import EdgarSec.Acquisition.ConsumptionReceipts
import EdgarSec.Lib.SharedMemory

/-! `record_body_consumption_receipt`: any number of calls place their receipts and read back
what is stored, one file operation at a time. -/

namespace EdgarSec.Acquisition
open Foundation Lib

abbrev SidecarPath := String × String × String

def Receipt.path (r : Receipt) : SidecarPath := (r.runId, r.targetId, r.selectedSha256)

structure Disk where
  directories : String × String → Bool
  sidecars : SidecarPath → Option Bytes

def Disk.empty : Disk := ⟨fun _ => false, fun _ => none⟩

/-- How far a call is. Once `prepared` it has its receipt in a temporary file of its own. -/
inductive Phase where
  | called
  | validated (own : Receipt)
  | prepared (own : Receipt)
  | linked (own : Receipt)
  | found (own : Receipt) (path : SidecarPath)
  | returned (receipt : Receipt)
  | raised (message : String)

structure RecordCall where
  receipt : List (String × Json)
  phase : Phase

def RecordCall.fresh (receipt : List (String × Json)) : RecordCall := ⟨receipt, .called⟩

def Phase.left : Phase → Nat
  | .called => 5
  | .validated _ => 4
  | .prepared _ => 3
  | .linked _ => 2
  | .found _ _ => 1
  | .returned _ => 0
  | .raised _ => 0

def conflictMessage : String := "conflicting immutable consumption receipt"

namespace Handoff
variable (h : Handoff)

/-- The first half of `read_body_consumption_receipt`: where the sidecar is, if it exists. -/
def findSidecar (disk : Disk) (runId targetId : String) : Except String (Option SidecarPath) := do
  let target ← h.state runId targetId
  let path := (runId, targetId, target.evidence.selectedSha256.getD "")
  pure (if disk.directories (runId, targetId) && (disk.sidecars path).isSome then some path else none)

def readSidecar (disk : Disk) (path : SidecarPath) : Except String Receipt := do
  let data ← require (disk.sidecars path) "receipt sidecar is corrupt"
  h.parseSidecar data

def phaseStep (disk : Disk) (receipt : List (String × Json)) : Phase → Option (Disk × Phase)
  | .called =>
    match h.validateReceipt receipt with
    | .error message => some (disk, .raised message)
    | .ok own => some (disk, .validated own)
  | .validated own =>
    some ({ disk with directories := Function.update disk.directories own.directory true }, .prepared own)
  | .prepared own =>
    -- `os.link` makes the name or raises `FileExistsError`, which is passed over
    some ({ disk with sidecars := putAbsent disk.sidecars own.path own.encoded }, .linked own)
  | .linked own =>
    match h.findSidecar disk own.runId own.targetId with
    | .error message => some (disk, .raised message)
    | .ok none => some (disk, .raised conflictMessage)
    | .ok (some path) => some (disk, .found own path)
  | .found own path =>
    match h.readSidecar disk path with
    | .error message => some (disk, .raised message)
    | .ok readback =>
      if readback = own then some (disk, .returned readback) else some (disk, .raised conflictMessage)
  | .returned _ => none
  | .raised _ => none

def recordStep (disk : Disk) (call : RecordCall) : Option (Disk × RecordCall) :=
  (h.phaseStep disk call.receipt call.phase).map fun (disk, phase) => (disk, ⟨call.receipt, phase⟩)

def turn : Shared Disk RecordCall → Turn (List (String × Json)) → Option (Shared Disk RecordCall) :=
  Shared.turn h.recordStep RecordCall.fresh

end Handoff

/-! ## One step -/

attribute [local simp] Handoff.phaseStep

def Disk.Grows (a b : Disk) : Prop :=
  (∀ d, a.directories d → b.directories d) ∧ Extends a.sidecars b.sidecars

theorem Disk.Grows.refl (a : Disk) : a.Grows a := ⟨fun _ hd => hd, Extends.refl _⟩

theorem Disk.Grows.trans {a b c : Disk} (hab : a.Grows b) (hbc : b.Grows c) : a.Grows c :=
  ⟨fun d hd => hbc.1 d (hab.1 d hd), hab.2.trans hbc.2⟩

theorem Disk.Grows.isSome {a b : Disk} (h : a.Grows b) {path : SidecarPath}
    (ha : (a.sidecars path).isSome) : (b.sidecars path).isSome := by
  obtain ⟨data, hdata⟩ := Option.isSome_iff_exists.mp ha
  rw [h.2 path data hdata]
  rfl

namespace Handoff
variable {h : Handoff} {disk disk' : Disk} {call call' : RecordCall} {own : Receipt}

def Knows (h : Handoff) (disk : Disk) (call : RecordCall) : Prop :=
  match call.phase with
  | .called => True
  | .validated own => h.validateReceipt call.receipt = .ok own
  | .prepared own => h.validateReceipt call.receipt = .ok own ∧ disk.directories own.directory
  | .linked own => h.validateReceipt call.receipt = .ok own ∧ disk.directories own.directory ∧
      (disk.sidecars own.path).isSome
  | .found own path => h.validateReceipt call.receipt = .ok own ∧ path = own.path ∧
      (disk.sidecars own.path).isSome
  | .returned own => h.validateReceipt call.receipt = .ok own ∧
      disk.sidecars own.path = some own.encoded ∧ own.encoded.length ≤ sidecarSizeLimit
  | .raised _ => ∀ own, h.validateReceipt call.receipt = .ok own → ∃ data,
      disk.sidecars own.path = some data ∧ (data = own.encoded → sidecarSizeLimit < own.encoded.length)

theorem findSidecar_of_linked {target : TargetState} (haccepts : h.Accepts own target)
    (hdirectory : disk.directories own.directory) (hstored : (disk.sidecars own.path).isSome) :
    h.findSidecar disk own.runId own.targetId = .ok (some own.path) := by
  have hpath : (own.runId, own.targetId, target.evidence.selectedSha256.getD "") = own.path := by
    rw [haccepts.selected]
    rfl
  have hdir : disk.directories (own.runId, own.targetId) = true := hdirectory
  simp [findSidecar, bind, Except.bind, pure, Except.pure, haccepts.state, hpath, hdir, hstored]

theorem readSidecar_eq_ok {target : TargetState} {path : SidecarPath} (haccepts : h.Accepts own target) :
    h.readSidecar disk path = .ok own ↔
      disk.sidecars path = some own.encoded ∧ own.encoded.length ≤ sidecarSizeLimit := by
  rw [readSidecar, bind_eq_ok]
  constructor
  · rintro ⟨data, hdata, hparse⟩
    obtain ⟨rfl, hsize, _⟩ := parseSidecar_eq_ok.mp hparse
    exact ⟨require_eq_ok.mp hdata, hsize⟩
  · rintro ⟨hdata, hsize⟩
    exact ⟨own.encoded, require_eq_ok.mpr hdata, parseSidecar_eq_ok.mpr ⟨rfl, hsize, target, haccepts⟩⟩

theorem phaseStep_found (receipt : List (String × Json)) (path : SidecarPath) :
    (h.readSidecar disk path = .ok own ∧
      h.phaseStep disk receipt (.found own path) = some (disk, .returned own)) ∨
    (h.readSidecar disk path ≠ .ok own ∧
      ∃ message, h.phaseStep disk receipt (.found own path) = some (disk, .raised message)) := by
  simp only [phaseStep]
  cases hread : h.readSidecar disk path with
  | error message =>
    right
    exact ⟨by simp, message, rfl⟩
  | ok readback =>
    by_cases hown : readback = own
    · left
      rw [hown]
      exact ⟨rfl, if_pos rfl⟩
    · right
      exact ⟨fun heq => hown (Except.ok.inj heq), conflictMessage, if_neg hown⟩

theorem phaseStep_grows {receipt : List (String × Json)} {phase phase' : Phase}
    (hstep : h.phaseStep disk receipt phase = some (disk', phase')) : disk.Grows disk' := by
  cases phase with
  | called =>
    rw [phaseStep] at hstep
    cases hvalid : h.validateReceipt receipt with
    | error message =>
      rw [hvalid] at hstep
      obtain ⟨rfl, _⟩ := Prod.mk.inj (Option.some.inj hstep)
      exact Disk.Grows.refl _
    | ok own =>
      rw [hvalid] at hstep
      obtain ⟨rfl, _⟩ := Prod.mk.inj (Option.some.inj hstep)
      exact Disk.Grows.refl _
  | validated own =>
    obtain ⟨rfl, _⟩ := Prod.mk.inj (Option.some.inj hstep)
    refine ⟨fun d hd => ?_, Extends.refl _⟩
    show Function.update disk.directories own.directory true d = true
    rw [Function.update_apply, hd]
    exact ite_self _
  | prepared own =>
    obtain ⟨rfl, _⟩ := Prod.mk.inj (Option.some.inj hstep)
    exact ⟨fun d hd => hd, extends_putAbsent⟩
  | linked own =>
    rw [phaseStep] at hstep
    have hsame : disk' = disk := by
      cases hfind : h.findSidecar disk own.runId own.targetId with
      | error message => simp_all
      | ok found => cases found <;> simp_all
    rw [hsame]
    exact Disk.Grows.refl _
  | found own path =>
    have hsame : disk' = disk := by
      rcases @phaseStep_found h disk own receipt path with ⟨_, hreturned⟩ | ⟨_, message, hraised⟩
      · rw [hreturned] at hstep
        exact (Prod.mk.inj (Option.some.inj hstep)).1.symm
      · rw [hraised] at hstep
        exact (Prod.mk.inj (Option.some.inj hstep)).1.symm
    rw [hsame]
    exact Disk.Grows.refl _
  | returned own => exact absurd hstep (by simp [phaseStep])
  | raised message => exact absurd hstep (by simp [phaseStep])

theorem Knows.grows {call : RecordCall} (hgrows : disk.Grows disk') (hknows : h.Knows disk call) :
    h.Knows disk' call := by
  obtain ⟨receipt, phase⟩ := call
  cases phase with
  | called => trivial
  | validated own => exact hknows
  | prepared own => exact ⟨hknows.1, hgrows.1 _ hknows.2⟩
  | linked own => exact ⟨hknows.1, hgrows.1 _ hknows.2.1, hgrows.isSome hknows.2.2⟩
  | found own path => exact ⟨hknows.1, hknows.2.1, hgrows.isSome hknows.2.2⟩
  | returned own => exact ⟨hknows.1, hgrows.2 _ _ hknows.2.1, hknows.2.2⟩
  | raised message =>
    intro own hown
    obtain ⟨data, hdata, hother⟩ := hknows own hown
    exact ⟨data, hgrows.2 _ _ hdata, hother⟩

theorem Knows.next (hknows : h.Knows disk call) (hstep : h.recordStep disk call = some (disk', call')) :
    h.Knows disk' call' := by
  obtain ⟨receipt, phase⟩ := call
  obtain ⟨⟨disk₁, phase'⟩, hphase, heq⟩ := Option.map_eq_some_iff.mp hstep
  obtain ⟨rfl, rfl⟩ := Prod.mk.inj heq
  cases phase with
  | called =>
    rw [phaseStep] at hphase
    cases hvalid : h.validateReceipt receipt with
    | error message =>
      rw [hvalid] at hphase
      obtain ⟨_, rfl⟩ := Prod.mk.inj (Option.some.inj hphase)
      intro own hown
      rw [hvalid] at hown
      cases hown
    | ok own =>
      rw [hvalid] at hphase
      obtain ⟨_, rfl⟩ := Prod.mk.inj (Option.some.inj hphase)
      exact hvalid
  | validated own =>
    obtain ⟨rfl, rfl⟩ := Prod.mk.inj (Option.some.inj hphase)
    refine ⟨hknows, ?_⟩
    show Function.update disk.directories own.directory true own.directory = true
    rw [Function.update_self]
  | prepared own =>
    obtain ⟨rfl, rfl⟩ := Prod.mk.inj (Option.some.inj hphase)
    exact ⟨hknows.1, hknows.2, isSome_putAbsent⟩
  | linked own =>
    obtain ⟨hvalid, hdirectory, hstored⟩ := hknows
    obtain ⟨_, target, haccepts⟩ := validateReceipt_eq_ok.mp hvalid
    rw [phaseStep, findSidecar_of_linked haccepts hdirectory hstored] at hphase
    obtain ⟨rfl, rfl⟩ := Prod.mk.inj (Option.some.inj hphase)
    exact ⟨hvalid, rfl, hstored⟩
  | found own path =>
    obtain ⟨hvalid, rfl, hstored⟩ := hknows
    obtain ⟨_, target, haccepts⟩ := validateReceipt_eq_ok.mp hvalid
    obtain ⟨data, hdata⟩ := Option.isSome_iff_exists.mp hstored
    rcases @phaseStep_found h disk own receipt own.path with ⟨hread, hreturned⟩ | ⟨hread, message, hraised⟩
    · rw [hreturned] at hphase
      obtain ⟨rfl, rfl⟩ := Prod.mk.inj (Option.some.inj hphase)
      exact ⟨hvalid, (readSidecar_eq_ok haccepts).mp hread⟩
    · rw [hraised] at hphase
      obtain ⟨rfl, rfl⟩ := Prod.mk.inj (Option.some.inj hphase)
      intro own' hown'
      obtain rfl := Except.ok.inj (hvalid.symm.trans hown')
      -- the sidecar holds another text, or its own beyond the limit
      refine ⟨data, hdata, fun hsame => ?_⟩
      by_contra hsize
      exact hread ((readSidecar_eq_ok haccepts).mpr ⟨hdata.trans (congrArg some hsame), not_lt.mp hsize⟩)
  | returned own => exact absurd hphase (by simp [phaseStep])
  | raised message => exact absurd hphase (by simp [phaseStep])

theorem exists_recordStep (hleft : 0 < call.phase.left) : ∃ disk' call',
    h.recordStep disk call = some (disk', call') ∧ call'.phase.left < call.phase.left := by
  obtain ⟨receipt, phase⟩ := call
  have hphase : ∃ disk' phase', h.phaseStep disk receipt phase = some (disk', phase') ∧
      phase'.left < phase.left := by
    cases phase with
    | called =>
      rw [phaseStep]
      cases h.validateReceipt receipt with
      | error message => exact ⟨disk, .raised message, rfl, by simp [Phase.left]⟩
      | ok own => exact ⟨disk, .validated own, rfl, by simp [Phase.left]⟩
    | validated own => exact ⟨_, .prepared own, rfl, by simp [Phase.left]⟩
    | prepared own => exact ⟨_, .linked own, rfl, by simp [Phase.left]⟩
    | linked own =>
      rw [phaseStep]
      cases h.findSidecar disk own.runId own.targetId with
      | error message => exact ⟨disk, .raised message, rfl, by simp [Phase.left]⟩
      | ok found =>
        cases found with
        | none => exact ⟨disk, .raised conflictMessage, rfl, by simp [Phase.left]⟩
        | some path => exact ⟨disk, .found own path, rfl, by simp [Phase.left]⟩
    | found own path =>
      rcases @phaseStep_found h disk own receipt path with ⟨_, hreturned⟩ | ⟨_, message, hraised⟩
      · exact ⟨disk, .returned own, hreturned, by simp [Phase.left]⟩
      · exact ⟨disk, .raised message, hraised, by simp [Phase.left]⟩
    | returned own => exact absurd hleft (lt_irrefl 0)
    | raised message => exact absurd hleft (lt_irrefl 0)
  obtain ⟨disk', phase', hstep, hless⟩ := hphase
  refine ⟨disk', ⟨receipt, phase'⟩, ?_, hless⟩
  rw [recordStep, hstep]
  rfl

/-! ## Every interleaving -/

section Runs
variable {s t : Shared Disk RecordCall} {turns : List (Turn (List (String × Json)))}

theorem grows_of_recordStep (hstep : h.recordStep disk call = some (disk', call')) :
    disk.Grows disk' := by
  obtain ⟨⟨disk₁, phase'⟩, hphase, heq⟩ := Option.map_eq_some_iff.mp hstep
  obtain ⟨rfl, rfl⟩ := Prod.mk.inj heq
  exact phaseStep_grows hphase

theorem grows_of_run (hrun : run h.turn s turns = some t) : s.memory.Grows t.memory := by
  refine Shared.run_grows Disk.Grows.refl ?_ ?_ hrun
  · intro a b c hab hbc
    exact hab.trans hbc
  · intro a m b m' hstep
    exact grows_of_recordStep hstep

theorem knows_of_run (hrun : run h.turn ⟨disk, []⟩ turns = some t) :
    ∀ call ∈ t.machines, h.Knows t.memory call := by
  have hgrows : ∀ a m b m', h.recordStep a m = some (b, m') → a.Grows b :=
    fun a m b m' hstep => grows_of_recordStep hstep
  refine Shared.run_local hgrows ?_ ?_ ?_ ?_ hrun
  · intro a b m hgrown hknows
    exact hknows.grows hgrown
  · intro a input
    trivial
  · intro a m b m' hknows hstep
    exact hknows.next hstep
  · intro m hm
    exact absurd hm List.not_mem_nil

theorem path_eq {r r' : Receipt} {target target' : TargetState} (hr : h.Accepts r target)
    (hr' : h.Accepts r' target') (hrun : r.runId = r'.runId) (htarget : r.targetId = r'.targetId) :
    r.path = r'.path := by
  have hstate : target = target' := by
    have heq := hr.state
    rw [hrun, htarget, hr'.state] at heq
    exact (Except.ok.inj heq).symm
  have hselected : r.selectedSha256 = r'.selectedSha256 := by
    have heq := hr.selected
    rw [hstate, hr'.selected] at heq
    exact (Option.some.inj heq).symm
  rw [Receipt.path, Receipt.path, hrun, htarget, hselected]

theorem ended_iff {phase : Phase} : phase.left = 0 ↔
    (∃ r, phase = .returned r) ∨ ∃ message, phase = .raised message := by
  cases phase <;> simp [Phase.left]

theorem returned_iff_stored (hrun : run h.turn ⟨disk, []⟩ turns = some t) (hcall : call ∈ t.machines)
    (hown : h.validateReceipt call.receipt = .ok own) (hended : call.phase.left = 0) :
    (∃ r, call.phase = .returned r) ↔
      t.memory.sidecars own.path = some own.encoded ∧ own.encoded.length ≤ sidecarSizeLimit := by
  have hknows := knows_of_run hrun call hcall
  obtain ⟨receipt, phase⟩ := call
  rcases ended_iff.mp hended with ⟨r, hphase⟩ | ⟨message, hphase⟩
  · obtain rfl : phase = .returned r := hphase
    obtain ⟨hvalid, hstored⟩ := hknows
    obtain rfl := Except.ok.inj (hvalid.symm.trans hown)
    exact ⟨fun _ => hstored, fun _ => ⟨r, rfl⟩⟩
  · obtain rfl : phase = .raised message := hphase
    obtain ⟨data, hdata, hother⟩ := hknows own hown
    constructor
    · rintro ⟨r, hreturned⟩
      cases hreturned
    · rintro ⟨hstored, hsize⟩
      have hsame : data = own.encoded := Option.some.inj (hdata.symm.trans hstored)
      exact absurd (hother hsame) (not_lt.mpr hsize)

theorem not_returned_of_invalid (hrun : run h.turn ⟨disk, []⟩ turns = some t) (hcall : call ∈ t.machines)
    {r : Receipt} (hreturned : call.phase = .returned r) : h.validateReceipt call.receipt = .ok r := by
  have hknows := knows_of_run hrun call hcall
  obtain ⟨receipt, phase⟩ := call
  obtain rfl : phase = .returned r := hreturned
  exact hknows.1

structure FirstWriterWins (h : Handoff) (receipt : List (String × Json)) : Prop where
  /-- No call waits for another. -/
  never_waits : ∀ (s : Shared Disk RecordCall) place call, s.machines[place]? = some call →
    0 < call.phase.left → ∃ t call', h.turn s (.advance place) = some t ∧
      t.machines[place]? = some call' ∧ call'.phase.left < call.phase.left
  never_changes : ∀ s turns t path data, run h.turn s turns = some t →
    s.memory.sidecars path = some data → t.memory.sidecars path = some data
  one_receipt : ∀ s turns t r r' target target', run h.turn s turns = some t → h.Accepts r target →
    h.Accepts r' target' → r.runId = r'.runId → r.targetId = r'.targetId →
    s.memory.sidecars r.path = some r.encoded → t.memory.sidecars r'.path = some r'.encoded → r = r'
  refuses : ∀ disk turns s call own stored, run h.turn ⟨disk, []⟩ turns = some s → call ∈ s.machines →
    h.validateReceipt call.receipt = .ok own → s.memory.sidecars own.path = some stored.encoded →
    stored ≠ own → call.phase.left = 0 → ∃ message, call.phase = .raised message
  returns_iff : ∀ disk turns s call, run h.turn ⟨disk, []⟩ turns = some s → call ∈ s.machines →
    call.receipt = receipt → call.phase.left = 0 → ((∃ r, call.phase = .returned r) ↔
      ∃ own, h.validateReceipt receipt = .ok own ∧ s.memory.sidecars own.path = some own.encoded)

theorem turn_alone {receipt : List (String × Json)} {phase phase' : Phase}
    (hphase : h.phaseStep disk receipt phase = some (disk', phase')) :
    h.turn ⟨disk, [⟨receipt, phase⟩]⟩ (.advance 0) = some ⟨disk', [⟨receipt, phase'⟩]⟩ := by
  have hstep : h.recordStep disk ⟨receipt, phase⟩ = some (disk', ⟨receipt, phase'⟩) := by
    rw [recordStep, hphase]
    rfl
  exact Shared.turn_advance.mpr ⟨_, _, _, rfl, hstep, rfl⟩

theorem oversized_raises {receipt : List (String × Json)} (hown : h.validateReceipt receipt = .ok own)
    (hsize : sidecarSizeLimit < own.encoded.length) :
    ∃ stored, stored.sidecars own.path = some own.encoded ∧
      run h.turn ⟨.empty, []⟩ (.start receipt :: List.replicate 5 (.advance 0)) =
        some ⟨stored, [⟨receipt, .raised "receipt sidecar exceeds its size limit"⟩]⟩ := by
  let made : Disk := { Disk.empty with
    directories := Function.update Disk.empty.directories own.directory true }
  let stored : Disk := { made with sidecars := putAbsent made.sidecars own.path own.encoded }
  have hstored : stored.sidecars own.path = some own.encoded := Function.update_self _ _ _
  have hsome : (stored.sidecars own.path).isSome := by
    rw [hstored]
    rfl
  have hdirectory : stored.directories own.directory := Function.update_self _ _ _
  obtain ⟨_, target, haccepts⟩ := validateReceipt_eq_ok.mp hown
  have hvalid : h.phaseStep .empty receipt .called = some (.empty, .validated own) := by
    rw [phaseStep, hown]
  have hmade : h.phaseStep .empty receipt (.validated own) = some (made, .prepared own) := rfl
  have hlinked : h.phaseStep made receipt (.prepared own) = some (stored, .linked own) := rfl
  have hfound : h.phaseStep stored receipt (.linked own) = some (stored, .found own own.path) := by
    rw [phaseStep, findSidecar_of_linked haccepts hdirectory hsome]
  have hread : h.readSidecar stored own.path = .error "receipt sidecar exceeds its size limit" := by
    simp [readSidecar, parseSidecar, hstored, require, ensure, bind, Except.bind, not_le.mpr hsize]
  have hraised : h.phaseStep stored receipt (.found own own.path) =
      some (stored, .raised "receipt sidecar exceeds its size limit") := by
    rw [phaseStep, hread]
  refine ⟨stored, hstored, ?_⟩
  have hstart : h.turn ⟨.empty, []⟩ (.start receipt) = some ⟨.empty, [⟨receipt, .called⟩]⟩ := rfl
  show run h.turn ⟨.empty, []⟩ [.start receipt, .advance 0, .advance 0, .advance 0, .advance 0,
    .advance 0] = _
  simp only [run, hstart, turn_alone hvalid, turn_alone hmade, turn_alone hlinked, turn_alone hfound,
    turn_alone hraised, Option.bind_some]

theorem not_firstWriterWins {receipt : List (String × Json)} (hown : h.validateReceipt receipt = .ok own)
    (hsize : sidecarSizeLimit < own.encoded.length) : ¬h.FirstWriterWins receipt := by
  intro hwins
  obtain ⟨disk, hstored, hrun⟩ := oversized_raises hown hsize
  have hreturned := (hwins.returns_iff _ _ _ _ hrun (List.mem_singleton_self _) rfl rfl).mpr
    ⟨own, hown, hstored⟩
  obtain ⟨r, hr⟩ := hreturned
  cases hr

theorem first_writer_wins_iff (h : Handoff) (receipt : List (String × Json)) :
    h.FirstWriterWins receipt ↔
      ∀ own, h.validateReceipt receipt = .ok own → own.encoded.length ≤ sidecarSizeLimit := by
  constructor
  · intro hwins own hown
    by_contra hsize
    exact not_firstWriterWins hown (not_le.mp hsize) hwins
  · intro hsize
    constructor
    · intro s place call hplace hleft
      obtain ⟨disk', call', hstep, hless⟩ := @exists_recordStep h s.memory call hleft
      have hlt : place < s.machines.length := (List.getElem?_eq_some_iff.mp hplace).1
      refine ⟨⟨disk', s.machines.set place call'⟩, call', ?_, List.getElem?_set_self hlt, hless⟩
      exact Shared.turn_advance.mpr ⟨call, disk', call', hplace, hstep, rfl⟩
    · intro s turns t path data hrun hstored
      exact (grows_of_run hrun).2 path data hstored
    · intro s turns t r r' target target' hrun hr hr' hid htarget hstored hstored'
      have hpath : r.path = r'.path := path_eq hr hr' hid htarget
      have hkept := (grows_of_run hrun).2 _ _ hstored
      rw [hpath, hstored'] at hkept
      exact Receipt.encoded_injective (Option.some.inj hkept).symm
    · intro disk turns s call own stored hrun hcall hown hstored hne hended
      have hnot : ¬∃ r, call.phase = .returned r := by
        intro hreturned
        have hkept := ((returned_iff_stored hrun hcall hown hended).mp hreturned).1
        rw [hstored] at hkept
        exact hne (Receipt.encoded_injective (Option.some.inj hkept))
      exact (ended_iff.mp hended).resolve_left hnot
    · intro disk turns s call hrun hcall hreceipt hended
      subst hreceipt
      constructor
      · intro hreturned
        obtain ⟨r, hr⟩ := hreturned
        have hown := not_returned_of_invalid hrun hcall hr
        exact ⟨r, hown, ((returned_iff_stored hrun hcall hown hended).mp ⟨r, hr⟩).1⟩
      · rintro ⟨own, hown, hstored⟩
        exact (returned_iff_stored hrun hcall hown hended).mpr ⟨hstored, hsize own hown⟩

/-! A processing run with a name of 16384 letters consumes an acquired body. -/

def acquiredDigest : String := "0123456789abcdef0123456789abcdef0123456789abcdef0123456789abcdef"

def acquiredTarget : TargetState where
  targetId := "target-1"
  executable := true
  skipReason := none
  outcome := .acquired
  evidence := ⟨some acquiredDigest, some 12, none, some acquiredDigest, some 12, none⟩

def acquiredHandoff : Handoff where
  isalnum := fun _ => false
  fromisoformat := fun text => if text = "2026-10-10T21:00:00+00:00" then some (some 0) else none
  databases := fun runId =>
    if runId = "run-1" then some ⟨schemaVersion, [acquiredTarget], [], [], [], []⟩ else none

def longNamed : Receipt where
  runId := "run-1"
  targetId := "target-1"
  sourceResponseSha256 := acquiredDigest
  selectedSha256 := acquiredDigest
  processingRunId := String.ofList (List.replicate 16384 'a')
  consumedAtUtc := "2026-10-10T21:00:00Z"

theorem toList_longNamed : longNamed.processingRunId.toList = List.replicate 16384 'a' :=
  String.toList_ofList

theorem accepts_longNamed : acquiredHandoff.Accepts longNamed acquiredTarget where
  processing := by
    have hne : ∀ short : String, short.toList.length < 16384 → longNamed.processingRunId ≠ short := by
      intro short hshort heq
      rw [← heq, toList_longNamed, List.length_replicate] at hshort
      exact lt_irrefl _ hshort
    rw [validateSafeId, ensure_eq_ok]
    refine ⟨hne "" (by decide), hne "." (by decide), hne ".." (by decide), ?_⟩
    rw [toList_longNamed, List.all_replicate]
    decide
  source_digest := by decide
  selected_digest := by decide
  state := by rfl
  source := rfl
  selected := rfl
  timestamp := by rfl

theorem first_writer_cannot_read_back : ¬acquiredHandoff.FirstWriterWins longNamed.members := by
  have hown : acquiredHandoff.validateReceipt longNamed.members = .ok longNamed :=
    validateReceipt_eq_ok.mpr ⟨Receipt.isIn_members, acquiredTarget, accepts_longNamed⟩
  have hname : longNamed.processingRunId.length = 16384 := by
    rw [← String.length_toList, toList_longNamed, List.length_replicate]
  have hlong := longNamed.length_lt_encoded
  apply not_firstWriterWins hown
  rw [sidecarSizeLimit, ← hname]
  exact hlong

end Runs
end Handoff
end EdgarSec.Acquisition
