import EdgarSec.Dag.CompareAndSwap
import EdgarSec.Dag.RetainedLineage

/-! One publication among purges. The two take different locks, so a purge that planned
before the commit may remove what the publication is about to publish, or has published. -/

namespace EdgarSec.Dag
open Foundation Lib

theorem hasSnapshot_insertManifest {sha256 : Bytes → String} {cat cat' : Catalog}
    {m : DAGNodeManifest} (h : cat.insertManifest sha256 m = .ok cat') :
    cat'.hasSnapshot m.snapshotId = true := by
  unfold Catalog.hasSnapshot
  rcases Catalog.insertManifest_cases h with ⟨rfl, row, hrow, _⟩ | ⟨_, _, _, rfl⟩
  · rw [hrow]
    rfl
  · rw [Catalog.node?_addManifest, if_pos rfl]
    rfl

theorem Repository.hasSnapshot_commit {repo repo' : Repository} {sha256 : Bytes → String}
    {m : DAGNodeManifest} {b now : String} (h : repo.commit sha256 m b now = .ok repo') :
    repo'.catalog.hasSnapshot m.snapshotId = true := by
  obtain ⟨cat, hcat, rfl⟩ := map_eq_ok.mp h
  obtain ⟨cat₁, hins, rfl⟩ := Catalog.publishNode_cases hcat
  have hnode := hasSnapshot_insertManifest hins
  exact hnode

theorem hasSnapshot_deleteNode {cat : Catalog} {x id : String} (h : x ≠ id)
    (hid : cat.hasSnapshot id = true) : (cat.deleteNode x).hasSnapshot id = true := by
  unfold Catalog.hasSnapshot at hid ⊢
  rwa [Catalog.node?_deleteNode, if_neg (Ne.symm h)]

/-! ## The staged files -/

/-- Files at their paths below `dir`. -/
def Holds (fs : FileSystem) (dir : Path) (files : Path → Bytes → Prop) : Prop :=
  ∀ rest content, files rest content → fs.entry (dir ++ rest) = some (.file content)

def PublishCall.stagedPlace (call : PublishCall) (fs : FileSystem) : Option Path :=
  call.staged.bind fs.place

/-- The files below it. -/
def PublishCall.StagedFile (call : PublishCall) (fs : FileSystem) (rest : Path) (content : Bytes) :
    Prop := ∃ dir, call.stagedPlace fs = some dir ∧ fs.entry (dir ++ rest) = some (.file content)

def PublishPhase.place : PublishPhase → Option Path
  | .moved place | .closing place _ | .returned place _ => place
  | .called | .locked | .checked => none

def PublishPhase.committed : PublishPhase → Bool
  | .closing _ (.ok _) | .returned _ (.ok _) => true
  | _ => false

def PublishPhase.early : PublishPhase → Bool
  | .called | .locked | .checked => true
  | _ => false

theorem Holds.moveStaged {repo repo' : Repository} {id : String} {staged : Option Path}
    {place src : Option Path} {files : Path → Bytes → Prop}
    (h : repo.moveStaged id staged = .ok (repo', place))
    (hsrc : ∀ dir, staged.bind repo.files.place = some dir → src = some dir)
    (hfiles : ∀ dir, src = some dir → Holds repo.files dir files) :
    ∀ dir, place.or src = some dir → Holds repo'.files dir files := by
  unfold Repository.moveStaged at h
  split at h
  · obtain ⟨rfl, rfl⟩ := Prod.mk.inj (Except.ok.inj h)
    exact hfiles
  · rename_i stagedDir
    split at h
    · split at h
      · rename_i fs d hmove
        obtain ⟨rfl, rfl⟩ := Prod.mk.inj (Except.ok.inj h)
        obtain ⟨s, hs, hcarry⟩ := FileSystem.entry_move hmove
        have hplace : src = some s := hsrc s hs
        intro dir hdir rest content hfile
        obtain rfl : d = dir := by simpa using hdir
        exact hcarry rest _ (hfiles s hplace rest content hfile)
      · cases h
    · obtain ⟨rfl, rfl⟩ := Prod.mk.inj (Except.ok.inj h)
      exact hfiles

namespace System
variable {ι : Type} [DecidableEq ι] {sha256 : Bytes → String} {s t : System ι} {p : ι} {now : String}
  {src : Option Path} {files : Path → Bytes → Prop}

/-- The publication `call` in `phase` has lost nothing: its staged files stand where they
were or where they were moved, and its node and pointer once they are committed. -/
structure Intact (src : Option Path) (files : Path → Bytes → Prop) (repo : Repository)
    (call : PublishCall) (phase : PublishPhase) : Prop where
  files : ∀ dir, phase.place.or src = some dir → Holds repo.files dir files
  source : phase.early = true → ∀ dir, call.staged.bind repo.files.place = some dir → src = some dir
  node : phase.committed = true → repo.catalog.hasSnapshot call.manifest.snapshotId = true
  tip : phase.committed = true → repo.catalog.tipId call.branch = some call.manifest.snapshotId

/-- `p` publishes, nobody else does anything but purge, and the publication is intact. -/
structure Undamaged (src : Option Path) (files : Path → Bytes → Prop) (p : ι) (s : System ι) :
    Prop where
  intact : ∃ call phase, s.procs p = .publish call phase ∧ Intact src files s.repo call phase
  others : ∀ q, q ≠ p → s.procs q = .idle ∨ ∃ pc phase, s.procs q = .purge pc phase

/-- The step removes no directory with a staged file below it, and deletes no row of a
node that has been committed. -/
def Spares (src : Option Path) (files : Path → Bytes → Prop) (p : ι) (s : System ι)
    (e : ι × String) : Prop :=
  ∀ call phase, s.procs p = .publish call phase →
    (∀ pc removed id dir plan, s.procs e.1 = .purge pc (.removing removed ((id, some dir) :: plan)) →
      ∀ place, phase.place.or src = some place → ∀ rest content, files rest content →
        ¬ dir <+: place ++ rest) ∧
    ∀ pc removed id plan, s.procs e.1 = .purge pc (.deleting removed id plan) →
      phase.committed = true → id ≠ call.manifest.snapshotId

theorem Intact.publishes {call : PublishCall} {phase : PublishPhase}
    (hs : Intact src files s.repo call phase) (h : Publishes sha256 s p now call phase t) :
    ∃ phase', t.procs p = .publish call phase' ∧ Intact src files t.repo call phase' := by
  cases h with
  | acquire hfree =>
    exact ⟨_, procs_become_self _ _ _, hs.files, hs.source, fun h => (by cases h), fun h => (by cases h)⟩
  | refuse e =>
    exact ⟨_, procs_become_self _ _ _, hs.files, fun h => (by cases h), fun h => (by cases h),
      fun h => (by cases h)⟩
  | stale e | stuck e =>
    exact ⟨_, procs_become_self _ _ _, hs.files, fun h => (by cases h), fun h => (by cases h),
      fun h => (by cases h)⟩
  | check htip =>
    exact ⟨_, procs_become_self _ _ _, hs.files, hs.source, fun h => (by cases h), fun h => (by cases h)⟩
  | move hmove =>
    refine ⟨_, procs_become_self _ _ _, ?_, fun h => (by cases h), fun h => (by cases h),
      fun h => (by cases h)⟩
    exact Holds.moveStaged hmove (hs.source rfl) hs.files
  | reject e =>
    exact ⟨_, procs_become_self _ _ _, hs.files, fun h => (by cases h), fun h => (by cases h),
      fun h => (by cases h)⟩
  | @commit repo place hcommit =>
    have hfiles : repo.files = s.repo.files := by
      obtain ⟨cat, _, rfl⟩ := map_eq_ok.mp hcommit
      rfl
    refine ⟨_, procs_become_self _ _ _, fun dir hdir => ?_, fun h => (by cases h), fun _ => ?_, fun _ => ?_⟩
    · show Holds repo.files dir files
      rw [hfiles]
      exact hs.files dir hdir
    · exact Repository.hasSnapshot_commit hcommit
    · show repo.catalog.tipId call.branch = some call.manifest.snapshotId
      rw [Repository.tipId_commit hcommit, if_pos rfl]
  | @close place result =>
    refine ⟨_, procs_become_self _ _ _, hs.files, fun h => (by cases h), fun h => ?_, fun h => ?_⟩
    · exact hs.node (by cases result <;> exact h)
    · exact hs.tip (by cases result <;> exact h)

theorem Intact.purges {q : ι} {call : PublishCall} {phase : PublishPhase} {pc : PurgeCall}
    {purgePhase : PurgePhase} (hs : Intact src files s.repo call phase)
    (hp : s.procs p = .publish call phase) (hq : s.procs q = .purge pc purgePhase)
    (hspares : Spares src files p s (q, now)) (h : Purges s q pc purgePhase t) :
    Intact src files t.repo call phase := by
  obtain ⟨hdirs, hrows⟩ := hspares call phase hp
  cases h with
  | @rmtree removed id dir plan fs hrm =>
    have hfs : fs = s.repo.files.without dir := by
      unfold FileSystem.rmtree at hrm
      split at hrm
      · exact (Option.some.inj hrm).symm
      · cases hrm
    subst hfs
    refine ⟨fun place hplace rest content hfile => ?_, fun hearly place hstaged => ?_, hs.node, hs.tip⟩
    · have hclear := hdirs pc removed id dir plan hq place hplace rest content hfile
      have hne : dir ≠ [] := fun hnil => hclear (hnil ▸ List.nil_prefix)
      show (s.repo.files.without dir).entry (place ++ rest) = some (.file content)
      rw [FileSystem.entry_without _ hne, if_neg hclear]
      exact hs.files place hplace rest content hfile
    · obtain ⟨staged, hsome, hstaged⟩ := Option.bind_eq_some_iff.mp hstaged
      have hbefore := FileSystem.place_of_fewer (FileSystem.fewer_without s.repo.files dir) hstaged
      exact hs.source hearly place (Option.bind_eq_some_iff.mpr ⟨staged, hsome, hbefore⟩)
  | @delete removed id plan =>
    refine ⟨hs.files, hs.source, fun hc => ?_, hs.tip⟩
    exact hasSnapshot_deleteNode (hrows pc removed id plan hq hc) (hs.node hc)
  | _ => exact ⟨hs.files, hs.source, hs.node, hs.tip⟩

theorem Undamaged.step {e : ι × String} (hs : Undamaged src files p s)
    (hspares : Spares src files p s e) (h : step sha256 s e = some t) : Undamaged src files p t := by
  obtain ⟨q, now⟩ := e
  obtain ⟨⟨call, phase, hp, hintact⟩, hothers⟩ := hs
  by_cases hq : q = p
  · subst hq
    have hpub : Publishes sha256 s q now call phase t := by
      rcases step_cases h with ⟨call', phase', hp', h⟩ | ⟨_, _, hp', _⟩ | ⟨_, _, hp', _⟩ <;>
        rw [hp] at hp' <;> cases hp'
      exact h
    refine ⟨?_, fun r hr => ?_⟩
    · obtain ⟨phase', hp', hintact'⟩ := hintact.publishes hpub
      exact ⟨call, phase', hp', hintact'⟩
    · rw [procs_step h hr]
      exact hothers r hr
  · have hpurge : ∃ pc phase', s.procs q = .purge pc phase' ∧ Purges s q pc phase' t := by
      rcases step_cases h with ⟨_, _, hq', _⟩ | ⟨_, _, hq', _⟩ | ⟨pc, phase', hq', h⟩
      · rcases hothers q hq with hidle | ⟨_, _, hpurge⟩ <;> simp_all
      · rcases hothers q hq with hidle | ⟨_, _, hpurge⟩ <;> simp_all
      · exact ⟨pc, phase', hq', h⟩
    obtain ⟨pc, phase', hq', hpurges⟩ := hpurge
    refine ⟨⟨call, phase, ?_, hintact.purges hp hq' hspares hpurges⟩, fun r hr => ?_⟩
    · rw [procs_step h (Ne.symm hq), hp]
    · by_cases hrq : r = q
      · subst hrq
        cases hpurges <;> exact Or.inr ⟨_, _, procs_become_self _ _ _⟩
      · rw [procs_step h hrq]
        exact hothers r hr

theorem not_mem_removalPlan_of_tip {repo : Repository} {report : RetentionReport}
    {pins : List String} {plan : List (String × Option Path)} {b id : String}
    (h : repo.removalPlan report pins = .ok plan) (htip : repo.catalog.tipId b = some id)
    (hnode : repo.catalog.hasSnapshot id = true) : id ∉ plan.map Prod.fst := by
  intro hid
  obtain ⟨_, hsafe, hmem⟩ := (Repository.mem_removalPlan h).mp hid
  obtain ⟨rechecked, hrechecked, hprunable⟩ := hsafe.prunable id hmem
  have hroot : id ∈ discoverRoots repo.catalog pins := Repository.mem_discoverRoots_of_tip htip
  exact Repository.not_prunable_of_root hrechecked hroot hnode hprunable

/-! ## A purge that plans between the move and the commit -/

def raceFiles : FileSystem :=
  ((FileSystem.empty.mkdirs ["r", ".stage", "rows"]).bind fun fs =>
    if h : fs.Writable ["r", ".stage", "rows", "p"] then
      some (fs.put ["r", ".stage", "rows", "p"] (.file [1]) h) else none).getD .empty

def tipRepository : Repository :=
  (Repository.publishNode sha256Hex ⟨["r"], raceFiles, .empty⟩ (bareNode "c1" .checkpoint []) none none none "t").1

/-- The report is one of before the publication. -/
theorem not_mem_removalPlan_c1 : ∃ plan, tipRepository.removalPlan ⟨[], [], ["c1"], 1⟩ [] = .ok plan ∧
    "c1" ∉ plan.map Prod.fst := by
  cases h : tipRepository.removalPlan ⟨[], [], ["c1"], 1⟩ [] with
  | error e =>
    have hok : (tipRepository.removalPlan ⟨[], [], ["c1"], 1⟩ []).isOk = true := by decide +kernel
    rw [h] at hok
    cases hok
  | ok plan =>
    have htip : tipRepository.catalog.tipId "main" = some "c1" := by decide +kernel
    exact ⟨plan, rfl, not_mem_removalPlan_of_tip h htip (by decide +kernel)⟩

def raceCall : PublishCall where
  manifest := { bareNode "c1" .checkpoint [] with
    relations := Dict.empty.set "rows" [⟨"rows/p", "", 1, 1, none, none⟩] }
  staged := some ["r", ".stage"]
  expected := none
  branchName := none
  blocking := true

def publisherAndPurge (report : RetentionReport) : System Bool where
  repo := ⟨["r"], raceFiles, .empty⟩
  lock := fun _ => none
  procs := fun p => if p then .purge ⟨report, false, []⟩ .called else .publish raceCall .called

end System
end EdgarSec.Dag
