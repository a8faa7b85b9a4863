import EdgarSec.Dag.CompareAndSwap

/-! Publications that raise: the tables stay as they were, the staged directory only if it
was not moved before the catalog refused the manifest. -/

namespace EdgarSec.Dag
open Foundation Lib

structure SameTree (fs fs' : FileSystem) (p : Path) : Prop where
  place : fs'.place p = fs.place p
  entries : ∀ q, fs.place p = some q → ∀ rest, fs'.entry (q ++ rest) = fs.entry (q ++ rest)

theorem SameTree.refl (fs : FileSystem) (p : Path) : SameTree fs fs p := ⟨rfl, fun _ _ _ => rfl⟩

theorem entry_source_move {fs fs' : FileSystem} {src dst d : Path}
    (h : fs.move src dst = some (fs', d)) :
    ∃ s, fs.place src = some s ∧ fs.entry s ≠ none ∧ fs'.entry s = none := by
  obtain ⟨s, hs, h⟩ := Option.bind_eq_some_iff.mp h
  obtain ⟨mid, hmid, h⟩ := Option.bind_eq_some_iff.mp h
  obtain ⟨d', _, h⟩ := Option.bind_eq_some_iff.mp h
  refine ⟨s, hs, ?_⟩
  split at h
  · rename_i hmovable
    split at h
    · rename_i hentry
      obtain ⟨rfl, rfl⟩ := Prod.mk.inj (Option.some.inj h)
      have hgone : (mid.relocate s d' hmovable).entry s = none := by
        rw [FileSystem.entry_relocate, if_neg hmovable.apart, if_pos (List.prefix_refl s)]
      refine ⟨?_, hgone⟩
      -- parents are only made for a directory, which is an entry
      unfold FileSystem.withParents at hmid
      split at hmid
      · rename_i hdir
        simp [hdir]
      · obtain rfl := Option.some.inj hmid
        exact hentry.1
    · cases h
  · cases h

/-! ## What an insert takes -/

/-- The id is recorded with this digest or this logical fingerprint, or it is new, with a
depth that is not negative and no parent twice. -/
def Catalog.Accepts (sha256 : Bytes → String) (cat : Catalog) (m : DAGNodeManifest) : Prop :=
  (∃ row, cat.node? m.snapshotId = some row ∧
    (row.manifestSha256 = canonicalHash sha256 m.toDict ∨
      (row.logicalFingerprint ≠ "" ∧ row.logicalFingerprint = m.logicalFingerprint))) ∨
  (cat.node? m.snapshotId = none ∧ 0 ≤ m.lineageDepth ∧ (m.parents.map (·.snapshotId)).Nodup)

theorem Catalog.accepts_iff {sha256 : Bytes → String} {cat : Catalog} {m : DAGNodeManifest} :
    cat.Accepts sha256 m ↔ ∃ cat', cat.insertManifest sha256 m = .ok cat' := by
  constructor
  · intro h
    unfold insertManifest
    rcases h with ⟨row, hrow, hsame⟩ | ⟨hnew, hdepth, hparents⟩
    · refine ⟨cat, ?_⟩
      split
      · rename_i row' hrow'
        obtain rfl := Option.some.inj (hrow.symm.trans hrow')
        exact if_pos hsame
      · rename_i hnone
        rw [hrow] at hnone
        cases hnone
    · split
      · rename_i row hrow
        rw [hnew] at hrow
        cases hrow
      · rename_i hnone
        exact ⟨cat.addManifest m (canonicalHash sha256 m.toDict) hnone hparents, by
          simp only [if_neg (not_lt.mpr hdepth), dif_pos hparents]⟩
  · rintro ⟨cat', h⟩
    rcases insertManifest_cases h with ⟨_, hrow⟩ | ⟨hnew, hparents, hdepth, _⟩
    · exact Or.inl hrow
    · exact Or.inr ⟨hnew, hdepth, hparents⟩

namespace Repository

theorem commit_eq_ok_iff {sha256 : Bytes → String} {repo : Repository} {m : DAGNodeManifest}
    {branchName now : String} :
    (∃ repo', repo.commit sha256 m branchName now = .ok repo') ↔ repo.catalog.Accepts sha256 m := by
  unfold commit Catalog.publishNode
  simp only [map_eq_ok, Catalog.accepts_iff]
  constructor
  · rintro ⟨_, _, ⟨cat, hcat, _⟩, _⟩
    exact ⟨cat, hcat⟩
  · rintro ⟨cat, hcat⟩
    exact ⟨_, _, ⟨cat, hcat, rfl⟩, rfl⟩

/-! ## What moves before the commit -/

/-- A staged directory that stands, whose place in the repository is free, goes there. -/
def Moves (repo : Repository) (snapshotId : String) (staged : Option Path) : Prop :=
  ∃ src, staged = some src ∧ repo.files.pathExists src = true ∧
    repo.files.pathExists (repo.snapshotDir snapshotId) = false ∧
    (repo.files.move src (repo.snapshotDir snapshotId)).isSome = true

theorem moveStaged_cases {repo moved : Repository} {snapshotId : String} {staged place : Option Path}
    (h : repo.moveStaged snapshotId staged = .ok (moved, place)) :
    (moved = repo ∧ ¬ repo.Moves snapshotId staged) ∨
    ∃ src d, staged = some src ∧ repo.Moves snapshotId staged ∧
      repo.files.move src (repo.snapshotDir snapshotId) = some (moved.files, d) := by
  cases staged with
  | none =>
    obtain ⟨rfl, _⟩ := Prod.mk.inj (Except.ok.inj h)
    refine Or.inl ⟨rfl, ?_⟩
    rintro ⟨src, hsrc, _⟩
    cases hsrc
  | some src =>
    simp only [moveStaged] at h
    split at h
    · rename_i hfree
      split at h
      · rename_i files d hmove
        obtain ⟨rfl, _⟩ := Prod.mk.inj (Except.ok.inj h)
        have hmoves : repo.Moves snapshotId (some src) :=
          ⟨src, rfl, hfree.1, by simpa using hfree.2, by rw [hmove]; rfl⟩
        exact Or.inr ⟨src, d, rfl, hmoves, hmove⟩
      · cases h
    · rename_i hfree
      obtain ⟨rfl, _⟩ := Prod.mk.inj (Except.ok.inj h)
      refine Or.inl ⟨rfl, ?_⟩
      rintro ⟨src', hsrc, hexists, hnone, _⟩
      obtain rfl := Option.some.inj hsrc
      exact hfree ⟨hexists, by simpa using hnone⟩

theorem not_moves_of_moveStaged_error {repo : Repository} {snapshotId : String}
    {staged : Option Path} {e : DagError} (h : repo.moveStaged snapshotId staged = .error e) :
    ¬ repo.Moves snapshotId staged := by
  rintro ⟨src, rfl, hexists, hnone, hmove⟩
  obtain ⟨⟨files, d⟩, hmove⟩ := Option.isSome_iff_exists.mp hmove
  simp [moveStaged, hexists, hnone, hmove] at h

/-! ## Publications that raise -/

/-- What a publication touches, as it was: the tables, the staged directory and the
directory of the snapshot. -/
structure Untouched (before after : Repository) (snapshotId : String) (staged : Option Path) :
    Prop where
  catalog : after.catalog = before.catalog
  staged : ∀ src, staged = some src → SameTree before.files after.files src
  target : SameTree before.files after.files (before.snapshotDir snapshotId)

theorem Untouched.refl (repo : Repository) (snapshotId : String) (staged : Option Path) :
    Untouched repo repo snapshotId staged :=
  ⟨rfl, fun src _ => SameTree.refl repo.files src, SameTree.refl repo.files _⟩

section
variable {sha256 : Bytes → String} {repo : Repository} {m : DAGNodeManifest} {staged : Option Path}
  {expected branchName : Option String} {now : String} {e : DagError}

theorem publishNode_error_cases
    (h : (repo.publishNode sha256 m staged expected branchName now).2 = .error e) :
    ((repo.publishNode sha256 m staged expected branchName now).1 = repo ∧
      (repo.catalog.tipId (targetBranch branchName) ≠ expected ∨
        ¬ repo.Moves m.snapshotId staged)) ∨
    (repo.catalog.tipId (targetBranch branchName) = expected ∧ ¬ repo.catalog.Accepts sha256 m ∧
      ∃ src d, staged = some src ∧ repo.Moves m.snapshotId staged ∧
        repo.files.move src (repo.snapshotDir m.snapshotId) =
          some ((repo.publishNode sha256 m staged expected branchName now).1.files, d)) := by
  unfold publishNode at h ⊢
  cases htip : repo.checkTip (targetBranch branchName) expected with
  | error e' =>
    refine Or.inl ⟨rfl, Or.inl fun heq => ?_⟩
    rw [checkTip_eq_ok.mpr heq] at htip
    cases htip
  | ok u =>
    simp only [htip] at h ⊢
    cases hmove : repo.moveStaged m.snapshotId staged with
    | error e' => exact Or.inl ⟨rfl, Or.inr (not_moves_of_moveStaged_error hmove)⟩
    | ok done =>
      obtain ⟨moved, place⟩ := done
      simp only [hmove] at h ⊢
      cases hcommit : moved.commit sha256 m (targetBranch branchName) now with
      | ok done =>
        simp [hcommit] at h
      | error e' =>
        simp only
        have hcat := (catalog_moveStaged hmove).1
        have hrefused : ¬ repo.catalog.Accepts sha256 m := by
          rw [← hcat, ← commit_eq_ok_iff, hcommit]
          rintro ⟨_, hok⟩
          cases hok
        rcases moveStaged_cases hmove with ⟨rfl, hstays⟩ | ⟨src, d, hsrc, hmoves, hmove⟩
        · exact Or.inl ⟨rfl, Or.inr hstays⟩
        · exact Or.inr ⟨checkTip_eq_ok.mp htip, hrefused, src, d, hsrc, hmoves, hmove⟩

theorem publishNode_raises (htip : repo.catalog.tipId (targetBranch branchName) = expected)
    (hrefused : ¬ repo.catalog.Accepts sha256 m) :
    ∃ e, (repo.publishNode sha256 m staged expected branchName now).2 = .error e := by
  unfold publishNode
  rw [checkTip_eq_ok.mpr htip]
  cases hmove : repo.moveStaged m.snapshotId staged with
  | error e => exact ⟨e, rfl⟩
  | ok done =>
    obtain ⟨moved, place⟩ := done
    cases hcommit : moved.commit sha256 m (targetBranch branchName) now with
    | error e => exact ⟨e, by simp [hcommit]⟩
    | ok done =>
      rw [← (catalog_moveStaged hmove).1] at hrefused
      exact absurd (commit_eq_ok_iff.mp ⟨done, hcommit⟩) hrefused

/-- A publication that raises leaves what it touches as it was exactly when the tip is
stale, nothing was moved, or the catalog would have taken the manifest. -/
theorem publishNode_failed_untouched_iff :
    (∀ e, (repo.publishNode sha256 m staged expected branchName now).2 = .error e →
      Untouched repo (repo.publishNode sha256 m staged expected branchName now).1 m.snapshotId
        staged) ↔
    (repo.catalog.tipId (targetBranch branchName) ≠ expected ∨
      ¬ repo.Moves m.snapshotId staged ∨ repo.catalog.Accepts sha256 m) := by
  constructor
  · intro h
    by_contra hcond
    push Not at hcond
    obtain ⟨htip, hmoves, hrefused⟩ := hcond
    obtain ⟨e, he⟩ : ∃ e, (repo.publishNode sha256 m staged expected branchName now).2 = .error e :=
      publishNode_raises htip hrefused
    have huntouched := h e he
    rcases publishNode_error_cases he with ⟨_, hor⟩ | ⟨_, _, src, d, hsrc, _, hmove⟩
    · rcases hor with hstale | hstays
      · exact hstale htip
      · exact hstays hmoves
    · obtain ⟨s, hs, hstood, hgone⟩ := entry_source_move hmove
      have hsame := (huntouched.staged src hsrc).entries s hs []
      rw [List.append_nil] at hsame
      exact hstood (hsame ▸ hgone)
  · intro hcond e he
    rcases publishNode_error_cases he with ⟨hsame, _⟩ | ⟨htip, hrefused, src, d, hsrc, hmoves, _⟩
    · rw [hsame]
      exact Untouched.refl repo m.snapshotId staged
    · rcases hcond with hstale | hstays | haccepts
      · exact absurd htip hstale
      · exact absurd hmoves hstays
      · exact absurd haccepts hrefused

end

/-! ## A parent listed twice -/

/-- The checkpoint `c0` is published, and the directory of `d1` is staged. -/
def stagedRepository : Except DagError Repository :=
  (Catalog.empty.recordNodes sha256Hex [System.bareNode "c0" .checkpoint []]).map fun cat =>
    ⟨["r"], (FileSystem.empty.mkdirs ["r", "staged"]).getD .empty, cat.writePointer "main" "c0" "t0"⟩

/-- The staged directory has become `r/d1` although the catalog refused the node. -/
theorem publishNode_refused_after_move : ∃ repo, stagedRepository = .ok repo ∧
    (repo.publishNode sha256Hex (System.bareNode "d1" .delta ["c0", "c0"]) (some ["r", "staged"])
      (some "c0") none "t1").2 = .error (.integrityError
        "UNIQUE constraint failed: node_parents.snapshot_id, node_parents.parent_id") ∧
    ¬ Untouched repo (repo.publishNode sha256Hex (System.bareNode "d1" .delta ["c0", "c0"])
      (some ["r", "staged"]) (some "c0") none "t1").1 "d1" (some ["r", "staged"]) := by
  refine ⟨_, rfl, rfl, fun h => ?_⟩
  have hsame := (h.staged ["r", "staged"] rfl).entries ["r", "staged"] (by decide +kernel) []
  revert hsame
  decide +kernel

end Repository
end EdgarSec.Dag
