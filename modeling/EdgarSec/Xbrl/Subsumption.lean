import EdgarSec.Lib.Chunks
import EdgarSec.Lib.Reach
import EdgarSec.Xbrl.Partitions

/-! `MemberSubsumption`: which members of an axis the definition arcs put above which, and the
members that no other one is above. -/

namespace EdgarSec.Xbrl
open Lib

/-! ## Arcs -/

structure DefinitionArc where
  parentQname : String
  childQname : String
  arcrole : String
  usable : Option Bool := none
  deriving DecidableEq, Repr

/-- `arcrole.rsplit("/", 1)[-1]` -/
def arcroleKind (arcrole : String) : String :=
  String.ofList (arcrole.toList.reverse.takeWhile (· ≠ '/')).reverse

section Arcs
variable (arcs : List DefinitionArc)

def targetsOf (kind axis : String) : List String :=
  ((arcs.filter fun arc => arcroleKind arc.arcrole = kind ∧ arc.parentQname = axis).map
    DefinitionArc.childQname).dedup

def domains (axis : String) : List String := targetsOf arcs "dimension-domain" axis

def defaults (axis : String) : List String := targetsOf arcs "dimension-default" axis

def memberArcs : List DefinitionArc :=
  arcs.filter fun arc => arcroleKind arc.arcrole = "domain-member" ∧ arc.usable ≠ some false

def parents (child : String) : List String :=
  (((memberArcs arcs).filter fun arc => arc.childQname = child).map DefinitionArc.parentQname).dedup

def children (parent : String) : List String :=
  (((memberArcs arcs).filter fun arc => arc.parentQname = parent).map DefinitionArc.childQname).dedup

/-! ## Members of an axis -/

def defaultMember (axis : String) : Option String :=
  match defaults arcs axis with
  | [member] => some member
  | _ => none

def searchSteps : Nat := 2 * arcs.length + 1

def axisTree (axis : String) : List String :=
  flood (children arcs) (searchSteps arcs) (domains arcs axis) (domains arcs axis)

def isKnown (axis node : String) : Bool :=
  node ∈ axisTree arcs axis ∨ some node = defaultMember arcs axis

/-- `None` abstains. -/
def isSubsumed (axis child ancestor : String) : Option Bool :=
  if domains arcs axis = [] ∧ defaults arcs axis = [] then none
  else if child = ancestor ∨ some ancestor = defaultMember arcs axis then
    if isKnown arcs axis child then some true else none
  else if some child = defaultMember arcs axis then some false
  else if !isKnown arcs axis child || !isKnown arcs axis ancestor then none
  else some (searchFor (parents arcs) ancestor (searchSteps arcs) [child] [])

/-- The inner loop of `frontier`. -/
def subsumedByOther (axis member : String) : List String → Option Bool
  | [] => some false
  | other :: others =>
    if other = member then subsumedByOther axis member others
    else
      match isSubsumed arcs axis member other with
      | none => none
      | some true => some true
      | some false => subsumedByOther axis member others

def frontierLoop (axis : String) (members : List String) : List String → Option (List String)
  | [] => some []
  | member :: rest =>
    match subsumedByOther arcs axis member members with
    | none => none
    | some subsumed =>
      (frontierLoop axis members rest).map fun kept => if subsumed then kept else member :: kept

/-- Members not subsumed by any other listed member; `None` abstains. -/
def frontier (axis : String) (members : List String) : Option (List String) :=
  frontierLoop arcs axis members members

/-- The subsumption of a filing, as `classify_partitions` asks it. -/
def memberSubsumption : MemberSubsumption where
  frontier := frontier arcs
  isSubsumed axis child ancestor := isSubsumed arcs axis child ancestor = some true

/-! ## The order of the members -/

def Subsumed (axis child ancestor : String) : Prop := isSubsumed arcs axis child ancestor = some true

instance (axis : String) : DecidableRel (Subsumed arcs axis) := fun _ _ =>
  inferInstanceAs (Decidable (_ = _))

variable {arcs} {axis a b c : String}

def nodesOf (arcs : List DefinitionArc) (start : List String) : List String :=
  (start ++ arcs.map DefinitionArc.childQname ++ arcs.map DefinitionArc.parentQname).dedup

theorem mem_parents : b ∈ parents arcs a ↔
    ∃ arc ∈ memberArcs arcs, arc.childQname = a ∧ arc.parentQname = b := by
  simp [parents, and_assoc]

theorem length_parents_le (l : List String) (hnodup : l.Nodup) :
    (l.map fun a => (parents arcs a).length).sum ≤ arcs.length := by
  have hrows := sum_length_filter_le DefinitionArc.childQname hnodup (memberArcs arcs)
  refine le_trans (List.sum_le_sum ?_) (hrows.trans (List.length_filter_le _ _))
  intro a _
  have hparents := (List.dedup_sublist (((memberArcs arcs).filter fun arc => arc.childQname = a).map
    DefinitionArc.parentQname)).length_le
  rwa [List.length_map] at hparents

theorem mem_children : b ∈ children arcs a ↔
    ∃ arc ∈ memberArcs arcs, arc.parentQname = a ∧ arc.childQname = b := by
  simp [children, and_assoc]

theorem mem_axisTree : a ∈ axisTree arcs axis ↔
    ReachedFrom (children arcs) (domains arcs axis) a := by
  have hclosed : ∀ x ∈ arcs.map DefinitionArc.childQname, ∀ y ∈ children arcs x,
      y ∈ arcs.map DefinitionArc.childQname := by
    intro x _ y hy
    obtain ⟨arc, harc, _, rfl⟩ := Iff.mp mem_children hy
    exact List.mem_map_of_mem (List.mem_of_mem_filter harc)
  have hdomains : ∀ x ∈ domains arcs axis, x ∈ arcs.map DefinitionArc.childQname := by
    intro x hx
    obtain ⟨arc, harc, rfl⟩ := List.mem_map.mp (List.mem_dedup.mp hx)
    exact List.mem_map_of_mem (List.mem_of_mem_filter harc)
  have hlength : (domains arcs axis).length ≤ arcs.length := by
    refine (List.dedup_sublist _).length_le.trans ?_
    rw [List.length_map]
    exact List.length_filter_le _ _
  apply mem_flood_iff (List.nodup_dedup (arcs.map DefinitionArc.childQname))
  · intro x hx y hy
    exact List.mem_dedup.mpr (hclosed x (List.mem_dedup.mp hx) y hy)
  · exact fun x hx => List.mem_dedup.mpr (hdomains x hx)
  · exact fun x hx => hx
  · exact fun x hx hout => absurd hx hout
  · have hnodes := (List.dedup_sublist (arcs.map DefinitionArc.childQname)).length_le
    rw [List.length_map] at hnodes
    have hleft := List.length_filter_le (· ∉ domains arcs axis)
      (arcs.map DefinitionArc.childQname).dedup
    unfold searchSteps
    omega

theorem searchFor_parents : searchFor (parents arcs) b (searchSteps arcs) [a] [] = true ↔
    Relation.TransGen (Edge (parents arcs)) a b := by
  have hseen : ∀ x ∈ ([] : List String), b ∉ parents arcs x := fun x hx => absurd hx List.not_mem_nil
  have hclosed : ∀ x ∈ nodesOf arcs [a], ∀ y ∈ parents arcs x, y ∈ nodesOf arcs [a] := by
    intro x _ y hy
    obtain ⟨arc, harc, _, rfl⟩ := Iff.mp mem_parents hy
    have hmem : arc ∈ arcs := List.mem_of_mem_filter harc
    rw [nodesOf, List.mem_dedup]
    exact List.mem_append_right _ (List.mem_map_of_mem hmem)
  have hstart : ∀ x ∈ [a], x ∈ nodesOf arcs [a] := by
    intro x hx
    rw [nodesOf, List.mem_dedup]
    exact List.mem_append_left _ (List.mem_append_left _ hx)
  have hfrontier : Frontier (parents arcs) [a] [] := fun x hx => absurd hx List.not_mem_nil
  have hsteps : [a].length + edgesLeft (parents arcs) (nodesOf arcs [a]) [] ≤ searchSteps arcs := by
    have hedges := @length_parents_le arcs ((nodesOf arcs [a]).filter (· ∉ []))
      ((List.nodup_dedup _).filter _)
    unfold edgesLeft searchSteps
    rw [List.length_singleton]
    omega
  rw [searchFor_eq_any hseen, List.any_eq_true]
  constructor
  · intro ⟨x, hx, hb⟩
    obtain ⟨y, hy, hyx⟩ := (mem_search_iff (List.nodup_dedup _) hclosed hstart hfrontier hsteps).mp hx
    obtain rfl := List.mem_singleton.mp hy
    have hgoal : b ∈ parents arcs x := of_decide_eq_true hb
    exact Relation.TransGen.tail' hyx hgoal
  · intro hab
    obtain ⟨x, hax, hxb⟩ := Relation.TransGen.tail'_iff.mp hab
    have hb : b ∈ parents arcs x := hxb
    have hx := (mem_search_iff (List.nodup_dedup _) hclosed hstart hfrontier hsteps).mpr
      ⟨a, List.mem_singleton_self a, hax⟩
    exact ⟨x, hx, decide_eq_true hb⟩

theorem subsumed_iff : Subsumed arcs axis a b ↔ isKnown arcs axis a = true ∧
    ¬ (domains arcs axis = [] ∧ defaults arcs axis = []) ∧
      (a = b ∨ some b = defaultMember arcs axis ∨
        (some a ≠ defaultMember arcs axis ∧ isKnown arcs axis b = true ∧
          Relation.TransGen (Edge (parents arcs)) a b)) := by
  rw [← searchFor_parents]
  unfold Subsumed isSubsumed
  by_cases hnone : domains arcs axis = [] ∧ defaults arcs axis = []
  · simp [hnone]
  · rw [if_neg hnone]
    by_cases htop : a = b ∨ some b = defaultMember arcs axis
    · rw [if_pos htop]
      cases hknown : isKnown arcs axis a with
      | true => simp only [if_true, true_and]; tauto
      | false => simp
    · rw [if_neg htop]
      rw [not_or] at htop
      by_cases hdefault : some a = defaultMember arcs axis
      · simp [hdefault, htop]
      · rw [if_neg hdefault]
        cases hknown : isKnown arcs axis a with
        | false => simp
        | true =>
          cases hknownb : isKnown arcs axis b with
          | false => simp [htop]
          | true => simp [htop, hnone, hdefault]

theorem Subsumed.trans (hab : Subsumed arcs axis a b) (hbc : Subsumed arcs axis b c) :
    Subsumed arcs axis a c := by
  obtain ⟨hka, hdeclared, hab⟩ := Iff.mp subsumed_iff hab
  obtain ⟨-, -, hbc⟩ := Iff.mp subsumed_iff hbc
  rw [subsumed_iff]
  refine ⟨hka, hdeclared, ?_⟩
  rcases hbc with rfl | hc | ⟨hb, hkc, hbc⟩
  · exact hab
  · exact Or.inr (Or.inl hc)
  · rcases hab with rfl | hb' | ⟨ha, -, hab⟩
    · exact Or.inr (Or.inr ⟨hb, hkc, hbc⟩)
    · exact absurd hb' hb
    · exact Or.inr (Or.inr ⟨ha, hkc, hab.trans hbc⟩)

/-! ## The frontier -/

theorem subsumedByOther_eq_some {members : List String} {s : Bool}
    (h : subsumedByOther arcs axis a members = some s) :
    s = true ↔ ∃ b ∈ members, b ≠ a ∧ Subsumed arcs axis a b := by
  induction members with
  | nil =>
    obtain rfl := Option.some.inj h
    simp
  | cons b members ih =>
    rw [subsumedByOther] at h
    by_cases hb : b = a
    · rw [if_pos hb] at h
      rw [ih h]
      simp [hb]
    · rw [if_neg hb] at h
      cases hverdict : isSubsumed arcs axis a b with
      | none => simp [hverdict] at h
      | some verdict =>
        cases verdict with
        | true =>
          simp only [hverdict, Option.some.injEq] at h
          simp only [← h, true_iff]
          exact ⟨b, List.mem_cons_self, hb, hverdict⟩
        | false =>
          simp only [hverdict] at h
          rw [ih h]
          constructor
          · intro ⟨c, hc, hrest⟩
            exact ⟨c, List.mem_cons_of_mem _ hc, hrest⟩
          · intro ⟨c, hc, hne, hsub⟩
            rcases List.mem_cons.mp hc with rfl | hc
            · rw [Subsumed, hverdict] at hsub
              cases hsub
            · exact ⟨c, hc, hne, hsub⟩

theorem mem_frontierLoop {members rest kept : List String}
    (h : frontierLoop arcs axis members rest = some kept) :
    a ∈ kept ↔ a ∈ rest ∧ Topmost (Subsumed arcs axis) members a := by
  induction rest generalizing kept with
  | nil =>
    obtain rfl := Option.some.inj h
    simp
  | cons b rest ih =>
    rw [frontierLoop] at h
    cases hverdict : subsumedByOther arcs axis b members with
    | none => simp [hverdict] at h
    | some subsumed =>
      simp only [hverdict, Option.map_eq_some_iff] at h
      obtain ⟨kept', hkept', rfl⟩ := h
      have hmax : subsumed = false ↔ Topmost (Subsumed arcs axis) members b := by
        rw [← Bool.not_eq_true, subsumedByOther_eq_some hverdict]
        unfold Topmost
        push Not
        rfl
      cases subsumed with
      | true =>
        rw [if_pos rfl, ih hkept', List.mem_cons]
        constructor
        · intro ⟨hrest, ha⟩
          exact ⟨Or.inr hrest, ha⟩
        · rintro ⟨rfl | hrest, ha⟩
          · cases hmax.mpr ha
          · exact ⟨hrest, ha⟩
      | false =>
        rw [if_neg Bool.false_ne_true, List.mem_cons, ih hkept', List.mem_cons]
        constructor
        · rintro (rfl | ⟨hrest, ha⟩)
          · exact ⟨Or.inl rfl, hmax.mp rfl⟩
          · exact ⟨Or.inr hrest, ha⟩
        · rintro ⟨rfl | hrest, ha⟩
          · exact Or.inl rfl
          · exact Or.inr ⟨hrest, ha⟩

structure CoveringAntichain (arcs : List DefinitionArc) (axis : String) (members kept : List String) :
    Prop where
  antichain : ∀ a ∈ kept, ∀ b ∈ kept, b ≠ a → ¬ Subsumed arcs axis a b
  covering : ∀ a ∈ members, a ∉ kept → ∃ b ∈ kept, Subsumed arcs axis a b
  nonempty : members ≠ [] → kept ≠ []

/-- The frontier is a covering antichain exactly if two members that subsume each other have a
listed one strictly above them. -/
theorem frontier_covers_iff {members kept : List String} (h : frontier arcs axis members = some kept) :
    CoveringAntichain arcs axis members kept ↔ CyclesCovered (Subsumed arcs axis) members := by
  have hkept : ∀ a, a ∈ kept ↔ a ∈ members ∧ Topmost (Subsumed arcs axis) members a :=
    fun a => mem_frontierLoop h
  rw [← topmost_cover_iff (r := Subsumed arcs axis) fun _ _ _ => Subsumed.trans]
  constructor
  · intro hcovers a ha hnot
    obtain ⟨b, hb, hab⟩ := hcovers.covering a ha fun hin => hnot ((hkept a).mp hin).2
    exact ⟨b, ((hkept b).mp hb).1, ((hkept b).mp hb).2, hab⟩
  · intro hcover
    have hcovering : ∀ a ∈ members, a ∉ kept → ∃ b ∈ kept, Subsumed arcs axis a b := by
      intro a ha hout
      obtain ⟨b, hb, hmax, hab⟩ := hcover a ha fun hmax => hout ((hkept a).mpr ⟨ha, hmax⟩)
      exact ⟨b, (hkept b).mpr ⟨hb, hmax⟩, hab⟩
    refine ⟨?_, hcovering, ?_⟩
    · intro a ha b hb hne
      exact ((hkept a).mp ha).2 b ((hkept b).mp hb).1 hne
    · intro hne hnil
      obtain ⟨a, ha⟩ := List.exists_mem_of_ne_nil _ hne
      obtain ⟨b, hb, -⟩ := hcovering a ha (by simp [hnil])
      rw [hnil] at hb
      cases hb

/-! ## Two roles -/

def regionArcs : List DefinitionArc :=
  [⟨"ex:RegionAxis", "ex:RegionDomain", "http://xbrl.org/int/dim/arcrole/dimension-domain", none⟩,
    ⟨"ex:RegionDomain", "ex:AmericasMember", "http://xbrl.org/int/dim/arcrole/domain-member", none⟩,
    ⟨"ex:AmericasMember", "ex:CanadaMember", "http://xbrl.org/int/dim/arcrole/domain-member", none⟩]

theorem frontier_covers_regions :
    CoveringAntichain regionArcs "ex:RegionAxis" ["ex:AmericasMember", "ex:CanadaMember"]
      ["ex:AmericasMember"] := by
  refine (frontier_covers_iff (by decide +kernel)).mpr ?_
  unfold CyclesCovered
  decide +kernel

/-- One role puts the one member above the other, a second role the other above the one: both are
dropped, and a total of nothing is explained by no member. -/
theorem frontier_empties_cycle :
    frontier (regionArcs ++ [⟨"ex:CanadaMember", "ex:AmericasMember",
        "http://xbrl.org/int/dim/arcrole/domain-member", none⟩]) "ex:RegionAxis"
        ["ex:AmericasMember", "ex:CanadaMember"] = some [] ∧
      ¬ CoveringAntichain (regionArcs ++ [⟨"ex:CanadaMember", "ex:AmericasMember",
        "http://xbrl.org/int/dim/arcrole/domain-member", none⟩]) "ex:RegionAxis"
        ["ex:AmericasMember", "ex:CanadaMember"] [] ∧
      classifyPartitions ⟨[("ex:AmericasMember", 600), ("ex:CanadaMember", 400)], by decide⟩ 0
          (some "ex:RegionAxis") (some (memberSubsumption (regionArcs ++ [⟨"ex:CanadaMember",
            "ex:AmericasMember", "http://xbrl.org/int/dim/arcrole/domain-member", none⟩]))) =
        ⟨.nestedMembers, [[]], ["ex:AmericasMember", "ex:CanadaMember"], .arcs, false⟩ := by
  refine ⟨by decide +kernel, ?_, by decide +kernel⟩
  intro hcovers
  exact hcovers.nonempty (List.cons_ne_nil _ _) rfl

end Arcs
end EdgarSec.Xbrl
