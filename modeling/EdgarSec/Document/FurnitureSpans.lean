import EdgarSec.Document.RepeatingHeaders

/-! The spans of repeated blocks: they go from the beginning of a line to the end of a later one. -/

namespace EdgarSec.Document
open Foundation Lib

/-! ## Lines that are observed -/

section Observed
variable {u : Unicode} {rules : HeaderRules} {lines : List Chars}

theorem windowFrom_lt {direction : Int} {boundary : List Nat} {allowTable : Bool} {fuel characters taken : Nat} {index : Int} {j : Nat}
    (h : j ∈ windowFrom u rules lines direction boundary allowTable fuel index characters taken) : j < lines.length := by
  induction fuel generalizing index characters taken with
  | zero => exact absurd h List.not_mem_nil
  | succ fuel ih =>
    unfold windowFrom at h
    split at h
    case isTrue => exact absurd h List.not_mem_nil
    case isFalse hinside =>
    have hown : index.toNat < lines.length := by omega
    simp only at h
    split_ifs at h with hboundary hblank hpage htag hallow hopen hclose hstandalone hchars
    · exact absurd h List.not_mem_nil
    · exact ih h
    · exact absurd h List.not_mem_nil
    · exact absurd h List.not_mem_nil
    · split at h
      · exact absurd h List.not_mem_nil
      · next close hfind =>
        rcases List.mem_append.mp h with h | h
        · have hclose := List.mem_of_find?_eq_some hfind
          rw [List.mem_range'_1] at h hclose
          omega
        · exact ih h
    · split at h
      · exact absurd h List.not_mem_nil
      · next first hfind =>
        rcases List.mem_append.mp h with h | h
        · rw [List.mem_reverse, List.mem_range'_1] at h
          have hfirst := List.mem_of_find?_eq_some hfind
          rw [List.mem_reverse, List.mem_range'_1] at hfirst
          omega
        · exact ih h
    · exact absurd h List.not_mem_nil
    · exact absurd h List.not_mem_nil
    · exact absurd h List.not_mem_nil
    · rcases List.mem_cons.mp h with rfl | h
      · exact hown
      · exact ih h

theorem lineIndex_of_observe {tocLines boundary : List Nat} {allowTable : Bool} {scan : FurnitureSide → List (Int × Option Nat)} {o : Observation}
    (h : o ∈ observe u rules lines tocLines boundary allowTable scan) : o.lineIndex < lines.length := by
  obtain ⟨side, -, h⟩ := List.mem_flatMap.mp h
  obtain ⟨anchor, -, h⟩ := List.mem_flatMap.mp h
  obtain ⟨⟨index, slot⟩, hindex, h⟩ := List.mem_filterMap.mp h
  have hwindow : index ∈ collectWindow u rules lines anchor.1.1 side.direction boundary allowTable := by
    have hplace := List.mem_zipIdx' hindex
    rw [hplace.2]
    exact List.getElem_mem hplace.1
  have hlt : index < lines.length := windowFrom_lt hwindow
  simp only at h
  split at h
  · rw [← Option.some.inj h]
    exact hlt
  · exact absurd h.symm (Option.some_ne_none o)

/-! ## Members of groups -/

variable {observations : List Observation}

theorem mem_of_observationGroups {group : GroupKey × List Observation} (h : group ∈ observationGroups observations) {o : Observation}
    (ho : o ∈ group.2) : o ∈ observations := by
  obtain ⟨key, -, rfl⟩ := List.mem_map.mp h
  exact List.mem_of_mem_filter ho

theorem mem_of_observedGroups {allowTable : Bool} {anchorCount : FurnitureSide → Nat} {group : ObservedGroup}
    (h : group ∈ observedGroups allowTable anchorCount (observationGroups observations)) {o : Observation} (ho : o ∈ group.members) :
    o ∈ observations := by
  rcases List.mem_append.mp h with h | h
  · obtain ⟨own, hown, h⟩ := List.mem_flatMap.mp h
    obtain ⟨run, -, rfl⟩ := List.mem_map.mp (List.mem_of_mem_filter h)
    exact mem_of_observationGroups hown (List.mem_of_mem_filter ho)
  · obtain ⟨own, hown, h⟩ := List.mem_filterMap.mp h
    unfold persistentGroup at h
    simp only at h
    split at h
    · rw [← Option.some.inj h] at ho
      exact mem_of_observationGroups (List.mem_of_mem_filter hown) ho
    · exact absurd h.symm (Option.some_ne_none group)

def InDocument (lines : List Chars) (members : List (List Observation)) : Prop := ∀ group ∈ members, ∀ o ∈ group, o.lineIndex < lines.length

theorem InDocument.modify {members : List (List Observation)} (h : InDocument lines members) {o : Observation} (ho : o.lineIndex < lines.length) (index : Nat) :
    InDocument lines (members.modify index (· ++ [o])) := by
  intro group hgroup o' ho'
  obtain ⟨i, hi, rfl⟩ := List.getElem_of_mem hgroup
  rw [List.getElem_modify] at ho'
  have hlt : i < members.length := by simpa using hi
  split at ho'
  · rcases List.mem_append.mp ho' with ho' | ho'
    · exact h _ (List.getElem_mem hlt) o' ho'
    · rw [List.mem_singleton.mp ho']
      exact ho
  · exact h _ (List.getElem_mem hlt) o' ho'

theorem InDocument.augment {members : List (List Observation)} (h : InDocument lines members) {observed : List ObservedGroup} {o : Observation}
    (ho : o.lineIndex < lines.length) : InDocument lines (augment observed members o) := by
  unfold Document.augment
  split
  · exact h
  · split
    · exact h
    · exact h.modify ho _

theorem bannerLine_lt {templates : List Chars} {table : Nat × Nat} {banner : Nat} (htable : table.2 < lines.length)
    (h : bannerLine u rules lines templates table = some banner) : banner < lines.length := by
  unfold bannerLine at h
  simp only at h
  split at h
  · exact absurd h.symm (Option.some_ne_none banner)
  · have hmem := List.mem_of_mem_filter (List.mem_of_find?_eq_some h)
    rw [List.mem_range'_1] at hmem
    omega

theorem InDocument.recoverTable {members : List (List Observation)} (h : InDocument lines members) {footers : List ((Nat × Chars) × Nat)} {table : Nat × Nat}
    (htable : table.2 < lines.length) : InDocument lines (recoverTable u rules lines footers members table) := by
  unfold Document.recoverTable
  split
  · exact h
  · next banner hbanner =>
    refine List.foldlRecOn _ _ h fun members h f _ => ?_
    simp only
    split
    · exact h
    · exact h.modify (bannerLine_lt htable hbanner) _

theorem taggedTables_lt {table : Nat × Nat} (h : table ∈ taggedTables u lines) : table.2 < lines.length := by
  have hall : ∀ table ∈ (lines.zipIdx.foldl (tableStep u) ([], [])).2, table.2 < lines.length := by
    refine List.foldlRecOn (motive := fun state : List Nat × List (Nat × Nat) => ∀ table ∈ state.2, table.2 < lines.length) _ _ ?_ ?_
    · exact fun _ hmem => absurd hmem List.not_mem_nil
    · intro state hstate line hline
      have hlt : line.2 < lines.length := by
        have := (List.mem_zipIdx' hline).1
        exact this
      unfold tableStep
      split
      · exact hstate
      · split
        · split
          · exact hstate
          · intro table htable
            rcases List.mem_append.mp htable with htable | htable
            · exact hstate table htable
            · rw [List.mem_singleton.mp htable]
              exact hlt
        · exact hstate
  exact hall table h

theorem inDocument_groupMembers {allowTable : Bool} {anchorCount : FurnitureSide → Nat} (h : ∀ o ∈ observations, o.lineIndex < lines.length) :
    InDocument lines (groupMembers u rules lines allowTable (observationGroups observations)
      (observedGroups allowTable anchorCount (observationGroups observations))) := by
  have hown : InDocument lines ((observedGroups allowTable anchorCount (observationGroups observations)).map fun group =>
      group.members.insertionSort byAnchor) := by
    intro group hgroup o ho
    obtain ⟨own, hmem, rfl⟩ := List.mem_map.mp hgroup
    exact h o (mem_of_observedGroups hmem ((List.mem_insertionSort _).mp ho))
  have haugmented := List.foldlRecOn (motive := InDocument lines) ((observationGroups observations).flatMap Prod.snd)
    (augment (observedGroups allowTable anchorCount (observationGroups observations))) hown fun members hmembers o ho => by
      obtain ⟨group, hgroup, ho⟩ := List.mem_flatMap.mp ho
      exact hmembers.augment (h o (mem_of_observationGroups hgroup ho))
  unfold groupMembers
  simp only
  split
  · exact haugmented
  · exact List.foldlRecOn (motive := InDocument lines) _ _ haugmented fun members hmembers table htable => hmembers.recoverTable (taggedTables_lt htable)

theorem mem_of_removeGroup {observed : List ObservedGroup} {state : Removal} {group : ObservedGroup × List Observation} {o : Observation}
    (h : o ∈ (removeGroup observed state group).removable) : o ∈ state.removable ∨ o ∈ group.2 := by
  unfold removeGroup at h
  simp only at h
  revert h
  refine List.foldlRecOn (motive := fun s : Removal => o ∈ s.removable → o ∈ state.removable ∨ o ∈ group.2) _ _ Or.inl ?_
  intro s hs member hmember h
  have hin : member ∈ group.2 := (List.mem_insertionSort _).mp ((List.mem_insertionSort _).mp hmember)
  unfold removeMember at h
  split at h
  · exact hs h
  · rcases List.mem_append.mp h with h | h
    · exact hs h
    · rw [List.mem_singleton.mp h]
      exact .inr hin

theorem mem_of_unique {retained : List Nat} {removable : List Observation} {o : Observation}
    (h : o ∈ ((removable.foldl (uniqueStep lines retained) Dict.empty).items).map Prod.snd) : o ∈ removable := by
  obtain ⟨⟨line, o⟩, hitem, rfl⟩ := List.mem_map.mp h
  revert hitem
  refine List.foldlRecOn (motive := fun unique : Dict Nat Observation => (line, o) ∈ unique.items → o ∈ removable) _ _ ?_ ?_
  · exact fun hmem => absurd hmem List.not_mem_nil
  · intro unique hunique next hnext hmem
    unfold uniqueStep at hmem
    have hset : (line, o) ∈ (unique.set next.lineIndex next).items → o ∈ removable := by
      intro hmem
      have hget := Iff.mpr Dict.get?_eq_some_iff hmem
      rw [Dict.get?_set] at hget
      split at hget
      · rw [← Option.some.inj hget]
        exact hnext
      · exact hunique (Iff.mp Dict.get?_eq_some_iff hget)
    split at hmem
    · exact hunique hmem
    · split at hmem
      · exact hset hmem
      · split at hmem
        · exact hset hmem
        · exact hunique hmem

theorem lineIndex_of_removable {observed : List ObservedGroup} {members : List (List Observation)} (h : InDocument lines members) {o : Observation}
    (ho : o ∈ removableLines lines observed members) : o.lineIndex < lines.length := by
  have hremovable := mem_of_unique ho
  revert hremovable
  refine List.foldlRecOn (motive := fun state : Removal => o ∈ state.removable → o.lineIndex < lines.length) _ _ ?_ ?_
  · exact fun hmem => absurd hmem List.not_mem_nil
  · intro state hstate group hgroup hmem
    rcases mem_of_removeGroup hmem with hmem | hmem
    · exact hstate hmem
    · exact h group.2 (List.of_mem_zip hgroup).2 o hmem

end Observed

/-! ## Blocks -/

structure OverLines (lines : List Chars) (first last start stop : Nat) : Prop where
  order : first ≤ last
  last_lt : last < lines.length
  begins : (lineOffsets lines).getD first 0 ≤ start
  ordered : start ≤ stop
  ends : stop ≤ (lineOffsets lines).getD last 0 + (lines.getD last []).length

section Blocks
variable {u : Unicode} {lines : List Chars}

theorem openTags_le (start : Nat) : openTags u lines start ≤ start := by
  induction start with
  | zero => exact le_refl 0
  | succ start ih =>
    unfold openTags
    split
    · exact ih.trans (Nat.le_succ start)
    · exact le_refl _

theorem closeTags_bounds {fuel last : Nat} (hlast : last < lines.length) :
    last ≤ closeTags u lines fuel last ∧ closeTags u lines fuel last < lines.length := by
  induction fuel generalizing last with
  | zero => exact ⟨le_refl _, hlast⟩
  | succ fuel ih =>
    unfold closeTags
    split
    case isTrue hnext =>
      have hrest := ih hnext.1
      exact ⟨(Nat.le_succ last).trans hrest.1, hrest.2⟩
    case isFalse => exact ⟨le_refl _, hlast⟩

theorem overLines_blockOf {side : FurnitureSide} {first last : Nat} (hle : first ≤ last) (hlt : last < lines.length) :
    OverLines lines (blockOf lines side first last).startLine (blockOf lines side first last).endLine
      (blockOf lines side first last).start (blockOf lines side first last).stop := by
  refine ⟨hle, hlt, le_refl _, ?_, le_refl _⟩
  have := offset_le hle hlt
  show (lineOffsets lines).getD first 0 ≤ (lineOffsets lines).getD last 0 + _
  omega

theorem overLines_blocksOf {side : FurnitureSide} {selected : List Nat} {start previous : Nat} {rest : List Nat} {block : BlockSpan}
    (hle : start ≤ previous) (hprevious : previous < lines.length) (hrest : ∀ index ∈ rest, previous ≤ index ∧ index < lines.length)
    (hsorted : rest.Pairwise (· ≤ ·)) (h : block ∈ blocksOf u lines side selected start previous rest) :
    OverLines lines block.startLine block.endLine block.start block.stop := by
  induction rest generalizing start previous with
  | nil =>
    have hclose : previous ≤ closeTags u lines lines.length previous ∧ closeTags u lines lines.length previous < lines.length :=
      closeTags_bounds hprevious
    rw [List.mem_singleton.mp h]
    exact overLines_blockOf ((openTags_le start).trans (hle.trans hclose.1)) hclose.2
  | cons index rest ih =>
    have hindex := hrest index List.mem_cons_self
    obtain ⟨hfirst, hsorted⟩ := List.pairwise_cons.mp hsorted
    have hlater : ∀ later ∈ rest, index ≤ later ∧ later < lines.length :=
      fun later hlater => ⟨hfirst later hlater, (hrest later (List.mem_cons_of_mem _ hlater)).2⟩
    unfold blocksOf at h
    split at h
    · rcases List.mem_cons.mp h with rfl | h
      · exact overLines_blockOf hle hprevious
      · exact ih (le_refl index) hindex.2 hlater hsorted h
    · exact ih (hle.trans hindex.1) hindex.2 hlater hsorted h

theorem overLines_merge {observations : List Observation} (hlines : ∀ o ∈ observations, o.lineIndex < lines.length) {block : BlockSpan}
    (h : block ∈ mergeObservations u lines observations) : OverLines lines block.startLine block.endLine block.start block.stop := by
  obtain ⟨key, -, h⟩ := List.mem_flatMap.mp h
  simp only at h
  generalize hindices : ((observations.filter fun o => decide ((o.side, o.anchorPosition) = key)).map Observation.lineIndex).insertionSort (· ≤ ·) = indices at h
  have hall : ∀ index ∈ indices, index < lines.length := by
    intro index hindex
    rw [← hindices, List.mem_insertionSort] at hindex
    obtain ⟨o, ho, rfl⟩ := List.mem_map.mp hindex
    exact hlines o (List.mem_of_mem_filter ho)
  have hsorted : indices.Pairwise (· ≤ ·) := by
    rw [← hindices]
    exact List.pairwise_insertionSort (· ≤ ·) _
  cases indices with
  | nil => exact absurd h List.not_mem_nil
  | cons first rest =>
    obtain ⟨hfirst, hsorted⟩ := List.pairwise_cons.mp hsorted
    refine overLines_blocksOf (le_refl first) (hall first List.mem_cons_self) (fun index hindex => ?_) hsorted h
    exact ⟨hfirst index hindex, hall index (List.mem_cons_of_mem _ hindex)⟩

theorem overLines_coalesce {spans : List BlockSpan} (hspans : ∀ span ∈ spans, OverLines lines span.startLine span.endLine span.start span.stop)
    {block : Coalesced} (h : block ∈ coalesce spans) : OverLines lines block.startLine block.endLine block.start block.stop := by
  have hall : ∀ block ∈ (spans.insertionSort fun a b => a.startLine ≤ b.startLine).foldl coalesceStep [],
      OverLines lines block.startLine block.endLine block.start block.stop := by
    refine List.foldlRecOn (motive := fun blocks : List Coalesced => ∀ block ∈ blocks, OverLines lines block.startLine block.endLine block.start block.stop)
      _ _ (fun _ hmem => absurd hmem List.not_mem_nil) fun blocks hblocks span hspan => ?_
    have hown := hspans span ((List.mem_insertionSort _).mp hspan)
    unfold coalesceStep
    split
    · intro block hblock
      rw [List.mem_singleton.mp hblock]
      exact hown
    · next previous before =>
      have hprevious := hblocks previous List.mem_cons_self
      split
      · intro block hblock
        rcases List.mem_cons.mp hblock with rfl | hblock
        · -- the later of the two last lines ends the block
          have hlast : max previous.endLine span.endLine < lines.length := max_lt hprevious.last_lt hown.last_lt
          refine ⟨hprevious.order.trans (le_max_left _ _), hlast, hprevious.begins, hprevious.ordered.trans (le_max_left _ _), ?_⟩
          have within : ∀ i ≤ max previous.endLine span.endLine, (lineOffsets lines).getD i 0 + (lines.getD i []).length ≤
              (lineOffsets lines).getD (max previous.endLine span.endLine) 0 + (lines.getD (max previous.endLine span.endLine) []).length := by
            intro i hi
            rcases Nat.eq_or_lt_of_le hi with rfl | hlt
            · exact le_refl _
            · have := offset_lt hlt hlast
              omega
          exact max_le (hprevious.ends.trans (within _ (le_max_left _ _))) (hown.ends.trans (within _ (le_max_right _ _)))
        · exact hblocks block (List.mem_cons_of_mem _ hblock)
      · intro block hblock
        rcases List.mem_cons.mp hblock with rfl | hblock
        · exact hown
        · exact hblocks block hblock
  exact hall block (List.mem_reverse.mp h)

end Blocks

/-! ## The markers of repeated blocks -/

theorem overLines_repeatedBlocks {u : Unicode} {rules : HeaderRules} {lines : List Chars} {scan : HeaderScan} {boundary : List Nat}
    {anchors : FurnitureSide → List (Int × Option Nat)} {block : Coalesced}
    (h : block ∈ (repeatedBlocks u rules lines scan boundary anchors).2) :
    OverLines lines block.startLine block.endLine block.start block.stop := by
  have hobserved : ∀ o ∈ observe u rules lines scan.tocLines boundary scan.allowTableFurniture anchors, o.lineIndex < lines.length :=
    fun o ho => lineIndex_of_observe ho
  unfold repeatedBlocks at h
  simp only at h
  generalize observe u rules lines scan.tocLines boundary scan.allowTableFurniture anchors = observations at h hobserved
  have hmembers := @inDocument_groupMembers u rules lines observations scan.allowTableFurniture (fun side => (anchors side).length) hobserved
  generalize observedGroups scan.allowTableFurniture (fun side => (anchors side).length) (observationGroups observations) = observed at h hmembers
  generalize groupMembers u rules lines scan.allowTableFurniture (observationGroups observations) observed = members at h hmembers
  have hlines : ∀ o ∈ removableLines lines observed members, o.lineIndex < lines.length := fun o ho => lineIndex_of_removable hmembers ho
  generalize removableLines lines observed members = removable at h hlines
  have hmerged : ∀ span ∈ mergeObservations u lines removable, OverLines lines span.startLine span.endLine span.start span.stop :=
    fun span hspan => overLines_merge hlines hspan
  exact overLines_coalesce hmerged h

theorem overLines_headers (u : Unicode) (rules : HeaderRules) (text : Chars) (markers : List FoundMarker) (scan : HeaderScan) :
    ∀ m ∈ (analyzeRepeatingHeaders u rules text markers scan).2, OverLines (splitlines text) m.startLine m.endLine m.start m.stop := by
  intro m hm
  unfold analyzeRepeatingHeaders at hm
  simp only at hm
  generalize deduplicateAnchors (if scan.headerAnchors = [] then anchorsOf markers else scan.headerAnchors) = headers at hm
  generalize deduplicateAnchors (if scan.footerAnchors = [] then anchorsOf markers else scan.footerAnchors) = footers at hm
  by_cases hfew : max headers.length footers.length < 3
  · rw [if_pos hfew] at hm
    exact absurd hm List.not_mem_nil
  · simp only [if_neg hfew, List.mem_map] at hm
    obtain ⟨block, hblock, hmarker⟩ := hm
    have hblocks := overLines_repeatedBlocks hblock
    rw [← hmarker]
    exact hblocks

section Spans
variable {text : Chars} {first last start stop : Nat}

theorem OverLines.inText (h : OverLines (splitlines text) first last start stop) : InText text (start, stop) :=
  ⟨h.ordered, h.ends.trans (offset_add_length_le text h.last_lt)⟩

theorem getD_zero (l : List Nat) (hne : l ≠ []) : l.getD 0 0 = l.head hne := by
  cases l with
  | nil => exact absurd rfl hne
  | cons a rest => rfl

theorem le_lineForOffset {p : Nat} (hfirst : first < (splitlines text).length) (h : (lineOffsets (splitlines text)).getD first 0 ≤ p) :
    first ≤ lineForOffset (lineOffsets (splitlines text)) p := by
  rw [lineForOffset, length_lineOffsets, bisectRight]
  generalize htaken : (lineOffsets (splitlines text)).takeWhile (fun a => decide (a ≤ p)) = taken
  have hlong : first < taken.length := by
    by_contra hshort
    -- the line after those taken begins behind the position, and no later than `first` does
    have hsplit := List.takeWhile_append_dropWhile (p := fun a => decide (a ≤ p)) (l := lineOffsets (splitlines text))
    rw [htaken] at hsplit
    have hlen : (lineOffsets (splitlines text)).length = taken.length + ((lineOffsets (splitlines text)).dropWhile fun a => decide (a ≤ p)).length := by
      rw [← List.length_append, hsplit]
    rw [length_lineOffsets] at hlen
    have hne : (lineOffsets (splitlines text)).dropWhile (fun a => decide (a ≤ p)) ≠ [] := by
      intro hnil
      rw [hnil, List.length_nil] at hlen
      omega
    have hhead := List.head_dropWhile_not (fun a => decide (a ≤ p)) hne
    have hvalue : (lineOffsets (splitlines text)).getD taken.length 0 = ((lineOffsets (splitlines text)).dropWhile fun a => decide (a ≤ p)).head hne := by
      conv_lhs => rw [← hsplit]
      rw [List.getD_append_right _ _ _ _ (le_refl _), Nat.sub_self]
      exact getD_zero _ hne
    have hle := offset_le (Nat.le_of_not_lt hshort) hfirst
    rw [hvalue] at hle
    simp only [decide_eq_false_iff_not, not_le] at hhead
    omega
  omega

theorem lineForOffset_le {p : Nat} (hlast : last < (splitlines text).length) (hp : p ≤ (lineOffsets (splitlines text)).getD last 0 + ((splitlines text).getD last []).length) :
    lineForOffset (lineOffsets (splitlines text)) p ≤ last := by
  by_contra hlt
  have hindex : lineForOffset (lineOffsets (splitlines text)) p < (splitlines text).length := by
    rw [lineForOffset, length_lineOffsets]
    omega
  have hbegin : (lineOffsets (splitlines text)).getD (lineForOffset (lineOffsets (splitlines text)) p) 0 ≤ p :=
    offset_lineForOffset_le p
  have hbehind := offset_lt (Nat.lt_of_not_le hlt) hindex
  omega

theorem OverLines.liesIn (hone : OneCharEnds text) (h : OverLines (splitlines text) first last start stop) : LiesIn text first last start stop := by
  intro p hp hstop
  have htext := h.inText.2
  have hlt : p < text.length := Nat.lt_of_lt_of_le hstop htext
  rw [← lineForOffset_eq hone hlt]
  have hbegin := h.begins
  have hend := h.ends
  exact ⟨le_lineForOffset (Nat.lt_of_le_of_lt h.order h.last_lt) (by omega), lineForOffset_le h.last_lt (by omega)⟩

end Spans
end EdgarSec.Document
