import EdgarSec.Document.PageMarkers

/-! What a strip leaves of a text, against the artifacts that it returns. -/

namespace EdgarSec.Document
open Foundation Lib

/-! ## The text that is put together

It holds, up to blanks, what is between the ranges. -/

section Assembly
variable {α β μ : Type} {blank : α → Bool} {space : α} {needsJoin : List α → List α → Bool} {document : List α}
  {cuts : List (Cut μ)} {segments : List (List α)}

def visible (blank : α → Bool) (xs : List α) : List α := xs.filter fun x => !blank x

theorem visible_append (xs ys : List α) : visible blank (xs ++ ys) = visible blank xs ++ visible blank ys :=
  List.filter_append _ _

theorem visible_of_all {xs : List α} (h : xs.all blank = true) : visible blank xs = [] := by
  apply List.filter_eq_nil_iff.mpr
  intro x hx
  simp [List.all_eq_true.mp h x hx]

theorem visible_dropWhile (xs : List α) : visible blank (xs.dropWhile blank) = visible blank xs := by
  have hdropped : (xs.takeWhile blank).all blank = true := List.all_takeWhile
  have hsplit := List.takeWhile_append_dropWhile (p := blank) (l := xs)
  calc visible blank (xs.dropWhile blank)
      = visible blank (xs.takeWhile blank) ++ visible blank (xs.dropWhile blank) := by
        rw [visible_of_all hdropped, List.nil_append]
    _ = visible blank xs := by rw [← visible_append, hsplit]

theorem visible_rdropWhile (xs : List α) : visible blank (xs.rdropWhile blank) = visible blank xs := by
  have hreverse : ∀ ys : List α, visible blank ys.reverse = (visible blank ys).reverse :=
    fun ys => List.filter_reverse ..
  rw [List.rdropWhile, hreverse, visible_dropWhile, hreverse, List.reverse_reverse]

theorem visible_healSegments : visible blank (healSegments blank segments).flatten = visible blank segments.flatten := by
  induction segments with
  | nil => rfl
  | cons segment rest ih =>
    rw [healSegments]
    split_ifs with hall
    · rw [List.flatten_cons, List.flatten_cons, visible_append, visible_append, visible_of_all hall, ih]
      rfl
    · rw [List.flatten_cons, List.flatten_cons, visible_append, visible_append, visible_dropWhile]

theorem visible_assembleSegments (hspace : blank space = true) :
    visible blank (assembleSegments blank space needsJoin document cuts segments).flatten =
      visible blank (pieces document 0 cuts.reverse) ++ visible blank segments.flatten := by
  induction cuts generalizing segments with
  | nil => rfl
  | cons c before ih =>
    have hlast : lastStop 0 before.reverse = before.head?.elim 0 Cut.stop := by
      rw [lastStop, List.getLast?_reverse]
    have hjoined : ∀ intervening : List α,
        visible blank ((intervening.rdropWhile blank ++ [space]) :: healSegments blank segments).flatten =
          visible blank intervening ++ visible blank segments.flatten := by
      intro intervening
      have hgap : visible blank [space] = [] := visible_of_all (by simp [hspace])
      rw [List.flatten_cons, visible_append, visible_append, visible_rdropWhile, visible_healSegments, hgap,
        List.append_nil]
    rw [assembleSegments, List.reverse_cons, pieces_concat, visible_append, hlast, List.append_assoc]
    rw [ih]
    congr 1
    split_ifs
    · exact hjoined _
    · rw [List.flatten_cons, visible_append]

theorem visible_stripText (hspace : blank space = true) :
    visible blank (stripText blank space needsJoin document cuts) = visible blank (uncut document 0 cuts.reverse) := by
  have hlast : lastStop 0 cuts.reverse = cuts.head?.elim 0 Cut.stop := by
    rw [lastStop, List.getLast?_reverse]
  rw [stripText, visible_assembleSegments hspace, uncut_eq_pieces, visible_append, hlast]
  simp

/-! Characters may carry more than what the assembly looks at. -/

section Tags
variable {β : Type} {tag : α → β} {blank' : β → Bool} {needsJoin' : List β → List β → Bool}
  (hblank : ∀ x, blank' (tag x) = blank x)
include hblank

theorem map_dropWhile (xs : List α) : (xs.dropWhile blank).map tag = (xs.map tag).dropWhile blank' := by
  have hcomp : blank' ∘ tag = blank := funext hblank
  rw [List.dropWhile_map, hcomp]

theorem map_rdropWhile (xs : List α) : (xs.rdropWhile blank).map tag = (xs.map tag).rdropWhile blank' := by
  rw [List.rdropWhile, List.rdropWhile, List.map_reverse, map_dropWhile hblank, List.map_reverse]

theorem all_map (xs : List α) : (xs.map tag).all blank' = xs.all blank := by
  have hcomp : blank' ∘ tag = blank := funext hblank
  rw [List.all_map, hcomp]

theorem map_healSegments : (healSegments blank segments).map (List.map tag) =
    healSegments blank' (segments.map (List.map tag)) := by
  induction segments with
  | nil => rfl
  | cons segment rest ih =>
    rw [healSegments, List.map_cons, healSegments, all_map hblank]
    split_ifs
    · rw [List.map_cons, ih]
      rfl
    · rw [List.map_cons, map_dropWhile hblank]

theorem map_followingWindow : (followingWindow blank segments).map tag =
    followingWindow blank' (segments.map (List.map tag)) := by
  have hfind : (segments.map (List.map tag)).find? (fun segment => !segment.all blank') =
      (segments.find? fun segment => !segment.all blank).map (List.map tag) := by
    rw [List.find?_map]
    congr 2
    funext segment
    exact congrArg (! ·) (all_map hblank segment)
  rw [followingWindow, followingWindow, hfind]
  cases segments.find? fun segment => !segment.all blank with
  | none => rfl
  | some segment => 
    simp only [Option.map_some, List.map_take, map_dropWhile hblank]

theorem map_precedingWindow (start : Nat) : (precedingWindow blank document start).map tag =
    precedingWindow blank' (document.map tag) start := by
  rw [precedingWindow, precedingWindow, map_rdropWhile hblank, slice, slice, List.map_drop, List.map_take]

theorem joins_map (hjoin : ∀ xs ys, needsJoin' (xs.map tag) (ys.map tag) = needsJoin xs ys) (start : Nat) :
    joins blank' needsJoin' (document.map tag) (segments.map (List.map tag)) start =
      joins blank needsJoin document segments start := by
  rw [joins, joins, ← map_precedingWindow hblank, ← map_followingWindow hblank, hjoin, List.isEmpty_map,
    List.isEmpty_map, ← List.map_take, all_map hblank]

theorem map_stripText (hjoin : ∀ xs ys, needsJoin' (xs.map tag) (ys.map tag) = needsJoin xs ys) :
    (stripText blank space needsJoin document cuts).map tag =
      stripText blank' (tag space) needsJoin' (document.map tag) cuts := by
  have hsegments : ∀ segments : List (List α),
      (assembleSegments blank space needsJoin document cuts segments).map (List.map tag) =
        assembleSegments blank' (tag space) needsJoin' (document.map tag) cuts (segments.map (List.map tag)) := by
    induction cuts with
    | nil => exact fun _ => rfl
    | cons c before ih =>
      intro segments
      have hslice : ∀ a b, (slice document a b).map tag = slice (document.map tag) a b := by
        intro a b
        rw [slice, slice, List.map_drop, List.map_take]
      rw [assembleSegments, assembleSegments, ih, joins_map hblank hjoin]
      congr 1
      split_ifs
      · rw [List.map_cons, List.map_append, map_rdropWhile hblank, hslice, map_healSegments hblank]
        rfl
      · rw [List.map_cons, hslice]
  rw [stripText, stripText, List.map_flatten, hsegments, List.map_cons, List.map_drop]
  rfl

end Tags
end Assembly

/-! ## The ranges -/

section Ranges
variable {rules : MarkerRules} {document : List Char} {tables : List (Nat × Nat)} {p : Nat} {c : Char}

theorem eq_of_toLower_eq (h : c.toLower = '<') : c = '<' := by
  unfold Char.toLower at h
  split at h
  · rename_i hupper
    have hval : (c.val + ('a'.val - 'A'.val)).toNat = 60 := congrArg (fun c => c.val.toNat) h
    have hlow : 65 ≤ c.val.toNat := hupper.1
    have hhigh : c.val.toNat ≤ 90 := hupper.2
    have hsum : (c.val + ('a'.val - 'A'.val)).toNat = c.val.toNat + 32 := by
      rw [UInt32.toNat_add]
      change (c.val.toNat + 32) % 2 ^ 32 = _
      omega
    omega
  · exact h

theorem head_of_tableLength {cs : List Char} {n : Nat} (h : tableLength rules (c :: cs) = some n) : c = '<' := by
  unfold tableLength at h
  split_ifs at h with hopens
  have hprefix := (Bool.and_eq_true _ _ ▸ hopens).1
  rw [startsCaseless] at hprefix
  have hhead : '<' = c.toLower := by
    have hcons : (['<', 't', 'a', 'b', 'l', 'e'].isPrefixOf (c.toLower :: cs.map Char.toLower)) = true := hprefix
    exact beq_iff_eq.mp (Bool.and_eq_true _ _ ▸ hcons).1
  exact eq_of_toLower_eq hhead.symm

theorem of_mem_scanTables {cs : List Char} {pos skip : Nat} {table : Nat × Nat × Nat}
    (h : table ∈ scanTables rules pos skip cs) :
    table.1 ≤ table.2.1 ∧ ∃ k, table.1 = pos + k ∧ cs[k]? = some '<' := by
  induction cs generalizing pos skip with
  | nil => cases h
  | cons c cs ih =>
    have hlater : ∀ skip, table ∈ scanTables rules (pos + 1) skip cs →
        table.1 ≤ table.2.1 ∧ ∃ k, table.1 = pos + k ∧ (c :: cs)[k]? = some '<' := by
      intro skip hmem
      obtain ⟨hle, k, hk, hget⟩ := ih hmem
      exact ⟨hle, k + 1, by omega, hget⟩
    unfold scanTables at h
    cases skip with
    | succ skip => exact hlater skip h
    | zero =>
      cases hlength : tableLength rules (c :: cs) with
      | none =>
        rw [hlength] at h
        exact hlater 0 h
      | some n =>
        rw [hlength] at h
        rcases List.mem_cons.mp h with rfl | h
        · exact ⟨Nat.le_add_right pos n, 0, rfl, congrArg some (head_of_tableLength hlength)⟩
        · exact hlater (n - 1) h

theorem of_mem_compactTables {table : Nat × Nat} (h : table ∈ compactTables rules document) :
    table.1 ≤ table.2 ∧ document[table.1]? = some '<' := by
  obtain ⟨found, hfound, rfl⟩ := List.mem_map.mp h
  have hfound := (List.mem_filter.mp hfound).1
  unfold findTableRanges at hfound
  split_ifs at hfound
  · obtain ⟨hle, k, hk, hget⟩ := of_mem_scanTables hfound
    rw [Nat.zero_add] at hk
    exact ⟨hle, hk ▸ hget⟩
  · cases hfound

theorem widenedStop_eq (start stop : Nat) : widenedStop document start stop = stop ∨
    (widenedStop document start stop = stop + 1 ∧ document[stop]? = some '\n') := by
  unfold widenedStop
  split_ifs with hwiden
  · simp only [wholeLines, Bool.and_eq_true, Bool.or_eq_true, decide_eq_true_eq] at hwiden
    exact Or.inr ⟨rfl, hwiden.1.2.resolve_left (not_le.mpr hwiden.2)⟩
  · exact Or.inl rfl

theorem expandTableRange_eq (start stop : Nat) : expandTableRange start stop tables = (start, stop) ∨
    (expandTableRange start stop tables ∈ tables ∧
      touches start stop (expandTableRange start stop tables) = true) := by
  unfold expandTableRange
  cases hfind : tables.find? (touches start stop) with
  | none => exact Or.inl rfl
  | some table => exact Or.inr ⟨List.mem_of_find?_eq_some hfind, List.find?_some hfind⟩

theorem removalRange_proper (marker : PageMarker) :
    (removalRange document (compactTables rules document) marker).1 ≤
      (removalRange document (compactTables rules document) marker).2 := by
  unfold removalRange
  rcases @expandTableRange_eq (compactTables rules document) marker.start
    (widenedStop document marker.start marker.stop) with heq | ⟨hmem, _⟩
  · have hordered := marker.ordered
    rw [heq]
    rcases @widenedStop_eq document marker.start marker.stop with hstop | ⟨hstop, _⟩
    · exact hordered.trans_eq hstop.symm
    · exact (Nat.le_succ_of_le hordered).trans_eq hstop.symm
  · exact (of_mem_compactTables hmem).1

theorem of_mem_removalRange {marker : PageMarker} (hc : document[p]? = some c) (hvisible : isPySpace c = false)
    (hstart : (removalRange document (compactTables rules document) marker).1 ≤ p)
    (hstop : p < (removalRange document (compactTables rules document) marker).2) :
    (marker.start ≤ p ∧ p < marker.stop) ∨
      ∃ table ∈ compactTables rules document, touches marker.start marker.stop table = true ∧
        table.1 ≤ p ∧ p < table.2 := by
  have hwidened := @widenedStop_eq document marker.start marker.stop
  unfold removalRange at hstart hstop
  rcases @expandTableRange_eq (compactTables rules document) marker.start
    (widenedStop document marker.start marker.stop) with heq | ⟨hmem, htouch⟩
  · left
    rw [heq] at hstart hstop
    refine ⟨hstart, ?_⟩
    rcases hwidened with hsame | ⟨hnext, hnewline⟩
    · exact hsame ▸ hstop
    · -- what the widened span has more is the line break
      have hne : p ≠ marker.stop := by
        intro heq
        obtain rfl := Option.some.inj (hc.symm.trans (heq ▸ hnewline))
        exact absurd hvisible (by decide)
      rw [hnext] at hstop
      omega
  · right
    refine ⟨_, hmem, ?_, hstart, hstop⟩
    rcases hwidened with hsame | ⟨hnext, hnewline⟩
    · rwa [hsame] at htouch ⊢
    · -- no table starts at the line break
      have hopen := (of_mem_compactTables hmem).2
      rw [hnext] at htouch hopen ⊢
      have hne : (expandTableRange marker.start (marker.stop + 1) (compactTables rules document)).1 ≠
          marker.stop := by
        intro heq
        rw [heq, hnewline] at hopen
        exact absurd hopen (by decide)
      simp only [touches, Bool.and_eq_true, decide_eq_true_eq] at htouch ⊢
      exact ⟨by omega, htouch.2⟩

end Ranges

/-! ## What is planned -/

section Planned
variable {rules : MarkerRules} {document : List Char} {analysis : PageMarkerAnalysis} {p : Nat} {c : Char}

theorem noteArtifact_span (identity : String) (templates : Dict String TemplateEntry) (marker : PageMarker) :
    (noteArtifact rules identity templates marker).1.start = marker.start ∧
      (noteArtifact rules identity templates marker).1.stop = marker.stop := by
  unfold noteArtifact
  dsimp only
  split_ifs with hrepeating htemplate <;> exact ⟨rfl, rfl⟩

theorem noteArtifacts_spans (identity : String) (templates : Dict String TemplateEntry) (markers : List PageMarker) :
    (noteArtifacts rules identity templates markers).1.map (fun a => (a.start, a.stop)) =
      markers.map fun m => (m.start, m.stop) := by
  induction markers generalizing templates with
  | nil => rfl
  | cons marker rest ih =>
    obtain ⟨hstart, hstop⟩ := @noteArtifact_span rules identity templates marker
    rw [noteArtifacts, List.map_cons, List.map_cons, ih]
    exact congrArg (· :: _) (Prod.ext hstart hstop)

def markedRanges (rules : MarkerRules) (document : List Char) (markers : List PageMarker)
    (artifacts : List PageBreakArtifact) : List (Cut PageBreakArtifact) :=
  (markers.zip artifacts).map fun (marker, artifact) =>
    ⟨(removalRange document (compactTables rules document) marker).1,
      (removalRange document (compactTables rules document) marker).2, [artifact]⟩

theorem span_markedRanges {markers : List PageMarker} {artifacts : List PageBreakArtifact}
    (h : artifacts.length = markers.length) :
    (markedRanges rules document markers artifacts).map Cut.span =
      markers.map (removalRange document (compactTables rules document)) := by
  rw [markedRanges, List.map_map]
  have hfst : (markers.zip artifacts).map Prod.fst = markers := List.map_fst_zip h.ge
  calc _ = (markers.zip artifacts).map (removalRange document (compactTables rules document) ∘ Prod.fst) := rfl
    _ = _ := by rw [← List.map_map, hfst]

theorem members_markedRanges {markers : List PageMarker} {artifacts : List PageBreakArtifact}
    (h : artifacts.length = markers.length) :
    (markedRanges rules document markers artifacts).flatMap Cut.members = artifacts := by
  have hsnd : (markers.zip artifacts).map Prod.snd = artifacts := List.map_snd_zip h.le
  rw [markedRanges, List.flatMap_map]
  calc _ = (markers.zip artifacts).flatMap (fun e => [e.2]) := rfl
    _ = artifacts := by rw [← List.map_eq_flatMap, hsnd]

theorem proper_markedRanges {markers : List PageMarker} {artifacts : List PageBreakArtifact} :
    ∀ c ∈ markedRanges rules document markers artifacts, c.start ≤ c.stop := by
  intro c hc
  obtain ⟨⟨marker, artifact⟩, _, rfl⟩ := List.mem_map.mp hc
  exact removalRange_proper marker

theorem covered_plannedCuts : Cut.Covered (plannedCuts rules document analysis).1 p ↔
    Reached ((selectedMarkers rules document analysis).map
      (removalRange document (compactTables rules document))) p := by
  have hspans := fun identity => @noteArtifacts_spans rules identity .empty (selectedMarkers rules document analysis)
  have hlength := fun identity => by simpa using congrArg List.length (hspans identity)
  exact (covered_mergeCuts_iff proper_markedRanges).trans (by rw [span_markedRanges (hlength _)])

theorem descending_plannedCuts : Descending (plannedCuts rules document analysis).1 :=
  descending_mergeCuts proper_markedRanges

theorem members_plannedCuts :
    ((plannedCuts rules document analysis).1.reverse.flatMap Cut.members).map (fun a => (a.start, a.stop)) =
      (selectedMarkers rules document analysis).map fun m => (m.start, m.stop) := by
  have hspans := fun identity => @noteArtifacts_spans rules identity .empty (selectedMarkers rules document analysis)
  have hlength := fun identity => by simpa using congrArg List.length (hspans identity)
  refine (congrArg _ (members_mergeCuts.trans (members_markedRanges (hlength _)))).trans (hspans _)

end Planned

/-! ## What is removed against what is recorded

Every character of a run carries its position in the document; a space that joins two pieces
carries none. -/

section Recorded
variable (rules : MarkerRules)

abbrev Tagged := Char × Option Nat

def untag (xs : List Tagged) : List Char := xs.map Prod.fst

def tagged (document : List Char) : List Tagged := document.zipIdx.map fun e => (e.1, some e.2)

/-- The text of `applyPageMarkers`, with the positions its characters come from. -/
def taggedText (analyzePageMarkers : List Char → PageMarkerAnalysis) (document : List Char)
    (analysis : Option PageMarkerAnalysis) : List Tagged :=
  if document = [] then []
  else stripText (fun e => isPySpace e.1) (' ', none) (fun xs ys => needsJoin rules (untag xs) (untag ys))
    (tagged document) (plannedCuts rules document (usedAnalysis analyzePageMarkers document analysis)).1

def InSpan (artifacts : List PageBreakArtifact) (p : Nat) : Prop := ∃ a ∈ artifacts, a.start ≤ p ∧ p < a.stop

def InTouchedTable (document : List Char) (artifacts : List PageBreakArtifact) (p : Nat) : Prop :=
  ∃ table ∈ compactTables rules document, (∃ a ∈ artifacts, touches a.start a.stop table = true) ∧
    table.1 ≤ p ∧ p < table.2

structure RemovesRecorded (document : List Char) (artifacts : List PageBreakArtifact) (text : List Tagged) :
    Prop where
  inOrder : (visible (fun e => isPySpace e.1) text).Sublist (tagged document)
  keeps : ∀ p c, document[p]? = some c → isPySpace c = false → ¬ InSpan artifacts p →
    ¬ InTouchedTable rules document artifacts p → (c, some p) ∈ text
  removes : ∀ p c, document[p]? = some c → isPySpace c = false → InSpan artifacts p → (c, some p) ∉ text

variable {rules} {document : List Char} {analysis : PageMarkerAnalysis} {p : Nat} {c : Char}

theorem untag_tagged : untag (tagged document) = document := by
  unfold untag tagged
  rw [List.map_map]
  exact List.zipIdx_map_fst ..

theorem map_uncut {α β μ : Type} (f : α → β) (xs : List α) (n : Nat) (cuts : List (Cut μ)) :
    (uncut xs n cuts).map f = uncut (xs.map f) n cuts := by
  induction cuts generalizing n with
  | nil => exact List.map_drop ..
  | cons c cuts ih => rw [uncut, uncut, List.map_append, ih, slice, slice, List.map_drop, List.map_take]

theorem mem_tagged_stripText {μ : Type} {cuts : List (Cut μ)} {needsJoin : List Tagged → List Tagged → Bool}
    (hcuts : Descending cuts) (hc : document[p]? = some c) (hvisible : isPySpace c = false) :
    (c, some p) ∈ stripText (fun e => isPySpace e.1) (' ', none) needsJoin (tagged document) cuts ↔
      ¬ Cut.Covered cuts p := by
  have hmem : ∀ xs : List Tagged, (c, some p) ∈ visible (fun e => isPySpace e.1) xs ↔ (c, some p) ∈ xs := by
    intro xs
    unfold visible
    rw [List.mem_filter]
    simp [hvisible]
  have hinjective : ∀ e : Char × Nat, (e.1, some e.2) = (c, some p) ↔ e = (c, p) := by
    intro e
    simp [Prod.ext_iff]
  rw [← hmem, visible_stripText (by decide), hmem, tagged, ← map_uncut, List.mem_map]
  simp only [hinjective, exists_eq_right, mem_uncut_zipIdx hcuts.fits, hc, Nat.zero_le, true_and]
  unfold Cut.Covered
  simp only [List.mem_reverse]

theorem untag_taggedText (analyze : List Char → PageMarkerAnalysis) (document : List Char)
    (analysis : Option PageMarkerAnalysis) (firstId : Nat) :
    untag (taggedText rules analyze document analysis) =
      (applyPageMarkers rules analyze document analysis firstId).text := by
  unfold taggedText applyPageMarkers
  by_cases hempty : document = []
  · rw [if_pos hempty, if_pos hempty]
    rfl
  · rw [if_neg hempty, if_neg hempty]
    have hstrip : ∀ cuts : List (Cut PageBreakArtifact), untag (stripText (fun e => isPySpace e.1) (' ', none)
        (fun xs ys => needsJoin rules (untag xs) (untag ys)) (tagged document) cuts) =
          stripText isPySpace ' ' (needsJoin rules) document cuts := by
      intro cuts
      calc _ = stripText isPySpace ' ' (needsJoin rules) (untag (tagged document)) cuts :=
            map_stripText (fun _ => rfl) (fun _ _ => rfl)
        _ = _ := by rw [untag_tagged]
    dsimp only
    rw [hstrip]
    split_ifs with hcuts
    · rw [hcuts]
      simp [stripText, assembleSegments]
    · rfl

theorem artifacts_spans {analyze : List Char → PageMarkerAnalysis} {analysis : Option PageMarkerAnalysis}
    {firstId : Nat} (h : document ≠ []) :
    (applyPageMarkers rules analyze document analysis firstId).artifacts.map (fun a => (a.start, a.stop)) =
      (selectedMarkers rules document (usedAnalysis analyze document analysis)).map fun m => (m.start, m.stop) := by
  rw [← members_plannedCuts]
  unfold applyPageMarkers
  rw [if_neg h]
  dsimp only
  split_ifs with hcuts
  · rw [hcuts]
    rfl
  · rfl

theorem reached_of_inside {markers : List PageMarker} {tables : List (Nat × Nat)}
    (hsorted : markers.Pairwise fun m m' => m.start ≤ m'.start)
    (hinside : ∀ m ∈ markers, (removalRange document tables m).1 ≤ m.start ∧
      m.stop ≤ (removalRange document tables m).2) {marker : PageMarker} (hmarker : marker ∈ markers)
    (hstart : marker.start ≤ p) (hstop : p < marker.stop) :
    Reached (markers.map (removalRange document tables)) p := by
  obtain ⟨before, after, rfl⟩ := List.append_of_mem hmarker
  have hrange := hinside marker hmarker
  refine ⟨before.map (removalRange document tables), _, after.map (removalRange document tables),
    List.map_append, ⟨hrange.1.trans hstart, hstop.trans_le hrange.2⟩, ?_⟩
  intro r hr
  obtain ⟨m, hm, rfl⟩ := List.mem_map.mp hr
  have hbefore : m.start ≤ marker.start := (List.pairwise_append.mp hsorted).2.2 m hm marker List.mem_cons_self
  exact ((hinside m (List.mem_append_left _ hm)).1.trans hbefore).trans hstart

end Recorded

def plainRules : MarkerRules where
  isWord c := c.isAlphanum || c = '_'
  isLower := Char.isLower
  negativeBoundary _ := false
  normalizeTemplateText _ := ("HEAD <TABLE> row </TABLE>", none)
  sha1 _ := "5f3c1c6a1ce6d3d7a0ad4a8ff2e5a2e5f3c1c6a1"
  sha256 _ := "e3b0c44298fc1c149afbf4c8996fb92427ae41e4649b934ca495991b7852b855"

def bannerPage : List Char := "HEAD\n<TABLE>\nrow\n</TABLE>\nbody".toList

def bannerBlock : PageMarker :=
  ⟨0, 25, "HEAD\n<TABLE>\nrow\n</TABLE>", .repeatingHeader, none, some 0, some 3, "", "text", by decide⟩

def bannerAnalysis : PageMarkerAnalysis where
  decisions := [⟨bannerBlock, .remove⟩]
  sourceText := bannerPage
  sourceIdentity := "page"
  within := by
    intro decision hdecision
    obtain rfl := List.mem_singleton.mp hdecision
    decide +kernel

end EdgarSec.Document
