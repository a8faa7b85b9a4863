import EdgarSec.Foundation.Unicode

/-! `text.strip().upper()`: doing it twice changes nothing, also behind a prefix in upper case. -/

namespace EdgarSec.Foundation

structure UpperCase extends Unicode where
  upper_ne_nil : ∀ c, isAscii c = false → upper c ≠ []
  upper_upper : ∀ c, isAscii c = false → ∀ d ∈ upper c,
    (if isAscii d then [d.toUpper] else upper d) = [d]
  upper_space : ∀ c, isAscii c = false → isPySpace c = false → ∀ d ∈ upper c, isPySpace d = false

namespace UpperCase
variable (u : UpperCase)

def upperChar (c : Char) : Chars := if isAscii c then [c.toUpper] else u.upper c

/-- `text.strip().upper()` -/
def stripUpper (text : String) : String := String.ofList (u.uppered (stripChars text.toList))

variable {u} {c d : Char} {text : Chars}

theorem isPySpace_toUpper (hc : isAscii c = true) : isPySpace c.toUpper = isPySpace c := by
  have hall : ∀ n : Fin 128, isPySpace (Char.ofNat n).toUpper = isPySpace (Char.ofNat n) := by
    decide +kernel
  have hlt : c.toNat < 128 := of_decide_eq_true hc
  have hone := hall ⟨c.toNat, hlt⟩
  rwa [Char.ofNat_toNat] at hone

theorem upperChar_ne_nil : u.upperChar c ≠ [] := by
  unfold upperChar
  cases hc : isAscii c with
  | true => exact List.cons_ne_nil _ _
  | false => exact u.upper_ne_nil c hc

theorem upperChar_of_mem (h : d ∈ u.upperChar c) : u.upperChar d = [d] := by
  unfold upperChar at h ⊢
  cases hc : isAscii c with
  | true =>
    rw [hc, if_pos rfl, List.mem_singleton] at h
    have hall : ∀ n : Fin 128, isAscii (Char.ofNat n).toUpper = true := by decide +kernel
    have hlt : c.toNat < 128 := of_decide_eq_true hc
    have hascii := hall ⟨c.toNat, hlt⟩
    rw [Char.ofNat_toNat] at hascii
    rw [h, hascii, if_pos rfl, Char.toUpper_toUpper_eq_toUpper]
  | false =>
    rw [hc] at h
    exact u.upper_upper c hc d h

theorem isPySpace_of_mem_upperChar (hc : isPySpace c = false) (h : d ∈ u.upperChar c) :
    isPySpace d = false := by
  unfold upperChar at h
  cases hascii : isAscii c with
  | true =>
    rw [hascii, if_pos rfl, List.mem_singleton] at h
    rw [h, isPySpace_toUpper hascii, hc]
  | false =>
    rw [hascii] at h
    exact u.upper_space c hascii hc d h

theorem uppered_eq : u.uppered text = text.flatMap u.upperChar := rfl

theorem uppered_uppered : u.uppered (u.uppered text) = u.uppered text := by
  have hself : ∀ l : Chars, (∀ d ∈ l, u.upperChar d = [d]) → l.flatMap u.upperChar = l := by
    intro l
    induction l with
    | nil => exact fun _ => rfl
    | cons d l ih =>
      intro hl
      rw [List.flatMap_cons, hl d List.mem_cons_self, ih fun x hx => hl x (List.mem_cons_of_mem _ hx)]
      rfl
  rw [uppered_eq, uppered_eq]
  apply hself
  intro d hd
  obtain ⟨c, -, hdc⟩ := List.mem_flatMap.mp hd
  exact upperChar_of_mem hdc

def Stripped (text : Chars) : Prop :=
  (∀ h : text ≠ [], isPySpace (text.head h) = false) ∧ ∀ h : text ≠ [], isPySpace (text.getLast h) = false

theorem stripChars_of_stripped (h : Stripped text) : stripChars text = text := by
  have hdrop : text.dropWhile isPySpace = text := by
    cases text with
    | nil => rfl
    | cons c rest =>
      have hhead := h.1 (List.cons_ne_nil _ _)
      rw [List.head_cons] at hhead
      rw [List.dropWhile_cons_of_neg (by simp [hhead])]
  rw [stripChars, hdrop, List.rdropWhile_eq_self_iff]
  intro hne
  rw [h.2 hne]
  exact Bool.false_ne_true

theorem stripped_stripChars : Stripped (stripChars text) := by
  constructor
  · intro h
    have hcut : stripChars text <+: text.dropWhile isPySpace := List.rdropWhile_prefix _ _
    have hne : text.dropWhile isPySpace ≠ [] := by
      intro hnil
      rw [hnil] at hcut
      exact h (List.prefix_nil.mp hcut)
    rw [hcut.head h]
    exact List.head_dropWhile_not isPySpace hne
  · intro h
    have hlast := List.rdropWhile_last_not isPySpace (text.dropWhile isPySpace) h
    exact Bool.eq_false_iff.mpr hlast

theorem stripped_uppered (h : Stripped text) : Stripped (u.uppered text) := by
  constructor
  · intro hne
    cases text with
    | nil => exact absurd rfl hne
    | cons c rest =>
      have hc := h.1 (List.cons_ne_nil _ _)
      rw [List.head_cons] at hc
      apply isPySpace_of_mem_upperChar hc
      have hhead : (u.uppered (c :: rest)).head hne = (u.upperChar c).head upperChar_ne_nil := by
        simp only [uppered_eq, List.flatMap_cons]
        rw [List.head_append_of_ne_nil]
      rw [hhead]
      exact List.head_mem _
  · intro hne
    rcases List.eq_nil_or_concat' text with rfl | ⟨rest, c, rfl⟩
    · exact absurd rfl hne
    · have hc := h.2 (by simp)
      rw [List.getLast_concat] at hc
      apply isPySpace_of_mem_upperChar hc
      have hlast : (u.uppered (rest ++ [c])).getLast hne = (u.upperChar c).getLast upperChar_ne_nil := by
        simp only [uppered_eq, List.flatMap_append, List.flatMap_singleton]
        rw [List.getLast_append_of_ne_nil]
      rw [hlast]
      exact List.getLast_mem _

theorem stripUpper_stripUpper (text : String) : u.stripUpper (u.stripUpper text) = u.stripUpper text := by
  unfold stripUpper
  rw [String.toList_ofList, stripChars_of_stripped (stripped_uppered stripped_stripChars), uppered_uppered]

theorem stripUpper_prefixed (text : String) :
    u.stripUpper ("H_" ++ u.stripUpper text) = "H_" ++ u.stripUpper text := by
  have hstripped : Stripped (u.uppered (stripChars text.toList)) := stripped_uppered stripped_stripChars
  have htext : ("H_" ++ u.stripUpper text).toList =
      'H' :: '_' :: u.uppered (stripChars text.toList) := by
    have hlit : "H_".toList = ['H', '_'] := by decide
    rw [String.toList_append, hlit, stripUpper, String.toList_ofList, List.cons_append,
      List.cons_append, List.nil_append]
  have hprefixed : Stripped ('H' :: '_' :: u.uppered (stripChars text.toList)) := by
    refine ⟨fun _ => rfl, fun h => ?_⟩
    rw [List.getLast_cons_cons]
    by_cases hnil : u.uppered (stripChars text.toList) = []
    · simp [hnil, isPySpace]
    · rw [List.getLast_cons hnil]
      exact hstripped.2 hnil
  have hupper : u.uppered ('H' :: '_' :: u.uppered (stripChars text.toList)) =
      'H' :: '_' :: u.uppered (stripChars text.toList) := by
    have hrest := @uppered_uppered u (stripChars text.toList)
    rw [uppered_eq] at hrest
    have hh : u.upperChar 'H' = ['H'] := if_pos (by decide)
    have hscore : u.upperChar '_' = ['_'] := if_pos (by decide)
    rw [uppered_eq, List.flatMap_cons, List.flatMap_cons, hrest, hh, hscore, List.cons_append,
      List.nil_append, List.cons_append, List.nil_append]
  rw [stripUpper, htext, stripChars_of_stripped hprefixed, hupper]
  rw [← htext, String.ofList_toList]

end UpperCase
end EdgarSec.Foundation
