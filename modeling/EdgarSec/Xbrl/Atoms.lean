import EdgarSec.Foundation.UpperCase

/-! Atoms: a prime head under a set of modifiers, all in upper case. -/

namespace EdgarSec.Xbrl
open Foundation

section Normal
variable (u : UpperCase)

def HasHeadPrefix (head : String) : Prop := "H_".toList <+: head.toList

instance : DecidablePred HasHeadPrefix := fun _ => inferInstanceAs (Decidable (_ <+: _))

/-- The head of an atom: it begins with `H_` and is its own upper case. -/
def IsHead (head : String) : Prop := HasHeadPrefix head ∧ u.stripUpper head = head

instance : DecidablePred (IsHead u) := fun _ => inferInstanceAs (Decidable (_ ∧ _))

def normHead (head : String) : String :=
  let norm := u.stripUpper head
  if HasHeadPrefix norm then norm else "H_" ++ norm

theorem isHead_normHead (head : String) : IsHead u (normHead u head) := by
  simp only [normHead]
  split_ifs with hhead
  · exact ⟨hhead, u.stripUpper_stripUpper head⟩
  · refine ⟨?_, u.stripUpper_prefixed head⟩
    rw [HasHeadPrefix, String.toList_append]
    exact List.prefix_append _ _

theorem normHead_of_isHead {head : String} (h : IsHead u head) : normHead u head = head := by
  simp only [normHead]
  rw [h.2, if_pos h.1]

def normModifiers (modifiers : Finset String) : Finset String :=
  (modifiers.filter (· ≠ "")).image u.stripUpper

theorem upper_normModifiers {modifiers : Finset String} {m : String} (h : m ∈ normModifiers u modifiers) :
    u.stripUpper m = m := by
  rw [normModifiers, Finset.mem_image] at h
  obtain ⟨m', -, rfl⟩ := h
  exact u.stripUpper_stripUpper m'

end Normal

structure Atom (u : UpperCase) where
  head : String
  modifiers : Finset String
  isHead : IsHead u head
  upper : ∀ m ∈ modifiers, u.stripUpper m = m
  deriving DecidableEq

namespace Atom
variable {u : UpperCase}

/-- What is kept as it is. -/
def Plain (u : UpperCase) (head : String) (modifiers : Finset String) : Prop :=
  IsHead u head ∧ ∀ m ∈ modifiers, m ≠ "" ∧ u.stripUpper m = m

instance {head : String} {modifiers : Finset String} : Decidable (Plain u head modifiers) :=
  inferInstanceAs (Decidable (_ ∧ _))

/-- The constructor, with its `__post_init__`. -/
def new (u : UpperCase) (head : String) (modifiers : Finset String) : Atom u :=
  if h : Plain u head modifiers then ⟨head, modifiers, h.1, fun m hm => (h.2 m hm).2⟩
  else
    { head := normHead u head
      modifiers := normModifiers u modifiers
      isHead := isHead_normHead u head
      upper := fun _ => upper_normModifiers u }

@[simp] theorem head_new (a : Atom u) (modifiers : Finset String) : (new u a.head modifiers).head = a.head := by
  have hnorm : normHead u a.head = a.head := normHead_of_isHead u a.isHead
  rw [new, apply_dite head]
  simp only [hnorm, dite_eq_ite, ite_self]

def isA (a other : Atom u) : Prop := a.head = other.head ∧ other.modifiers ⊆ a.modifiers

instance (a other : Atom u) : Decidable (a.isA other) := inferInstanceAs (Decidable (_ ∧ _))

end Atom
end EdgarSec.Xbrl
