import KafkaCharm.Lib.Text

namespace PyText

/-- A line that assigns a value to a key. -/
def assignment (sep : Char) (key value : Str) : Str := key ++ sep :: value

/-- All that the lines assign to a key. -/
def assigned (sep : Char) (key : Str) (lines : List Str) : List Str :=
  optionValues (key ++ [sep]) lines

/-- Each line is empty or assigns to a key of this kind. -/
def Assigns (sep : Char) (kind : Str → Prop) (lines : List Str) : Prop :=
  ∀ line ∈ lines, line = [] ∨
    ∃ key value, kind key ∧ sep ∉ key ∧ line = assignment sep key value

section
variable {sep : Char} {key key' line : Str} {lines lines' : List Str}

theorem assigned_eq_nil_iff :
    assigned sep key lines = [] ↔ ∀ line ∈ lines, ¬ key ++ [sep] <+: line := by
  unfold assigned optionValues
  rw [List.filterMap_eq_nil_iff]
  refine forall₂_congr fun line _ => ?_
  constructor
  · rintro hnone ⟨value, rfl⟩
    rw [dropPrefix?_self] at hnone
    cases hnone
  · intro hprefix
    cases hfound : line.dropPrefix? (key ++ [sep]) with
    | none => rfl
    | some value => exact absurd ⟨value, (dropPrefix?_suffix hfound).symm⟩ hprefix

/-- Fewer lines do not assign more. -/
theorem assigned_eq_nil_of_subset (h : assigned sep key lines = []) (hsub : lines' ⊆ lines) :
    assigned sep key lines' = [] :=
  assigned_eq_nil_iff.mpr fun line hline => assigned_eq_nil_iff.mp h line (hsub hline)

/-- A line begins with one key only. -/
theorem key_of_assignment (hkey : sep ∉ key) (hkey' : sep ∉ key') {value : Str}
    (h : key ++ [sep] <+: assignment sep key' value) : key = key' := by
  obtain ⟨rest, hrest⟩ := h
  have hline : key ++ sep :: rest = key' ++ sep :: value := by simpa [assignment] using hrest
  have hkeys := congrArg (List.takeWhile (· ≠ sep)) hline
  rwa [takeWhile_append_sep hkey, takeWhile_append_sep hkey'] at hkeys

theorem assigned_other (hkey : sep ∉ key) (hkey' : sep ∉ key') (hne : key ≠ key') (value : Str) :
    assigned sep key [assignment sep key' value] = [] := by
  refine assigned_eq_nil_iff.mpr (List.forall_mem_singleton.mpr ?_)
  exact fun h => hne (key_of_assignment hkey hkey' h)

end

namespace Assigns

variable {sep : Char} {kind : Str → Prop} {lines lines' : List Str}

theorem nil : Assigns sep kind [] := fun _ h => absurd h List.not_mem_nil

theorem cons {key : Str} (hkind : kind key) (hkey : sep ∉ key) (value : Str)
    (h : Assigns sep kind lines) : Assigns sep kind (assignment sep key value :: lines) :=
  List.forall_mem_cons.mpr ⟨.inr ⟨key, value, hkind, hkey, rfl⟩, h⟩

theorem append (h : Assigns sep kind lines) (h' : Assigns sep kind lines') :
    Assigns sep kind (lines ++ lines') :=
  List.forall_mem_append.mpr ⟨h, h'⟩

theorem flatMap {α : Type} {f : α → List Str} {xs : List α}
    (h : ∀ x ∈ xs, Assigns sep kind (f x)) : Assigns sep kind (xs.flatMap f) := by
  intro line hline
  obtain ⟨x, hx, hmem⟩ := List.mem_flatMap.mp hline
  exact h x hx line hmem

theorem mono {kind' : Str → Prop} (h : Assigns sep kind lines)
    (himp : ∀ key, kind key → kind' key) : Assigns sep kind' lines := by
  intro line hline
  obtain hempty | ⟨key, value, hkind, hkey, hassign⟩ := h line hline
  · exact .inl hempty
  · exact .inr ⟨key, value, himp key hkind, hkey, hassign⟩

/-- What the lines assign to is of the given kind. -/
theorem assigned_eq_nil {key : Str} (h : Assigns sep kind lines) (hkey : sep ∉ key)
    (hkind : ¬ kind key) : assigned sep key lines = [] := by
  refine assigned_eq_nil_iff.mpr ?_
  intro line hline hprefix
  obtain rfl | ⟨key', value, hkind', hkey', rfl⟩ := h line hline
  · simp at hprefix
  · exact hkind (key_of_assignment hkey hkey' hprefix ▸ hkind')

end Assigns

end PyText
