import Mathlib.Data.List.Induction
import SolMachine.Assembly.Statement

/-!
# Labels of a program

* `labelNames` : the names that statements define, in order, repetitions included;
* `firstDefinition?`, `labelAddress?` : the first statement that carries a name;
* `labelAddress?_eq_some_iff` : where names are distinct, it is the statement that carries the name;
* `eachWithPrefix` : what a function of a statement and the statements before it gives along a
  program;
* `newLabels` : the labels that were not defined before, one for each name (`newLabels_names`).

The address of a statement is its number.
-/

namespace SolMachine.Assembly
open SolMachine.Text

/-- The name of the label of a statement. -/
def Statement.name? (s : Statement) : Option String := s.label.map Label.name

/-- The names that statements define, in order. -/
def labelNames (ss : List Statement) : List String := ss.filterMap Statement.name?

/-- The address and the label of the first statement that defines a name. -/
def firstDefinition? (ss : List Statement) (name : String) : Option (Nat × Label) :=
  ss.zipIdx.findSome? fun (s, a) => (s.label.filter fun l => l.name = name).map fun l => (a, l)

/-- The address of the first statement that defines a name. -/
def labelAddress? (ss : List Statement) (name : String) : Option Nat :=
  (firstDefinition? ss name).map Prod.fst

/-! ## Definitions of a name -/

section FirstDefinition
variable {ss : List Statement} {s : Statement} {name : String} {a : Nat} {l : Label}

theorem labelNames_append (ss ts : List Statement) :
    labelNames (ss ++ ts) = labelNames ss ++ labelNames ts := List.filterMap_append

theorem labelNames_singleton (s : Statement) : labelNames [s] = s.name?.toList := by
  unfold labelNames
  cases h : s.name? with
  | none => rw [List.filterMap_cons_none h]; rfl
  | some name => rw [List.filterMap_cons_some h]; rfl

theorem firstDefinition?_append_singleton (ss : List Statement) (s : Statement) (name : String) :
    firstDefinition? (ss ++ [s]) name = (firstDefinition? ss name).or
      ((s.label.filter fun l => l.name = name).map fun l => (ss.length, l)) := by
  unfold firstDefinition?
  rw [List.zipIdx_append, List.findSome?_append, List.zipIdx_singleton, Nat.zero_add]
  congr 1
  simp

theorem mem_labelNames : name ∈ labelNames ss ↔ ∃ s ∈ ss, ∃ l, s.label = some l ∧ l.name = name := by
  simp [labelNames, Statement.name?]

theorem firstDefinition?_eq_none_iff :
    firstDefinition? ss name = none ↔ name ∉ labelNames ss := by
  unfold firstDefinition?
  rw [List.findSome?_eq_none_iff, mem_labelNames]
  constructor
  · rintro h ⟨s, hs, l, hl, rfl⟩
    obtain ⟨a, ha⟩ := List.getElem?_of_mem hs
    have := h (s, a) (List.mem_zipIdx_iff_getElem?.2 ha)
    simp [hl] at this
  · rintro h ⟨s, a⟩ hs
    have hmem : s ∈ ss := List.mem_of_getElem? (List.mem_zipIdx_iff_getElem?.1 hs)
    cases hl : s.label with
    | none => simp [hl]
    | some l =>
      have hne : l.name ≠ name := fun hn => h ⟨s, hmem, l, hl, hn⟩
      simp [hl, hne]

theorem firstDefinition?_eq_some (h : firstDefinition? ss name = some (a, l)) :
    ∃ s, ss[a]? = some s ∧ s.label = some l ∧ l.name = name := by
  unfold firstDefinition? at h
  obtain ⟨⟨s, b⟩, hs, hsome⟩ := List.exists_of_findSome?_eq_some h
  obtain ⟨l', hl', hpair⟩ := Option.map_eq_some_iff.1 hsome
  obtain ⟨hlabel, hname⟩ := Option.filter_eq_some_iff.1 hl'
  obtain ⟨rfl, rfl⟩ := Prod.mk.inj hpair
  exact ⟨s, List.mem_zipIdx_iff_getElem?.1 hs, hlabel, by simpa using hname⟩

theorem exists_firstDefinition? (h : name ∈ labelNames ss) :
    ∃ a l, firstDefinition? ss name = some (a, l) := by
  cases hd : firstDefinition? ss name with
  | none => exact absurd h (firstDefinition?_eq_none_iff.1 hd)
  | some d => exact ⟨d.1, d.2, rfl⟩

theorem mem_labelNames_of_firstDefinition? (h : firstDefinition? ss name = some (a, l)) :
    name ∈ labelNames ss := by
  obtain ⟨s, hs, hl, hname⟩ := firstDefinition?_eq_some h
  exact mem_labelNames.2 ⟨s, List.mem_of_getElem? hs, l, hl, hname⟩

theorem labelAddress?_eq_none_iff : labelAddress? ss name = none ↔ name ∉ labelNames ss := by
  unfold labelAddress?
  rw [Option.map_eq_none_iff, firstDefinition?_eq_none_iff]

theorem labelAddress?_eq_some (h : labelAddress? ss name = some a) :
    ∃ s l, ss[a]? = some s ∧ s.label = some l ∧ l.name = name := by
  obtain ⟨⟨b, l⟩, hl, rfl⟩ := Option.map_eq_some_iff.1 h
  obtain ⟨s, hs⟩ := firstDefinition?_eq_some hl
  exact ⟨s, l, hs⟩

theorem labelAddress?_lt (h : labelAddress? ss name = some a) : a < ss.length := by
  obtain ⟨s, l, hs, -⟩ := labelAddress?_eq_some h
  exact (List.getElem?_eq_some_iff.1 hs).1

theorem exists_labelAddress? (h : name ∈ labelNames ss) : ∃ a, labelAddress? ss name = some a := by
  cases ha : labelAddress? ss name with
  | none => exact absurd h (labelAddress?_eq_none_iff.1 ha)
  | some a => exact ⟨a, rfl⟩

theorem mem_labelNames_take {b : Nat} (hab : a < b) (hs : ss[a]? = some s) (hl : s.label = some l) :
    l.name ∈ labelNames (ss.take b) := by
  have hmem : s ∈ ss.take b := by
    apply List.mem_of_getElem? (i := a)
    rw [List.getElem?_take, if_pos hab, hs]
  exact mem_labelNames.2 ⟨s, hmem, l, hl, rfl⟩

theorem labelNames_eq_of_getElem? (hs : ss[a]? = some s) (hl : s.label = some l) :
    labelNames ss = labelNames (ss.take a) ++ l.name :: labelNames (ss.drop (a + 1)) := by
  obtain ⟨ha, rfl⟩ := List.getElem?_eq_some_iff.1 hs
  have hname : ss[a].name? = some l.name := by rw [Statement.name?, hl, Option.map_some]
  have hcons : labelNames (ss.drop a) = l.name :: labelNames (ss.drop (a + 1)) := by
    rw [List.drop_eq_getElem_cons ha]
    exact List.filterMap_cons_some hname
  rw [← hcons, ← labelNames_append, List.take_append_drop]

/-- With distinct names, no two statements carry the same one. -/
theorem index_lt_of_nodup (hd : (labelNames ss).Nodup) {b : Nat} {t : Statement} {k : Label}
    (ht : ss[b]? = some t) (hk : t.label = some k) (hs : ss[a]? = some s) (hl : s.label = some l)
    (hname : l.name = k.name) : ¬ a < b := by
  intro hab
  rw [labelNames_eq_of_getElem? ht hk, List.nodup_append] at hd
  exact hd.2.2 _ (mem_labelNames_take hab hs hl) _ (List.mem_cons_self ..) hname

/-- With distinct names, the address of a name is that of the one statement that carries it. -/
theorem labelAddress?_eq_some_iff (hd : (labelNames ss).Nodup) :
    labelAddress? ss name = some a ↔ ∃ s l, ss[a]? = some s ∧ s.label = some l ∧ l.name = name := by
  constructor
  · exact labelAddress?_eq_some
  · rintro ⟨s, l, hs, hl, rfl⟩
    have hmem : l.name ∈ labelNames ss :=
      mem_labelNames.2 ⟨s, List.mem_of_getElem? hs, l, hl, rfl⟩
    obtain ⟨b, hb⟩ := exists_labelAddress? hmem
    obtain ⟨t, k, ht, hk, hname⟩ := labelAddress?_eq_some hb
    have h1 := index_lt_of_nodup hd ht hk hs hl hname.symm
    have h2 := index_lt_of_nodup hd hs hl ht hk hname
    rw [hb, show a = b by omega]

end FirstDefinition

/-! ## Along a program -/

section Along
variable {β : Type} (f : List Statement → Statement → List β)

/-- What `f` gives for each statement, which it sees with the statements before it. -/
def eachWithPrefix (ss : List Statement) : List β :=
  ss.zipIdx.flatMap fun (s, a) => f (ss.take a) s

theorem eachWithPrefix_append_singleton (ss : List Statement) (s : Statement) :
    eachWithPrefix f (ss ++ [s]) = eachWithPrefix f ss ++ f ss s := by
  unfold eachWithPrefix
  rw [List.zipIdx_append, List.flatMap_append]
  congr 1
  · rw [List.flatMap_def, List.flatMap_def]
    congr 1
    apply List.map_congr_left
    rintro ⟨t, a⟩ ht
    have ha : a < ss.length := (List.getElem?_eq_some_iff.1 (List.mem_zipIdx_iff_getElem?.1 ht)).1
    exact congrArg (f · t) (List.take_append_of_le_length (Nat.le_of_lt ha))
  · simp

theorem mem_eachWithPrefix {x : β} {ss : List Statement} :
    x ∈ eachWithPrefix f ss ↔ ∃ a s, ss[a]? = some s ∧ x ∈ f (ss.take a) s := by
  unfold eachWithPrefix
  rw [List.mem_flatMap]
  constructor
  · rintro ⟨⟨s, a⟩, hs, hx⟩
    exact ⟨a, s, List.mem_zipIdx_iff_getElem?.1 hs, hx⟩
  · rintro ⟨a, s, hs, hx⟩
    exact ⟨(s, a), List.mem_zipIdx_iff_getElem?.2 hs, hx⟩

end Along

/-! ## New labels -/

/-- The label of a statement, if the statements before it do not define its name. -/
def newLabel (before : List Statement) (s : Statement) : List Label :=
  (s.label.filter fun l => l.name ∉ labelNames before).toList

/-- The labels that no statement before them defines. -/
def newLabels (ss : List Statement) : List Label := eachWithPrefix newLabel ss

theorem newLabels_append_singleton (ss : List Statement) (s : Statement) :
    newLabels (ss ++ [s]) = newLabels ss ++ newLabel ss s :=
  eachWithPrefix_append_singleton newLabel ss s

theorem newLabel_of_none {before : List Statement} {s : Statement} (hl : s.label = none) :
    newLabel before s = [] := by
  rw [newLabel, hl]
  rfl

theorem newLabel_of_mem {before : List Statement} {s : Statement} {l : Label} (hl : s.label = some l)
    (h : l.name ∈ labelNames before) : newLabel before s = [] := by
  rw [newLabel, hl, Option.filter_some]
  simp [h]

theorem newLabel_of_not_mem {before : List Statement} {s : Statement} {l : Label}
    (hl : s.label = some l) (h : l.name ∉ labelNames before) : newLabel before s = [l] := by
  rw [newLabel, hl, Option.filter_some]
  simp [h]

/-- There is one new label for each name. -/
theorem newLabels_names (ss : List Statement) :
    (newLabels ss).map Label.name = (labelNames ss).eraseDups := by
  induction ss using List.reverseRecOn with
  | nil => rfl
  | append_singleton ss s ih =>
    rw [newLabels_append_singleton, List.map_append, ih, labelNames_append, List.eraseDups_append]
    congr 1
    rw [labelNames_singleton, Statement.name?]
    cases hl : s.label with
    | none => rw [newLabel_of_none hl]; rfl
    | some l =>
      by_cases h : l.name ∈ labelNames ss
      · rw [newLabel_of_mem hl h]
        simp [List.removeAll, h]
      · rw [newLabel_of_not_mem hl h]
        simp [List.removeAll, h, List.eraseDups_cons]

theorem length_newLabels (ss : List Statement) :
    (newLabels ss).length = (labelNames ss).eraseDups.length := by
  rw [← newLabels_names, List.length_map]

theorem length_newLabels_le (ss : List Statement) : (newLabels ss).length ≤ ss.length := by
  induction ss using List.reverseRecOn with
  | nil => exact Nat.le_refl 0
  | append_singleton ss s ih =>
    rw [newLabels_append_singleton, List.length_append, List.length_append]
    have hs : (newLabel ss s).length ≤ 1 := by
      unfold newLabel
      cases s.label.filter _ <;> simp
    simp only [List.length_singleton]
    omega

end SolMachine.Assembly
